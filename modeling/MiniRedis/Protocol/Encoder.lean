import MiniRedis.Core.Message

/-!
# Encoding of replies and of requests

`RespEncoder` after `protocol/resp_encoder.py`, and `encode_command` of the demo client
after `scripts/demo_client.py`.
-/

namespace MiniRedis

namespace RespEncoder

/-- `_validate_no_crlf`. -/
def validateNoCrlf (value typeName : String) : Except PyError Unit :=
  if '\r' ∈ value.toList ∨ '\n' ∈ value.toList then
    .error (.valueError s!"{typeName} cannot contain CR or LF")
  else .ok ()

/-- `_encode_simple_string`. -/
def encodeSimpleString (value : String) : Except PyError Bytes := do
  validateNoCrlf value "SimpleString"
  return Bytes.ofText "+" ++ Bytes.ofText value ++ Bytes.crlf

/-- `_encode_bulk_string`. -/
def encodeBulkString (value : String) : Except PyError Bytes := do
  let encoded := Bytes.ofText value
  let length ← PyText.intText encoded.length
  return Bytes.ofText "$" ++ Bytes.ofText length ++ Bytes.crlf ++ encoded ++ Bytes.crlf

/-- `_encode_integer`. -/
def encodeInteger (value : Int) : Except PyError Bytes := do
  let text ← PyText.intText value
  return Bytes.ofText ":" ++ Bytes.ofText text ++ Bytes.crlf

/-- `_encode_error`. -/
def encodeError (message : String) : Except PyError Bytes := do
  validateNoCrlf message "Error"
  return Bytes.ofText "-" ++ Bytes.ofText message ++ Bytes.crlf

/-- `encode`. -/
def encode : Response → Except PyError Bytes
  | .simpleString value => encodeSimpleString value
  | .bulkString value => encodeBulkString value
  | .nullBulkString => .ok (Bytes.ofText "$-1\r\n")
  | .integer value => encodeInteger value
  | .error message => encodeError message

end RespEncoder

namespace DemoClient

/-- One part of `encode_command`: its length line and its data. -/
def encodePart (part : String) : Except PyError Bytes := do
  let encoded := Bytes.ofText part
  let length ← PyText.intText encoded.length
  return Bytes.ofText "$" ++ Bytes.ofText length ++ Bytes.crlf ++ (encoded ++ Bytes.crlf)

/-- The parts of `encode_command`, joined. -/
def encodeParts : List String → Except PyError Bytes
  | [] => .ok []
  | part :: rest => do
      let first ← encodePart part
      let others ← encodeParts rest
      return first ++ others

/-- `encode_command`. -/
def encodeCommand (parts : List String) : Except PyError Bytes := do
  let count ← PyText.intText parts.length
  let chunks ← encodeParts parts
  return Bytes.ofText "*" ++ Bytes.ofText count ++ Bytes.crlf ++ chunks

end DemoClient

end MiniRedis
