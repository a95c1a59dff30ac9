import MiniRedis.Core.Message

/-!
# The request parser

`RespParser` after `protocol/resp_parser.py`. The parser works on the whole buffer with an
index, and is started again from the first byte whenever more bytes arrive.
-/

namespace MiniRedis

/-- The exceptions of the parser: `IncompleteRESPError` and `RespProtocolError`. -/
inductive ParseError where
  | incomplete (message : String)
  | protocol (message : String)
deriving DecidableEq, Repr

namespace RespParser

/-- `raw.find(b"\r\n")`. -/
def findCrlf : Bytes → Option Nat
  | 13 :: 10 :: _ => some 0
  | _ :: rest => (findCrlf rest).map (· + 1)
  | [] => none

/-- `_read_number_line`. -/
def readNumberLine (raw : Bytes) (start : Nat) (context : String) :
    Except ParseError (Int × Nat) :=
  match findCrlf (raw.drop start) with
  | none => .error (.incomplete s!"missing CRLF after {context}")
  | some offset =>
      let numberBytes := (raw.drop start).take offset
      if numberBytes = [] then .error (.protocol s!"empty {context}")
      else
        match (Bytes.toAscii? numberBytes).bind PyText.parseInt with
        | some number => .ok (number, start + offset + 2)
        | none => .error (.protocol s!"invalid {context}")

/-- The data of a bulk string at `idx`, after its length. -/
def readBulkData (raw : Bytes) (bulkLen : Int) (idx : Nat) : Except ParseError (String × Nat) :=
  if bulkLen < 0 then .error (.protocol "null bulk string is not allowed in request")
  else if raw.length < idx + bulkLen.toNat + 2 then
    .error (.incomplete "bulk string data not fully received")
  else if (raw.drop (idx + bulkLen.toNat)).take 2 ≠ Bytes.crlf then
    .error (.protocol "missing CRLF after bulk string data")
  else
    match Bytes.toText? ((raw.drop idx).take bulkLen.toNat) with
    | some part => .ok (part, idx + bulkLen.toNat + 2)
    | none => .error (.protocol "request contains invalid UTF-8")

/-- One turn of the loop of `parse_one`: a bulk string at `idx`. -/
def readBulk (raw : Bytes) (idx : Nat) : Except ParseError (String × Nat) :=
  if raw.length ≤ idx then .error (.incomplete "waiting for next bulk string")
  else if (raw.drop idx).take 1 ≠ Bytes.ofText "$" then .error (.protocol "expected bulk string")
  else do
    let (bulkLen, idx) ← readNumberLine raw (idx + 1) "bulk string length"
    readBulkData raw bulkLen idx

/-- The loop of `parse_one`. -/
def readParts (raw : Bytes) : Nat → Nat → Except ParseError (List String × Nat)
  | 0, idx => .ok ([], idx)
  | count + 1, idx => do
      let (part, idx) ← readBulk raw idx
      let (parts, idx) ← readParts raw count idx
      return (part :: parts, idx)

/-- The loop of `parse_one`, after the length of the array. -/
def readArray (raw : Bytes) (arrayCount : Int) (idx : Nat) : Except ParseError (Command × Nat) :=
  if arrayCount ≤ 0 then .error (.protocol "array length must be greater than zero")
  else do
    let (parts, idx) ← readParts raw arrayCount.toNat idx
    return (⟨parts.headD "", parts.tail⟩, idx)

/-- `parse_one`: the command and the number of bytes it takes. -/
def parseOne (raw : Bytes) : Except ParseError (Command × Nat) :=
  if raw = [] then .error (.incomplete "empty buffer")
  else if raw.take 1 ≠ Bytes.ofText "*" then .error (.protocol "expected RESP array")
  else do
    let (arrayCount, idx) ← readNumberLine raw 1 "array length"
    readArray raw arrayCount idx

/-- `parse_command`. -/
def parseCommand (raw : Bytes) : Except ParseError Command := do
  let (command, consumed) ← parseOne raw
  if consumed ≠ raw.length then .error (.protocol "trailing data after complete command")
  else .ok command

end RespParser

end MiniRedis
