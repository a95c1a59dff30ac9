import MiniRedis.Foundation.Text

/-!
# Commands and responses

`Command` after `core/command.py` and `Response` after `core/response.py`.
-/

namespace MiniRedis

/-- A parsed request. -/
structure Command where
  name : String
  args : List String
deriving DecidableEq, Repr

namespace Command

/-- `normalized_name`. -/
def normalizedName (command : Command) : String := PyText.upper (PyText.strip command.name)

/-- `key`. -/
def key (command : Command) : Option String :=
  match command.args with
  | [] => none
  | first :: _ =>
      if command.normalizedName = "PING" ∨ command.normalizedName = "SAVE" then none
      else some first

end Command

/-- A reply, before it is encoded. -/
inductive Response where
  | simpleString (value : String)
  | bulkString (value : String)
  | integer (value : Int)
  | error (message : String)
  | nullBulkString
deriving DecidableEq, Repr

namespace Response

/-- `Response.bulk_string`: `None` is the null bulk string. -/
def ofBulkString : Option String → Response
  | some value => .bulkString value
  | none => .nullBulkString

/-- `message.startswith(start)`. -/
def startsWith (message start : String) : Bool := start.toList.isPrefixOf message.toList

/-- `Response.error`: the message gets the prefix `ERR` unless it has one. -/
def ofError (message : String) : Response :=
  .error (if startsWith message "ERR " || startsWith message "MOVED " then message
    else "ERR " ++ message)

end Response

end MiniRedis
