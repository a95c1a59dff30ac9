import MiniRedis.Persistence.Disk
import MiniRedis.Persistence.Json

/-!
# The append-only log

`AofPersistence` after `persistence/aof.py`. `replay` works on two dictionaries of its own,
so a record that raises leaves nothing behind.
-/

namespace MiniRedis

/-- `ReplayState`, and the two dictionaries that `_apply` changes. -/
structure ReplayState (S : Type) where
  data : Dict S S
  expiresAt : Dict S PyFloat

/-- `AofEntry`. -/
structure AofEntry (S : Type) where
  command : S
  args : List S

namespace AofPersistence

variable {S : Type} [PyStr S] [DecidableEq S]

/-- `WRITE_COMMANDS`. -/
def writeCommands : List String := ["SET", "DEL", "EXPIRE"]

/-- The line that `append` writes. -/
def record (codec : JsonCodec S) (command : String) (args : List S) : String :=
  codec.dumps (.object
    [(PyStr.ofString "command", .str (PyStr.ofString command)),
      (PyStr.ofString "args", .array (args.map .str))]) ++ "\n"

/-- `append`. -/
def append (codec : JsonCodec S) (command : String) (args : List S) : Py Disk Unit :=
  let normalized := PyText.upper command
  if normalized ∉ writeCommands then
    Py.raise (.valueError s!"Unsupported AOF command: {command}")
  else Disk.perform (.appendAof (record codec normalized args))

theorem set_mem : "SET" ∈ writeCommands := by simp [writeCommands]

theorem del_mem : "DEL" ∈ writeCommands := by simp [writeCommands]

theorem expire_mem : "EXPIRE" ∈ writeCommands := by simp [writeCommands]

/-- The names of the write commands are in upper case. -/
theorem upper_of_mem {command : String} (h : command ∈ writeCommands) :
    PyText.upper command = command := by
  simp only [writeCommands, List.mem_cons, List.not_mem_nil, or_false] at h
  rcases h with rfl | rfl | rfl <;> decide

omit [DecidableEq S] in
/-- A write command is appended under its own name. -/
theorem append_eq (codec : JsonCodec S) {command : String} (h : command ∈ writeCommands)
    (args : List S) :
    append codec command args = Disk.perform (.appendAof (record codec command args)) := by
  rw [append, upper_of_mem h, if_neg (not_not.mpr h)]

/-- `append_entries`, the entries as a caller builds them. -/
def appendEntries (codec : JsonCodec String) (entries : List (AofEntry String)) : Py Disk Unit :=
  Py.forEach entries fun entry => append codec entry.command entry.args

/-- `reset`. -/
def reset : Py Disk Unit := do
  let disk ← Py.get
  if disk.files.aof.isSome then
    Disk.perform .unlinkAof

/-- `_apply`. -/
def apply (codec : JsonCodec S) (entry : AofEntry S) (state : ReplayState S) :
    Except PyError (ReplayState S) :=
  if entry.command = PyStr.ofString "SET" then
    match entry.args with
    | [key, value] => .ok ⟨state.data.insert key value, state.expiresAt.erase key⟩
    | _ => .error (.valueError "SET requires 2 arguments in AOF replay")
  else if entry.command = PyStr.ofString "DEL" then
    match entry.args with
    | [key] => .ok ⟨state.data.erase key, state.expiresAt.erase key⟩
    | _ => .error (.valueError "DEL requires 1 argument in AOF replay")
  else if entry.command = PyStr.ofString "EXPIRE" then
    match entry.args with
    | [key, expiresAt] =>
        if state.data.contains key then
          match codec.parseFloat expiresAt with
          | some deadline => .ok { state with expiresAt := state.expiresAt.insert key deadline }
          | none => .error (.valueError "could not convert string to float")
        else .ok state
    | _ => .error (.valueError "EXPIRE requires 2 arguments in AOF replay")
  else .error (.valueError "Unsupported AOF command during replay")

/-- The entry of a record. -/
def entry (codec : JsonCodec S) (value : Json S) : Except PyError (AofEntry S) := do
  let command ← value.get "command" (.str (PyStr.ofString ""))
  let args ← value.get "args" (.array [])
  let items ← args.iterate
  return ⟨PyStr.upper (command.toStr codec), items.map (Json.toStr codec)⟩

/-- One turn of the loop of `replay`: a line, which may be blank. -/
def replayLine (codec : JsonCodec S) (lineNumber : Nat) (line : List Char)
    (state : ReplayState S) : Except PyError (ReplayState S) :=
  match PyText.trim PyText.isSpace line with
  | [] => .ok state
  | stripped =>
      match codec.loads (String.ofList stripped) with
      | .error .decode => .error (.valueError s!"Invalid AOF record at line {lineNumber}")
      | .error (.other error) => .error error
      | .ok value => do
          let entry ← entry codec value
          apply codec entry state

/-- The loop of `replay`. -/
def replayLines (codec : JsonCodec S) : Nat → List (List Char) → ReplayState S →
    Except PyError (ReplayState S)
  | _, [], state => .ok state
  | lineNumber, line :: rest, state => do
      let state ← replayLine codec lineNumber line state
      replayLines codec (lineNumber + 1) rest state

/-- `replay`. -/
def replay (codec : JsonCodec S) (base : ReplayState S) (aof : Option Bytes) :
    Except PyError (ReplayState S) :=
  match aof with
  | none => .ok base
  | some content =>
      match PyText.readText content with
      | none => .error (.valueError "invalid UTF-8")
      | some text =>
          replayLines codec 1 (PyText.lines text)
            { base with expiresAt := base.expiresAt.filter fun key _ => base.data.contains key }

end AofPersistence

end MiniRedis
