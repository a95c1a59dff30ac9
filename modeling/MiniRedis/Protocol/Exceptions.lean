import MiniRedis.Protocol.Stability

/-!
# The exceptions of the parser

`Protocol.Parser` has the verdicts only. Here `parse_one` is written with every exception that can
come up in it, also those of `decode`, of `int` and of `parts[0]`, and with its two `try` blocks. It
raises nothing but the two exceptions of the parser (`Raising.parse_one_eq`), and what it raises or
returns is stable under more data (`parse_one_verdicts`).
-/

namespace MiniRedis.RespParser

/-- An exception that comes up in `parse_one`. -/
inductive Raised where
  | parser (error : ParseError)
  | unicodeDecodeError
  | valueError
  | indexError
deriving DecidableEq, Repr

namespace Raising

/-- `raise IncompleteRESPError(message)`. -/
def incomplete {α : Type} (message : String) : Except Raised α :=
  .error (.parser (.incomplete message))

/-- `raise RespProtocolError(message)`. -/
def protocol {α : Type} (message : String) : Except Raised α :=
  .error (.parser (.protocol message))

/-- `raw.decode("ascii")`. -/
def decodeAscii (raw : Bytes) : Except Raised String :=
  match Bytes.toAscii? raw with
  | some text => .ok text
  | none => .error .unicodeDecodeError

/-- `raw.decode("utf-8")`. -/
def decodeUtf8 (raw : Bytes) : Except Raised String :=
  match Bytes.toText? raw with
  | some text => .ok text
  | none => .error .unicodeDecodeError

/-- `int(text)`. -/
def int (text : String) : Except Raised Int :=
  match PyText.parseInt text with
  | some number => .ok number
  | none => .error .valueError

/-- `parts[0]`. -/
def first (parts : List String) : Except Raised String :=
  match parts with
  | part :: _ => .ok part
  | [] => .error .indexError

/-- `_read_number_line`. -/
def readNumberLine (raw : Bytes) (start : Nat) (context : String) : Except Raised (Int × Nat) :=
  match findCrlf (raw.drop start) with
  | none => incomplete s!"missing CRLF after {context}"
  | some offset =>
      let numberBytes := (raw.drop start).take offset
      if numberBytes = [] then protocol s!"empty {context}"
      else
        match decodeAscii numberBytes >>= int with
        | .ok number => .ok (number, start + offset + 2)
        | .error .unicodeDecodeError => protocol s!"invalid {context}"
        | .error .valueError => protocol s!"invalid {context}"
        | .error other => .error other

/-- The data of a bulk string at `idx`, after its length. -/
def readBulkData (raw : Bytes) (bulkLen : Int) (idx : Nat) : Except Raised (String × Nat) :=
  if bulkLen < 0 then protocol "null bulk string is not allowed in request"
  else if raw.length < idx + bulkLen.toNat + 2 then
    incomplete "bulk string data not fully received"
  else if (raw.drop (idx + bulkLen.toNat)).take 2 ≠ Bytes.crlf then
    protocol "missing CRLF after bulk string data"
  else
    match decodeUtf8 ((raw.drop idx).take bulkLen.toNat) with
    | .ok part => .ok (part, idx + bulkLen.toNat + 2)
    | .error .unicodeDecodeError => protocol "request contains invalid UTF-8"
    | .error other => .error other

/-- One turn of the loop of `parse_one`: a bulk string at `idx`. -/
def readBulk (raw : Bytes) (idx : Nat) : Except Raised (String × Nat) :=
  if raw.length ≤ idx then incomplete "waiting for next bulk string"
  else if (raw.drop idx).take 1 ≠ Bytes.ofText "$" then protocol "expected bulk string"
  else do
    let (bulkLen, idx) ← readNumberLine raw (idx + 1) "bulk string length"
    readBulkData raw bulkLen idx

/-- The loop of `parse_one`. -/
def readParts (raw : Bytes) : Nat → Nat → Except Raised (List String × Nat)
  | 0, idx => .ok ([], idx)
  | count + 1, idx => do
      let (part, idx) ← readBulk raw idx
      let (parts, idx) ← readParts raw count idx
      return (part :: parts, idx)

/-- `parse_one`. -/
def parseOne (raw : Bytes) : Except Raised (Command × Nat) :=
  if raw = [] then incomplete "empty buffer"
  else if raw.take 1 ≠ Bytes.ofText "*" then protocol "expected RESP array"
  else do
    let (arrayCount, idx) ← readNumberLine raw 1 "array length"
    if arrayCount ≤ 0 then protocol "array length must be greater than zero"
    else do
      let (parts, idx) ← readParts raw arrayCount.toNat idx
      let name ← first parts
      return (⟨name, parts.tail⟩, idx)

/-- A verdict of the parser, as what the function returns or raises. -/
def lift {α : Type} (verdict : Except ParseError α) : Except Raised α :=
  verdict.mapError .parser

theorem lift_bind {α β : Type} (verdict : Except ParseError α) (next : α → Except ParseError β) :
    lift (verdict >>= next) = lift verdict >>= fun a => lift (next a) := by
  cases verdict with
  | error error => rfl
  | ok a => rfl

theorem lift_ite {α : Type} {condition : Prop} [Decidable condition]
    (first second : Except ParseError α) :
    lift (if condition then first else second) =
      if condition then lift first else lift second :=
  apply_ite lift _ _ _

/-- The exceptions of `decode` and of `int` are turned into the parser's own. -/
theorem read_number_line_eq (raw : Bytes) (start : Nat) (context : String) :
    readNumberLine raw start context = lift (RespParser.readNumberLine raw start context) := by
  unfold readNumberLine RespParser.readNumberLine
  cases findCrlf (raw.drop start) with
  | none => rfl
  | some offset =>
      simp only [lift_ite, decodeAscii]
      cases Bytes.toAscii? ((raw.drop start).take offset) with
      | none => rfl
      | some text =>
          simp only [int, Option.bind_some, Except.bind, bind]
          cases PyText.parseInt text with
          | none => rfl
          | some number => rfl

theorem read_bulk_data_eq (raw : Bytes) (bulkLen : Int) (idx : Nat) :
    readBulkData raw bulkLen idx = lift (RespParser.readBulkData raw bulkLen idx) := by
  unfold readBulkData RespParser.readBulkData
  simp only [lift_ite, decodeUtf8]
  cases Bytes.toText? ((raw.drop idx).take bulkLen.toNat) with
  | none => rfl
  | some part => rfl

theorem read_bulk_eq (raw : Bytes) (idx : Nat) :
    readBulk raw idx = lift (RespParser.readBulk raw idx) := by
  unfold readBulk RespParser.readBulk
  simp only [lift_ite, lift_bind, read_number_line_eq, read_bulk_data_eq]
  rfl

theorem read_parts_eq (raw : Bytes) (count idx : Nat) :
    readParts raw count idx = lift (RespParser.readParts raw count idx) := by
  induction count generalizing idx with
  | zero => rfl
  | succ count ih =>
      simp only [readParts, RespParser.readParts, lift_bind, read_bulk_eq, ih]
      rfl

/-- `parse_one` returns or raises the verdict of the parser. -/
theorem parse_one_eq (raw : Bytes) : parseOne raw = lift (RespParser.parseOne raw) := by
  unfold parseOne RespParser.parseOne
  simp only [lift_ite, lift_bind, read_number_line_eq, RespParser.readArray]
  split_ifs with hempty hmark
  · rfl
  · rfl
  cases hline : RespParser.readNumberLine raw 1 "array length" with
  | error error => rfl
  | ok line =>
      obtain ⟨arrayCount, idx⟩ := line
      obtain ⟨-, hidx⟩ := read_number_line_bounds hline
      show (if arrayCount ≤ 0 then _ else _) = if arrayCount ≤ 0 then _ else _
      split_ifs with hcount
      · rfl
      · rw [read_parts_eq]
        cases hparts : RespParser.readParts raw arrayCount.toNat idx with
        | error error => rfl
        | ok found =>
            obtain ⟨parts, stop⟩ := found
            obtain ⟨-, -, hlength⟩ := read_parts_bounds hidx hparts
            -- the array has a first part, since its length is positive
            cases parts with
            | nil =>
                rw [List.length_nil] at hlength
                omega
            | cons name args => rfl

theorem lift_ok_iff {α : Type} {verdict : Except ParseError α} {a : α} :
    lift verdict = .ok a ↔ verdict = .ok a := by
  cases verdict with
  | error error => exact iff_of_false (fun h => by cases h) fun h => by cases h
  | ok b => exact ⟨fun h => by cases h; rfl, fun h => by cases h; rfl⟩

theorem lift_error_iff {α : Type} {verdict : Except ParseError α} {error : ParseError} :
    lift verdict = .error (.parser error) ↔ verdict = .error error := by
  cases verdict with
  | error other => exact ⟨fun h => by cases h; rfl, fun h => by cases h; rfl⟩
  | ok b => exact iff_of_false (fun h => by cases h) fun h => by cases h

end Raising

/-- A command that was parsed is incomplete without its last bytes. -/
theorem parse_one_cut {raw : Bytes} {command : Command} {consumed : Nat}
    (h : parseOne raw = .ok (command, consumed)) {part : Bytes} (hpart : part <+: raw.take consumed)
    (hproper : part ≠ raw.take consumed) :
    ∃ message, parseOne part = .error (.incomplete message) := by
  obtain ⟨missing, hmissing⟩ := hpart
  by_contra hsettled
  -- a verdict on the part would be that on the whole command, which takes more bytes
  have hpartial : parseOne part = .ok (command, consumed) := by
    rw [← parse_one_take h, ← hmissing,
      parse_one_append (fun message hverdict => hsettled ⟨message, hverdict⟩)]
  obtain ⟨-, hle⟩ := parse_one_bounds hpartial
  obtain ⟨-, hlength⟩ := parse_one_bounds h
  refine hproper (List.IsPrefix.eq_of_length_le ⟨missing, hmissing⟩ ?_)
  rw [List.length_take]
  omega

/-- A parsed command is the verdict on the bytes that it takes, whatever follows them, and no
verdict but "incomplete" comes before its last byte. A refusal is the verdict whatever follows, too.
Nothing else is raised. -/
theorem parse_one_verdicts (raw ext : Bytes) :
    (∀ command consumed, Raising.parseOne raw = .ok (command, consumed) →
      (0 < consumed ∧ consumed ≤ raw.length) ∧
      Raising.parseOne (raw ++ ext) = .ok (command, consumed) ∧
      Raising.parseOne (raw.take consumed) = .ok (command, consumed) ∧
      ∀ part, part <+: raw.take consumed → part ≠ raw.take consumed →
        ∃ message, Raising.parseOne part = .error (.parser (.incomplete message))) ∧
    (∀ message, Raising.parseOne raw = .error (.parser (.protocol message)) →
      Raising.parseOne (raw ++ ext) = .error (.parser (.protocol message))) ∧
    ∀ error, Raising.parseOne raw = .error error → ∃ verdict, error = .parser verdict := by
  simp only [Raising.parse_one_eq, Raising.lift_ok_iff, Raising.lift_error_iff]
  refine ⟨fun command consumed h => ?_, fun message h => ?_, fun error h => ?_⟩
  · refine ⟨parse_one_bounds h, ?_, parse_one_take h, fun part => parse_one_cut h⟩
    rw [parse_one_append (h ▸ settled_ok _), h]
  · rw [parse_one_append (h ▸ settled_protocol _), h]
  · cases hverdict : parseOne raw with
    | error verdict =>
        rw [hverdict] at h
        exact ⟨verdict, (Except.error.inj h).symm⟩
    | ok parsed =>
        rw [hverdict] at h
        cases h

end MiniRedis.RespParser
