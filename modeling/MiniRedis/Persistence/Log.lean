import MiniRedis.Foundation.Digits
import MiniRedis.Persistence.Aof
import MiniRedis.Storage.Reference

/-!
# The log as a list of records

What the writer of the log puts into it, and what `replay` reads out of it: the records, each
on a line of its own, applied one after the other (`replay_records`). A key is replaced, kept or
given a deadline by all records together, as it is by one (`EntryChange`).
-/

namespace Bytes

/-- Texts are encoded one after the other. -/
theorem of_text_append (first second : String) :
    ofText (first ++ second) = ofText first ++ ofText second := by
  simp [ofText, String.toByteArray_append]

end Bytes

namespace PyText

/-- A text without carriage returns is read as it is. -/
theorem universal_newlines_eq_self {text : List Char} (h : '\r' ∉ text) :
    universalNewlines text = text := by
  induction text with
  | nil => rfl
  | cons c rest ih =>
      obtain ⟨hc, hrest⟩ := not_or.mp (mt List.mem_cons.mpr h)
      have hreturn : c ≠ '\r' := fun h => hc h.symm
      rw [universalNewlines, ih hrest]
      · intro tail h
        exact absurd h hreturn
      · exact hreturn

/-- An encoded text without carriage returns is read back. -/
theorem read_text_of_text (text : String) (h : '\r' ∉ text.toList) :
    readText (Bytes.ofText text) = some text.toList := by
  rw [readText, Bytes.to_text_of_text, Option.map_some, universal_newlines_eq_self h]

/-- A text that starts and ends with something else than a space has nothing to strip. -/
theorem trim_of_ends {space : Char → Bool} {first last : Char} {body : List Char}
    (hfirst : space first = false) (hlast : space last = false) :
    trim space (first :: (body ++ [last])) = first :: (body ++ [last]) := by
  have haround := @trim_around space [] (first :: (body ++ [last])) [] (by simp) (by simp)
    ⟨⟨first, _, rfl, hfirst⟩, first :: body, last, rfl, hlast⟩
  rwa [List.append_nil, List.nil_append] at haround

/-- The lines of a text that starts with a line. -/
theorem lines_append {line rest : List Char} (h : '\n' ∉ line) :
    lines (line ++ '\n' :: rest) = line :: lines rest := by
  rw [lines, List.splitOn_append_cons_self, List.splitOn_eq_singleton h]
  rfl

/-- A text without line breaks is one line. -/
theorem lines_singleton {line : List Char} (h : '\n' ∉ line) : lines line = [line] :=
  List.splitOn_eq_singleton h

end PyText

namespace MiniRedis

/-- What holds of the texts of the program itself: different ones stay different, and they have
their own upper case. -/
class LawfulPyStr (S : Type) [PyStr S] : Prop where
  of_string_injective : Function.Injective (PyStr.ofString : String → S)
  upper_of_string : ∀ text, PyStr.upper (PyStr.ofString text : S) = PyStr.ofString (PyText.upper text)

instance : LawfulPyStr String := ⟨fun _ _ h => h, fun _ => rfl⟩

/-- What happens to the entry of a key. -/
inductive EntryChange (V : Type) where
  | replace (entry : Option (Entry V))
  | keep
  | setDeadline (deadline : Option PyFloat)

namespace EntryChange

variable {V : Type}

/-- The entry after a change. -/
def apply : EntryChange V → Option (Entry V) → Option (Entry V)
  | .replace entry, _ => entry
  | .keep, found => found
  | .setDeadline deadline, found => found.map ({ · with deadline })

/-- One change after another. -/
def andThen : EntryChange V → EntryChange V → EntryChange V
  | _, .replace entry => .replace entry
  | first, .keep => first
  | .replace entry, .setDeadline deadline => .replace (entry.map ({ · with deadline }))
  | _, .setDeadline deadline => .setDeadline deadline

theorem apply_and_then (first second : EntryChange V) (found : Option (Entry V)) :
    (first.andThen second).apply found = second.apply (first.apply found) := by
  cases second with
  | setDeadline deadline => cases first <;> cases found <;> rfl
  | _ => cases first <;> rfl

/-- A change that is made again changes nothing. -/
theorem apply_idempotent (change : EntryChange V) (found : Option (Entry V)) :
    change.apply (change.apply found) = change.apply found := by
  cases change <;> cases found <;> rfl

/-- A change that is made again, to what is still present, changes nothing that is present at that
time or later. -/
theorem absorbs (change : EntryChange V) (found : Option (Entry V)) {now later : Reading}
    (hle : now ≤ later) :
    (change.apply ((change.apply found).filter (·.present now))).filter (·.present later) =
      (change.apply found).filter (·.present later) := by
  cases change with
  | replace entry => rfl
  | keep => exact Entry.filter_present found hle
  | setDeadline deadline =>
      cases found with
      | none => rfl
      | some entry =>
          show (Option.map _ ((some (Entry.mk entry.value deadline)).filter _)).filter _ =
            (some (Entry.mk entry.value deadline)).filter _
          -- the deadline has passed, or it is set to what it is
          cases hpresent : (Entry.mk entry.value deadline).present now with
          | true => simp [Option.filter_some, hpresent]
          | false =>
              have hlater : (Entry.mk entry.value deadline).present later = false := by
                rw [← Bool.not_eq_true] at hpresent ⊢
                exact fun h => hpresent (Entry.present_of_later _ hle h)
              simp [Option.filter_some, hpresent, hlater]

end EntryChange

/-- A record of the log, with its arguments as they are written. -/
inductive LogRecord (S : Type) where
  | set (key value : S)
  | del (key : S)
  | expire (key deadline : S)

namespace LogRecord

variable {S : Type}

/-- The command of a record. -/
def command : LogRecord S → String
  | .set _ _ => "SET"
  | .del _ => "DEL"
  | .expire _ _ => "EXPIRE"

/-- The arguments of a record. -/
def args : LogRecord S → List S
  | .set key value => [key, value]
  | .del key => [key]
  | .expire key deadline => [key, deadline]

/-- The deadline of a record is a number. -/
def WellFormed (codec : JsonCodec S) : LogRecord S → Prop
  | .expire _ deadline => ∃ expiresAt, codec.parseFloat deadline = some expiresAt
  | _ => True

theorem command_mem (record : LogRecord S) : record.command ∈ AofPersistence.writeCommands := by
  cases record with
  | set key value => exact AofPersistence.set_mem
  | del key => exact AofPersistence.del_mem
  | expire key deadline => exact AofPersistence.expire_mem

/-- The line of a record. -/
def line [PyStr S] (codec : JsonCodec S) (record : LogRecord S) : String :=
  AofPersistence.record codec record.command record.args

variable [DecidableEq S]

/-- What a record does to a key. -/
def change (codec : JsonCodec S) (key : S) : LogRecord S → EntryChange S
  | .set other value => if key = other then .replace (some ⟨value, none⟩) else .keep
  | .del other => if key = other then .replace none else .keep
  | .expire other deadline =>
      if key = other then .setDeadline (codec.parseFloat deadline) else .keep

/-- What some records do to a key. -/
def changeAll (codec : JsonCodec S) (key : S) (records : List (LogRecord S)) : EntryChange S :=
  records.foldl (fun change record => change.andThen (record.change codec key)) .keep

/-- What a record does to the reference store. -/
def perform (codec : JsonCodec S) (record : LogRecord S) (reference : ReferenceStore S S) :
    ReferenceStore S S := fun key => (record.change codec key).apply (reference key)

/-- What some records do to the reference store, one after the other. -/
def performAll (codec : JsonCodec S) (records : List (LogRecord S))
    (reference : ReferenceStore S S) : ReferenceStore S S :=
  records.foldl (fun reference record => record.perform codec reference) reference

/-- All records together are one change for each key. -/
theorem perform_all_eq (codec : JsonCodec S) (records : List (LogRecord S))
    (reference : ReferenceStore S S) (key : S) :
    performAll codec records reference key =
      (changeAll codec key records).apply (reference key) := by
  suffices h : ∀ (change : EntryChange S) (found : ReferenceStore S S),
      found key = change.apply (reference key) → performAll codec records found key =
        (records.foldl (fun change record => change.andThen (record.change codec key))
          change).apply (reference key) from h .keep reference rfl
  induction records with
  | nil => exact fun change found hfound => hfound
  | cons record rest ih =>
      intro change found hfound
      refine ih (change.andThen (record.change codec key)) (record.perform codec found) ?_
      rw [perform, hfound, EntryChange.apply_and_then]

end LogRecord

/-- The two dictionaries say what the reference store does. -/
def ReplayState.Denotes {S : Type} [DecidableEq S] (state : ReplayState S)
    (reference : ReferenceStore S S) : Prop :=
  ∀ key, Slot.mk (state.data.get? key) (state.expiresAt.get? key) = Slot.ofEntry (reference key)

namespace ReplayState

variable {S : Type} [DecidableEq S]

/-- The reference store of two dictionaries: deadlines without a value do not count. -/
def reference (state : ReplayState S) : ReferenceStore S S := fun key =>
  (state.data.get? key).map (⟨·, state.expiresAt.get? key⟩)

/-- Once the deadlines without a value are dropped, two dictionaries say what their reference store
does. -/
theorem denotes_filter (state : ReplayState S) : ReplayState.Denotes
    { state with expiresAt := state.expiresAt.filter fun key _ => state.data.contains key }
    state.reference := by
  intro key
  rw [Dict.get?_filter, Dict.contains, reference]
  cases state.data.get? key with
  | none => simp [Slot.ofEntry, Slot.absent]
  | some value => cases hdeadline : state.expiresAt.get? key <;> simp [Slot.ofEntry]

namespace Denotes

variable {state : ReplayState S} {reference : ReferenceStore S S}

theorem value (h : state.Denotes reference) (key : S) :
    state.data.get? key = (reference key).map Entry.value := by
  have hvalue := congrArg Slot.value (h key)
  cases hentry : reference key <;> simpa [hentry, Slot.ofEntry, Slot.absent] using hvalue

theorem deadline (h : state.Denotes reference) (key : S) :
    state.expiresAt.get? key = (reference key).bind Entry.deadline := by
  have hdeadline := congrArg Slot.deadline (h key)
  cases hentry : reference key <;> simpa [hentry, Slot.ofEntry, Slot.absent] using hdeadline

theorem reference_eq (h : state.Denotes reference) : state.reference = reference := by
  funext key
  rw [ReplayState.reference, h.value, h.deadline]
  cases reference key <;> rfl

end Denotes

end ReplayState

variable {S : Type} [PyStr S]

/-- The value of a record. -/
def recordJson (command : String) (args : List S) : Json S :=
  .object [(PyStr.ofString "command", .str (PyStr.ofString command)),
    (PyStr.ofString "args", .array (args.map .str))]

/-- What the log relies on: `json.loads` reads back what `json.dumps` wrote, which is the text of an
object on one line. -/
structure JsonCodec.WritesLines (codec : JsonCodec S) : Prop where
  loads_dumps : ∀ command args,
    codec.loads (codec.dumps (recordJson command args)) = .ok (recordJson command args)
  dumps_line : ∀ command args, ∃ body,
    (codec.dumps (recordJson command args)).toList = '{' :: (body ++ ['}']) ∧
      '\r' ∉ body ∧ '\n' ∉ body

/-- What the log relies on to find damage: the text of a record is printable ASCII, and no text once
something is cut off at its end. -/
structure JsonCodec.DetectsCuts (codec : JsonCodec S) : Prop extends codec.WritesLines where
  dumps_ascii : ∀ command args, ∀ c ∈ (codec.dumps (recordJson command args)).toList,
    32 ≤ c.toNat ∧ c.toNat < 127
  loads_cut : ∀ command args cut, cut <+: (codec.dumps (recordJson command args)).toList →
    cut ≠ (codec.dumps (recordJson command args)).toList →
    codec.loads (String.ofList cut) = .error .decode

/-- The text of a record with another one after it is no text. -/
def JsonCodec.RejectsExtraData (codec : JsonCodec S) : Prop :=
  ∀ command args other otherArgs,
    codec.loads (codec.dumps (recordJson command args) ++
      codec.dumps (recordJson other otherArgs)) =
      .error .decode

/-- The text of a record, which is its line without the end. -/
def LogRecord.text (codec : JsonCodec S) (record : LogRecord S) : List Char :=
  (codec.dumps (recordJson record.command record.args)).toList

namespace AofPersistence

variable {codec : JsonCodec S}

theorem line_text (codec : JsonCodec S) (record : LogRecord S) :
    (record.line codec).toList = record.text codec ++ ['\n'] := by
  rw [LogRecord.line, AofPersistence.record, String.toList_append]
  rfl

/-- The text of a record is a line, with nothing to strip. -/
theorem text_line (hlines : codec.WritesLines) (record : LogRecord S) :
    '\r' ∉ record.text codec ∧ '\n' ∉ record.text codec ∧
      PyText.trim PyText.isSpace (record.text codec) = record.text codec ∧
      record.text codec ≠ [] ∧
      codec.loads (String.ofList (record.text codec)) =
        .ok (recordJson record.command record.args) := by
  obtain ⟨body, hbody, hcr, hlf⟩ := hlines.dumps_line record.command record.args
  rw [LogRecord.text, String.ofList_toList, hbody]
  refine ⟨by simp [hcr], by simp [hlf], PyText.trim_of_ends rfl rfl, List.cons_ne_nil _ _, ?_⟩
  exact hlines.loads_dumps _ _

/-- The text of a log that consists of some records. -/
def logText (codec : JsonCodec S) (records : List (LogRecord S)) : List Char :=
  records.flatMap fun record => record.text codec ++ ['\n']

theorem log_text_nil (codec : JsonCodec S) : logText codec [] = [] := rfl

theorem log_text_append (codec : JsonCodec S) (first second : List (LogRecord S)) :
    logText codec (first ++ second) = logText codec first ++ logText codec second :=
  List.flatMap_append

theorem log_text_cons (codec : JsonCodec S) (record : LogRecord S) (rest : List (LogRecord S)) :
    logText codec (record :: rest) = record.text codec ++ '\n' :: logText codec rest := by
  rw [logText, List.flatMap_cons, List.append_assoc]
  rfl

/-- There is no carriage return in a log. -/
theorem log_text_no_return (hlines : codec.WritesLines) (records : List (LogRecord S)) :
    '\r' ∉ logText codec records := by
  intro hmem
  obtain ⟨record, -, hrecord⟩ := List.mem_flatMap.mp hmem
  rcases List.mem_append.mp hrecord with htext | hend
  · exact (text_line hlines record).1 htext
  · simp at hend

variable [DecidableEq S]

/-- The entry of a record. -/
theorem entry_record [LawfulPyStr S] (codec : JsonCodec S) (record : LogRecord S) :
    entry codec (recordJson record.command record.args) =
      .ok ⟨PyStr.ofString record.command, record.args⟩ := by
  have hne : (PyStr.ofString "args" : S) ≠ PyStr.ofString "command" := by
    intro h
    have hsame : "args" = "command" := LawfulPyStr.of_string_injective h
    exact absurd hsame (by decide)
  have hupper : PyStr.upper (PyStr.ofString record.command : S) =
      PyStr.ofString record.command := by
    rw [LawfulPyStr.upper_of_string, AofPersistence.upper_of_mem record.command_mem]
  have hcommand : ∀ default, (recordJson record.command record.args).get "command" default =
      .ok (.str (PyStr.ofString record.command : S)) := by
    intro default
    simp [recordJson, Json.get, Dict.ofList, hne.symm]
  have hargs : ∀ default, (recordJson record.command record.args).get "args" default =
      .ok (.array (record.args.map (.str : S → Json S))) := by
    intro default
    simp [recordJson, Json.get, Dict.ofList]
  have hstr : Json.toStr codec ∘ Json.str = id := rfl
  simp only [entry, hcommand, hargs, Json.iterate, bind, Except.bind, Json.toStr, hupper,
    List.map_map]
  rw [hstr, List.map_id]
  rfl

/-- `_apply` does what the record does to the reference store. -/
theorem apply_record [LawfulPyStr S] {record : LogRecord S} (hrecord : record.WellFormed codec)
    {state : ReplayState S} {reference : ReferenceStore S S} (h : state.Denotes reference) :
    ∃ after, apply codec ⟨PyStr.ofString record.command, record.args⟩ state = .ok after ∧
      after.Denotes (record.perform codec reference) := by
  have hname : ∀ first second : String, (PyStr.ofString first : S) = PyStr.ofString second ↔
      first = second := fun _ _ => LawfulPyStr.of_string_injective.eq_iff
  cases record with
  | set key value =>
      refine ⟨⟨state.data.insert key value, state.expiresAt.erase key⟩, ?_, ?_⟩
      · simp [apply, LogRecord.command, LogRecord.args]
      · intro other
        rw [LogRecord.perform, LogRecord.change, Dict.get?_insert, Dict.get?_erase]
        split
        · rfl
        · exact h other
  | del key =>
      refine ⟨⟨state.data.erase key, state.expiresAt.erase key⟩, ?_, ?_⟩
      · simp [apply, LogRecord.command, LogRecord.args, hname]
      · intro other
        rw [LogRecord.perform, LogRecord.change, Dict.get?_erase, Dict.get?_erase]
        split
        · rfl
        · exact h other
  | expire key text =>
      obtain ⟨deadline, hdeadline⟩ := hrecord
      have hcontains : state.data.contains key = (reference key).isSome := by
        rw [Dict.contains, h.value, Option.isSome_map]
      have hread : apply codec ⟨PyStr.ofString "EXPIRE", [key, text]⟩ state =
          if (reference key).isSome then
            .ok { state with expiresAt := state.expiresAt.insert key deadline }
          else .ok state := by
        simp [apply, hname, hcontains, hdeadline]
      cases hfound : reference key with
      | none =>
          refine ⟨state, by rw [LogRecord.args, LogRecord.command, hread, hfound]; rfl, ?_⟩
          intro other
          rw [LogRecord.perform, LogRecord.change]
          split
          · next hkey =>
              subst hkey
              rw [h other, hfound]
              rfl
          · exact h other
      | some entry =>
          refine ⟨{ state with expiresAt := state.expiresAt.insert key deadline },
            by rw [LogRecord.args, LogRecord.command, hread, hfound]; rfl, ?_⟩
          intro other
          rw [LogRecord.perform, LogRecord.change, Dict.get?_insert]
          split
          · next hkey =>
              subst hkey
              rw [h.value, hfound, hdeadline]
              rfl
          · exact h other

/-- The line of a record reads as the record. -/
theorem replay_line_record [LawfulPyStr S] (hlines : codec.WritesLines) {record : LogRecord S}
    (hrecord : record.WellFormed codec) (number : Nat) {state : ReplayState S}
    {reference : ReferenceStore S S} (h : state.Denotes reference) :
    ∃ after, replayLine codec number (record.text codec) state = .ok after ∧
      after.Denotes (record.perform codec reference) := by
  obtain ⟨-, -, htrim, hne, hloads⟩ := text_line hlines record
  obtain ⟨after, happly, hafter⟩ := apply_record hrecord h
  refine ⟨after, ?_, hafter⟩
  unfold replayLine
  rw [htrim]
  cases hline : record.text codec with
  | nil => exact absurd hline hne
  | cons c rest =>
      rw [← hline]
      simp only [hloads]
      rw [entry_record]
      exact happly

/-- The lines of some records read as the records, and then comes the rest. -/
theorem replay_lines_records [LawfulPyStr S] (hlines : codec.WritesLines)
    {records : List (LogRecord S)} (hrecords : ∀ record ∈ records, record.WellFormed codec)
    (number : Nat) {state : ReplayState S} {reference : ReferenceStore S S}
    (h : state.Denotes reference) (rest : List Char) :
    ∃ after, replayLines codec number (PyText.lines (logText codec records ++ rest)) state =
        replayLines codec (number + records.length) (PyText.lines rest) after ∧
      after.Denotes (LogRecord.performAll codec records reference) := by
  induction records generalizing number state reference with
  | nil => exact ⟨state, rfl, h⟩
  | cons record others ih =>
      obtain ⟨-, hlf, -⟩ := text_line hlines record
      obtain ⟨middle, hfirst, hmiddle⟩ := replay_line_record hlines
        (hrecords record List.mem_cons_self) number h
      obtain ⟨after, hrest, hafter⟩ := ih
        (fun other hmem => hrecords other (List.mem_cons_of_mem _ hmem)) (number + 1) hmiddle
      refine ⟨after, ?_, hafter⟩
      rw [log_text_cons, List.append_assoc, List.cons_append, PyText.lines_append hlf, replayLines,
        hfirst, List.length_cons, Nat.add_comm others.length 1, ← Nat.add_assoc]
      exact hrest

/-- A log that consists of some records reads as the records. -/
theorem replay_records [LawfulPyStr S] (hlines : codec.WritesLines)
    {records : List (LogRecord S)} (hrecords : ∀ record ∈ records, record.WellFormed codec)
    (base : ReplayState S) :
    ∃ after, replay codec base (some (Bytes.ofText (String.ofList (logText codec records)))) =
        .ok after ∧
      after.Denotes (LogRecord.performAll codec records base.reference) := by
  have hread := PyText.read_text_of_text (String.ofList (logText codec records)) (by
    rw [String.toList_ofList]
    exact log_text_no_return hlines records)
  obtain ⟨after, hrun, hafter⟩ := replay_lines_records hlines hrecords 1 base.denotes_filter []
  refine ⟨after, ?_, hafter⟩
  rw [String.toList_ofList] at hread
  rw [List.append_nil] at hrun
  simp only [replay, hread, hrun]
  rfl

end AofPersistence

end MiniRedis
