import MiniRedis.Foundation.Simulation
import MiniRedis.Persistence.JsonText

/-!
# The log as its callers see it

An `EntryLog` is a list of entries: `append` and `append_entries` add to it, `reset` empties it and
`replay` applies what it holds. The calls on the bytes of the file answer as the calls on the list
do (`calls_refine_entry_log`), whatever the entries are. An entry whose arguments no `_apply` takes
is written all the same, and raises when it is replayed.
-/

namespace MiniRedis

/-- The entries of a log, and which of the coming changes of it fail. -/
structure EntryLog where
  entries : List (AofEntry String)
  faults : Stream' Bool

namespace EntryLog

/-- Change the entries, or fail. -/
def attempt (change : List (AofEntry String) → List (AofEntry String)) : Py EntryLog Unit :=
  fun log =>
    if log.faults.head then (.error .osError, ⟨log.entries, log.faults.tail⟩)
    else (.ok (), ⟨change log.entries, log.faults.tail⟩)

/-- Add an entry under its name in upper case, which has to be that of a write command. -/
def append (entry : AofEntry String) : Py EntryLog Unit :=
  if PyText.upper entry.command ∉ AofPersistence.writeCommands then
    Py.raise (.valueError s!"Unsupported AOF command: {entry.command}")
  else attempt (· ++ [⟨PyText.upper entry.command, entry.args⟩])

/-- Take away all entries, if there are any. -/
def reset : Py EntryLog Unit := do
  let log ← Py.get
  if log.entries ≠ [] then
    attempt fun _ => []

/-- Apply the entries to the two dictionaries. The deadlines without a value are dropped before the
first entry, and stay where there is none. -/
def replay (codec : JsonCodec String) (base : ReplayState String) :
    Py EntryLog (ReplayState String) := do
  let log ← Py.get
  if log.entries = [] then
    return base
  else
    Py.ofExcept (log.entries.foldlM (fun state entry => AofPersistence.apply codec entry state)
      { base with expiresAt := base.expiresAt.filter fun key _ => base.data.contains key })

end EntryLog

/-- A call of a method of `AofPersistence`. -/
inductive AofCall where
  | append (entry : AofEntry String)
  | appendEntries (entries : List (AofEntry String))
  | replay (base : ReplayState String)
  | reset

namespace AofCall

/-- The call on the file. Only `replay` has a value to return. -/
def run (codec : JsonCodec String) : AofCall → Py Disk (Option (ReplayState String))
  | .append entry => do
      AofPersistence.append codec entry.command entry.args
      return none
  | .appendEntries entries => do
      AofPersistence.appendEntries codec entries
      return none
  | .replay base => do
      let disk ← Py.get
      let state ← Py.ofExcept (AofPersistence.replay codec base disk.files.aof)
      return some state
  | .reset => do
      AofPersistence.reset
      return none

/-- The call on the list. -/
def meaning (codec : JsonCodec String) : AofCall → Py EntryLog (Option (ReplayState String))
  | .append entry => do
      EntryLog.append entry
      return none
  | .appendEntries entries => do
      Py.forEach entries EntryLog.append
      return none
  | .replay base => do
      let state ← EntryLog.replay codec base
      return some state
  | .reset => do
      EntryLog.reset
      return none

end AofCall

namespace AofPersistence

variable {codec : JsonCodec String}

/-! ## The text of the entries -/

/-- The text of a log that consists of some entries. -/
def entriesText (codec : JsonCodec String) (entries : List (AofEntry String)) : List Char :=
  entries.flatMap fun entry => (record codec entry.command entry.args).toList

theorem entries_text_cons (codec : JsonCodec String) (entry : AofEntry String)
    (rest : List (AofEntry String)) :
    entriesText codec (entry :: rest) =
      (codec.dumps (recordJson entry.command entry.args)).toList ++
        '\n' :: entriesText codec rest := by
  rw [entriesText, List.flatMap_cons, record, String.toList_append, List.append_assoc]
  rfl

/-- There is no carriage return in the text of a log. -/
theorem entries_text_no_return (hlines : codec.WritesLines) (entries : List (AofEntry String)) :
    '\r' ∉ entriesText codec entries := by
  induction entries with
  | nil => exact List.not_mem_nil
  | cons entry rest ih =>
      obtain ⟨body, hbody, hcr, -⟩ := hlines.dumps_line entry.command entry.args
      rw [entries_text_cons, hbody]
      simp [hcr, ih]

/-- The value of a record of a write command reads as its entry. -/
theorem entry_record_json (codec : JsonCodec String) {command : String}
    (h : command ∈ writeCommands) (args : List String) :
    entry codec (recordJson command args) = .ok ⟨command, args⟩ := by
  have hcommand : ∀ default, (recordJson command args).get "command" default =
      .ok (.str command) := by
    intro default
    simp [recordJson, Json.get, Dict.ofList, PyStr.ofString]
  have hargs : ∀ default, (recordJson command args).get "args" default =
      .ok (.array (args.map .str)) := by
    intro default
    simp [recordJson, Json.get, Dict.ofList, PyStr.ofString]
  have hupper : PyStr.upper command = command := upper_of_mem h
  have hstr : Json.toStr codec ∘ Json.str = id := rfl
  simp only [entry, hcommand, hargs, Json.iterate, bind, Except.bind, Json.toStr, hupper,
    List.map_map]
  rw [hstr, List.map_id]
  rfl

/-- The line of an entry of a write command does what `_apply` does with the entry. -/
theorem replay_line_entry (hlines : codec.WritesLines) {entry : AofEntry String}
    (h : entry.command ∈ writeCommands) (number : Nat) (state : ReplayState String) :
    replayLine codec number (codec.dumps (recordJson entry.command entry.args)).toList state =
      apply codec entry state := by
  obtain ⟨body, hbody, -, -⟩ := hlines.dumps_line entry.command entry.args
  have htrim : PyText.trim PyText.isSpace ('{' :: (body ++ ['}'])) = '{' :: (body ++ ['}']) :=
    PyText.trim_of_ends rfl rfl
  have hloads : codec.loads (String.ofList ('{' :: (body ++ ['}']))) =
      .ok (recordJson entry.command entry.args) := by
    rw [← hbody, String.ofList_toList]
    exact hlines.loads_dumps entry.command entry.args
  simp only [replayLine, hbody, htrim, hloads]
  rw [entry_record_json codec h]
  rfl

/-- The lines of some entries do what `_apply` does with one entry after the other. -/
theorem replay_lines_entries (hlines : codec.WritesLines) {entries : List (AofEntry String)}
    (h : ∀ entry ∈ entries, entry.command ∈ writeCommands) (number : Nat)
    (state : ReplayState String) :
    replayLines codec number (PyText.lines (entriesText codec entries)) state =
      entries.foldlM (fun state entry => apply codec entry state) state := by
  induction entries generalizing number state with
  | nil => rfl
  | cons entry rest ih =>
      obtain ⟨body, hbody, -, hlf⟩ := hlines.dumps_line entry.command entry.args
      have hline : '\n' ∉ (codec.dumps (recordJson entry.command entry.args)).toList := by
        rw [hbody]
        simp [hlf]
      rw [entries_text_cons, PyText.lines_append hline, replayLines,
        replay_line_entry hlines (h entry List.mem_cons_self), List.foldlM_cons]
      refine congrArg _ (funext fun after => ?_)
      exact ih (fun other hmem => h other (List.mem_cons_of_mem _ hmem)) (number + 1) after

/-- A log that consists of some entries is replayed by `_apply`. -/
theorem replay_entries (hlines : codec.WritesLines) {entries : List (AofEntry String)}
    (h : ∀ entry ∈ entries, entry.command ∈ writeCommands) {text : String}
    (htext : text.toList = entriesText codec entries) (base : ReplayState String) :
    replay codec base (some (Bytes.ofText text)) =
      entries.foldlM (fun state entry => apply codec entry state)
        { base with expiresAt := base.expiresAt.filter fun key _ => base.data.contains key } := by
  have hread := PyText.read_text_of_text text (by
    rw [htext]
    exact entries_text_no_return hlines entries)
  rw [htext] at hread
  simp only [replay, hread]
  exact replay_lines_entries hlines h 1 _

end AofPersistence

end MiniRedis

namespace Files

open MiniRedis AofPersistence

/-- The log consists of some entries of write commands, and there is no file where there is no
entry. -/
structure Lists (files : Files) (codec : JsonCodec String) (entries : List (AofEntry String)) :
    Prop where
  supported : ∀ entry ∈ entries, entry.command ∈ writeCommands
  aof : entries = [] ∧ files.aof = none ∨
    entries ≠ [] ∧ ∃ text, files.aof = some (Bytes.ofText text) ∧
      text.toList = entriesText codec entries

namespace Lists

variable {files : Files} {codec : JsonCodec String} {entries : List (AofEntry String)}

/-- There is a file exactly where there is an entry. -/
theorem aof_is_some (h : files.Lists codec entries) : files.aof.isSome ↔ entries ≠ [] := by
  rcases h.aof with ⟨hentries, haof⟩ | ⟨hentries, text, haof, -⟩
  · simp [hentries, haof]
  · simp [hentries, haof]

/-- A record is appended. -/
theorem append (h : files.Lists codec entries) {command : String}
    (hcommand : command ∈ writeCommands) (args : List String) :
    (files.apply (.appendAof (record codec command args))).Lists codec
      (entries ++ [⟨command, args⟩]) := by
  refine ⟨fun entry hmem => ?_, .inr ⟨by simp, ?_⟩⟩
  · rcases List.mem_append.mp hmem with hold | hnew
    · exact h.supported entry hold
    · rw [List.mem_singleton.mp hnew]
      exact hcommand
  · rcases h.aof with ⟨rfl, haof⟩ | ⟨-, text, haof, htext⟩
    · refine ⟨record codec command args, ?_, ?_⟩
      · simp only [Files.apply, haof, Option.getD_none, List.nil_append]
      · simp [entriesText]
    · refine ⟨text ++ record codec command args, ?_, ?_⟩
      · simp only [Files.apply, haof, Option.getD_some, Bytes.of_text_append]
      · rw [String.toList_append, htext]
        simp [entriesText]

/-- The file is removed. -/
theorem unlink : (files.apply .unlinkAof).Lists codec [] :=
  ⟨fun _ hmem => absurd hmem List.not_mem_nil, .inl ⟨rfl, rfl⟩⟩

/-- What is replayed is what the entries say. -/
theorem replay (h : files.Lists codec entries) (hlines : codec.WritesLines)
    (base : ReplayState String) :
    AofPersistence.replay codec base files.aof =
      if entries = [] then .ok base else
        entries.foldlM (fun state entry => AofPersistence.apply codec entry state)
          { base with expiresAt := base.expiresAt.filter fun key _ => base.data.contains key } := by
  rcases h.aof with ⟨hentries, haof⟩ | ⟨hentries, text, haof, htext⟩
  · rw [haof, if_pos hentries]
    rfl
  · rw [haof, if_neg hentries]
    exact replay_entries hlines h.supported htext base

end Lists

end Files

namespace MiniRedis

variable {codec : JsonCodec String}

/-- The disk holds the log, and the same operations fail. The snapshot is what it was. -/
structure EntryLog.On (codec : JsonCodec String) (rdb : Option Bytes) (disk : Disk)
    (log : EntryLog) : Prop where
  faults : disk.faults = log.faults
  lists : disk.files.Lists codec log.entries
  rdb : disk.files.rdb = rdb

namespace EntryLog

variable {rdb : Option Bytes}

/-- A change of the file that is one of the entries. -/
theorem attempt_simulates {effect : FileEffect}
    {change : List (AofEntry String) → List (AofEntry String)}
    (hchange : ∀ files entries, Files.Lists files codec entries →
      (files.apply effect).Lists codec (change entries))
    (hrdb : ∀ files : Files, (files.apply effect).rdb = files.rdb) :
    Py.Simulates (On codec rdb) (Disk.perform effect) (attempt change) (fun _ _ => On codec rdb)
      (On codec rdb) := by
  refine ⟨fun disk log h => ?_⟩
  unfold Disk.perform attempt
  rw [h.faults]
  by_cases hfault : log.faults.head
  · rw [if_pos hfault, if_pos hfault]
    exact ⟨rfl, rfl, h.lists, h.rdb⟩
  · rw [if_neg hfault, if_neg hfault]
    have hfiles := Disk.files_changed disk effect
    refine ⟨rfl, ?_, ?_⟩
    · show (disk.changed effect).files.Lists codec (change log.entries)
      rw [hfiles]
      exact hchange _ _ h.lists
    · show (disk.changed effect).files.rdb = rdb
      rw [hfiles, hrdb]
      exact h.rdb

/-- `append` adds the entry, or raises as the log does. -/
theorem append_simulates (entry : AofEntry String) :
    Py.Simulates (On codec rdb) (AofPersistence.append codec entry.command entry.args)
      (append entry) (fun _ _ => On codec rdb) (On codec rdb) := by
  unfold AofPersistence.append append
  refine Py.Simulates.ite Iff.rfl (fun _ => ⟨fun disk log h => ⟨rfl, h⟩⟩) fun hcommand => ?_
  exact attempt_simulates (fun files entries h => h.append (not_not.mp hcommand) entry.args)
    fun _ => rfl

/-- `append_entries` adds one entry after the other, up to the first that raises. -/
theorem append_entries_simulates (entries : List (AofEntry String)) :
    Py.Simulates (On codec rdb) (AofPersistence.appendEntries codec entries)
      (Py.forEach entries append) (fun _ _ => On codec rdb) (On codec rdb) :=
  Py.Simulates.forEach entries append_simulates

/-- `reset` takes away all entries. -/
theorem reset_simulates :
    Py.Simulates (On codec rdb) AofPersistence.reset reset (fun _ _ => On codec rdb)
      (On codec rdb) := by
  refine Py.Simulates.bind (R := fun found log disk log' =>
    found = disk ∧ log = log' ∧ On codec rdb disk log') ⟨fun disk log h => ⟨rfl, rfl, h⟩⟩ ?_
  intro found log
  refine Py.Simulates.given (p := found.files.Lists codec log.entries) ?_ fun hlists => ?_
  · rintro disk log' ⟨rfl, rfl, h⟩
    exact h.lists
  · have hreset : Py.Simulates (On codec rdb)
        (if found.files.aof.isSome then Disk.perform .unlinkAof else pure ())
        (if log.entries ≠ [] then attempt fun _ => [] else pure ()) (fun _ _ => On codec rdb)
        (On codec rdb) := by
      refine .ite hlists.aof_is_some (fun _ => ?_) fun _ => .pure fun _ _ h => h
      exact attempt_simulates (fun files entries h => Files.Lists.unlink) fun _ => rfl
    exact hreset.strengthen fun _ _ h => h.2.2

/-- `replay` applies the entries. -/
theorem replay_simulates (hlines : codec.WritesLines) (base : ReplayState String) :
    Py.Simulates (On codec rdb)
      (do
        let disk ← Py.get
        Py.ofExcept (AofPersistence.replay codec base disk.files.aof))
      (replay codec base) (fun a b disk log => a = b ∧ On codec rdb disk log) (On codec rdb) := by
  refine ⟨fun disk log h => ?_⟩
  have hmeaning : replay codec base log =
      (AofPersistence.replay codec base disk.files.aof, log) := by
    rw [h.lists.replay hlines, replay, Py.bind_ok (Py.get_apply log)]
    by_cases hentries : log.entries = []
    · rw [if_pos hentries, if_pos hentries]
      rfl
    · rw [if_neg hentries, if_neg hentries]
      rfl
  show Py.InStep _ _ (AofPersistence.replay codec base disk.files.aof, disk) _
  rw [hmeaning]
  cases AofPersistence.replay codec base disk.files.aof with
  | ok state => exact ⟨rfl, h⟩
  | error error => exact ⟨rfl, h⟩

end EntryLog

/-- Every call on the file answers as it does on the list. -/
theorem AofCall.run_simulates (hlines : codec.WritesLines) {rdb : Option Bytes} (call : AofCall) :
    Py.Simulates (EntryLog.On codec rdb) (call.run codec) (call.meaning codec)
      (fun a b disk log => a = b ∧ EntryLog.On codec rdb disk log) (EntryLog.On codec rdb) := by
  cases call with
  | append entry =>
      exact (EntryLog.append_simulates entry).bind fun _ _ => .pure fun _ _ h => ⟨rfl, h⟩
  | appendEntries entries =>
      exact (EntryLog.append_entries_simulates entries).bind fun _ _ => .pure fun _ _ h => ⟨rfl, h⟩
  | replay base =>
      have hreplay : Py.Simulates (EntryLog.On codec rdb) _ _ _ _ :=
        EntryLog.replay_simulates hlines base
      exact Py.Simulates.bind_same hreplay fun state => .pure fun _ _ h => ⟨rfl, h⟩
  | reset => exact EntryLog.reset_simulates.bind fun _ _ => .pure fun _ _ h => ⟨rfl, h⟩

/-- Whatever entries are appended, and whatever calls of `append`, `append_entries`, `replay` and
`reset` are made in any order while any of the writes fail without a trace, each call returns or
raises as on a list of entries. In the end there is a file exactly where there are entries, and the
snapshot file was never touched. -/
theorem AofPersistence.calls_refine_entry_log (hlines : codec.WritesLines) (rdb : Option Bytes)
    (faults : Stream' Bool) (calls : List AofCall) :
    let disk := Py.session (calls.map (AofCall.run codec)) ⟨⟨rdb, none⟩, [], faults⟩
    let log := Py.session (calls.map (AofCall.meaning codec)) ⟨[], faults⟩
    disk.1 = log.1 ∧ (disk.2.files.aof.isSome ↔ log.2.entries ≠ []) ∧ disk.2.files.rdb = rdb := by
  have hstart : EntryLog.On codec rdb ⟨⟨rdb, none⟩, [], faults⟩ ⟨[], faults⟩ :=
    ⟨rfl, ⟨fun _ hmem => absurd hmem List.not_mem_nil, .inl ⟨rfl, rfl⟩⟩, rfl⟩
  obtain ⟨hresults, hafter⟩ := Py.session_simulation (EntryLog.On codec rdb)
    (fun call disk log h => (call.run_simulates hlines).outcome h) calls hstart
  exact ⟨hresults, hafter.lists.aof_is_some, hafter.rdb⟩

/-- An entry without its deadline is written, and only its replay raises. -/
theorem AofPersistence.calls_refine_entry_log_session :
    (Py.session ([.appendEntries [⟨"set", ["session", "open"]⟩, ⟨"EXPIRE", ["session"]⟩],
        .append ⟨"GET", ["session"]⟩, .replay ⟨Dict.empty, Dict.empty⟩, .reset,
        .replay ⟨Dict.empty, Dict.empty⟩].map (AofCall.run JsonText.codec))
      (Disk.reliable Files.empty)).1 =
      [.ok none, .error (.valueError "Unsupported AOF command: GET"),
        .error (.valueError "EXPIRE requires 2 arguments in AOF replay"), .ok none,
        .ok (some ⟨Dict.empty, Dict.empty⟩)] := by
  refine (calls_refine_entry_log JsonText.writes_lines none (Stream'.const false) _).1.trans ?_
  rfl

end MiniRedis
