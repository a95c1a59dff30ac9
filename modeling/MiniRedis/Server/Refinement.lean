import MiniRedis.Foundation.Simulation
import MiniRedis.Persistence.JsonText
import MiniRedis.Server.Handlers
import MiniRedis.Server.Journal

/-!
# The server keeps the journal

The store and the files follow a `Journal`: the store holds what is present in its memory, and
the files say what it has written (`World.Follows`). A command does to both the same, replies
or exceptions included (`dispatch_simulates`), whatever fails when the files are written.
-/

namespace MiniRedis

/-- The deadline of a record, if it has one, is a finite time. -/
def Record.Finite : Record → Prop
  | .expire _ deadline => ∃ units isDouble, deadline = .finite units isDouble
  | _ => True

/-- All deadlines are finite times. -/
def ReferenceStore.Finite (reference : ReferenceStore String String) : Prop :=
  ∀ key, (Slot.ofEntry (reference key)).Finite

/-- A file operation carries out a change. -/
inductive CarriesOut (codec : JsonCodec String) : FileEffect → Change → Prop where
  | append {record : Record} (hfinite : record.Finite) :
      CarriesOut codec (.appendAof (record.line codec)) (.append record)
  | save {data : Dict String String} {expiresAt : Dict String PyFloat}
      {contents : ReferenceStore String String}
      (hdenotes : ReplayState.Denotes ⟨data, expiresAt⟩ contents) (hfinite : contents.Finite) :
      CarriesOut codec
        (.replaceRdb (codec.dumpIndented (RdbPersistence.snapshotJson data expiresAt)))
        (.save contents)
  | unlink : CarriesOut codec .unlinkAof .unlink

/-- The files say what is written. -/
structure Archive.WrittenTo (codec : JsonCodec String) (archive : Archive) (files : Files) :
    Prop where
  holds : files.Holds codec archive.base (archive.log.getD [])
  log : files.aof.isSome = archive.log.isSome
  base : archive.base.Finite
  records : ∀ record ∈ archive.log.getD [], record.Finite

namespace Archive

variable {codec : JsonCodec String} {archive : Archive} {files : Files}

theorem written_empty : empty.WrittenTo codec Files.empty := by
  refine ⟨Files.Holds.empty, rfl, ?_, ?_⟩
  · intro key expiresAt hdeadline
    cases hdeadline
  · intro record hmem
    cases hmem

/-- A file operation keeps the files in agreement with what is written. -/
theorem WrittenTo.apply (h : archive.WrittenTo codec files) {effect : FileEffect} {change : Change}
    (heffect : CarriesOut codec effect change) :
    (archive.apply change).WrittenTo codec (files.apply effect) := by
  cases heffect with
  | @append record hfinite =>
      refine ⟨h.holds.append record, rfl, h.base, ?_⟩
      intro other hmem
      rcases List.mem_append.mp hmem with hold | hnew
      · exact h.records other hold
      · rw [List.mem_singleton.mp hnew]
        exact hfinite
  | save hdenotes hfinite => exact ⟨h.holds.replace hdenotes, h.log, hfinite, h.records⟩
  | unlink =>
      refine ⟨h.holds.unlink, rfl, h.base, ?_⟩
      intro record hmem
      cases hmem

theorem WrittenTo.apply_all {effects : List FileEffect} {changes : List Change}
    (heffects : List.Forall₂ (CarriesOut codec) effects changes) {archive : Archive} {files : Files}
    (h : archive.WrittenTo codec files) :
    (archive.applyAll changes).WrittenTo codec (files.applyAll effects) := by
  induction heffects generalizing archive files with
  | nil => exact h
  | cons heffect _ ih => exact ih (h.apply heffect)

/-- What is read back from the files is what was written down. -/
theorem WrittenTo.recover (hlawful : codec.Lawful) (h : archive.WrittenTo codec files) :
    ∃ state, PersistenceManager.recover ⟨codec⟩ files = .ok state ∧
      state.Denotes archive.contents := h.holds.recover hlawful

/-- Records with finite deadlines keep the deadlines finite. -/
theorem finite_perform_all {records : List Record} (hrecords : ∀ record ∈ records, record.Finite)
    {reference : ReferenceStore String String} (h : reference.Finite) :
    ReferenceStore.Finite (Record.performAll records reference) := by
  induction records generalizing reference with
  | nil => exact h
  | cons record rest ih =>
      have hfirst : (record.perform reference).Finite := by
        intro key
        have hrecord := hrecords record List.mem_cons_self
        have hkey := h key
        cases record with
        | set other value =>
            rw [Record.perform, Record.onEntry]
            split
            · intro expiresAt hdeadline
              cases hdeadline
            · exact hkey
        | del other =>
            rw [Record.perform, Record.onEntry]
            split
            · intro expiresAt hdeadline
              cases hdeadline
            · exact hkey
        | expire other deadline =>
            rw [Record.perform, Record.onEntry]
            split
            · cases hentry : reference key with
              | none =>
                  intro expiresAt hdeadline
                  cases hdeadline
              | some entry =>
                  intro expiresAt hdeadline
                  cases hdeadline
                  exact hrecord
            · exact hkey
      exact ih (fun other hmem => hrecords other (List.mem_cons_of_mem _ hmem)) hfirst

theorem WrittenTo.finite (h : archive.WrittenTo codec files) : archive.contents.Finite :=
  finite_perform_all h.records h.base

end Archive

variable [PyHash String]

/-- The store holds what is present in the memory of the journal, and the files were changed the way
it says. -/
structure World.Follows (codec : JsonCodec String) (now : Reading) (world : World String)
    (journal : Journal) : Prop where
  storage : world.storage.Matches now journal.memory
  initial : world.disk.initial = Files.empty
  effects : List.Forall₂ (CarriesOut codec) world.disk.effects journal.changes
  faults : world.disk.faults = journal.faults

/-- In the middle of a step, the clock stands still. -/
structure World.Serves (codec : JsonCodec String) (now : Reading) (world : World String)
    (journal : Journal) : Prop extends world.Follows codec now journal where
  clock : world.storage.expiration.nowFn = Stream'.const now

namespace World

open Py

variable {codec : JsonCodec String} {now : Reading} {world : World String} {journal : Journal}

theorem Follows.written (h : world.Follows codec now journal) :
    journal.archive.WrittenTo codec world.disk.files := by
  rw [Disk.files, h.initial]
  exact Archive.written_empty.apply_all h.effects

/-- An entry that is replaced by what is present of it is as good as before. -/
theorem Serves.unchanged {key : String} {entry : Option (Entry String)}
    (h : world.Serves codec now { journal with
      memory := Function.update journal.memory key entry })
    (hentry : entry = journal.memory.present now key) : world.Serves codec now journal := by
  refine ⟨⟨fun other => ?_, h.initial, h.effects, h.faults⟩, h.clock⟩
  obtain ⟨hconsistent, hfinite, hagree⟩ := h.storage other
  refine ⟨hconsistent, hfinite, fun later hle => (hagree later hle).trans ?_⟩
  show (Function.update journal.memory key entry other).filter _ = _
  by_cases hother : other = key
  · subst hother
    rw [Function.update_self, hentry]
    exact Entry.filter_present _ hle
  · rw [Function.update_of_ne hother]

/-- What is present has finite deadlines. -/
theorem Serves.finite_present (h : world.Serves codec now journal) (key : String) :
    (Slot.ofEntry (journal.memory.present now key)).Finite := by
  have hpresent : (world.storage.slot key).entry.filter (·.present now) =
      journal.memory.present now key := (h.storage key).agree now (Reading.le_refl now)
  rw [← hpresent]
  exact (h.storage key).of_present.finite

/-- A method of the store that fits acts as it does on the entry that is present. -/
theorem Serves.method (h : world.Serves codec now journal) {α : Type} (key : String)
    (op : KeyOp String) {method : Py (InMemoryStore String String) α} (reply : α → KeyReply String)
    (hmethod : InMemoryStore.performKey key op = do return reply (← method))
    (hfits : Entry.Fits (journal.memory.present now key) op) :
    ∃ a after, onStorage method world = (.ok a, after) ∧
      reply a = (Entry.perform now (journal.memory.present now key) op).1 ∧
      after.Serves codec now { journal with
        memory := Function.update journal.memory key
          (Entry.perform now (journal.memory.present now key) op).2 } := by
  have hstill : world.storage.atTime now = world.storage := by
    rw [InMemoryStore.atTime, ← h.clock]
  obtain ⟨after, hrun, hclock, -, hmatches⟩ := h.storage.perform_key key op hfits
  rw [hstill, hmethod, bind_apply] at hrun
  simp only [onStorage, zoom_apply]
  generalize method world.storage = run at hrun
  obtain ⟨result, middle⟩ := run
  cases result with
  | error error => cases hrun
  | ok a =>
      obtain ⟨hreply, rfl⟩ := Prod.mk.inj hrun
      exact ⟨a, _, rfl, Except.ok.inj hreply, ⟨hmatches, h.initial, h.effects, h.faults⟩, hclock⟩

/-- A method that only reads looks at the entry that is present. -/
theorem simulates_find {α : Type} (key : String) (op : KeyOp String)
    {method : Py (InMemoryStore String String) α} (reply : α → KeyReply String)
    (hmethod : InMemoryStore.performKey key op = do return reply (← method))
    (hfits : ∀ found, Entry.Fits found op)
    (hkept : ∀ found : Option (Entry String), (Entry.perform now found op).2 = found) :
    Simulates (Serves codec now) (onStorage method) (Journal.find now key)
      (fun a found world journal => world.Serves codec now journal ∧
        found = journal.memory.present now key ∧ reply a = (Entry.perform now found op).1)
      (Serves codec now) := by
  refine ⟨fun world journal h => ?_⟩
  obtain ⟨a, after, hrun, hreply, hafter⟩ := h.method key op reply hmethod (hfits _)
  rw [hrun]
  exact ⟨hafter.unchanged (hkept _), rfl, hreply⟩

/-- `set` puts a value without a deadline. -/
theorem simulates_assign (key value : String) :
    Simulates (Serves codec now) (onStorage (InMemoryStore.set key value none))
      (Journal.assign key (some ⟨value, none⟩)) (fun _ _ => Serves codec now)
      (Serves codec now) := by
  refine ⟨fun world journal h => ?_⟩
  obtain ⟨a, after, hrun, -, hafter⟩ :=
    h.method key (.set value none) (fun _ : Unit => .done) rfl trivial
  rw [hrun]
  exact hafter

/-- `delete` removes the entry of a key that is present. -/
theorem simulates_remove (key : String) :
    Simulates (Serves codec now) (onStorage (InMemoryStore.delete key)) (Journal.remove now key)
      (fun deleted removed world journal => world.Serves codec now journal ∧
        deleted = if removed then 1 else 0)
      (Serves codec now) := by
  refine ⟨fun world journal h => ?_⟩
  obtain ⟨deleted, after, hrun, hreply, hafter⟩ := h.method key .delete .number rfl trivial
  rw [hrun]
  exact ⟨hafter, KeyReply.number.inj hreply⟩

/-- An `expire` of a key that is present raises if the deadline cannot be computed. -/
theorem Serves.expire_raises (h : world.Serves codec now journal) {key : String}
    (hpresent : (journal.memory.present now key).isSome) {seconds : Int}
    (hlarge : (PyFloat.intLimit : Int) ≤ seconds) :
    ∃ message after, now.time.addInt seconds = .error (.overflowError message) ∧
      onStorage (InMemoryStore.expire key seconds) world =
        (.error (.overflowError message), after) ∧
      after.Serves codec now journal := by
  have hlive : (world.storage.slot key).entry.filter (·.present now) =
      journal.memory.present now key := (h.storage key).agree now (Reading.le_refl now)
  have hpos : (0 : Int) < PyFloat.intLimit := PyFloat.lt_int_limit (by omega)
  have hsum : now.time.addInt seconds =
      .error (.overflowError "int too large to convert to float") := by
    rw [PyFloat.addInt, PyFloat.of_int_overflow (by omega)]
    rfl
  obtain ⟨entry, hentry⟩ := Option.isSome_iff_exists.mp hpresent
  have hsign : ¬ seconds ≤ 0 := by omega
  have hcell : Cell.expire seconds (world.storage.cell key) =
      (.error (.overflowError "int too large to convert to float"),
        ⟨Slot.ofEntry (some entry), Stream'.const now⟩) := by
    have hevict := Cell.evict_at now (h.storage key).consistent
    rw [hlive, hentry] at hevict
    rw [show world.storage.cell key = ⟨world.storage.slot key, world.storage.expiration.nowFn⟩
      from rfl, h.clock]
    simp [Cell.expire, hevict, Cell.inData, Cell.setExpire, Cell.now, hsign, hsum, Slot.ofEntry]
  obtain ⟨after, hrun, hafter, hframe⟩ := (InMemoryStore.local_expire seconds).run hcell
  refine ⟨_, { world with storage := after }, hsum, ?_, ⟨fun other => ?_, h.initial, h.effects,
    h.faults⟩, congrArg Cell.nowFn hafter⟩
  · simp only [onStorage, zoom_apply, hrun]
  · by_cases hother : other = key
    · subst hother
      have hslot : after.slot other = _ := congrArg Cell.toSlot hafter
      have hmatches := (h.storage other).of_present
      rw [hlive, hentry] at hmatches
      rw [show ({ world with storage := after } : World String).storage.slot other =
        after.slot other from rfl, hslot]
      exact hmatches
    · rw [show ({ world with storage := after } : World String).storage.slot other =
        after.slot other from rfl, hframe other hother]
      exact h.storage other

/-- The deadline that a key has after it was moved is a finite time to come. -/
structure Prolonged (now : Reading) (key : String) (deadline : PyFloat) (journal : Journal) :
    Prop where
  finite : ∃ units isDouble, deadline = .finite units isDouble
  found : ∃ value, journal.memory key = some ⟨value, some deadline⟩
  coming : deadline.gt now.time = true

/-- `expire` moves the deadline of a key that is present, or raises. -/
theorem simulates_prolong (key : String) {seconds : Int} (hpos : 0 < seconds) :
    Simulates (Serves codec now) (onStorage (InMemoryStore.expire key seconds))
      (Journal.prolong now key seconds)
      (fun updated deadline world journal => world.Serves codec now journal ∧
        updated = (if deadline.isSome then 1 else 0) ∧
        ∀ moved, deadline = some moved → Prolonged now key moved journal)
      (Serves codec now) := by
  refine ⟨fun world journal h => ?_⟩
  have hsign : ¬ seconds ≤ 0 := by omega
  cases hfound : journal.memory.present now key with
  | none =>
      obtain ⟨updated, after, hrun, hreply, hafter⟩ := h.method key (.expire seconds) .number rfl
        (by rw [hfound]; intro hsome; cases hsome)
      rw [hfound] at hreply hafter
      rw [hrun, Journal.prolong_absent seconds hfound]
      refine ⟨hafter.unchanged hfound.symm, KeyReply.number.inj hreply, ?_⟩
      intro moved hmoved
      cases hmoved
  | some entry =>
      by_cases hfits : seconds < PyFloat.intLimit
      · obtain ⟨units, isDouble, hsum, hdeadline, hlt⟩ := Entry.deadline_after_spec now hpos hfits
        obtain ⟨updated, after, hrun, hreply, hafter⟩ := h.method key (.expire seconds) .number rfl
          fun _ => hfits
        simp only [hfound, Entry.perform, if_neg hsign, hdeadline] at hreply hafter
        rw [hrun, Journal.prolong_ok hfound hsum]
        refine ⟨hafter, KeyReply.number.inj hreply, ?_⟩
        intro moved hmoved
        cases hmoved
        refine ⟨⟨units, isDouble, rfl⟩, ⟨entry.value, Function.update_self _ _ _⟩, ?_⟩
        simp [PyFloat.gt, Reading.time, hlt]
      · obtain ⟨message, after, hsum, hrun, hafter⟩ := h.expire_raises (by rw [hfound]; rfl)
          (Int.not_lt.mp hfits)
        rw [hrun, Journal.prolong_error hfound hsum]
        exact ⟨rfl, hafter⟩

/-- The contents of the store are what is present. -/
theorem simulates_contents :
    Simulates (Serves codec now) (onStorage InMemoryStore.snapshot) Py.get
      (fun contents seen world journal => world.Serves codec now journal ∧ seen = journal ∧
        ReplayState.Denotes ⟨contents.1, contents.2⟩ (journal.memory.present now))
      (Serves codec now) := by
  refine ⟨fun world journal h => ?_⟩
  have hstill : world.storage.atTime now = world.storage := by
    rw [InMemoryStore.atTime, ← h.clock]
  obtain ⟨data, expiresAt, after, hrun, hclock, hafter⟩ :=
    InMemoryStore.snapshot_at now world.storage fun key => (h.storage key).consistent
  have hlive : ∀ key, (world.storage.slot key).entry.filter (·.present now) =
      journal.memory.present now key := fun key => (h.storage key).agree now (Reading.le_refl now)
  rw [hstill] at hrun
  simp only [onStorage, zoom_apply, hrun]
  refine ⟨⟨⟨fun key => ?_, h.initial, h.effects, h.faults⟩, hclock⟩, rfl, fun key => ?_⟩
  · have hmatches := (h.storage key).of_present
    rw [← (hafter key).1] at hmatches
    exact hmatches
  · obtain ⟨-, hvalue, hdeadline⟩ := hafter key
    rw [hvalue, hdeadline, hlive key]
    cases journal.memory.present now key <;> rfl

/-- A file operation happens or fails, as the change it carries out does. -/
theorem simulates_write {effect : FileEffect} {change : Change}
    (heffect : CarriesOut codec effect change) :
    Simulates (Serves codec now) (onDisk (Disk.perform effect)) (Journal.write change)
      (fun _ _ => Serves codec now) (Serves codec now) := by
  refine ⟨fun world journal h => ?_⟩
  simp only [onDisk, zoom_apply, Disk.perform, Journal.write, ← h.faults]
  cases world.disk.faults.head with
  | true => exact ⟨rfl, ⟨h.storage, h.initial, h.effects, rfl⟩, h.clock⟩
  | false =>
      refine ⟨⟨h.storage, h.initial, ?_, rfl⟩, h.clock⟩
      exact List.rel_append h.effects (.cons heffect .nil)

/-- The log is removed if there is one. -/
theorem simulates_reset :
    Simulates (Serves codec now) (onDisk AofPersistence.reset)
      (Py.get >>= fun journal : Journal =>
        if journal.archive.log.isSome then Journal.write .unlink else pure ())
      (fun _ _ => Serves codec now) (Serves codec now) := by
  refine ⟨fun world journal h => ?_⟩
  rw [reset_run, h.written.log, bind_ok (get_apply journal)]
  by_cases hlog : journal.archive.log.isSome
  · rw [if_pos hlog, if_pos hlog]
    exact (simulates_write .unlink).run world journal h
  · rw [if_neg hlog, if_neg hlog]
    exact h

end World

namespace PersistenceManager

open Py World

variable {codec : JsonCodec String} {now : Reading}

/-- A snapshot writes what is present, and starts a new log. -/
theorem simulates_snapshot :
    Simulates (Serves codec now) (snapshot ⟨codec⟩) (Journal.snapshot now)
      (fun _ _ => Serves codec now) (Serves codec now) := by
  refine .bind simulates_contents fun contents seen => ?_
  refine ⟨fun world journal h => ?_⟩
  obtain ⟨data, expiresAt⟩ := contents
  obtain ⟨hserves, rfl, hdenotes⟩ := h
  have heffect : CarriesOut codec
      (.replaceRdb (codec.dumpIndented (RdbPersistence.snapshotJson data expiresAt)))
      (.save (seen.memory.present now)) := .save hdenotes hserves.finite_present
  exact (Simulates.bind (simulates_write heffect) fun _ _ => simulates_reset).run world seen hserves

/-- A record is written. -/
theorem simulates_append (record : Record) (hfinite : record.Finite) :
    Simulates (Serves codec now)
      (onDisk (AofPersistence.append codec record.command (record.args codec)))
      (Journal.log true record) (fun _ _ => Serves codec now) (Serves codec now) := by
  have hwrite : record.command ∈ AofPersistence.writeCommands := by
    cases record with
    | set key value => exact AofPersistence.set_mem
    | del key => exact AofPersistence.del_mem
    | expire key deadline => exact AofPersistence.expire_mem
  rw [AofPersistence.append_eq codec hwrite]
  exact simulates_write (.append hfinite)

/-- The deadline of a key that was moved is looked up and recorded. -/
theorem simulates_record_expire (key : String) (rest : List String) (deadline : PyFloat) :
    Simulates (fun world journal => world.Serves codec now journal ∧
        Prolonged now key deadline journal)
      (recordWrite ⟨codec⟩ "EXPIRE" (key :: rest)) (Journal.log true (.expire key deadline))
      (fun _ _ => Serves codec now) (Serves codec now) := by
  refine ⟨fun world journal h => ?_⟩
  obtain ⟨hserves, hfinite, ⟨value, hfound⟩, hcoming⟩ := h
  have hpresent : journal.memory.present now key = some ⟨value, some deadline⟩ := by
    rw [ReferenceStore.present, hfound, Option.filter_some, Entry.present_some, hcoming]
    rfl
  obtain ⟨found, after, hrun, hreply, hafter⟩ := hserves.method key .getExpireAt .time rfl trivial
  rw [hpresent] at hreply
  obtain rfl : found = some deadline := KeyReply.time.inj hreply
  rw [record_write_expire, bind_ok hrun, Option.elim_some]
  exact (simulates_append (.expire key deadline) hfinite).run after journal (hafter.unchanged rfl)

end PersistenceManager

namespace Dispatcher

open Py World

/-- A dispatcher with or without persistence. -/
def withLog (codec : JsonCodec String) (cluster : Option ClusterCoordinator) (logging : Bool) :
    Dispatcher := ⟨if logging then some ⟨codec⟩ else none, cluster⟩

variable {codec : JsonCodec String} {cluster : Option ClusterCoordinator} {logging : Bool}
  {now : Reading} {args : List String}

/-- With persistence, the manager records. -/
theorem with_log_record :
    (withLog codec cluster true).recordWrite = PersistenceManager.recordWrite ⟨codec⟩ := rfl

/-- Without persistence, nothing is recorded. -/
theorem without_log_record (command : String) (args : List String) :
    (withLog codec cluster false).recordWrite command args = pure () := rfl

theorem simulates_record_set (key value : String) :
    Simulates (Serves codec now) ((withLog codec cluster logging).recordWrite "SET" [key, value])
      (Journal.log logging (.set key value)) (fun _ _ => Serves codec now) (Serves codec now) := by
  cases logging with
  | false =>
      rw [without_log_record]
      exact .pure fun _ _ h => h
  | true =>
      rw [with_log_record, PersistenceManager.record_write_set]
      exact PersistenceManager.simulates_append (.set key value) trivial

theorem simulates_record_del (key : String) :
    Simulates (Serves codec now) ((withLog codec cluster logging).recordWrite "DEL" [key])
      (Journal.log logging (.del key)) (fun _ _ => Serves codec now) (Serves codec now) := by
  cases logging with
  | false =>
      rw [without_log_record]
      exact .pure fun _ _ h => h
  | true =>
      rw [with_log_record, PersistenceManager.record_write_del]
      exact PersistenceManager.simulates_append (.del key) trivial

theorem simulates_record_expire (key : String) (rest : List String) (deadline : PyFloat) :
    Simulates (fun world journal => world.Serves codec now journal ∧
        Prolonged now key deadline journal)
      ((withLog codec cluster logging).recordWrite "EXPIRE" (key :: rest))
      (Journal.log logging (.expire key deadline)) (fun _ _ => Serves codec now)
      (Serves codec now) := by
  cases logging with
  | false =>
      rw [without_log_record]
      exact .pure fun _ _ h => h.1
  | true =>
      rw [with_log_record]
      exact PersistenceManager.simulates_record_expire key rest deadline

/-- The replies are the same. -/
def Agree (codec : JsonCodec String) (now : Reading) (response reply : Response)
    (world : World String) (journal : Journal) : Prop :=
  response = reply ∧ world.Serves codec now journal

/-- The number of arguments is checked first, and the reply says so if it is wrong. -/
theorem simulates_arity (name : String) (expected : Nat) {handler : Py (World String) Response}
    {query : Query}
    (hhandler : Simulates (Serves codec now)
      (Py.exceptValueError handler fun message => pure (Response.ofError message))
      (Journal.answer logging now query) (Agree codec now) (Serves codec now)) :
    Simulates (Serves codec now)
      (Py.exceptValueError (do
        ensureArity name args expected
        handler) fun message => pure (Response.ofError message))
      (Journal.answer logging now (Query.withArity name args expected query)) (Agree codec now)
      (Serves codec now) := by
  refine ⟨fun world journal h => ?_⟩
  by_cases hlength : args.length = expected
  · have hchecked : ensureArity name args expected world = (.ok (), world) := by
      rw [ensureArity, if_neg (not_not.mpr hlength)]
      rfl
    rw [Query.withArity, if_pos hlength, Py.exceptValueError, bind_ok hchecked]
    exact hhandler.run world journal h
  · have hrefused : ensureArity name args expected world = (.error (.valueError
        s!"wrong number of arguments for '{PyText.lower name}' command"), world) := by
      rw [ensureArity, if_pos hlength]
      rfl
    rw [Query.withArity, if_neg hlength, Py.exceptValueError, bind_error hrefused]
    exact ⟨rfl, h⟩

/-- A handler that raises no `ValueError` of its own. -/
theorem simulates_handler (name : String) (expected : Nat) {handler : Py (World String) Response}
    {query : Query}
    (hhandler : Simulates (Serves codec now) handler (Journal.answer logging now query)
      (Agree codec now) (Serves codec now)) :
    Simulates (Serves codec now)
      (Py.exceptValueError (do
        ensureArity name args expected
        handler) fun message => pure (Response.ofError message))
      (Journal.answer logging now (Query.withArity name args expected query)) (Agree codec now)
      (Serves codec now) :=
  simulates_arity name expected (hhandler.handled _ (Journal.raises_answer logging now query))

theorem simulates_set (key value : String) :
    Simulates (Serves codec now)
      (do
        onStorage (InMemoryStore.set key value none)
        (withLog codec cluster logging).recordWrite "SET" [key, value]
        return .simpleString "OK")
      (Journal.answer logging now (.set key value)) (Agree codec now) (Serves codec now) := by
  refine .bind (simulates_assign key value) fun _ _ => ?_
  refine .bind (simulates_record_set key value) fun _ _ => ?_
  exact .pure fun _ _ h => ⟨rfl, h⟩

theorem simulates_get (key : String) :
    Simulates (Serves codec now)
      (do return Response.ofBulkString (← onStorage (InMemoryStore.get key)))
      (Journal.answer logging now (.get key)) (Agree codec now) (Serves codec now) := by
  refine .bind (simulates_find key .get .value rfl (fun _ => trivial) fun _ => rfl)
    fun value found => ?_
  refine .pure fun world journal h => ⟨?_, h.1⟩
  rw [KeyReply.value.inj h.2.2]

theorem simulates_del (key : String) :
    Simulates (Serves codec now)
      (do
        let deleted ← onStorage (InMemoryStore.delete key)
        if deleted ≠ 0 then
          (withLog codec cluster logging).recordWrite "DEL" [key]
        return .integer deleted)
      (Journal.answer logging now (.del key)) (Agree codec now) (Serves codec now) := by
  refine .bind (simulates_remove key) fun deleted removed => ?_
  refine .given (fun _ _ h => h.2) fun hdeleted => .ite ?_ ?_ ?_
  · rw [hdeleted]
    cases removed <;> decide
  · intro hone
    refine .bind ((simulates_record_del key).strengthen fun _ _ h => h.1) fun _ _ => ?_
    refine .pure fun _ _ h => ⟨?_, h⟩
    cases removed with
    | true => rw [hdeleted, if_pos rfl]
    | false => exact absurd hdeleted hone
  · intro hzero
    exact .pure fun _ _ h => ⟨congrArg _ (not_not.mp hzero), h.1⟩

theorem simulates_exists (key : String) :
    Simulates (Serves codec now)
      (do return .integer (← onStorage (InMemoryStore.exists key)))
      (Journal.answer logging now (.exists key)) (Agree codec now) (Serves codec now) := by
  refine .bind (simulates_find key .exists .number rfl (fun _ => trivial) fun _ => rfl)
    fun number found => ?_
  refine .pure fun world journal h => ⟨?_, h.1⟩
  rw [KeyReply.number.inj h.2.2]

theorem simulates_ttl (key : String) :
    Simulates (Serves codec now)
      (do return .integer (← onStorage (InMemoryStore.ttl key)))
      (Journal.answer logging now (.ttl key)) (Agree codec now) (Serves codec now) := by
  have hkept : ∀ found : Option (Entry String), (Entry.perform now found .ttl).2 = found := by
    intro found
    rcases found with _ | ⟨value, _ | deadline⟩ <;> rfl
  refine .bind (simulates_find key .ttl .number rfl (fun _ => trivial) hkept)
    fun number found => ?_
  refine ⟨fun world journal h => ?_⟩
  obtain ⟨hserves, -, hreply⟩ := h
  rcases found with _ | ⟨value, _ | deadline⟩
  · rw [KeyReply.number.inj hreply]
    exact ⟨rfl, hserves⟩
  · rw [KeyReply.number.inj hreply]
    exact ⟨rfl, hserves⟩
  · rw [KeyReply.number.inj hreply]
    exact ⟨rfl, hserves⟩

theorem simulates_expire (key : String) {seconds : Int} (hpos : 0 < seconds) (rest : List String) :
    Simulates (Serves codec now)
      (do
        let updated ← onStorage (InMemoryStore.expire key seconds)
        if updated ≠ 0 then
          (withLog codec cluster logging).recordWrite "EXPIRE" (key :: rest)
        return .integer updated)
      (Journal.answer logging now (.expire key seconds)) (Agree codec now) (Serves codec now) := by
  refine .bind (simulates_prolong key hpos) fun updated deadline => ?_
  refine .given (fun _ _ h => h.2.1) fun hupdated => ?_
  cases deadline with
  | none =>
      obtain rfl : updated = 0 := hupdated
      simp only [ne_eq, not_true_eq_false, if_false]
      exact .pure fun _ _ h => ⟨rfl, h.1⟩
  | some deadline =>
      obtain rfl : updated = 1 := hupdated
      simp only [ne_eq, one_ne_zero, not_false_eq_true, if_true]
      refine .bind ((simulates_record_expire key rest deadline).strengthen
        fun _ _ h => ⟨h.1, h.2.2 deadline rfl⟩) fun _ _ => ?_
      exact .pure fun _ _ h => ⟨rfl, h⟩

theorem simulates_save :
    Simulates (Serves codec now)
      (match (withLog codec cluster logging).persistence with
        | none => pure (Response.ofError "persistence is not enabled")
        | some manager => do
            manager.snapshot
            return .simpleString "OK")
      (Journal.answer logging now .save) (Agree codec now) (Serves codec now) := by
  cases logging with
  | false => exact .pure fun _ _ h => ⟨rfl, h⟩
  | true =>
      refine .bind PersistenceManager.simulates_snapshot fun _ _ => ?_
      exact .pure fun _ _ h => ⟨rfl, h⟩

/-- A command that is served here does what its query does. -/
theorem simulates_execute (command : Command) :
    Simulates (Serves codec now) ((withLog codec cluster logging).execute command)
      (Journal.answer logging now (Query.ofCommand command)) (Agree codec now)
      (Serves codec now) := by
  unfold execute
  generalize hname : command.normalizedName = name
  cases hhandler : (withLog codec cluster logging).handler name command.args with
  | some handler =>
      refine handler_cases (motive := fun handler => Simulates (Serves codec now)
        (Py.exceptValueError handler fun message => pure (Response.ofError message))
        (Journal.answer logging now (Query.ofCommand command)) (Agree codec now)
        (Serves codec now)) hhandler ?_ ?_ ?_ ?_ ?_ ?_ ?_ ?_
      · intro hping
        simp only [Query.ofCommand, hname, hping, reduceIte]
        exact simulates_handler "PING" 0 (.pure fun _ _ h => ⟨rfl, h⟩)
      · intro hset
        simp only [Query.ofCommand, hname, hset, String.reduceEq, reduceIte]
        exact simulates_handler "SET" 2 (simulates_set _ _)
      · intro hget
        simp only [Query.ofCommand, hname, hget, String.reduceEq, reduceIte]
        exact simulates_handler "GET" 1 (simulates_get _)
      · intro hdel
        simp only [Query.ofCommand, hname, hdel, String.reduceEq, reduceIte]
        exact simulates_handler "DEL" 1 (simulates_del _)
      · intro hexists
        simp only [Query.ofCommand, hname, hexists, String.reduceEq, reduceIte]
        exact simulates_handler "EXISTS" 1 (simulates_exists _)
      · intro hexpire
        simp only [Query.ofCommand, hname, hexpire, String.reduceEq, reduceIte]
        refine simulates_arity "EXPIRE" 2 ?_
        show Simulates _ _ (Journal.answer logging now (Query.expireAfter
          (arg command.args 0) (arg command.args 1))) _ _
        unfold Query.expireAfter
        cases PyText.parseInt (arg command.args 1) with
        | none => exact ⟨fun world journal h => ⟨rfl, h⟩⟩
        | some seconds =>
            by_cases hsign : seconds ≤ 0
            · simp only [if_pos hsign]
              exact ⟨fun world journal h => ⟨rfl, h⟩⟩
            · simp only [if_neg hsign]
              exact (simulates_expire _ (by omega) _).handled _
                (Journal.raises_answer logging now _)
      · intro httl
        simp only [Query.ofCommand, hname, httl, String.reduceEq, reduceIte]
        exact simulates_handler "TTL" 1 (simulates_ttl _)
      · intro hsave
        simp only [Query.ofCommand, hname, hsave, String.reduceEq, reduceIte]
        exact simulates_handler "SAVE" 0 simulates_save
  | none =>
      have hquery : Query.ofCommand command = .invalid s!"unknown command '{command.name}'" := by
        unfold handler at hhandler
        simp only [Query.ofCommand, hname]
        split_ifs at hhandler ⊢
        rfl
      rw [hquery]
      exact ⟨fun world journal h => ⟨rfl, h⟩⟩

/-- A command that the routing refuses is answered with its message. -/
theorem simulates_routed (route : Except PyError (Option String))
    {handler : Py (World String) Response} {answer : Py Journal Response}
    (h : Simulates (Serves codec now) handler answer (Agree codec now) (Serves codec now)) :
    Simulates (Serves codec now)
      (do
        match ← Py.ofExcept route with
        | some message => return Response.ofError message
        | none => handler)
      (do
        match ← Py.ofExcept route with
        | some message => return Response.ofError message
        | none => answer)
      (Agree codec now) (Serves codec now) := by
  refine .bind (.ofExcept route) fun refusal other => ?_
  by_cases hsame : refusal = other
  · subst hsame
    cases refusal with
    | some message => exact .pure fun _ _ h => ⟨rfl, h.2⟩
    | none => exact h.strengthen fun _ _ h => h.2
  · exact .absurd fun _ _ h => hsame h.1

/-- A command does to the store and the files what it does to the journal, with the same reply or
the same exception. -/
theorem dispatch_simulates (command : Command) :
    Simulates (Serves codec now) ((withLog codec cluster logging).dispatch command)
      (Journal.dispatch logging now cluster command) (Agree codec now) (Serves codec now) :=
  simulates_routed _ (simulates_execute command)

end Dispatcher

end MiniRedis
