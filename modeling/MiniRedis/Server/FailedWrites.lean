import MiniRedis.Server.Recovery

/-!
# Writes whose record fails

A handler of a write changes the store first and appends the record last, and `dispatch` turns
nothing but a `ValueError` into a reply. So an `OSError` of the append goes through it and the
change stays (`failed_append_not_undone`). `Writes` lists what a handler can do: it leaves the files
alone whatever they are, or it appends one line in the end.
-/

namespace MiniRedis

namespace Cell

variable {V : Type} {P : PyError → Prop}

theorem raises_get_expire_at (hkey : P .keyError) :
    Py.RaisesOnly P (getExpireAt : Py (Cell V) (Option PyFloat)) := by
  refine .bind (raises_evict hkey) fun _ => .bind raises_is_expired fun expired => ?_
  exact .ite (.pure none) (.bind .get fun _ => .pure _)

end Cell

namespace World

open Py

variable [PyHash String] {α β : Type}

/-- From a store, whatever the files are, the computation leaves them alone and raises no
`OSError`. -/
def QuietFrom (action : Py (World String) α) (storage : InMemoryStore String String) : Prop :=
  ∃ result after, result ≠ .error .osError ∧
    ∀ disk, action ⟨storage, disk⟩ = (result, ⟨after, disk⟩)

/-- What a computation does from a store, whatever the files are: it leaves them alone, or it
appends a line to the log and returns. -/
inductive Writes (action : Py (World String) α) (storage : InMemoryStore String String) : Prop where
  | quiet (h : QuietFrom action storage)
  | logged (line : String) (a : α) (after : InMemoryStore String String)
      (h : ∀ disk, action ⟨storage, disk⟩ =
        (do
          onDisk (Disk.perform (.appendAof line))
          return a : Py (World String) α) ⟨after, disk⟩)

variable {storage : InMemoryStore String String}

theorem QuietFrom.pure (a : α) : QuietFrom (Pure.pure a) storage :=
  ⟨.ok a, storage, fun h => (by cases h), fun _ => rfl⟩

theorem QuietFrom.raise {error : PyError} (h : error ≠ .osError) :
    QuietFrom (Py.raise error : Py (World String) α) storage :=
  ⟨.error error, storage, fun hsame => h (Except.error.inj hsame), fun _ => rfl⟩

/-- A method of the store raises no `OSError`, and does not know of the files. -/
theorem QuietFrom.method {method : Py (InMemoryStore String String) α}
    (h : RaisesOnly (· ≠ .osError) method) : QuietFrom (onStorage method) storage :=
  ⟨(method storage).1, (method storage).2, fun hraise => h storage _ hraise rfl, fun _ => rfl⟩

/-- A computation goes on after a part that leaves the files alone. -/
theorem Writes.bind {first : Py (World String) α} {next : α → Py (World String) β}
    (hfirst : QuietFrom first storage) (hnext : ∀ a after, Writes (next a) after) :
    Writes (first >>= next) storage := by
  obtain ⟨result, middle, hresult, hrun⟩ := hfirst
  cases result with
  | error error =>
      refine .quiet ⟨.error error, middle, fun h => ?_, fun disk => by rw [bind_error (hrun disk)]⟩
      exact hresult (congrArg Except.error (Except.error.inj h))
  | ok a =>
      have hbind : ∀ disk, (first >>= next) ⟨storage, disk⟩ = next a ⟨middle, disk⟩ :=
        fun disk => bind_ok (hrun disk)
      cases hnext a middle with
      | quiet h =>
          obtain ⟨result, after, hresult, hrest⟩ := h
          exact .quiet ⟨result, after, hresult, fun disk => (hbind disk).trans (hrest disk)⟩
      | logged line b after h => exact .logged line b after fun disk => (hbind disk).trans (h disk)

/-- What is returned may be replaced in the end. -/
theorem Writes.replace {action : Py (World String) α} (h : Writes action storage) (b : β) :
    Writes (do
      let _ ← action
      return b) storage := by
  cases h with
  | quiet h =>
      obtain ⟨result, after, hresult, hrun⟩ := h
      cases result with
      | ok a => exact .quiet ⟨.ok b, after, fun h => (by cases h), fun disk => bind_ok (hrun disk)⟩
      | error error =>
          refine .quiet ⟨.error error, after, fun h => ?_, fun disk => bind_error (hrun disk)⟩
          exact hresult (congrArg Except.error (Except.error.inj h))
  | logged line a after h =>
      refine .logged line b after fun disk => ?_
      simp only [Py.bind_apply, h disk]
      generalize onDisk (Disk.perform (.appendAof line)) (⟨after, disk⟩ : World String) = run
      obtain ⟨result, last⟩ := run
      cases result <;> rfl

theorem Writes.ite {condition : Prop} [Decidable condition] {first second : Py (World String) α}
    (hfirst : Writes first storage) (hsecond : Writes second storage) :
    Writes (if condition then first else second) storage := by
  split
  · exact hfirst
  · exact hsecond

/-- The handler of `ValueError` in `dispatch` lets an `OSError` pass. -/
theorem Writes.exceptValueError {action : Py (World String) α} (h : Writes action storage)
    (handler : String → α) :
    Writes (Py.exceptValueError action fun message => Pure.pure (handler message)) storage := by
  cases h with
  | quiet h =>
      obtain ⟨result, after, hresult, hrun⟩ := h
      cases result with
      | ok a =>
          refine .quiet ⟨.ok a, after, hresult, fun disk => ?_⟩
          simp only [Py.exceptValueError, hrun]
      | error error =>
          cases error with
          | valueError message =>
              refine .quiet ⟨.ok (handler message), after, fun h => (by cases h), fun disk => ?_⟩
              simp only [Py.exceptValueError, hrun]
              rfl
          | _ =>
              refine .quiet ⟨_, after, hresult, fun disk => ?_⟩
              simp only [Py.exceptValueError, hrun]
  | logged line a after h =>
      refine .logged line a after fun disk => ?_
      simp only [Py.exceptValueError, h disk, onDisk, Py.bind_apply, Py.zoom_apply, Disk.perform]
      by_cases hfault : disk.faults.head = true
      · simp only [hfault, if_true]
      · simp only [hfault]
        rfl

end World

namespace PersistenceManager

open World AofPersistence

variable [PyHash String] {storage : InMemoryStore String String}

/-- A record is appended in the end. -/
theorem writes_append (codec : JsonCodec String) {command : String}
    (h : command ∈ AofPersistence.writeCommands) (args : List String) :
    Writes (onDisk (AofPersistence.append codec command args)) storage := by
  refine .logged (AofPersistence.record codec command args) () storage fun disk => ?_
  rw [AofPersistence.append_eq codec h, Py.bind_apply]
  generalize onDisk (Disk.perform _) (⟨storage, disk⟩ : World String) = run
  obtain ⟨result, after⟩ := run
  cases result <;> rfl

/-- `record_write` appends the record in the end. -/
theorem writes_record_write (manager : PersistenceManager String) {command : String}
    (hcommand : command ∈ AofPersistence.writeCommands) (key : String) (rest : List String) :
    Writes (manager.recordWrite command (key :: rest)) storage := by
  unfold recordWrite
  simp only [upper_of_mem hcommand]
  refine .ite (writes_append _ set_mem _) ?_
  refine .ite (writes_append _ del_mem _) ?_
  refine .ite ?_ (.quiet (.raise fun h => by cases h))
  have hmethod : Py.RaisesOnly (· ≠ .osError)
      (InMemoryStore.getExpireAt key : Py (InMemoryStore String String) _) :=
    InMemoryStore.local_get_expire_at.raises (Cell.raises_get_expire_at fun h => by cases h)
  refine .bind (.method hmethod) fun found after => ?_
  cases found with
  | none => exact .quiet (.pure ())
  | some expiresAt => exact writes_append _ expire_mem _

end PersistenceManager

namespace Dispatcher

open World

variable [PyHash String] (manager : PersistenceManager String)
  (cluster : Option ClusterCoordinator) {storage : InMemoryStore String String}

theorem quiet_arity (name : String) (args : List String) (expected : Nat) :
    QuietFrom (ensureArity name args expected) storage := by
  unfold ensureArity
  split
  · exact .raise fun h => by cases h
  · exact .pure ()

theorem writes_set (args : List String) :
    Writes ((⟨some manager, cluster⟩ : Dispatcher).dispatchSet args) storage := by
  have hmethod : Py.RaisesOnly (· ≠ .osError)
      (InMemoryStore.set (arg args 0) (arg args 1) none : Py (InMemoryStore String String) Unit) :=
    (InMemoryStore.local_set _ _).raises
      (Cell.raises_set (fun h => by cases h) (fun _ h => by cases h) _ _)
  refine .bind (quiet_arity _ _ _) fun _ after => ?_
  refine .bind (.method hmethod) fun _ after => ?_
  exact (manager.writes_record_write AofPersistence.set_mem _ [arg args 1]).replace _

theorem writes_del (args : List String) :
    Writes ((⟨some manager, cluster⟩ : Dispatcher).dispatchDel args) storage := by
  have hmethod : Py.RaisesOnly (· ≠ .osError)
      (InMemoryStore.delete (arg args 0) : Py (InMemoryStore String String) Int) :=
    InMemoryStore.local_delete.raises (Cell.raises_delete fun h => by cases h)
  refine .bind (quiet_arity _ _ _) fun _ after => ?_
  refine .bind (.method hmethod) fun deleted after => ?_
  refine .ite ?_ (.quiet (.pure _))
  exact (manager.writes_record_write AofPersistence.del_mem _ []).replace _

theorem writes_expire (args : List String) :
    Writes ((⟨some manager, cluster⟩ : Dispatcher).dispatchExpire args) storage := by
  refine .bind (quiet_arity _ _ _) fun _ after => ?_
  cases PyText.parseInt (arg args 1) with
  | none => exact .quiet (.raise fun h => by cases h)
  | some seconds =>
      have hmethod : Py.RaisesOnly (· ≠ .osError)
          (InMemoryStore.expire (arg args 0) seconds : Py (InMemoryStore String String) Int) :=
        (InMemoryStore.local_expire seconds).raises
          (Cell.raises_expire (fun h => by cases h) (fun _ h => by cases h) seconds)
      refine .ite (.quiet (.raise fun h => by cases h)) ?_
      refine .bind (.method hmethod) fun updated after => ?_
      refine .ite ?_ (.quiet (.pure _))
      exact (manager.writes_record_write AofPersistence.expire_mem _ [arg args 1]).replace _

omit [PyHash String] in
/-- The routing raises nothing but `ValueError`. -/
theorem route_error_value {dispatcher : Dispatcher} {command : Command} {error : PyError}
    (h : dispatcher.routeError command = .error error) :
    ∃ message, error = .valueError message := by
  have hint : ∀ n error, PyText.intText n = .error error →
      ∃ message, error = .valueError message := by
    intro n error h
    unfold PyText.intText at h
    split at h
    · cases h
    · cases h
      exact ⟨_, rfl⟩
  unfold routeError at h
  split at h
  · cases h
  split at h
  · cases h
  next cluster _ _ key _ =>
    simp only [ClusterCoordinator.movedError, bind, Except.bind] at h
    split at h
    · next hroute =>
        simp only [ClusterCoordinator.ownerForKey, ClusterRouter.route] at hroute
        split at hroute
        · cases hroute
          cases h
          exact ⟨_, rfl⟩
        · cases hroute
    split at h
    · cases h
    split at h
    · next hslot =>
        cases h
        exact hint _ _ hslot
    split at h
    · next hport =>
        cases h
        exact hint _ _ hport
    · cases h

/-- A write command leaves the files alone, or appends a line in the end. -/
theorem writes_dispatch {command : Command}
    (hname : command.normalizedName ∈ AofPersistence.writeCommands) :
    Writes ((⟨some manager, cluster⟩ : Dispatcher).dispatch command) storage := by
  cases hroute : (⟨some manager, cluster⟩ : Dispatcher).routeError command with
  | error error =>
      obtain ⟨message, rfl⟩ := route_error_value hroute
      refine .quiet ⟨.error (.valueError message), storage, fun h => (by cases h), fun disk => ?_⟩
      simp only [dispatch, hroute, Py.bind_apply, Py.of_except_apply]
  | ok refusal =>
      cases refusal with
      | some message =>
          exact .quiet ⟨.ok (Response.ofError message), storage, fun h => (by cases h),
            fun disk => dispatch_refused hroute _⟩
      | none =>
          rw [dispatch_local hroute]
          unfold execute
          split
          · next handler hhandler =>
              refine Writes.exceptValueError ?_ _
              simp only [AofPersistence.writeCommands, List.mem_cons, List.not_mem_nil,
                or_false] at hname
              rcases hname with hname | hname | hname <;> rw [hname] at hhandler
              · obtain rfl : dispatchSet ⟨some manager, cluster⟩ command.args = handler :=
                  Option.some.inj hhandler
                exact writes_set manager cluster _
              · obtain rfl : dispatchDel ⟨some manager, cluster⟩ command.args = handler :=
                  Option.some.inj hhandler
                exact writes_del manager cluster _
              · obtain rfl : dispatchExpire ⟨some manager, cluster⟩ command.args = handler :=
                  Option.some.inj hhandler
                exact writes_expire manager cluster _
          · exact .quiet (.pure _)

/-- The command writes a record, as long as no file operation fails. -/
def Records (dispatcher : Dispatcher) (command : Command) (world : World String) : Prop :=
  ∃ line, (dispatcher.dispatch command
    { world with disk := Disk.reliable world.disk.files }).2.disk.effects = [.appendAof line]

/-- The record of the command cannot be appended: `append` raises `OSError`. -/
def AppendFails (dispatcher : Dispatcher) (command : Command) (world : World String) : Prop :=
  dispatcher.Records command world ∧ world.disk.faults.head = true

/-- The command is refused with an error reply, and what the store has is what it had before. -/
def Undone (dispatcher : Dispatcher) (command : Command) (world : World String) : Prop :=
  ∃ message after, dispatcher.dispatch command world = (.ok (.error message), after) ∧
    ∀ key now, after.storage.live now key = world.storage.live now key

/-- `dispatch` raises `OSError` exactly if the record cannot be appended, and then the store is as
it would be if it had been. -/
theorem append_fails_iff {command : Command}
    (hname : command.normalizedName ∈ AofPersistence.writeCommands) (world : World String) :
    let dispatcher : Dispatcher := ⟨some manager, cluster⟩
    dispatcher.AppendFails command world ↔
      ∃ after, dispatcher.dispatch command world = (.error .osError, after) ∧
        after.storage = (dispatcher.dispatch command
          { world with disk := Disk.reliable world.disk.files }).2.storage := by
  intro dispatcher
  have hwrites : Writes (dispatcher.dispatch command) world.storage :=
    writes_dispatch manager cluster hname
  cases hwrites with
  | quiet h =>
      obtain ⟨result, after, hresult, hrun⟩ := h
      refine iff_of_false ?_ ?_
      · rintro ⟨⟨line, heffects⟩, -⟩
        rw [hrun] at heffects
        cases heffects
      · rintro ⟨last, hraise, -⟩
        have hdispatch : dispatcher.dispatch command world = _ := hrun world.disk
        rw [hdispatch] at hraise
        exact hresult (congrArg Prod.fst hraise)
  | logged line response after hrun =>
      have hfaults : (Disk.reliable world.disk.files).faults = Stream'.const false := rfl
      have hreliable : dispatcher.dispatch command
          { world with disk := Disk.reliable world.disk.files } =
            (.ok response, ⟨after, (Disk.reliable world.disk.files).changed (.appendAof line)⟩) := by
        rw [hrun]
        simp only [onDisk, Py.bind_apply, Py.zoom_apply, Disk.perform_run hfaults]
        rfl
      have hdispatch : dispatcher.dispatch command world = _ := hrun world.disk
      rw [AppendFails, Records, hreliable, hdispatch]
      simp only [onDisk, Py.bind_apply, Py.zoom_apply, Disk.perform]
      cases hfault : world.disk.faults.head with
      | true => exact iff_of_true ⟨⟨line, rfl⟩, rfl⟩ ⟨_, rfl, rfl⟩
      | false =>
          refine iff_of_false (fun h => absurd h.2 Bool.false_ne_true) ?_
          rintro ⟨last, hraise, -⟩
          cases congrArg Prod.fst hraise

/-- A write whose record cannot be appended is never undone: `dispatch` raises the `OSError`, and
the store is as it would be if the record had been appended. -/
theorem failed_append_not_undone (command : Command)
    (hname : command.normalizedName ∈ AofPersistence.writeCommands) (world : World String)
    (hfails : (⟨some manager, cluster⟩ : Dispatcher).AppendFails command world) :
    let dispatcher : Dispatcher := ⟨some manager, cluster⟩
    ¬ dispatcher.Undone command world ∧
      ∃ after, dispatcher.dispatch command world = (.error .osError, after) ∧
        after.storage = (dispatcher.dispatch command
          { world with disk := Disk.reliable world.disk.files }).2.storage := by
  intro dispatcher
  obtain ⟨after, hraise, hafter⟩ := (append_fails_iff manager cluster hname world).mp hfails
  refine ⟨?_, after, hraise, hafter⟩
  rintro ⟨message, last, hreturn, -⟩
  rw [hraise] at hreturn
  cases hreturn

/-- An empty store on a disk where every operation fails. -/
def brokenWorld (now : Reading) : World String :=
  ⟨InMemoryStore.init (Stream'.const now), ⟨Files.empty, [], Stream'.const true⟩⟩

/-- The `SET` of a session opens it in the store, and then appends its record. -/
theorem set_session_writes (now : Reading) :
    ∃ line after, after.slot "session" = ⟨some "open", none⟩ ∧
      ∀ disk, (⟨some ⟨JsonText.codec⟩, none⟩ : Dispatcher).dispatch
          ⟨"SET", ["session", "open"]⟩ ⟨(brokenWorld now).storage, disk⟩ =
        (do
          onDisk (Disk.perform (.appendAof line))
          return .simpleString "OK" : Py (World String) Response) ⟨after, disk⟩ := by
  have hname : (⟨"SET", ["session", "open"]⟩ : Command).normalizedName = "SET" := by decide
  have hset : Cell.set "open" none ((brokenWorld now).storage.cell "session") =
      (.ok (), ⟨⟨some "open", none⟩, Stream'.const now⟩) := by
    show Cell.set "open" none ⟨(brokenWorld now).storage.slot "session", _⟩ = _
    simp [brokenWorld, InMemoryStore.slot, InMemoryStore.init, Cell.set, Cell.persist,
      Cell.dropDeadline]
  obtain ⟨after, hrun, hcell, -⟩ := (InMemoryStore.local_set "open" none).run hset
  refine ⟨AofPersistence.record JsonText.codec "SET" ["session", "open"], after,
    congrArg Cell.toSlot hcell, fun disk => ?_⟩
  have hstore : onStorage (InMemoryStore.set "session" "open" none)
      ⟨(brokenWorld now).storage, disk⟩ = (.ok (), ⟨after, disk⟩) := by
    rw [onStorage, Py.zoom_apply, hrun]
  have hrecord : (⟨some ⟨JsonText.codec⟩, none⟩ : Dispatcher).recordWrite "SET"
        ["session", "open"] =
      onDisk (Disk.perform (.appendAof
        (AofPersistence.record JsonText.codec "SET" ["session", "open"]))) := by
    simp only [recordWrite, PersistenceManager.record_write_set,
      AofPersistence.append_eq _ AofPersistence.set_mem]
  rw [dispatch_local rfl]
  cases hfault : disk.faults.head with
  | true =>
      simp [execute, handler, hname, dispatchSet, ensureArity, arg, hstore, hrecord,
        Py.exceptValueError, onDisk, Disk.perform, hfault]
  | false =>
      simp [execute, handler, hname, dispatchSet, ensureArity, arg, hstore, hrecord,
        Py.exceptValueError, onDisk, Disk.perform, hfault]

omit [PyHash String] in
/-- A session stays open after its `SET` has raised since its record could not be appended. -/
theorem set_session_not_undone :
    let _ : PyHash String := ⟨fun key => key.length⟩
    let dispatcher : Dispatcher := ⟨some ⟨JsonText.codec⟩, none⟩
    let world : World String := brokenWorld (Reading.atSecond 0)
    dispatcher.AppendFails ⟨"SET", ["session", "open"]⟩ world ∧
      ¬ dispatcher.Undone ⟨"SET", ["session", "open"]⟩ world ∧
      ∃ after, dispatcher.dispatch ⟨"SET", ["session", "open"]⟩ world =
          (.error .osError, after) ∧
        world.storage.live (Reading.atSecond 0) "session" = none ∧
        after.storage.live (Reading.atSecond 0) "session" = some ⟨"open", none⟩ := by
  intro _ dispatcher world
  obtain ⟨line, after, hslot, hrun⟩ := set_session_writes (Reading.atSecond 0)
  have hraise : dispatcher.dispatch ⟨"SET", ["session", "open"]⟩ world =
      (.error .osError, ⟨after, { world.disk with faults := world.disk.faults.tail }⟩) :=
    hrun world.disk
  refine ⟨⟨⟨line, ?_⟩, rfl⟩, ?_, _, hraise, ?_, ?_⟩
  · exact congrArg (fun run => run.2.disk.effects) (hrun (Disk.reliable Files.empty))
  · rintro ⟨message, last, hreturn, -⟩
    rw [hraise] at hreturn
    cases hreturn
  · simp [InMemoryStore.live, world, brokenWorld, InMemoryStore.slot, InMemoryStore.init,
      Slot.entry]
  · simp [InMemoryStore.live, hslot, Slot.entry, Entry.present]

omit [PyHash String] in
/-- The session that stays open: its `SET` is not undone, and leaves the store as if it had been
recorded. -/
theorem failed_append_not_undone_session :
    let _ : PyHash String := ⟨fun key => key.length⟩
    let dispatcher : Dispatcher := ⟨some ⟨JsonText.codec⟩, none⟩
    let world : World String := brokenWorld (Reading.atSecond 0)
    ¬ dispatcher.Undone ⟨"SET", ["session", "open"]⟩ world ∧
      ∃ after, dispatcher.dispatch ⟨"SET", ["session", "open"]⟩ world = (.error .osError, after) ∧
        after.storage = (dispatcher.dispatch ⟨"SET", ["session", "open"]⟩
          { world with disk := Disk.reliable world.disk.files }).2.storage := by
  intro _ dispatcher world
  obtain ⟨line, after, -, hrun⟩ := set_session_writes (Reading.atSecond 0)
  have hreliable := hrun (Disk.reliable Files.empty)
  refine failed_append_not_undone ⟨JsonText.codec⟩ none _ (by decide) _ ⟨⟨line, ?_⟩, rfl⟩
  exact congrArg (fun run => run.2.disk.effects) hreliable

end Dispatcher

end MiniRedis
