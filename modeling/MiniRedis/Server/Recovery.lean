import MiniRedis.Foundation.Triple
import MiniRedis.Persistence.JsonText
import MiniRedis.Server.Handlers

/-!
# Recovery after a crash

What the files say at any point of a run, and so what a restart after a crash there finds.
`dispatch_outcome` lists what one command can do to the store and to the files together: nothing
that shows, a change with its record, or a snapshot. A run keeps the files in agreement with
the store, at the end of each step and in the middle of it (`disk_recovers_acknowledged`).
-/

namespace MiniRedis

/-- No entry of the reference store has expired. -/
def ReferenceStore.Current (now : Reading) (reference : ReferenceStore String String) : Prop :=
  ∀ key, reference.present now key = reference key

namespace Record

variable {reference : ReferenceStore String String}

theorem perform_set (key value : String) :
    (Record.set key value).perform reference =
      Function.update reference key (some ⟨value, none⟩) := by
  funext other
  by_cases hkey : other = key
  · rw [perform, onEntry, if_pos hkey, hkey, Function.update_self]
  · rw [perform, onEntry, if_neg hkey, Function.update_of_ne hkey]

theorem perform_del (key : String) :
    (Record.del key).perform reference = Function.update reference key none := by
  funext other
  by_cases hkey : other = key
  · rw [perform, onEntry, if_pos hkey, hkey, Function.update_self]
  · rw [perform, onEntry, if_neg hkey, Function.update_of_ne hkey]

theorem perform_expire (key : String) (deadline : PyFloat) :
    (Record.expire key deadline).perform reference = Function.update reference key
      ((reference key).map ({ · with deadline := some deadline })) := by
  funext other
  by_cases hkey : other = key
  · rw [perform, onEntry, if_pos hkey, hkey, Function.update_self]
  · rw [perform, onEntry, if_neg hkey, Function.update_of_ne hkey]

/-- A deadline is recorded only for a key that is present. -/
def Applies (reference : ReferenceStore String String) : Record → Prop
  | .expire key _ => (reference key).isSome
  | _ => True

end Record

/-- Setting a deadline keeps the reference store current. -/
theorem ReferenceStore.current_expire {now : Reading} {reference : ReferenceStore String String}
    (hcurrent : reference.Current now) {key : String} {entry : Entry String}
    (hentry : reference key = some entry) {seconds : Int} (hpos : 0 < seconds)
    (hfits : seconds < PyFloat.intLimit) :
    ((Record.expire key (Entry.deadlineAfter now seconds)).perform reference).Current now := by
  intro other
  rw [ReferenceStore.present, Record.perform_expire]
  by_cases hother : other = key
  · subst hother
    obtain ⟨units, isDouble, -, hafter, hlt⟩ := Entry.deadline_after_spec now hpos hfits
    rw [Function.update_self, hentry, Option.map_some, Option.filter_some, Entry.present_some,
      hafter]
    simp [PyFloat.gt, Reading.time, hlt]
  · rw [Function.update_of_ne hother]
    exact hcurrent other

variable [PyHash String]

/-- A state in the middle of a step: the clock stands still, the store agrees with the reference
store and the files were changed by some operations, of which none fails. -/
structure World.Holds (now : Reading) (reference : ReferenceStore String String)
    (effects : List FileEffect) (world : World String) : Prop where
  clock : world.storage.expiration.nowFn = Stream'.const now
  storage : world.storage.Matches now reference
  disk : world.disk = ⟨Files.empty, effects, Stream'.const false⟩

/-- What a step can do: nothing that shows, a change and its record, or a snapshot. -/
inductive Outcome (codec : JsonCodec String) (now : Reading)
    (reference : ReferenceStore String String) (effects : List FileEffect) (world : World String) :
    Prop where
  | quiet (h : world.Holds now reference effects)
  | recorded (record : Record) (happlies : record.Applies reference)
      (h : world.Holds now (record.perform reference) (effects ++ [.appendAof (record.line codec)]))
  | saved (data : Dict String String) (expiresAt : Dict String PyFloat)
      (hdenotes : ReplayState.Denotes ⟨data, expiresAt⟩ reference)
      (h : world.Holds now reference
        (effects ++ .replaceRdb (codec.dumpIndented (RdbPersistence.snapshotJson data expiresAt)) ::
          if (Files.empty.applyAll effects).aof.isSome then [.unlinkAof] else []))

namespace World

open Py

variable {now : Reading} {reference : ReferenceStore String String} {effects : List FileEffect}

/-- A method of the store that fits acts as it does on the reference store. -/
theorem holds_method {α : Type} (effects : List FileEffect) (hcurrent : reference.Current now)
    (key : String) (op : KeyOp String) {method : Py (InMemoryStore String String) α}
    (reply : α → KeyReply String)
    (hmethod : InMemoryStore.performKey key op = do return reply (← method))
    (hfits : Entry.Fits (reference key) op) :
    Triple (Holds now reference effects) (onStorage method)
      (fun a world => reply a = (Entry.perform now (reference key) op).1 ∧
        world.Holds now (Function.update reference key (Entry.perform now (reference key) op).2)
          effects)
      fun _ _ => False := by
  intro world h
  have hstill : world.storage.atTime now = world.storage := by
    rw [InMemoryStore.atTime, ← h.clock]
  obtain ⟨after, hrun, hclock, -, hmatches⟩ := h.storage.perform_key key op (by
    rw [hcurrent key]
    exact hfits)
  rw [hcurrent key] at hrun hmatches
  rw [hstill, hmethod, Py.bind_apply] at hrun
  simp only [onStorage, zoom_apply]
  generalize method world.storage = run at hrun
  obtain ⟨result, middle⟩ := run
  cases result with
  | error error => cases hrun
  | ok a =>
      obtain ⟨hreply, rfl⟩ := Prod.mk.inj hrun
      exact ⟨Except.ok.inj hreply, hclock, hmatches, h.disk⟩

/-- An `expire` of a key that is present, with a deadline that is too large, raises and does nothing
that shows. -/
theorem holds_expire_overflow {key : String} {seconds : Int} (effects : List FileEffect)
    (hcurrent : reference.Current now) (hlive : (reference key).isSome)
    (hlarge : (PyFloat.intLimit : Int) ≤ seconds) :
    Triple (Holds now reference effects) (onStorage (InMemoryStore.expire key seconds))
      (fun _ _ => False) fun _ => Holds now reference effects := by
  intro world h
  have hpresent : (world.storage.slot key).entry.filter (·.present now) = reference key := by
    rw [← hcurrent key]
    exact (h.storage key).agree now (Reading.le_refl now)
  obtain ⟨message, hcell⟩ := Cell.expire_overflow_at now (h.storage key).consistent (by
    rw [hpresent]
    exact hlive) hlarge
  -- the clock stands still, so the cell of the key is read at `now`
  have hstill : (⟨world.storage.slot key, Stream'.const now⟩ : Cell String) =
      world.storage.cell key := by
    rw [← h.clock]
    rfl
  rw [hstill] at hcell
  obtain ⟨after, hrun, hafter, hframe⟩ := (InMemoryStore.local_expire seconds).run hcell
  simp only [onStorage, zoom_apply, hrun]
  refine ⟨congrArg Cell.nowFn hafter, fun other => ?_, h.disk⟩
  by_cases hother : other = key
  · subst hother
    have hslot : after.slot other = _ := congrArg Cell.toSlot hafter
    rw [hslot]
    exact (h.storage other).of_present
  · rw [hframe other hother]
    exact h.storage other

/-- A file operation is carried out. -/
theorem holds_effect (effect : FileEffect) :
    Triple (Holds now reference effects) (onDisk (Disk.perform effect))
      (fun _ => Holds now reference (effects ++ [effect])) fun _ _ => False := by
  intro world h
  simp only [onDisk, zoom_apply, Disk.perform, h.disk]
  exact ⟨h.clock, h.storage, rfl⟩

/-- A record is appended. -/
theorem holds_append (codec : JsonCodec String) (record : Record) :
    Triple (Holds now reference effects)
      (onDisk (AofPersistence.append codec record.command (record.args codec)))
      (fun _ => Holds now reference (effects ++ [.appendAof (record.line codec)]))
      fun _ _ => False := by
  have hwrite : record.command ∈ AofPersistence.writeCommands := by
    cases record with
    | set key value => exact AofPersistence.set_mem
    | del key => exact AofPersistence.del_mem
    | expire key deadline => exact AofPersistence.expire_mem
  rw [AofPersistence.append_eq codec hwrite]
  exact holds_effect _

/-- The log is removed if there is one. -/
theorem holds_reset :
    Triple (Holds now reference effects) (onDisk AofPersistence.reset)
      (fun _ => Holds now reference
        (effects ++ if (Files.empty.applyAll effects).aof.isSome then [.unlinkAof] else []))
      fun _ _ => False := by
  intro world h
  have hfiles : world.disk.files = Files.empty.applyAll effects := by
    rw [h.disk, Disk.files]
  rw [reset_run, hfiles]
  by_cases hlog : (Files.empty.applyAll effects).aof.isSome
  · rw [if_pos hlog, if_pos hlog]
    exact holds_effect _ world h
  · rw [if_neg hlog, if_neg hlog, List.append_nil]
    exact h

/-- The contents of the store are taken. -/
theorem holds_contents (hcurrent : reference.Current now) :
    Triple (Holds now reference effects) (onStorage InMemoryStore.snapshot)
      (fun contents world => ReplayState.Denotes ⟨contents.1, contents.2⟩ reference ∧
        world.Holds now reference effects)
      fun _ _ => False := by
  intro world h
  have hstill : world.storage.atTime now = world.storage := by
    rw [InMemoryStore.atTime, ← h.clock]
  obtain ⟨data, expiresAt, after, hrun, hclock, hafter⟩ :=
    InMemoryStore.snapshot_at now world.storage fun key => (h.storage key).consistent
  have hlive : ∀ key, (world.storage.slot key).entry.filter (·.present now) = reference key := by
    intro key
    rw [← hcurrent key]
    exact (h.storage key).agree now (Reading.le_refl now)
  rw [hstill] at hrun
  simp only [onStorage, zoom_apply, hrun]
  refine ⟨fun key => ?_, hclock, fun key => ?_, h.disk⟩
  · obtain ⟨-, hvalue, hdeadline⟩ := hafter key
    rw [hvalue, hdeadline, hlive key]
    cases reference key <;> rfl
  · have hmatches := (h.storage key).of_present
    rw [← (hafter key).1] at hmatches
    exact hmatches

end World

namespace PersistenceManager

open Py World

variable {now : Reading} {reference : ReferenceStore String String} {effects : List FileEffect}
  (codec : JsonCodec String)

omit [PyHash String] in
/-- A new snapshot leaves the log alone. -/
theorem aof_replace (content : String) :
    (Files.empty.applyAll (effects ++ [.replaceRdb content])).aof =
      (Files.empty.applyAll effects).aof := by
  rw [Files.applyAll, List.foldl_append]
  rfl

/-- A snapshot does what a step can do. -/
theorem outcome_snapshot (hcurrent : reference.Current now) :
    Triple (Holds now reference effects) (PersistenceManager.snapshot ⟨codec⟩)
      (fun _ => Outcome codec now reference effects) fun _ _ => False := by
  refine .bind (holds_contents hcurrent) fun contents => ?_
  intro world h
  obtain ⟨data, expiresAt⟩ := contents
  obtain ⟨hdenotes, hholds⟩ := h
  refine Triple.bind (holds_effect _) (fun _ => ?_) world hholds
  refine holds_reset.weaken fun _ world h => ?_
  refine .saved data expiresAt hdenotes ?_
  rwa [aof_replace, List.append_assoc, List.singleton_append] at h

theorem outcome_recorded (record : Record) (happlies : record.Applies reference) :
    Triple (Holds now (record.perform reference) effects)
      (onDisk (AofPersistence.append codec record.command (record.args codec)))
      (fun _ => Outcome codec now reference effects) fun _ _ => False :=
  (holds_append codec record).weaken fun _ _ h => .recorded record happlies h

theorem outcome_record_set (key value : String) :
    Triple (Holds now (Function.update reference key (some ⟨value, none⟩)) effects)
      (recordWrite ⟨codec⟩ "SET" [key, value])
      (fun _ => Outcome codec now reference effects) fun _ _ => False := by
  rw [record_write_set, ← Record.perform_set]
  exact outcome_recorded codec (.set key value) trivial

theorem outcome_record_del (key : String) :
    Triple (Holds now (Function.update reference key none) effects)
      (recordWrite ⟨codec⟩ "DEL" [key])
      (fun _ => Outcome codec now reference effects) fun _ _ => False := by
  rw [record_write_del, ← Record.perform_del]
  exact outcome_recorded codec (.del key) trivial

/-- The deadline that is looked up for the record is the one that was set. -/
theorem outcome_record_expire {key : String} {deadline : PyFloat} {entry : Entry String}
    (hentry : reference key = some entry) (rest : List String)
    (hcurrent : ((Record.expire key deadline).perform reference).Current now) :
    Triple (Holds now ((Record.expire key deadline).perform reference) effects)
      (recordWrite ⟨codec⟩ "EXPIRE" (key :: rest))
      (fun _ => Outcome codec now reference effects) fun _ _ => False := by
  have hfound : (Record.expire key deadline).perform reference key =
      some { entry with deadline := some deadline } := by
    rw [Record.perform_expire, Function.update_self, hentry]
    rfl
  have happlies : (Record.expire key deadline).Applies reference := by
    show (reference key).isSome
    rw [hentry]
    rfl
  rw [record_write_expire]
  -- `record_write` reads the deadline back, which is the one that was just set
  refine .bind (holds_method _ hcurrent key .getExpireAt .time rfl trivial) fun found => ?_
  intro world h
  obtain ⟨hreply, hholds⟩ := h
  have hkept : Function.update ((Record.expire key deadline).perform reference) key
      (Entry.perform now ((Record.expire key deadline).perform reference key)
        .getExpireAt).2 = (Record.expire key deadline).perform reference :=
    Function.update_eq_self key _
  rw [hkept] at hholds
  rw [hfound] at hreply
  obtain rfl : found = some deadline := KeyReply.time.inj hreply
  rw [Option.elim_some]
  exact outcome_recorded codec (.expire key deadline) happlies world hholds

end PersistenceManager

namespace Dispatcher

open Py World

variable {now : Reading} {reference : ReferenceStore String String} {effects : List FileEffect}
  (codec : JsonCodec String) (cluster : Option ClusterCoordinator) {args : List String}

theorem outcome_arity (name : String) (expected : Nat) :
    Triple (Holds now reference effects) (ensureArity name args expected)
      (fun _ world => world.Holds now reference effects ∧ args.length = expected)
      fun _ => Outcome codec now reference effects := by
  refine .ite ?_ ?_
  · intro hlength
    exact .raise fun _ h => .quiet h
  · intro hlength
    exact .pure fun _ h => ⟨h, not_not.mp hlength⟩

/-- A method that only reads does nothing that shows. -/
theorem outcome_reading {α : Type} (hcurrent : reference.Current now) (key : String)
    (op : KeyOp String) {method : Py (InMemoryStore String String) α} (reply : α → KeyReply String)
    (hmethod : InMemoryStore.performKey key op = do return reply (← method))
    (hfits : Entry.Fits (reference key) op)
    (hkept : (Entry.perform now (reference key) op).2 = reference key) (expected : Nat)
    (response : α → Response) :
    Triple (fun world => world.Holds now reference effects ∧ args.length = expected)
      (do return response (← onStorage method))
      (fun _ => Outcome codec now reference effects)
      fun _ => Outcome codec now reference effects := by
  have hreads := holds_method effects hcurrent key op reply hmethod hfits
  rw [hkept, Function.update_eq_self] at hreads
  refine .bind (hreads.safe.strengthen fun _ h => h.1) fun found => ?_
  exact .pure fun _ h => .quiet h.2

theorem outcome_set (hcurrent : reference.Current now) :
    Triple (Holds now reference effects) (dispatchSet ⟨some ⟨codec⟩, cluster⟩ args)
      (fun _ => Outcome codec now reference effects)
      fun _ => Outcome codec now reference effects := by
  refine .bind (outcome_arity codec _ _) fun _ => ?_
  intro world h
  obtain ⟨hholds, hlength⟩ := h
  obtain ⟨key, value, rfl⟩ := List.length_eq_two.mp hlength
  have hset := holds_method effects hcurrent key (.set value none)
    (fun _ : Unit => .done) rfl trivial
  refine Triple.bind hset.safe (fun _ => ?_) world hholds
  refine .bind ((PersistenceManager.outcome_record_set codec key value).safe.strengthen
    fun _ h => h.2) fun _ => ?_
  exact .pure fun _ h => h

theorem outcome_del (hcurrent : reference.Current now) :
    Triple (Holds now reference effects) (dispatchDel ⟨some ⟨codec⟩, cluster⟩ args)
      (fun _ => Outcome codec now reference effects)
      fun _ => Outcome codec now reference effects := by
  refine .bind (outcome_arity codec _ _) fun _ => ?_
  have hdelete := holds_method effects hcurrent (arg args 0) .delete .number rfl
    trivial
  refine .bind (hdelete.safe.strengthen fun _ h => h.1) fun deleted => .ite ?_ ?_
  · intro hdeleted
    refine .bind ((PersistenceManager.outcome_record_del codec (arg args 0)).safe.strengthen
      fun _ h => h.2) fun _ => ?_
    exact .pure fun _ h => h
  · intro hdeleted
    refine .pure fun world h => .quiet ?_
    -- nothing was deleted, as there was no entry
    have hnone : reference (arg args 0) = none := by
      have hreply := KeyReply.number.inj h.1
      rw [not_not.mp hdeleted] at hreply
      cases hfound : reference (arg args 0) with
      | none => rfl
      | some entry => simp [hfound] at hreply
    have hkept : Function.update reference (arg args 0) (Entry.perform now
        (reference (arg args 0)) .delete).2 = reference := by
      show Function.update reference (arg args 0) none = reference
      rw [← hnone]
      exact Function.update_eq_self _ _
    rw [hkept] at h
    exact h.2

theorem outcome_expire (hcurrent : reference.Current now) :
    Triple (Holds now reference effects) (dispatchExpire ⟨some ⟨codec⟩, cluster⟩ args)
      (fun _ => Outcome codec now reference effects)
      fun _ => Outcome codec now reference effects := by
  refine .bind (outcome_arity codec _ _) fun _ => ?_
  cases PyText.parseInt (arg args 1) with
  | none => exact .raise fun _ h => .quiet h.1
  | some seconds =>
      refine .ite (fun _ => .raise fun _ h => .quiet h.1) fun hsign => ?_
      -- a deadline that is too large raises, and then nothing is recorded
      by_cases hfits : (reference (arg args 0)).isSome → seconds < PyFloat.intLimit
      · have hexpire := holds_method effects hcurrent (arg args 0) (.expire seconds) .number rfl
          hfits
        refine .bind (hexpire.safe.strengthen fun _ h => h.1) fun updated => ?_
        cases hfound : reference (arg args 0) with
        | none =>
            have hkept : Function.update reference (arg args 0) none = reference := by
              rw [← hfound]
              exact Function.update_eq_self _ _
            simp only [Entry.perform, hkept]
            refine .ite ?_ ?_
            · intro hupdated world h
              exact absurd (KeyReply.number.inj h.1) hupdated
            · intro hupdated
              exact .pure fun _ h => .quiet h.2
        | some entry =>
            have hafter : Function.update reference (arg args 0)
                (some { entry with deadline := some (Entry.deadlineAfter now seconds) }) =
                (Record.expire (arg args 0) (Entry.deadlineAfter now seconds)).perform
                  reference := by
              rw [Record.perform_expire, hfound]
              rfl
            simp only [Entry.perform, if_neg hsign, hafter]
            refine .ite ?_ ?_
            · intro hupdated
              have hlimit : seconds < PyFloat.intLimit := hfits (by simp [hfound])
              have hcurrent' := ReferenceStore.current_expire hcurrent hfound (by omega) hlimit
              refine .bind ((PersistenceManager.outcome_record_expire codec hfound
                [arg args 1] hcurrent').safe.strengthen fun _ h => h.2) fun _ => ?_
              exact .pure fun _ h => h
            · intro hupdated world h
              rw [not_not.mp hupdated] at h
              cases KeyReply.number.inj h.1
      · obtain ⟨hlive, hlarge⟩ := Classical.not_imp.mp hfits
        have hraise := holds_expire_overflow effects hcurrent hlive
          (Int.not_lt.mp hlarge)
        refine .bind (hraise.consequence (fun _ h => h.1) (fun _ _ h => h)
          fun _ _ h => .quiet h) fun updated => ?_
        exact fun _ h => h.elim

theorem outcome_save (hcurrent : reference.Current now) :
    Triple (Holds now reference effects) (dispatchSave ⟨some ⟨codec⟩, cluster⟩ args)
      (fun _ => Outcome codec now reference effects)
      fun _ => Outcome codec now reference effects := by
  refine .bind (outcome_arity codec _ _) fun _ => ?_
  refine .bind ((PersistenceManager.outcome_snapshot codec hcurrent).safe.strengthen
    fun _ h => h.1) fun _ => ?_
  exact .pure fun _ h => h

/-- A handler does what a step can do, whether it returns or raises. -/
theorem outcome_handler (hcurrent : reference.Current now) {name : String}
    {handler : Py (World String) Response}
    (h : (⟨some ⟨codec⟩, cluster⟩ : Dispatcher).handler name args = some handler) :
    Triple (Holds now reference effects) handler (fun _ => Outcome codec now reference effects)
      fun _ => Outcome codec now reference effects := by
  refine handler_cases (motive := fun handler => Triple (Holds now reference effects) handler
    (fun _ => Outcome codec now reference effects) fun _ => Outcome codec now reference effects)
    h ?_ ?_ ?_ ?_ ?_ ?_ ?_ ?_
  · intro hname
    refine .bind (outcome_arity codec _ _) fun _ => ?_
    exact .pure fun _ h => .quiet h.1
  · exact fun _ => outcome_set codec cluster hcurrent
  · intro hname
    refine .bind (outcome_arity codec _ _) fun _ => ?_
    exact outcome_reading codec hcurrent (arg args 0) .get .value rfl trivial rfl 1 _
  · exact fun _ => outcome_del codec cluster hcurrent
  · intro hname
    refine .bind (outcome_arity codec _ _) fun _ => ?_
    exact outcome_reading codec hcurrent (arg args 0) .exists .number rfl trivial rfl 1 _
  · exact fun _ => outcome_expire codec cluster hcurrent
  · intro hname
    refine .bind (outcome_arity codec _ _) fun _ => ?_
    refine outcome_reading codec hcurrent (arg args 0) .ttl .number rfl trivial ?_ 1 _
    rcases reference (arg args 0) with _ | ⟨value, _ | expiresAt⟩ <;> rfl
  · exact fun _ => outcome_save codec cluster hcurrent

/-- A command does what a step can do. -/
theorem dispatch_outcome (hcurrent : reference.Current now) (command : Command)
    {world : World String} (h : world.Holds now reference effects) :
    Outcome codec now reference effects
      ((⟨some ⟨codec⟩, cluster⟩ : Dispatcher).dispatch command world).2 := by
  cases hroute : (⟨some ⟨codec⟩, cluster⟩ : Dispatcher).routeError command with
  | error error =>
      simp only [dispatch, hroute, bind_apply, of_except_apply]
      exact .quiet h
  | ok refusal =>
      cases refusal with
      | some message =>
          rw [dispatch_refused hroute]
          exact .quiet h
      | none =>
          rw [dispatch_local hroute]
          refine Triple.after (P := Holds now reference effects)
            (R := Outcome codec now reference effects) ?_ h
          unfold execute
          split
          · next handler hhandler =>
              refine .exceptValueError (V := fun _ => Outcome codec now reference effects) ?_ ?_
              · refine (outcome_handler codec cluster hcurrent hhandler).weaken_error ?_
                intro error world h
                cases error with
                | valueError message => exact h
                | _ => exact h
              · exact fun message => .pure fun _ h => h
          · exact .pure fun _ h => .quiet h

end Dispatcher

/-- The values and deadlines that a store has under keys that are present at a time. -/
def InMemoryStore.live (store : InMemoryStore String String) (now : Reading) (key : String) :
    Option (Entry String) := (store.slot key).entry.filter (·.present now)

/-- What two dictionaries have under keys without a deadline, or with one after a time. -/
def ReplayState.live (state : ReplayState String) (now : Reading) (key : String) :
    Option (Entry String) :=
  (Slot.mk (state.data.get? key) (state.expiresAt.get? key)).entry.filter (·.present now)

namespace Recovery

/-- A step of a run: a command is dispatched, or the periodic snapshot is due. -/
inductive Event where
  | command (command : Command)
  | snapshot

/-- A run so far: the world, and the store after the last command whose change was recorded. -/
structure Progress where
  world : World String
  recorded : InMemoryStore String String

/-- An empty store and an empty data directory. -/
def start (nowFn : Stream' Reading) : Progress :=
  ⟨⟨InMemoryStore.init nowFn, Disk.reliable Files.empty⟩, InMemoryStore.init nowFn⟩

variable (codec : JsonCodec String) (cluster : Option ClusterCoordinator)

/-- The world after an event, which takes place at a time at which the clock stands still. -/
def perform (world : World String) (now : Reading) (event : Event) : World String :=
  let world := { world with storage := world.storage.atTime now }
  match event with
  | .command command => ((⟨some ⟨codec⟩, cluster⟩ : Dispatcher).dispatch command world).2
  | .snapshot => (PersistenceManager.snapshot ⟨codec⟩ world).2

/-- The operation appends a record. -/
def isAppend : FileEffect → Bool
  | .appendAof _ => true
  | _ => false

/-- What is left of a step that leads to the world `after`, when the first `count` of its file
operations have happened: the files, and the store after the last command whose change was
recorded. -/
def leave (progress : Progress) (after : World String) (count : Nat) :
    Files × InMemoryStore String String :=
  let happened := (after.disk.effects.drop progress.world.disk.effects.length).take count
  (progress.world.disk.files.applyAll happened,
    if happened.any isAppend then after.storage else progress.recorded)

/-- What a crash in the middle of a step leaves. -/
def crash (progress : Progress) (now : Reading) (event : Event) (count : Nat) :
    Files × InMemoryStore String String :=
  leave progress (perform codec cluster progress.world now event) count

/-- A whole step. -/
def step (progress : Progress) (now : Reading) (event : Event) : Progress :=
  let after := perform codec cluster progress.world now event
  ⟨after, (leave progress after after.disk.effects.length).2⟩

/-- Some steps. -/
def run (progress : Progress) : List (Reading × Event) → Progress
  | [] => progress
  | (now, event) :: rest => run (step codec cluster progress now event) rest

/-- The files hold what is present in the store, from a time on. -/
def Durable (now : Reading) (files : Files) (recorded : InMemoryStore String String) : Prop :=
  ∃ base records, files.Holds codec base records ∧
    ∀ key later, now ≤ later →
      (Record.performAll records base key).filter (·.present later) = recorded.live later key

/-- Between two steps, the store and the reference store agree, no key that is present has been
changed since the last record, and the files hold what was recorded. -/
structure Settled (now : Reading) (reference : ReferenceStore String String)
    (effects : List FileEffect) (progress : Progress) : Prop where
  storage : progress.world.storage.Matches now reference
  disk : progress.world.disk = ⟨Files.empty, effects, Stream'.const false⟩
  recorded : ∀ key later, now ≤ later →
    progress.recorded.live later key = (reference key).filter (·.present later)
  durable : Durable codec now progress.world.disk.files progress.recorded

variable {codec} {now : Reading} {files : Files} {recorded : InMemoryStore String String}

/-- What is durable can be recovered. -/
theorem Durable.recover (hlawful : codec.Lawful) (h : Durable codec now files recorded)
    {crashed : Reading} (hle : now ≤ crashed) :
    ∃ state, PersistenceManager.recover ⟨codec⟩ files = .ok state ∧
      ∀ key, state.live crashed key = recorded.live crashed key := by
  obtain ⟨base, records, hholds, hagree⟩ := h
  obtain ⟨state, hrecover, hdenotes⟩ := hholds.recover hlawful
  refine ⟨state, hrecover, fun key => ?_⟩
  rw [ReplayState.live, hdenotes key, Slot.entry_of_entry]
  exact hagree key crashed hle

theorem Durable.later (h : Durable codec now files recorded) {later : Reading}
    (hle : now ≤ later) : Durable codec later files recorded := by
  obtain ⟨base, records, hholds, hagree⟩ := h
  exact ⟨base, records, hholds, fun key last hlast => hagree key last (Reading.le_trans hle hlast)⟩

omit [PyHash String] in
/-- A record does the same to entries that agree from now on. -/
theorem on_entry_agree {record : Record} {reference contents : ReferenceStore String String}
    (hcurrent : reference.Current now) (happlies : record.Applies reference)
    (hagree : ∀ key later, now ≤ later →
      (contents key).filter (·.present later) = (reference key).filter (·.present later))
    (key : String) {later : Reading} (hle : now ≤ later) :
    (record.onEntry key (contents key)).filter (·.present later) =
      (record.onEntry key (reference key)).filter (·.present later) := by
  cases record with
  | set other value =>
      by_cases hkey : key = other
      · rw [Record.onEntry, Record.onEntry, if_pos hkey, if_pos hkey]
      · rw [Record.onEntry, Record.onEntry, if_neg hkey, if_neg hkey]
        exact hagree key later hle
  | del other =>
      by_cases hkey : key = other
      · rw [Record.onEntry, Record.onEntry, if_pos hkey, if_pos hkey]
      · rw [Record.onEntry, Record.onEntry, if_neg hkey, if_neg hkey]
        exact hagree key later hle
  | expire other deadline =>
      by_cases hkey : key = other
      · subst hkey
        -- the key is present, so both entries are the same
        obtain ⟨entry, hentry⟩ := Option.isSome_iff_exists.mp happlies
        have hpresent := hagree key now (Reading.le_refl now)
        have hsame := hcurrent key
        rw [ReferenceStore.present] at hsame
        rw [hsame, hentry] at hpresent
        rw [(Option.filter_eq_some_iff.mp hpresent).1, hentry]
      · rw [Record.onEntry, Record.onEntry, if_neg hkey, if_neg hkey]
        exact hagree key later hle

variable {reference : ReferenceStore String String} {effects : List FileEffect}
  {progress : Progress} {after : World String}

/-- Agreement with what a store records, from a time on. -/
theorem live_of_matches {store : InMemoryStore String String}
    (h : store.Matches now reference) (key : String) {later : Reading} (hle : now ≤ later) :
    store.live later key = (reference key).filter (·.present later) := (h key).agree later hle

/-- The file operations of a step, if the files are as they were otherwise. -/
theorem leave_eq {news : List FileEffect} (hbefore : progress.world.disk.effects = effects)
    (hafter : after.disk.effects = effects ++ news) (count : Nat) :
    leave progress after count = (progress.world.disk.files.applyAll (news.take count),
      if (news.take count).any isAppend then after.storage else progress.recorded) := by
  have hnews : after.disk.effects.drop progress.world.disk.effects.length = news := by
    rw [hafter, hbefore, List.drop_left]
  rw [leave, hnews]

/-- Wherever a step is interrupted, what was recorded is durable. -/
theorem leave_durable (hlawful : codec.Lawful) (hcurrent : reference.Current now)
    (hsettled : Settled codec now reference effects progress)
    (houtcome : Outcome codec now reference effects after) (count : Nat) :
    Durable codec now (leave progress after count).1 (leave progress after count).2 := by
  have hbefore : progress.world.disk.effects = effects := by rw [hsettled.disk]
  obtain ⟨base, records, hholds, hagree⟩ := hsettled.durable
  have hreplayed : ∀ key later, now ≤ later →
      (Record.performAll records base key).filter (·.present later) =
        (reference key).filter (·.present later) := fun key later hle =>
    (hagree key later hle).trans (hsettled.recorded key later hle)
  -- the files are those after the first `count` changes of the step
  cases houtcome with
  | quiet h =>
      have hafter : after.disk.effects = effects ++ [] := by rw [h.disk, List.append_nil]
      rw [leave_eq hbefore hafter, List.take_nil]
      exact hsettled.durable
  | recorded record happlies h =>
      have hafter : after.disk.effects = effects ++ [.appendAof (record.line codec)] := by
        rw [h.disk]
      rw [leave_eq hbefore hafter]
      cases count with
      | zero => exact hsettled.durable
      | succ count =>
          rw [List.take_succ_cons, List.take_nil]
          refine ⟨base, records ++ [record], hholds.append record, fun key later hle => ?_⟩
          have hlive : after.storage.live later key = _ := live_of_matches h.storage key hle
          show (Record.performAll (records ++ [record]) base key).filter _ =
            after.storage.live later key
          rw [hlive, Record.performAll, Record.onEntryAll, List.foldl_append]
          exact on_entry_agree hcurrent happlies hreplayed key hle
  | saved data expiresAt hdenotes h =>
      have hafter : after.disk.effects = effects ++
          .replaceRdb (codec.dumpIndented (RdbPersistence.snapshotJson data expiresAt)) ::
            if (Files.empty.applyAll effects).aof.isSome then [.unlinkAof] else [] := by
        rw [h.disk]
      rw [leave_eq hbefore hafter]
      have hreplaced := hholds.replace hdenotes
      -- the old log is replayed over the new snapshot, which it does not change
      have habsorbed : Durable codec now (progress.world.disk.files.apply
          (.replaceRdb (codec.dumpIndented (RdbPersistence.snapshotJson data expiresAt))))
          progress.recorded := by
        refine ⟨reference, records, hreplaced, fun key later hle => ?_⟩
        have hpresent := hreplayed key now (Reading.le_refl now)
        have hsame := hcurrent key
        rw [ReferenceStore.present] at hsame
        rw [hsame] at hpresent
        rw [hsettled.recorded key later hle, ← hreplayed key later hle, Record.performAll,
          ← hpresent]
        exact Record.absorbs hlawful key records (base key) hle
      cases count with
      | zero => exact hsettled.durable
      | succ count =>
          split
          · cases count with
            | zero => exact habsorbed
            | succ count =>
                rw [List.take_succ_cons, List.take_succ_cons, List.take_nil]
                refine ⟨reference, [], hreplaced.unlink, fun key later hle => ?_⟩
                exact (hsettled.recorded key later hle).symm
          · rw [List.take_succ_cons, List.take_nil]
            exact habsorbed

omit [PyHash String] in
/-- A snapshot appends no record, wherever it is interrupted. -/
theorem saves_append_nothing (content : String) (log : Option Bytes) (count : Nat) :
    ¬ ((FileEffect.replaceRdb content :: if log.isSome then [.unlinkAof] else []).take
      count).any isAppend := by
  match count with
  | 0 => simp
  | 1 => simp [isAppend]
  | count + 2 =>
      rw [List.take_of_length_le (by split <;> simp)]
      split <;> simp [isAppend]

/-- What was recorded when a step is interrupted is what the store had before the step, as long as
no file operation has happened, and what it has after the step from then on. -/
theorem leave_recorded (hsettled : Settled codec now reference effects progress)
    (houtcome : Outcome codec now reference effects after) (count : Nat) (key : String)
    {later : Reading} (hle : now ≤ later) :
    (leave progress after count).2.live later key =
      (if count = 0 then progress.world.storage else after.storage).live later key := by
  have hbefore : progress.world.disk.effects = effects := by rw [hsettled.disk]
  have hstorage := live_of_matches hsettled.storage key hle
  have hrecorded := hsettled.recorded key later hle
  cases houtcome with
  | quiet h =>
      have hafter : after.disk.effects = effects ++ [] := by rw [h.disk, List.append_nil]
      rw [leave_eq hbefore hafter, List.take_nil]
      show progress.recorded.live later key = _
      split
      · rw [hrecorded, hstorage]
      · rw [hrecorded, live_of_matches h.storage key hle]
  | recorded record happlies h =>
      have hafter : after.disk.effects = effects ++ [.appendAof (record.line codec)] := by
        rw [h.disk]
      rw [leave_eq hbefore hafter]
      cases count with
      | zero => exact hrecorded.trans hstorage.symm
      | succ count => rfl
  | saved data expiresAt hdenotes h =>
      have hafter : after.disk.effects = effects ++
          .replaceRdb (codec.dumpIndented (RdbPersistence.snapshotJson data expiresAt)) ::
            if (Files.empty.applyAll effects).aof.isSome then [.unlinkAof] else [] := by
        rw [h.disk]
      -- a snapshot records nothing new, and the store has the same after it
      rw [leave_eq hbefore hafter, if_neg (saves_append_nothing _ _ count)]
      show progress.recorded.live later key = _
      split
      · rw [hrecorded, hstorage]
      · rw [hrecorded, live_of_matches h.storage key hle]

/-- At the end of a step, the run is settled again. -/
theorem step_settled (hlawful : codec.Lawful) (hcurrent : reference.Current now)
    (hsettled : Settled codec now reference effects progress)
    (houtcome : Outcome codec now reference effects after) :
    ∃ referenceAfter effectsAfter, Settled codec now referenceAfter effectsAfter
      ⟨after, (leave progress after after.disk.effects.length).2⟩ := by
  have hbefore : progress.world.disk.effects = effects := by rw [hsettled.disk]
  have hdurable := leave_durable hlawful hcurrent hsettled houtcome after.disk.effects.length
  -- all file operations of the step have happened
  have hall : ∀ news : List FileEffect, after.disk = ⟨Files.empty, effects ++ news,
      Stream'.const false⟩ → leave progress after after.disk.effects.length =
        (after.disk.files, if news.any isAppend then after.storage else progress.recorded) := by
    intro news hdisk
    have hafter : after.disk.effects = effects ++ news := by rw [hdisk]
    have hfiles : after.disk.files = progress.world.disk.files.applyAll news := by
      rw [Disk.files, Disk.files, hdisk, hsettled.disk, Files.applyAll, List.foldl_append]
      rfl
    have hlength : news.length ≤ after.disk.effects.length := by
      rw [hafter, List.length_append]
      exact Nat.le_add_left _ _
    rw [leave_eq hbefore hafter, List.take_of_length_le hlength, hfiles]
  cases houtcome with
  | quiet h =>
      have hleave := hall [] (by rw [h.disk, List.append_nil])
      rw [hleave] at hdurable ⊢
      exact ⟨reference, effects, h.storage, h.disk, hsettled.recorded, hdurable⟩
  | recorded record happlies h =>
      have hleave := hall _ h.disk
      rw [hleave] at hdurable ⊢
      refine ⟨record.perform reference, _, h.storage, h.disk, fun key later hle => ?_, hdurable⟩
      exact live_of_matches h.storage key hle
  | saved data expiresAt hdenotes h =>
      have hleave := hall _ h.disk
      have hquiet : ¬ (FileEffect.replaceRdb
          (codec.dumpIndented (RdbPersistence.snapshotJson data expiresAt)) ::
          if (Files.empty.applyAll effects).aof.isSome then [.unlinkAof] else []).any isAppend := by
        have htwo := saves_append_nothing (codec.dumpIndented
          (RdbPersistence.snapshotJson data expiresAt)) (Files.empty.applyAll effects).aof 2
        rwa [List.take_of_length_le (by split <;> simp)] at htwo
      rw [if_neg hquiet] at hleave
      rw [hleave] at hdurable ⊢
      exact ⟨reference, _, h.storage, h.disk, hsettled.recorded, hdurable⟩

/-- Time passes: what has expired is forgotten. -/
theorem settled_present {last : Reading} (h : Settled codec last reference effects progress)
    (hle : last ≤ now) : Settled codec now (reference.present now) effects progress := by
  have hpresent : ∀ key later, now ≤ later →
      (reference.present now key).filter (·.present later) =
        (reference key).filter (·.present later) := by
    intro key later hlater
    exact Entry.filter_present (reference key) hlater
  refine ⟨fun key => ?_, h.disk, fun key later hlater => ?_, h.durable.later hle⟩
  · have hkey := (h.storage key).later hle
    refine ⟨hkey.consistent, hkey.finite, fun later hlater => ?_⟩
    rw [hpresent key later hlater]
    exact hkey.agree later hlater
  · rw [hpresent key later hlater]
    exact h.recorded key later (Reading.le_trans hle hlater)

omit [PyHash String] in
theorem current_present (reference : ReferenceStore String String) (now : Reading) :
    ReferenceStore.Current now (reference.present now) := by
  intro key
  exact Entry.filter_present (reference key) (Reading.le_refl now)

/-- An event does what a step can do. -/
theorem perform_outcome (cluster : Option ClusterCoordinator) (hcurrent : reference.Current now)
    (hsettled : Settled codec now reference effects progress) (event : Event) :
    Outcome codec now reference effects (perform codec cluster progress.world now event) := by
  have hholds : World.Holds now reference effects
      { progress.world with storage := progress.world.storage.atTime now } :=
    ⟨rfl, hsettled.storage, hsettled.disk⟩
  cases event with
  | command command => exact Dispatcher.dispatch_outcome codec cluster hcurrent command hholds
  | snapshot =>
      exact ((PersistenceManager.outcome_snapshot codec hcurrent).safe).after hholds

/-- The start is settled. -/
theorem settled_start (nowFn : Stream' Reading) (now : Reading) :
    Settled codec now ReferenceStore.empty [] (start nowFn) := by
  have hmatches := InMemoryStore.matches_init nowFn now (K := String) (V := String)
  refine ⟨hmatches, rfl, fun key later hle => live_of_matches hmatches key hle, ?_⟩
  refine ⟨ReferenceStore.empty, [], Files.Holds.empty, fun key later hle => ?_⟩
  exact (live_of_matches hmatches key hle).symm

/-- A run is settled after each step. -/
theorem run_settled (hlawful : codec.Lawful) (cluster : Option ClusterCoordinator)
    (steps : List (Reading × Event))
    {last : Reading} (hsettled : Settled codec last reference effects progress)
    (hclock : (last :: (steps.map Prod.fst ++ [now])).Pairwise (· ≤ ·)) :
    ∃ referenceAfter effectsAfter,
      Settled codec now referenceAfter effectsAfter (run codec cluster progress steps) ∧
        referenceAfter.Current now := by
  induction steps generalizing last reference effects progress with
  | nil =>
      obtain ⟨hle, -⟩ := List.pairwise_cons.mp hclock
      exact ⟨reference.present now, effects,
        settled_present hsettled (hle now List.mem_cons_self), current_present reference now⟩
  | cons step rest ih =>
      obtain ⟨time, event⟩ := step
      obtain ⟨hle, hrest⟩ := List.pairwise_cons.mp hclock
      have hnow := settled_present hsettled (hle time List.mem_cons_self)
      have hcurrent := current_present reference time
      obtain ⟨referenceAfter, effectsAfter, hafter⟩ :=
        step_settled hlawful hcurrent hnow (perform_outcome cluster hcurrent hnow event)
      exact ih hafter hrest

omit [PyHash String] in
/-- A run whose clock never goes back starts at some time. -/
theorem exists_first {times : List Reading} {crashed : Reading}
    (hclock : (times ++ [now, crashed]).Pairwise (· ≤ ·)) :
    now ≤ crashed ∧ ∃ first, (first :: (times ++ [now])).Pairwise (· ≤ ·) := by
  have hend : [now, crashed].Pairwise (· ≤ ·) := hclock.sublist (List.sublist_append_right _ _)
  have hbegin : (times ++ [now]).Pairwise (· ≤ ·) :=
    hclock.sublist ((List.Sublist.refl times).append (by simp))
  refine ⟨(List.pairwise_cons.mp hend).1 crashed List.mem_cons_self, ?_⟩
  cases hnext : times ++ [now] with
  | nil => exact ⟨now, List.pairwise_singleton _ _⟩
  | cons first rest =>
      rw [hnext] at hbegin
      refine ⟨first, List.pairwise_cons.mpr ⟨fun later hlater => ?_, hbegin⟩⟩
      rcases List.mem_cons.mp hlater with rfl | hrest
      · exact Reading.le_refl _
      · exact (List.pairwise_cons.mp hbegin).1 later hrest

/-- After a crash at any point of any run, the files say what was present in the store after the
last command whose change was recorded, the same values and the same deadlines: what the store had
before the step, as long as no file operation of the step has happened (between two steps, or
between a change and its record), and what it has after the step from then on. -/
theorem disk_recovers_acknowledged (hlawful : codec.Lawful) (cluster : Option ClusterCoordinator)
    (nowFn : Stream' Reading) (steps : List (Reading × Event)) (now : Reading) (event : Event)
    (count : Nat) (crashed : Reading)
    (hclock : (steps.map Prod.fst ++ [now, crashed]).Pairwise (· ≤ ·)) :
    let progress := run codec cluster (start nowFn) steps
    let left := crash codec cluster progress now event count
    let storage := if count = 0 then progress.world.storage
      else (perform codec cluster progress.world now event).storage
    ∃ state, PersistenceManager.recover ⟨codec⟩ left.1 = .ok state ∧
      ∀ key, state.live crashed key = left.2.live crashed key ∧
        left.2.live crashed key = storage.live crashed key := by
  intro progress left storage
  obtain ⟨hle, first, hfirst⟩ := exists_first hclock
  obtain ⟨reference, effects, hsettled, hcurrent⟩ :=
    run_settled hlawful cluster steps (settled_start nowFn first) hfirst
  have houtcome := perform_outcome cluster hcurrent hsettled event
  obtain ⟨state, hrecover, hstate⟩ :=
    (leave_durable hlawful hcurrent hsettled houtcome count).recover hlawful hle
  exact ⟨state, hrecover, fun key =>
    ⟨hstate key, leave_recorded hsettled houtcome count key hle⟩⟩

omit [PyHash String] in
/-- A session is opened and given a minute, a snapshot is taken, a draft is opened, and a crash
comes before the end of the session is recorded. -/
theorem disk_recovers_session :
    let _ : PyHash String := ⟨fun key => key.length⟩
    let steps : List (Reading × Event) :=
      [(Reading.atSecond 1, .command ⟨"SET", ["session", "open"]⟩),
        (Reading.atSecond 2, .command ⟨"EXPIRE", ["session", "60"]⟩),
        (Reading.atSecond 3, .snapshot),
        (Reading.atSecond 3, .command ⟨"SET", ["draft", "open"]⟩)]
    let progress := run JsonText.codec none (start (Stream'.const (Reading.atSecond 0))) steps
    let left := crash JsonText.codec none progress (Reading.atSecond 4)
      (.command ⟨"DEL", ["session"]⟩) 0
    let storage := if (0 : Nat) = 0 then progress.world.storage
      else (perform JsonText.codec none progress.world (Reading.atSecond 4)
        (.command ⟨"DEL", ["session"]⟩)).storage
    ∃ state, PersistenceManager.recover ⟨JsonText.codec⟩ left.1 = .ok state ∧
      ∀ key, state.live (Reading.atSecond 5) key = left.2.live (Reading.atSecond 5) key ∧
        left.2.live (Reading.atSecond 5) key = storage.live (Reading.atSecond 5) key := by
  intro _ steps
  refine disk_recovers_acknowledged JsonText.lawful none _ steps _ _ 0 _ ?_
  have hle : ∀ first second : Fin (2 ^ 34), first ≤ second →
      Reading.atSecond first ≤ Reading.atSecond second := fun _ _ h => Reading.at_second_le h
  simp [steps, hle]

end Recovery

end MiniRedis
