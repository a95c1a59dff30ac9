import MiniRedis.Persistence.JsonText
import MiniRedis.Storage.Straddle

/-!
# Restarts

What a store that was restored from the files replies later. A `load` drops the deadlines
that have passed before it looks for expired keys, so that a key whose deadline has passed
by then comes back without a deadline. `restart_faithful_iff` says that this is all that goes
wrong.
-/

namespace MiniRedis

namespace Slot

variable {V : Type}

/-- What has expired stays expired. -/
theorem expired_later {slot : Slot V} {now later : Reading} (hle : now ≤ later)
    (h : slot.expired now = true) : slot.expired later = true := by
  obtain ⟨value, deadline⟩ := slot
  cases deadline with
  | none => cases h
  | some expiresAt =>
      cases hgt : expiresAt.gt later.time with
      | true =>
          have hbefore := Reading.gt_of_le hle hgt
          simp [expired, hbefore] at h
      | false => simp [expired, hgt]

/-- At the time `now`, a slot is what it first was, or its value is gone because it had none or
because it had expired. -/
def Fades (first : Slot V) (now : Reading) (slot : Slot V) : Prop :=
  slot = first ∨ slot.value = none ∧ (first.value = none ∨ first.expired now = true)

theorem Fades.later {first slot : Slot V} {now later : Reading} (h : first.Fades now slot)
    (hle : now ≤ later) : first.Fades later slot :=
  h.imp_right fun h => ⟨h.1, h.2.imp_right (expired_later hle)⟩

end Slot

namespace Cell

variable {V : Type}

/-- The clock stands still, so no method straddles. -/
theorem straddle_free (slot : Slot V) (now : Reading) (op : KeyOp V) :
    ¬ (⟨slot, Stream'.const now⟩ : Cell V).Straddles op := by
  intro h
  cases op with
  | ttl =>
      obtain ⟨value, expiresAt, left, hslot, hgt, hleft, hsign⟩ := h
      rw [Stream'.get_const] at hgt hleft
      cases expiresAt with
      | nan => cases hgt
      | infinity negative => cases hleft
      | finite units isDouble =>
          have hlt : now.units < units := by simpa [PyFloat.gt, Reading.time] using hgt
          obtain ⟨seconds, hseconds, hnonneg, -⟩ := now.seconds_left isDouble hlt
          rw [hseconds] at hleft
          cases hleft
          omega
  | getExpireAt =>
      obtain ⟨value, expiresAt, hslot, hgt, hle⟩ := h
      rw [Stream'.get_const] at hgt hle
      rw [hgt] at hle
      cases hle
  | _ => exact h

/-- A method that only reads brings no value. -/
theorem reading_valueless {slot : Slot V} (hvalue : slot.value = none) (nowFn : Stream' Reading)
    (op : KeyOp V) (hop : ¬ op.Rewrites) :
    (perform op (⟨slot, nowFn⟩ : Cell V)).2.value = none ∧
      ∀ value, (perform op (⟨slot, nowFn⟩ : Cell V)).1 ≠ .ok (.value (some value)) := by
  obtain ⟨value, deadline⟩ := slot
  simp only at hvalue
  subst hvalue
  cases deadline with
  | none =>
      have habsent := perform_absent nowFn op (by rintro value ex rfl; exact hop trivial)
      rw [Slot.absent] at habsent
      rw [habsent]
      refine ⟨rfl, ?_⟩
      intro value h
      cases op <;> cases h
  | some expiresAt =>
      cases hgt : expiresAt.gt nowFn.head.time with
      | true =>
          cases op with
          | get => simp [perform, get, evictIfExpired, isExpired, now, hgt]
          | «exists» => simp [perform, «exists», evictIfExpired, isExpired, now, inData, hgt]
          | ttl => simp [perform, ttl, evictIfExpired, isExpired, now, inData, secondsLeft, hgt]
          | getExpireAt =>
              cases hgt' : expiresAt.gt (nowFn.get 1).time <;>
                simp [perform, getExpireAt, evictIfExpired, isExpired, now, currentDeadline,
                  dropDeadline, hgt, hgt']
          | _ => exact absurd trivial hop
      | false =>
          -- the deadline without a value is dropped, and `pop` raises
          cases op with
          | get => simp [perform, get, evictIfExpired, isExpired, now, dropDeadline, dropValue, hgt]
          | «exists» =>
              simp [perform, «exists», evictIfExpired, isExpired, now, dropDeadline, dropValue, hgt]
          | ttl => simp [perform, ttl, evictIfExpired, isExpired, now, dropDeadline, dropValue, hgt]
          | getExpireAt =>
              simp [perform, getExpireAt, evictIfExpired, isExpired, now, dropDeadline, dropValue,
                hgt]
          | _ => exact absurd trivial hop

/-- A method that only reads lets the slot fade. -/
theorem reading_fades {first slot : Slot V} {now : Reading} (h : first.Fades now slot)
    {op : KeyOp V} (hop : ¬ op.Rewrites) :
    first.Fades now (perform op (⟨slot, Stream'.const now⟩ : Cell V)).2.toSlot := by
  cases hvalue : slot.value with
  | none =>
      refine .inr ⟨(reading_valueless hvalue _ op hop).1, ?_⟩
      rcases h with rfl | ⟨-, hgone⟩
      · exact .inl hvalue
      · exact hgone
  | some value =>
      have hsame : slot = first := h.resolve_right fun h => by simp [hvalue] at h
      subst hsame
      have hconsistent : slot.Consistent := fun hnone => by simp [hvalue] at hnone
      rcases (perform_reading hconsistent hop (straddle_free slot now op)).1 with
        hkept | ⟨hexpired, habsent⟩
      · exact .inl hkept
      · refine .inr ⟨?_, .inr hexpired⟩
        rw [habsent]
        rfl

/-- What `get` returns from a slot that fades. -/
theorem get_fading {first slot : Slot V} {now : Reading} (h : first.Fades now slot) (value : V) :
    (get (⟨slot, Stream'.const now⟩ : Cell V)).1 = .ok (some value) ↔
      first.value = some value ∧ first.expired now = false := by
  cases hvalue : slot.value with
  | none =>
      refine iff_of_false ?_ ?_
      · intro hget
        refine (reading_valueless hvalue (Stream'.const now) .get id).2 value ?_
        simp only [perform, Py.bind_apply]
        generalize get (⟨slot, Stream'.const now⟩ : Cell V) = run at hget
        obtain ⟨result, after⟩ := run
        cases hget
        rfl
      · rintro ⟨hfirst, hexpired⟩
        rcases h with rfl | ⟨-, hnone | htrue⟩
        · simp [hvalue] at hfirst
        · simp [hfirst] at hnone
        · simp [hexpired] at htrue
  | some other =>
      have hsame : slot = first := h.resolve_right fun h => by simp [hvalue] at h
      subst hsame
      have hconsistent : slot.Consistent := fun hnone => by simp [hvalue] at hnone
      have hevict := evict_eq ⟨slot, Stream'.const now⟩ hconsistent
      cases hexpired : slot.expired now with
      | true => simp [get, hevict, Slot.purge, hexpired, Slot.absent]
      | false => simp [get, hevict, Slot.purge, hexpired, hvalue]

end Cell

namespace InMemoryStore

variable {K V : Type} [PyHash K] [DecidableEq K]

/-- The store after some calls, each at a time at which the clock stands still. An exception does
not stop the run. -/
def runAt (store : InMemoryStore K V) : List (Reading × Call K V) → InMemoryStore K V
  | [] => store
  | (now, call) :: rest => runAt ((store.atTime now).call call).2 rest

/-- A call that does not write a key lets its slot fade. -/
theorem call_fades {store : InMemoryStore K V} {key : K} {first : Slot V} {now : Reading}
    (h : first.Fades now (store.slot key)) {call : Call K V} (hcall : ¬ call.Rewrites key) :
    first.Fades now (((store.atTime now).call call).2.slot key) := by
  rcases call with (⟨other, op⟩ | _) | ⟨data, expiresAt⟩
  · obtain ⟨-, hslot, hframe⟩ := call_key (store.atTime now) other op
    by_cases hother : key = other
    · subst hother
      rw [hslot]
      exact Cell.reading_fades h fun hop => hcall ⟨rfl, hop⟩
    · rw [hframe key hother]
      exact h
  · obtain ⟨after, hrun, -, hslots⟩ := evict_all_spec (store.atTime now)
    have hslot : ((store.atTime now).call (.op .snapshot)).2.slot key = after.slot key := by
      simp [call, perform, snapshot, hrun, onExpiration, ExpirationManager.snapshot,
        ExpirationManager.now, slot]
    have hkey := hslots key
    rw [hslot]
    split at hkey
    · rw [hkey]
      exact h
    · next hvalue =>
        obtain ⟨index, hindex⟩ := hkey
        have hsame : store.slot key = first := h.resolve_right fun h => hvalue h.1
        rw [hindex]
        show first.Fades now ((store.slot key).purge _)
        rw [show (store.atTime now).expiration.nowFn.get index = now from rfl, hsame, Slot.purge]
        split
        · next hexpired => exact .inr ⟨rfl, .inr hexpired⟩
        · exact .inl rfl
  · exact absurd trivial hcall

/-- Along a run that does not write a key, its slot fades. -/
theorem run_fades (steps : List (Reading × Call K V)) {store : InMemoryStore K V} {key : K}
    {first : Slot V} {now later : Reading} (h : first.Fades now (store.slot key))
    (hclock : (now :: (steps.map Prod.fst ++ [later])).Pairwise (· ≤ ·))
    (hsteps : ∀ step ∈ steps, ¬ step.2.Rewrites key) :
    first.Fades later ((store.runAt steps).slot key) := by
  induction steps generalizing store now with
  | nil =>
      obtain ⟨hle, -⟩ := List.pairwise_cons.mp hclock
      exact h.later (hle later List.mem_cons_self)
  | cons step rest ih =>
      obtain ⟨time, call⟩ := step
      obtain ⟨hle, hrest⟩ := List.pairwise_cons.mp hclock
      have hnow : first.Fades time (store.slot key) := h.later (hle time List.mem_cons_self)
      have hcall : ¬ call.Rewrites key := hsteps _ List.mem_cons_self
      exact ih (call_fades hnow hcall) hrest fun other hmem =>
        hsteps other (List.mem_cons_of_mem _ hmem)

/-- What `get` returns at a time from a store where the slot of the key fades. -/
theorem get_fading {store : InMemoryStore K V} {key : K} {first : Slot V} {now : Reading}
    (h : first.Fades now (store.slot key)) (value : V) :
    (get key (store.atTime now)).1 = .ok (some value) ↔
      first.value = some value ∧ first.expired now = false := by
  obtain ⟨after, hrun, -⟩ := local_get.run
    (Prod.eta (Cell.get ((store.atTime now).cell key))).symm
  rw [hrun]
  exact Cell.get_fading h value

/-- After a `load` at a time at which the clock stands still, every slot is as it was loaded. -/
theorem load_at (store : InMemoryStore K V) (now : Reading) (data : Dict K V)
    (expiresAt : Dict K PyFloat) :
    ∃ after, load data expiresAt (store.atTime now) = (.ok (), after) ∧
      ∀ key, after.slot key = loaded data expiresAt now key := by
  obtain ⟨after, hrun, -, hslots⟩ := load_spec (store.atTime now) data expiresAt
  refine ⟨after, hrun, fun key => ?_⟩
  have hkey := hslots key
  split at hkey
  · exact hkey
  · obtain ⟨index, hindex⟩ := hkey
    have hlive : (loaded data expiresAt now key).expired now = false := by
      cases hdeadline : (loaded data expiresAt now key).deadline with
      | none => simp [Slot.expired, hdeadline]
      | some deadline =>
          have hgt := (Option.mem_filter_iff.mp hdeadline).2
          simp [Slot.expired, hdeadline, hgt]
    rw [hindex]
    show (loaded data expiresAt now key).purge now = _
    rw [Slot.purge, hlive, if_neg Bool.false_ne_true]

end InMemoryStore

namespace PersistenceManager

open InMemoryStore

variable {S : Type} [PyStr S] [PyHash S] [DecidableEq S]

/-- A restored store has what the files say: `get` finds a key as long as its deadline has not
passed, a key whose deadline has passed already is not restored, and a key that is restored keeps
its deadline. -/
structure Faithful (state : ReplayState S) (now : Reading) (restored : InMemoryStore S S) :
    Prop where
  gets : ∀ (key value : S) (steps : List (Reading × Call S S)) (later : Reading),
    (now :: (steps.map Prod.fst ++ [later])).Pairwise (· ≤ ·) →
    (∀ step ∈ steps, ¬ step.2.Rewrites key) →
    ((get key ((restored.runAt steps).atTime later)).1 = .ok (some value) ↔
      state.data.get? key = some value ∧
        ∀ deadline, state.expiresAt.get? key = some deadline → deadline.gt later.time = true)
  dropped : ∀ key deadline, state.expiresAt.get? key = some deadline →
    deadline.gt now.time = false → (restored.slot key).value = none
  kept : ∀ key, (restored.slot key).value ≠ none →
    (restored.slot key).deadline = state.expiresAt.get? key

/-- The deadline of a key that has a value is later than now. -/
def NoneExpired (state : ReplayState S) (now : Reading) : Prop :=
  ∀ key value deadline, state.data.get? key = some value →
    state.expiresAt.get? key = some deadline → deadline.gt now.time = true

omit [PyStr S] [PyHash S] in
/-- Without an expired key, a `load` loses no deadline of a value. -/
theorem loaded_deadline {state : ReplayState S} {now : Reading} (h : NoneExpired state now)
    {key value : S} (hvalue : state.data.get? key = some value) :
    loaded state.data state.expiresAt now key = ⟨some value, state.expiresAt.get? key⟩ := by
  have hdeadline : (state.expiresAt.get? key).filter (·.gt now.time) =
      state.expiresAt.get? key := by
    cases hfound : state.expiresAt.get? key with
    | none => rfl
    | some deadline => simp [h key value deadline hvalue hfound]
  rw [loaded, hvalue, hdeadline]

omit [PyStr S] in
/-- A store that was loaded is faithful exactly if no key has expired. -/
theorem faithful_iff {state : ReplayState S} {now : Reading} {restored : InMemoryStore S S}
    (h : ∀ key, restored.slot key = loaded state.data state.expiresAt now key) :
    Faithful state now restored ↔ NoneExpired state now := by
  refine ⟨?_, ?_⟩
  · intro hfaithful key value deadline hvalue hdeadline
    cases hgt : deadline.gt now.time with
    | true => rfl
    | false =>
        have hdropped := hfaithful.dropped key deadline hdeadline hgt
        rw [h key] at hdropped
        exact absurd (hvalue.symm.trans hdropped) (Option.some_ne_none value)
  · intro hnone
    refine ⟨?_, ?_, ?_⟩
    · intro key value steps later hclock hsteps
      rw [get_fading (run_fades steps (.inl rfl) hclock hsteps), h key]
      cases hvalue : state.data.get? key with
      | none => simp [loaded, hvalue]
      | some found =>
          rw [loaded_deadline hnone hvalue]
          refine and_congr Iff.rfl ?_
          cases hdeadline : state.expiresAt.get? key <;> simp [Slot.expired]
    · intro key deadline hdeadline hgt
      rw [h key]
      refine Option.eq_none_iff_forall_not_mem.mpr fun value hvalue => ?_
      have hlive := hnone key value deadline hvalue hdeadline
      rw [hgt] at hlive
      cases hlive
    · intro key hvalue
      rw [h key] at hvalue ⊢
      obtain ⟨value, hvalue⟩ := Option.ne_none_iff_exists'.mp hvalue
      rw [loaded_deadline hnone hvalue]

omit [PyHash S] in
theorem recover_eq {manager : PersistenceManager S} {files : Files} {snapshot state : ReplayState S}
    (hload : RdbPersistence.load manager.codec files.rdb = .ok snapshot)
    (hreplay : AofPersistence.replay manager.codec snapshot files.aof = .ok state) :
    manager.recover files = .ok state := by
  rw [recover, hload]
  exact hreplay

/-- A restart never raises on files that can be read. -/
theorem restore_loaded (manager : PersistenceManager S) (world : World S) (now : Reading)
    {state : ReplayState S} (hrecover : manager.recover world.disk.files = .ok state) :
    ∃ after, manager.restore { world with storage := world.storage.atTime now } =
        (.ok (), after) ∧
      ∀ key, after.storage.slot key = loaded state.data state.expiresAt now key := by
  obtain ⟨after, hrun, hslots⟩ := load_at world.storage now state.data state.expiresAt
  refine ⟨{ world with storage := after }, ?_, hslots⟩
  simp only [restore, Py.bind_apply, Py.get_apply, hrecover, Py.of_except_apply,
    World.onStorage, Py.zoom_apply, hrun]

/-- A restart never raises on files that can be read, and is faithful exactly if no key has expired
by then: such a key is restored without its deadline. -/
theorem restart_faithful_iff (manager : PersistenceManager S) (world : World S) (now : Reading)
    {snapshot state : ReplayState S}
    (hload : RdbPersistence.load manager.codec world.disk.files.rdb = .ok snapshot)
    (hreplay : AofPersistence.replay manager.codec snapshot world.disk.files.aof = .ok state) :
    ∃ after, manager.restore { world with storage := world.storage.atTime now } =
        (.ok (), after) ∧
      (Faithful state now after.storage ↔ NoneExpired state now) := by
  obtain ⟨after, hrun, hslots⟩ := restore_loaded manager world now (recover_eq hload hreplay)
  exact ⟨after, hrun, faithful_iff hslots⟩

/-- The log of a session that ends at second 100. -/
def sessionLog : List (LogRecord String) := [.set "session" "open", .expire "session" "100.0"]

/-- The data directory with the log of the session. -/
def sessionFiles : Files :=
  ⟨none, some (Bytes.ofText (String.ofList (AofPersistence.logText JsonText.codec sessionLog)))⟩

theorem files_session : (Disk.reliable sessionFiles).files = sessionFiles := rfl

/-- What is replayed from the log of the session. -/
theorem replay_session : ∃ state, AofPersistence.replay JsonText.codec ⟨Dict.empty, Dict.empty⟩
      sessionFiles.aof = .ok state ∧
    ∀ key, state.data.get? key = (if key = "session" then some "open" else none) ∧
      state.expiresAt.get? key =
        if key = "session" then some (Reading.atSecond 100).time else none := by
  have hparse : JsonText.codec.parseFloat "100.0" = some (Reading.atSecond 100).time := by
    have hread := JsonText.read_float_text (Reading.atSecond 100).time
    rw [JsonText.float_text_at_second] at hread
    exact hread
  have hrecords : ∀ record ∈ sessionLog, record.WellFormed JsonText.codec := by
    simp [sessionLog, LogRecord.WellFormed, hparse]
  obtain ⟨state, hreplay, hstate⟩ :=
    AofPersistence.replay_records JsonText.writes_lines hrecords ⟨Dict.empty, Dict.empty⟩
  refine ⟨state, hreplay, fun key => ?_⟩
  rw [hstate.value, hstate.deadline]
  by_cases hkey : key = "session"
  · simp [sessionLog, LogRecord.performAll, LogRecord.perform, LogRecord.change,
      EntryChange.apply, hkey, hparse]
  · simp [sessionLog, LogRecord.performAll, LogRecord.perform, LogRecord.change,
      EntryChange.apply, ReplayState.reference, hkey]

/-- A restart at second 50, while the session is open, is faithful. -/
theorem restart_faithful_session :
    let _ : PyHash String := ⟨fun key => key.length⟩
    let world : World String := ⟨InMemoryStore.init (Stream'.const (Reading.atSecond 0)),
      Disk.reliable sessionFiles⟩
    ∃ state after, PersistenceManager.restore ⟨JsonText.codec⟩
        { world with storage := world.storage.atTime (Reading.atSecond 50) } = (.ok (), after) ∧
      state.expiresAt.get? "session" = some (Reading.atSecond 100).time ∧
      Faithful state (Reading.atSecond 50) after.storage := by
  intro _ world
  obtain ⟨state, hreplay, hstate⟩ := replay_session
  obtain ⟨after, hrun, hiff⟩ := restart_faithful_iff ⟨JsonText.codec⟩ world (Reading.atSecond 50)
    rfl hreplay
  refine ⟨state, after, hrun, by rw [(hstate _).2, if_pos rfl], hiff.mpr ?_⟩
  intro key value deadline hvalue hdeadline
  obtain ⟨hvalues, hdeadlines⟩ := hstate key
  rw [hdeadlines] at hdeadline
  split at hdeadline
  · cases hdeadline
    exact (Reading.at_second_gt 100 50).trans (by decide)
  · cases hdeadline

/-- A restart at second 200 brings the session back, without its deadline. -/
theorem restart_reopens_session :
    let _ : PyHash String := ⟨fun key => key.length⟩
    let world : World String := ⟨InMemoryStore.init (Stream'.const (Reading.atSecond 0)),
      Disk.reliable sessionFiles⟩
    ∃ state after, PersistenceManager.recover ⟨JsonText.codec⟩ world.disk.files = .ok state ∧
      PersistenceManager.restore ⟨JsonText.codec⟩
        { world with storage := world.storage.atTime (Reading.atSecond 200) } = (.ok (), after) ∧
      state.expiresAt.get? "session" = some (Reading.atSecond 100).time ∧
      after.storage.slot "session" = ⟨some "open", none⟩ ∧
      ¬ Faithful state (Reading.atSecond 200) after.storage := by
  intro _ world
  obtain ⟨state, hreplay, hstate⟩ := replay_session
  have hrecover : PersistenceManager.recover ⟨JsonText.codec⟩ world.disk.files = .ok state := by
    rw [files_session]
    exact recover_eq rfl hreplay
  obtain ⟨hvalue, hdeadline⟩ := hstate "session"
  rw [if_pos rfl] at hvalue hdeadline
  have hpast : (Reading.atSecond 100).time.gt (Reading.atSecond 200).time = false :=
    (Reading.at_second_gt 100 200).trans (by decide)
  obtain ⟨after, hrun, hslots⟩ :=
    restore_loaded ⟨JsonText.codec⟩ world (Reading.atSecond 200) hrecover
  refine ⟨state, after, hrecover, hrun, hdeadline, ?_, fun hfaithful => ?_⟩
  · rw [hslots, loaded, hvalue, hdeadline, Option.filter_some, hpast, if_neg Bool.false_ne_true]
  · have hlive := (faithful_iff hslots).mp hfaithful "session" "open" _ hvalue hdeadline
    rw [hpast] at hlive
    cases hlive

end PersistenceManager

end MiniRedis
