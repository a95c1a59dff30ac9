import MiniRedis.Persistence.Restore

/-!
# Deadlines without a value

A snapshot file may give a deadline to a key that has no value. `replay` drops such deadlines
before it goes through the log, but not when there is no log, and then they get into the store: an
operation on such a key later finds the deadline passed, and `pop` raises `KeyError` for the value
that is not there. `restore_consistent_iff` says that this is the only way in which a restored store
comes to have one.
-/

namespace MiniRedis

namespace Cell

variable {V : Type}

/-- With a value for every deadline, no method raises `KeyError`. -/
theorem perform_no_key_error {cell : Cell V} (hconsistent : cell.toSlot.Consistent) (op : KeyOp V) :
    (perform op cell).1 ≠ .error .keyError := by
  have hsetExpire : ∀ (seconds : Int) (other : Cell V),
      (setExpire seconds other).1 ≠ .error .keyError := by
    intro seconds other h
    exact raises_set_expire (P := (· ≠ .keyError)) (fun _ h => by cases h) seconds other _ h rfl
  -- after the eviction there is no deadline without a value, so every `del` finds its key
  have hevict := evict_eq cell hconsistent
  generalize cell.expired cell.nowFn.head = expired at hevict
  generalize cell.purge cell.nowFn.head = purged at hevict
  generalize (if cell.deadline.isSome = true then cell.nowFn.tail else cell.nowFn) = nowFn at hevict
  obtain ⟨value, deadline⟩ := purged
  cases op with
  | set value ex =>
      cases ex with
      | none => simp [perform, set, persist, dropDeadline]
      | some ex =>
          by_cases hsign : ex ≤ 0
          · simp [perform, set, persist, dropDeadline, dropValue, hsign]
          · have hset := hsetExpire ex ⟨⟨some value, none⟩, cell.nowFn⟩
            generalize hrun : setExpire ex (⟨⟨some value, none⟩, cell.nowFn⟩ : Cell V) = run at hset
            obtain ⟨error | done, after⟩ := run
            · simpa [perform, set, persist, dropDeadline, hsign, hrun] using hset
            · simp [perform, set, persist, dropDeadline, hsign, hrun]
  | get => simp [perform, get, hevict]
  | «exists» => simp [perform, «exists», hevict, inData]
  | delete | invalidate =>
      cases value <;> simp [perform, delete, hevict, inData, dropDeadline, dropValue]
  | expire seconds =>
      cases value with
      | none => simp [perform, expire, hevict, inData]
      | some value =>
          have hset := hsetExpire seconds ⟨⟨some value, deadline⟩, nowFn⟩
          generalize hrun :
            setExpire seconds (⟨⟨some value, deadline⟩, nowFn⟩ : Cell V) = run at hset
          obtain ⟨error | done, after⟩ := run
          · simpa [perform, expire, hevict, inData, hrun] using hset
          · simp [perform, expire, hevict, inData, hrun]
  | ttl =>
      have hint : ∀ x : PyFloat, x.toInt ≠ .error .keyError := by
        intro x
        cases x <;> simp [PyFloat.toInt]
      cases expired with
      | true => simp [perform, ttl, hevict]
      | false =>
          cases value with
          | none => simp [perform, ttl, hevict, inData, secondsLeft]
          | some value =>
              cases deadline with
              | none => simp [perform, ttl, hevict, inData, secondsLeft]
              | some expiresAt =>
                  have hleft := hint (expiresAt.sub nowFn.head.time)
                  cases hrun : (expiresAt.sub nowFn.head.time).toInt with
                  | error error =>
                      rw [hrun] at hleft
                      simpa [perform, ttl, hevict, inData, secondsLeft, now, hrun] using hleft
                  | ok left =>
                      by_cases hsign : 0 ≤ left
                      · simp [perform, ttl, hevict, inData, secondsLeft, now, hrun, hsign]
                      · simp [perform, ttl, hevict, inData, secondsLeft, now, hrun, hsign,
                          dropDeadline]
  | getExpireAt =>
      cases deadline with
      | none => simp [perform, getExpireAt, hevict, currentDeadline, isExpired]
      | some expiresAt =>
          cases hgt : expiresAt.gt nowFn.head.time <;>
            simp [perform, getExpireAt, hevict, currentDeadline, isExpired, now, dropDeadline, hgt]

end Cell

namespace InMemoryStore

variable {K V : Type} [PyHash K] [DecidableEq K]

/-- The store with another clock. -/
def withClock (clock : Stream' Reading) (store : InMemoryStore K V) : InMemoryStore K V :=
  { store with expiration := { store.expiration with nowFn := clock } }

/-- Along a run, no call raises `KeyError`. -/
def NeverKeyError (store : InMemoryStore K V) : List (Call K V) → Prop
  | [] => True
  | call :: rest => (store.call call).1 ≠ .error .keyError ∧ NeverKeyError (store.call call).2 rest

/-- With a value for every deadline, no call raises `KeyError`. -/
theorem call_no_key_error {store : InMemoryStore K V} (hconsistent : store.Consistent)
    (call : Call K V) : (store.call call).1 ≠ .error .keyError := by
  rcases call with (⟨key, op⟩ | _) | ⟨data, expiresAt⟩
  · have hcell : (Cell.perform op (store.cell key)).1 ≠ .error .keyError :=
      Cell.perform_no_key_error (hconsistent key) op
    rw [(call_key store key op).1]
    intro h
    cases hresult : (Cell.perform op (store.cell key)).1 with
    | error error =>
        rw [hresult] at h hcell
        cases h
        exact hcell rfl
    | ok reply =>
        rw [hresult] at h
        cases h
  · obtain ⟨data, expiresAt, hrun, -⟩ := call_snapshot store
    rw [hrun]
    exact fun h => by cases h
  · obtain ⟨after, hrun, -⟩ := load_spec store data expiresAt
    simp [call, hrun]

/-- With a value for every deadline, no run raises `KeyError`. -/
theorem never_key_error (calls : List (Call K V)) {store : InMemoryStore K V}
    (hconsistent : store.Consistent) (horphans : ∀ call ∈ calls, call.OrphanFree) :
    store.NeverKeyError calls := by
  induction calls generalizing store with
  | nil => trivial
  | cons call rest ih =>
      have hcall := horphans call List.mem_cons_self
      exact ⟨call_no_key_error hconsistent call, ih (call_consistent hconsistent hcall)
        fun other hmem => horphans other (List.mem_cons_of_mem _ hmem)⟩

end InMemoryStore

/-- Every key with a deadline has a value. -/
def ReplayState.OrphanFree {S : Type} [DecidableEq S] (state : ReplayState S) : Prop :=
  ∀ key, state.data.get? key = none → state.expiresAt.get? key = none

namespace AofPersistence

variable {S : Type} [PyStr S] [DecidableEq S] {codec : JsonCodec S}

omit [PyStr S] in
/-- What `replay` starts from. -/
theorem filtered_orphan_free (base : ReplayState S) : ReplayState.OrphanFree
    { base with expiresAt := base.expiresAt.filter fun key _ => base.data.contains key } := by
  intro key hnone
  simp only at hnone
  rw [Dict.get?_filter, Dict.contains, hnone]
  cases base.expiresAt.get? key <;> rfl

/-- `_apply` brings no deadline without a value. -/
theorem apply_orphan_free {entry : AofEntry S} {state after : ReplayState S}
    (h : state.OrphanFree) (hrun : apply codec entry state = .ok after) : after.OrphanFree := by
  unfold apply at hrun
  split at hrun
  · -- SET
    split at hrun
    · cases hrun
      intro key hnone
      rw [Dict.get?_insert] at hnone
      rw [Dict.get?_erase]
      split at hnone
      · cases hnone
      · next hkey => rw [if_neg hkey, h key hnone]
    · cases hrun
  split at hrun
  · -- DEL
    split at hrun
    · cases hrun
      intro key hnone
      rw [Dict.get?_erase] at hnone
      rw [Dict.get?_erase]
      split at hnone
      · next hkey => rw [if_pos hkey]
      · next hkey => rw [if_neg hkey, h key hnone]
    · cases hrun
  split at hrun
  · -- EXPIRE, of a key that has a value or not
    split at hrun
    · split at hrun
      · next hcontains =>
          split at hrun
          · cases hrun
            intro key hnone
            rw [Dict.get?_insert]
            split
            · next hkey =>
                simp only at hnone
                rw [Dict.contains, ← hkey, hnone] at hcontains
                cases hcontains
            · exact h key hnone
          · cases hrun
      · cases hrun
        exact h
    · cases hrun
  · cases hrun

/-- A line brings no deadline without a value. -/
theorem replay_line_orphan_free {number : Nat} {line : List Char} {state after : ReplayState S}
    (h : state.OrphanFree) (hrun : replayLine codec number line state = .ok after) :
    after.OrphanFree := by
  unfold replayLine at hrun
  split at hrun
  · cases hrun
    exact h
  split at hrun
  · cases hrun
  · cases hrun
  · next value _ =>
      cases hentry : entry codec value with
      | error error =>
          rw [hentry] at hrun
          cases hrun
      | ok entry =>
          rw [hentry] at hrun
          exact apply_orphan_free h hrun

/-- The loop of `replay` brings no deadline without a value. -/
theorem replay_lines_orphan_free {number : Nat} {lines : List (List Char)}
    {state after : ReplayState S} (h : state.OrphanFree)
    (hrun : replayLines codec number lines state = .ok after) : after.OrphanFree := by
  induction lines generalizing number state with
  | nil =>
      cases hrun
      exact h
  | cons line rest ih =>
      rw [replayLines] at hrun
      cases hline : replayLine codec number line state with
      | error error =>
          rw [hline] at hrun
          cases hrun
      | ok middle =>
          rw [hline] at hrun
          exact ih (replay_line_orphan_free h hline) hrun

/-- A log that is there leaves no deadline without a value. -/
theorem replay_orphan_free {base state : ReplayState S} {content : Bytes}
    (hrun : replay codec base (some content) = .ok state) : state.OrphanFree := by
  simp only [replay] at hrun
  split at hrun
  · cases hrun
  · exact replay_lines_orphan_free (filtered_orphan_free base) hrun

/-- An empty log drops the deadlines without a value, and changes nothing else. -/
theorem replay_empty (base : ReplayState S) : replay codec base (some []) = .ok
    { base with expiresAt := base.expiresAt.filter fun key _ => base.data.contains key } := by
  have htext : Bytes.toText? [] = some "" := Bytes.to_text_of_text ""
  have hread : PyText.readText [] = some [] := by
    rw [PyText.readText, htext]
    rfl
  simp only [replay, hread]
  rfl

end AofPersistence

namespace PersistenceManager

open InMemoryStore

variable {S : Type} [PyStr S] [PyHash S] [DecidableEq S]

/-- What the files say and what the restored store makes of it fit together: a missing log is an
empty one, every key with a deadline has a value, and no run of calls at later and later times
raises `KeyError`. -/
structure Coherent (codec : JsonCodec S) (snapshot state : ReplayState S) (aof : Option Bytes)
    (restored : InMemoryStore S S) : Prop where
  missing_is_empty : aof = none → ∃ emptied,
    AofPersistence.replay codec snapshot (some []) = .ok emptied ∧
      ∀ key, state.data.get? key = emptied.data.get? key ∧
        state.expiresAt.get? key = emptied.expiresAt.get? key
  deadlines_have_values : ∀ key, (restored.slot key).deadline ≠ none →
    (restored.slot key).value ≠ none
  never_key_error : ∀ (clock : Stream' Reading) (calls : List (Call S S)),
    (∀ n, clock.get n ≤ clock.get (n + 1)) → (∀ call ∈ calls, call.OrphanFree) →
      (restored.withClock clock).NeverKeyError calls

/-- A restart puts what was recovered into the store. -/
theorem restore_run {manager : PersistenceManager S} {world : World S} {state : ReplayState S}
    (hrecover : manager.recover world.disk.files = .ok state) :
    ∃ restored, manager.restore world = (.ok (), { world with storage := restored }) ∧
      restored = (world.storage.call (.load state.data state.expiresAt)).2 := by
  obtain ⟨restored, hload, -⟩ := load_spec world.storage state.data state.expiresAt
  refine ⟨restored, ?_, by simp [InMemoryStore.call, hload]⟩
  simp only [restore, Py.bind_apply, Py.get_apply, hrecover, Py.of_except_apply,
    World.onStorage, Py.zoom_apply, hload]

/-- A restart from files that can be read gives a coherent store exactly if there is a log or every
deadline of the snapshot belongs to a value. -/
theorem restore_coherent_iff (manager : PersistenceManager S) (world : World S)
    {snapshot state : ReplayState S}
    (hload : RdbPersistence.load manager.codec world.disk.files.rdb = .ok snapshot)
    (hreplay : AofPersistence.replay manager.codec snapshot world.disk.files.aof = .ok state) :
    ∃ after, manager.restore world = (.ok (), after) ∧
      (Coherent manager.codec snapshot state world.disk.files.aof after.storage ↔
        world.disk.files.aof ≠ none ∨ snapshot.OrphanFree) := by
  obtain ⟨restored, hrun, hrestored⟩ := restore_run (recover_eq hload hreplay)
  refine ⟨_, hrun, ?_, ?_⟩
  · -- without a log nothing filters the deadlines of the snapshot
    intro hcoherent
    by_cases hmissing : world.disk.files.aof = none
    · refine .inr fun key hnone => ?_
      obtain ⟨emptied, hempty, hsame⟩ := hcoherent.missing_is_empty hmissing
      rw [hmissing] at hreplay
      obtain rfl : snapshot = state := Except.ok.inj hreplay
      rw [AofPersistence.replay_empty] at hempty
      obtain rfl := Except.ok.inj hempty
      rw [(hsame key).2]
      exact AofPersistence.filtered_orphan_free snapshot key hnone
    · exact .inl hmissing
  · intro hcondition
    have hstate : state.OrphanFree := by
      cases haof : world.disk.files.aof with
      | none =>
          rw [haof] at hreplay
          obtain rfl : snapshot = state := Except.ok.inj hreplay
          exact hcondition.resolve_left fun h => h haof
      -- the replay of a log starts by filtering the deadlines
      | some content =>
          rw [haof] at hreplay
          exact AofPersistence.replay_orphan_free hreplay
    have hconsistent : restored.Consistent := by
      intro key
      have hloaded := loaded_consistent (K := S) hstate world.storage.expiration.nowFn.head key
      rw [hrestored]
      rcases call_load world.storage state.data state.expiresAt key with hsame | habsent
      · rw [hsame]
        exact hloaded
      · rw [habsent]
        exact Slot.consistent_absent
    refine ⟨fun hmissing => ?_, fun key => mt (hconsistent key), fun clock calls _ horphans => ?_⟩
    · refine ⟨_, AofPersistence.replay_empty snapshot, fun key => ?_⟩
      rw [hmissing] at hreplay
      obtain rfl : snapshot = state := Except.ok.inj hreplay
      refine ⟨rfl, ?_⟩
      rw [Dict.get?_filter, Dict.contains]
      cases hvalue : snapshot.data.get? key with
      | none => rw [hstate key hvalue]; rfl
      | some value => cases snapshot.expiresAt.get? key <;> rfl
    · exact InMemoryStore.never_key_error calls hconsistent horphans

/-- The data directory with a snapshot and without a log. -/
def snapshotFiles (data : Dict String String) (expiresAt : Dict String PyFloat) : Files :=
  ⟨some (Bytes.ofText
    (JsonText.codec.dumpIndented (RdbPersistence.snapshotJson data expiresAt))), none⟩

theorem files_snapshot (data : Dict String String) (expiresAt : Dict String PyFloat) :
    (Disk.reliable (snapshotFiles data expiresAt)).files = snapshotFiles data expiresAt := rfl

/-- A snapshot with a session that ends at second 100 is restored coherently. -/
theorem restore_coherent_session :
    let _ : PyHash String := ⟨fun key => key.length⟩
    let world : World String := ⟨InMemoryStore.init (Stream'.const (Reading.atSecond 50)),
      Disk.reliable (snapshotFiles (Dict.empty.insert "session" "open")
        (Dict.empty.insert "session" (Reading.atSecond 100).time))⟩
    ∃ snapshot after, RdbPersistence.load JsonText.codec world.disk.files.rdb = .ok snapshot ∧
      PersistenceManager.restore ⟨JsonText.codec⟩ world = (.ok (), after) ∧
      Coherent JsonText.codec snapshot snapshot world.disk.files.aof after.storage := by
  intro _ world
  obtain ⟨snapshot, hload, hsnapshot⟩ := RdbPersistence.load_indented JsonText.lawful
    (Dict.empty.insert "session" "open")
    (Dict.empty.insert "session" (Reading.atSecond 100).time)
  obtain ⟨after, hrun, hiff⟩ := restore_coherent_iff ⟨JsonText.codec⟩ world hload rfl
  refine ⟨snapshot, after, hload, hrun, hiff.mpr (.inr fun key hnone => ?_)⟩
  rw [(hsnapshot key).1, Dict.get?_insert] at hnone
  rw [(hsnapshot key).2, Dict.get?_insert]
  split at hnone
  · cases hnone
  · next hkey => rw [if_neg hkey, Dict.get?_empty]

/-- A snapshot that gives a deadline to a key without a value is restored with the deadline, and
once it has passed a `get` raises `KeyError`. -/
theorem restore_keeps_ghost :
    let _ : PyHash String := ⟨fun key => key.length⟩
    let world : World String := ⟨InMemoryStore.init (Stream'.const (Reading.atSecond 0)),
      Disk.reliable (snapshotFiles Dict.empty
        (Dict.empty.insert "ghost" (Reading.atSecond 100).time))⟩
    ∃ snapshot after, RdbPersistence.load JsonText.codec world.disk.files.rdb = .ok snapshot ∧
      AofPersistence.replay JsonText.codec snapshot world.disk.files.aof = .ok snapshot ∧
      PersistenceManager.restore ⟨JsonText.codec⟩
        { world with storage := world.storage.atTime (Reading.atSecond 50) } = (.ok (), after) ∧
      (InMemoryStore.get "ghost" (after.storage.atTime (Reading.atSecond 200))).1 =
        .error .keyError ∧
      ¬ Coherent JsonText.codec snapshot snapshot world.disk.files.aof after.storage := by
  intro _ world
  obtain ⟨snapshot, hload, hsnapshot⟩ := RdbPersistence.load_indented JsonText.lawful
    Dict.empty (Dict.empty.insert "ghost" (Reading.atSecond 100).time)
  have hrecover : PersistenceManager.recover ⟨JsonText.codec⟩ world.disk.files = .ok snapshot := by
    rw [files_snapshot]
    exact recover_eq hload rfl
  obtain ⟨after, hrun, hslots⟩ :=
    restore_loaded ⟨JsonText.codec⟩ world (Reading.atSecond 50) hrecover
  have hlater : (Reading.atSecond 100).time.gt (Reading.atSecond 50).time = true :=
    (Reading.at_second_gt 100 50).trans (by decide)
  have hpast : (Reading.atSecond 100).time.gt (Reading.atSecond 200).time = false :=
    (Reading.at_second_gt 100 200).trans (by decide)
  -- the deadline is ahead when the files are loaded, so the load does not filter it
  have hghost : after.storage.slot "ghost" = ⟨none, some (Reading.atSecond 100).time⟩ := by
    rw [hslots, loaded, (hsnapshot _).1, (hsnapshot _).2, Dict.get?_insert, if_pos rfl,
      Option.filter_some, hlater, if_pos rfl, Dict.get?_empty]
  refine ⟨snapshot, after, hload, rfl, hrun, ?_, fun hcoherent => ?_⟩
  · have hcell : Cell.get ((after.storage.atTime (Reading.atSecond 200)).cell "ghost") =
        (.error .keyError, ⟨Slot.absent, Stream'.const (Reading.atSecond 200)⟩) := by
      show Cell.get ⟨after.storage.slot "ghost", Stream'.const (Reading.atSecond 200)⟩ = _
      rw [hghost]
      simp [Cell.get, Cell.evictIfExpired, Cell.isExpired, Cell.now, Cell.dropDeadline,
        Cell.dropValue, hpast, Slot.absent]
    obtain ⟨_, hget, -⟩ := local_get.run hcell
    rw [hget]
  · refine hcoherent.deadlines_have_values "ghost" ?_ ?_
    · rw [hghost]
      exact Option.some_ne_none _
    · rw [hghost]

end PersistenceManager

end MiniRedis
