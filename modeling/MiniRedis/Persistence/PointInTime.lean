import Mathlib.Data.List.TakeWhile
import MiniRedis.Persistence.JsonText
import MiniRedis.Storage.Straddle

/-!
# Snapshots while the clock moves

`snapshot` checks one key after the other, each with a reading of its own, and then leaves out the
deadlines that have passed by one more reading. A deadline in between belongs to a key that was
kept: its value gets into the snapshot, its deadline does not. `snapshot_point_in_time_iff` says
that nothing else can go wrong.
-/

namespace MiniRedis

namespace InMemoryStore

variable {K V : Type} [PyHash K] [DecidableEq K]

/-- The reading at which `snapshot` checks a key. -/
def checkReading (store : InMemoryStore K V) (key : K) : Reading :=
  store.checkedAt store.data.keys key

/-- The last reading of `snapshot`. -/
def lastReading (store : InMemoryStore K V) : Reading :=
  store.expiration.nowFn.get (store.readings store.data.keys)

/-- The deadline of a value lies between the check of its key and the last reading. -/
def FallsBetween (store : InMemoryStore K V) (key : K) : Prop :=
  ∃ value deadline, store.slot key = ⟨some value, some deadline⟩ ∧
    deadline.gt (store.checkReading key).time = true ∧ deadline.gt store.lastReading.time = false

/-- A deadline without a value lies after the last reading. -/
def OutlivesValue (store : InMemoryStore K V) (key : K) : Prop :=
  ∃ deadline, store.slot key = ⟨none, some deadline⟩ ∧
    deadline.gt store.lastReading.time = true

/-- The two dictionaries of a snapshot describe the store at one point in time: a key comes with its
deadline, a deadline with its key, and what has not expired by the last reading is there. -/
structure PointInTime (store : InMemoryStore K V) (data : Dict K V) (expiresAt : Dict K PyFloat) :
    Prop where
  keeps_deadlines : ∀ key deadline, data.get? key ≠ none →
    (store.slot key).deadline = some deadline → expiresAt.get? key = some deadline
  deadlines_have_values : ∀ key, expiresAt.get? key ≠ none → data.get? key ≠ none
  keeps_values : ∀ key value, (store.slot key).value = some value →
    (∀ deadline, (store.slot key).deadline = some deadline →
      deadline.gt store.lastReading.time = true) → data.get? key = some value

/-- The slot of a key as the eviction loop of `snapshot` leaves it. -/
def evicted (store : InMemoryStore K V) (key : K) : Slot V :=
  if (store.slot key).value = none then store.slot key
  else (store.slot key).purge (store.checkReading key)

/-- What a snapshot has under each key. -/
theorem snapshot_spec (store : InMemoryStore K V) :
    ∃ data expiresAt after, snapshot store = (.ok (data, expiresAt), after) ∧
      ∀ key, data.get? key = (store.evicted key).value ∧
        expiresAt.get? key = (store.evicted key).deadline.filter (·.gt store.lastReading.time) := by
  obtain ⟨middle, hrun, hclock, hslots⟩ := evict_all_exact store
  have hlast : middle.expiration.nowFn.head = store.lastReading := by
    rw [hclock]
    exact Stream'.head_drop _ _
  refine ⟨Dict.ofList middle.data.items,
    middle.expiration.expiresAt.filter fun _ expiresAt => expiresAt.gt store.lastReading.time,
    { middle with expiration := { middle.expiration with nowFn := middle.expiration.nowFn.tail } },
    ?_, fun key => ?_⟩
  · simp [snapshot, hrun, onExpiration, ExpirationManager.snapshot, ExpirationManager.now, hlast]
  · have hslot : middle.slot key = store.evicted key := hslots key
    rw [Dict.get?_ofList middle.data.nodup_items, Table.lookup_items, Dict.get?_filter, ← hslot]
    exact ⟨rfl, rfl⟩

/-- A key is checked before the last reading is taken. -/
theorem check_le_last {store : InMemoryStore K V}
    (hclock : ∀ n, store.expiration.nowFn.get n ≤ store.expiration.nowFn.get (n + 1)) (key : K) :
    store.checkReading key ≤ store.lastReading := by
  have hmono : ∀ first count,
      store.expiration.nowFn.get first ≤ store.expiration.nowFn.get (first + count) := by
    intro first count
    induction count with
    | zero => exact Reading.le_refl _
    | succ count ih => exact Reading.le_trans ih (hclock _)
  have hle : store.readings (store.data.keys.takeWhile (· ≠ key)) ≤
      store.readings store.data.keys :=
    (List.takeWhile_sublist _).countP_le
  obtain ⟨count, hcount⟩ := Nat.exists_eq_add_of_le hle
  rw [checkReading, checkedAt, lastReading, hcount]
  exact hmono _ count

variable {store : InMemoryStore K V} {data : Dict K V} {expiresAt : Dict K PyFloat}

/-- A snapshot describes one point in time exactly if no deadline falls between the check of its key
and the last reading, and none outlives its value. -/
theorem point_in_time_iff
    (hclock : ∀ n, store.expiration.nowFn.get n ≤ store.expiration.nowFn.get (n + 1))
    (hdata : ∀ key, data.get? key = (store.evicted key).value)
    (hexpires : ∀ key, expiresAt.get? key =
      (store.evicted key).deadline.filter (·.gt store.lastReading.time)) :
    PointInTime store data expiresAt ↔
      ∀ key, ¬ store.FallsBetween key ∧ ¬ store.OutlivesValue key := by
  refine ⟨fun h key => ⟨?_, ?_⟩, fun h => ⟨?_, ?_, ?_⟩⟩
  · rintro ⟨value, deadline, hslot, hcheck, hlast⟩
    have hevicted : store.evicted key = ⟨some value, some deadline⟩ := by
      simp [evicted, hslot, Slot.purge, Slot.expired, hcheck]
    have hkept := h.keeps_deadlines key deadline (by simp [hdata, hevicted]) (by rw [hslot])
    rw [hexpires, hevicted, Option.filter_some, hlast] at hkept
    cases hkept
  · rintro ⟨deadline, hslot, hlast⟩
    have hevicted : store.evicted key = ⟨none, some deadline⟩ := by simp [evicted, hslot]
    refine h.deadlines_have_values key ?_ ?_
    · rw [hexpires, hevicted, Option.filter_some, hlast]
      exact Option.some_ne_none _
    · rw [hdata, hevicted]
  · intro key deadline hvalue hdeadline
    rw [hdata, evicted] at hvalue
    rw [hexpires, evicted]
    split at hvalue
    · next hnone => exact absurd hnone hvalue
    · next hsome =>
        obtain ⟨value, hsome⟩ := Option.ne_none_iff_exists'.mp hsome
        have hslot : store.slot key = ⟨some value, some deadline⟩ := by
          rw [← hsome, ← hdeadline]
        -- the key survived its check, so its deadline is later than the last reading
        cases hcheck : deadline.gt (store.checkReading key).time with
        | false => simp [hslot, Slot.purge, Slot.expired, hcheck, Slot.absent] at hvalue
        | true =>
            cases hlast : deadline.gt store.lastReading.time with
            | false => exact absurd ⟨value, deadline, hslot, hcheck, hlast⟩ (h key).1
            | true => simp [hslot, Slot.purge, Slot.expired, hcheck, hlast]
  · intro key hdeadline
    rw [hexpires, evicted] at hdeadline
    rw [hdata, evicted]
    split at hdeadline
    · next hnone =>
        obtain ⟨deadline, hfound⟩ := Option.ne_none_iff_exists'.mp hdeadline
        obtain ⟨hdeadline, hlast⟩ := Option.filter_eq_some_iff.mp hfound
        exact absurd ⟨deadline, by rw [← hnone, ← hdeadline], hlast⟩ (h key).2
    · next hsome =>
        rw [if_neg hsome]
        rw [Slot.purge] at hdeadline ⊢
        split
        · next hexpired => simp [hexpired, Slot.absent] at hdeadline
        · exact hsome
  · intro key value hvalue hlast
    have hlive : (store.slot key).expired (store.checkReading key) = false := by
      rw [Slot.expired]
      cases hdeadline : (store.slot key).deadline with
      | none => rfl
      | some deadline =>
          simp [Reading.gt_of_le (check_le_last hclock key) (hlast deadline hdeadline)]
    rw [hdata, evicted, hvalue, if_neg (Option.some_ne_none value), Slot.purge, hlive,
      if_neg Bool.false_ne_true, hvalue]

end InMemoryStore

namespace PersistenceManager

open InMemoryStore

variable {S : Type} [PyStr S] [PyHash S] [DecidableEq S]

/-- A snapshot writes the two dictionaries that the store returns, and removes the log. -/
theorem snapshot_run (manager : PersistenceManager S) {world : World S}
    (hfaults : world.disk.faults = Stream'.const false) {data : Dict S S}
    {expiresAt : Dict S PyFloat} {storage : InMemoryStore S S}
    (hrun : InMemoryStore.snapshot world.storage = (.ok (data, expiresAt), storage)) :
    ∃ disk, manager.snapshot world = (.ok (), ⟨storage, disk⟩) ∧
      disk.files = ⟨some (Bytes.ofText
        (manager.codec.dumpIndented (RdbPersistence.snapshotJson data expiresAt))), none⟩ := by
  -- the RDB file is replaced first, and the log is removed after it
  have hsave : RdbPersistence.save manager.codec data expiresAt world.disk =
      (.ok (), world.disk.changed (.replaceRdb
        (manager.codec.dumpIndented (RdbPersistence.snapshotJson data expiresAt)))) :=
    Disk.perform_run hfaults _
  generalize hsaved : world.disk.changed (.replaceRdb
    (manager.codec.dumpIndented (RdbPersistence.snapshotJson data expiresAt))) = saved at hsave
  have hrdb : saved.files.rdb = some (Bytes.ofText
      (manager.codec.dumpIndented (RdbPersistence.snapshotJson data expiresAt))) := by
    rw [← hsaved, Disk.files_changed]
    rfl
  have hsavedFaults : saved.faults = Stream'.const false := by
    rw [← hsaved]
    exact hfaults
  have hsnapshot : manager.snapshot world = ((AofPersistence.reset saved).1,
      ⟨storage, (AofPersistence.reset saved).2⟩) := by
    simp only [snapshot, World.onStorage, World.onDisk, Py.bind_apply, Py.zoom_apply, hrun, hsave]
  rw [hsnapshot]
  cases haof : saved.files.aof with
  | none =>
      have hreset : AofPersistence.reset saved = (.ok (), saved) := by
        simp [AofPersistence.reset, haof]
      rw [hreset]
      exact ⟨saved, rfl, by rw [← hrdb, ← haof]⟩
  | some content =>
      have hreset : AofPersistence.reset saved = (.ok (), saved.changed .unlinkAof) := by
        simp [AofPersistence.reset, haof, Disk.perform_run hsavedFaults]
      rw [hreset]
      refine ⟨_, rfl, ?_⟩
      rw [Disk.files_changed, Files.apply, hrdb]

/-- The snapshot that takes the place of the log describes one point in time exactly if no deadline
falls between the check of its key and the last reading, and none outlives its value. -/
theorem snapshot_point_in_time_iff (manager : PersistenceManager S) (world : World S)
    (hfaults : world.disk.faults = Stream'.const false)
    (hclock : ∀ n, world.storage.expiration.nowFn.get n ≤
      world.storage.expiration.nowFn.get (n + 1)) :
    ∃ data expiresAt after,
      InMemoryStore.snapshot world.storage = (.ok (data, expiresAt), after.storage) ∧
      manager.snapshot world = (.ok (), after) ∧
      after.disk.files = ⟨some (Bytes.ofText
        (manager.codec.dumpIndented (RdbPersistence.snapshotJson data expiresAt))), none⟩ ∧
      (PointInTime world.storage data expiresAt ↔
        ∀ key, ¬ world.storage.FallsBetween key ∧ ¬ world.storage.OutlivesValue key) := by
  obtain ⟨data, expiresAt, storage, hrun, hslots⟩ := snapshot_spec world.storage
  obtain ⟨disk, hsnapshot, hfiles⟩ := snapshot_run manager hfaults hrun
  exact ⟨data, expiresAt, ⟨storage, disk⟩, hrun, hsnapshot, hfiles,
    point_in_time_iff hclock (fun key => (hslots key).1) fun key => (hslots key).2⟩

/-- A session of a minute and a draft of two minutes, on a clock that goes on at each reading for
half a minute: a snapshot describes one point in time. -/
theorem snapshot_point_in_time_session :
    let _ : PyHash String := ⟨fun key => key.length⟩
    let clock : Stream' Reading := fun n => Reading.atSecond (Fin.ofNat _ (min n 30))
    let opened : InMemoryStore String String :=
      ((init clock).call (.op (.key "session" (.set "open" (some 60))))).2
    let drafted := (opened.call (.op (.key "draft" (.set "text" (some 120))))).2
    let world : World String := ⟨drafted, Disk.reliable Files.empty⟩
    ∃ data expiresAt after,
      InMemoryStore.snapshot world.storage = (.ok (data, expiresAt), after.storage) ∧
      PersistenceManager.snapshot ⟨JsonText.codec⟩ world = (.ok (), after) ∧
      PointInTime world.storage data expiresAt := by
  intro _ clock opened drafted world
  have hsession : clock.head.time.addInt 60 = .ok (Reading.atSecond 60).time :=
    Reading.at_second_add 0 60 (by decide)
  obtain ⟨after, hrun, hcell, hframe⟩ :=
    call_set_absent (slot_init clock "session") "open" (by decide) hsession
  obtain rfl : opened = after := congrArg Prod.snd hrun
  have hclock : opened.expiration.nowFn = clock.tail := congrArg Cell.nowFn hcell
  have hdraft : opened.expiration.nowFn.head.time.addInt 120 =
      .ok (Reading.atSecond 121).time := by
    rw [hclock]
    exact Reading.at_second_add 1 120 (by decide)
  obtain ⟨after, hrun', hcell', hframe'⟩ := call_set_absent
    ((hframe "draft" (by decide)).trans (slot_init clock "draft")) "text" (by decide) hdraft
  obtain rfl : drafted = after := congrArg Prod.snd hrun'
  have hclock' : drafted.expiration.nowFn = clock.tail.tail := by
    rw [← hclock]
    exact congrArg Cell.nowFn hcell'
  -- no reading comes after half a minute, and every deadline does
  have hseconds : ∀ n, (Fin.ofNat (2 ^ 34) (min n 30)).val = min n 30 := fun n =>
    Nat.mod_eq_of_lt (Nat.lt_of_le_of_lt (Nat.min_le_right n 30) (by decide))
  have hlater : ∀ (n : Fin (2 ^ 34)) (m : Nat), 30 < n →
      (Reading.atSecond n).time.gt (clock.get m).time = true := by
    intro n m hn
    refine (Reading.at_second_gt n (Fin.ofNat _ (min m 30))).trans (decide_eq_true ?_)
    rw [Fin.lt_def, hseconds]
    exact Nat.lt_of_le_of_lt (Nat.min_le_right m 30) hn
  have hslots : ∀ key, drafted.slot key = Slot.absent ∨ ∃ value, ∃ n : Fin (2 ^ 34), 30 < n ∧
      drafted.slot key = ⟨some value, some (Reading.atSecond n).time⟩ := by
    intro key
    by_cases hkey : key = "draft"
    · exact .inr ⟨"text", 121, by decide, hkey ▸ congrArg Cell.toSlot hcell'⟩
    · rw [hframe' key hkey]
      by_cases hkey : key = "session"
      · exact .inr ⟨"open", 60, by decide, hkey ▸ congrArg Cell.toSlot hcell⟩
      · exact .inl ((hframe key hkey).trans (slot_init clock key))
  have hmono : ∀ n, drafted.expiration.nowFn.get n ≤ drafted.expiration.nowFn.get (n + 1) := by
    intro n
    rw [hclock']
    refine Reading.at_second_le (Fin.le_def.mpr ?_)
    rw [hseconds, hseconds]
    omega
  obtain ⟨data, expiresAt, after, hsnapshot, hmanager, -, hiff⟩ :=
    snapshot_point_in_time_iff ⟨JsonText.codec⟩ world rfl hmono
  refine ⟨data, expiresAt, after, hsnapshot, hmanager, hiff.mpr fun key => ⟨?_, ?_⟩⟩
  · rintro ⟨value, deadline, hslot, -, hpassed⟩
    obtain habsent | ⟨other, n, hn, hkey⟩ := hslots key
    · cases habsent.symm.trans hslot
    · cases hkey.symm.trans hslot
      have hlast : world.storage.lastReading =
          clock.get (drafted.readings drafted.data.keys + 2) := by
        show drafted.expiration.nowFn.get _ = _
        rw [hclock']
        rfl
      rw [hlast, hlater n _ hn] at hpassed
      cases hpassed
  · rintro ⟨deadline, hslot, -⟩
    obtain habsent | ⟨other, n, hn, hkey⟩ := hslots key
    · cases habsent.symm.trans hslot
    · cases hkey.symm.trans hslot

/-- A session of five seconds is checked at second 4 and asked for its deadline at second 7: the
snapshot has it without a deadline. -/
theorem snapshot_drops_deadline :
    let _ : PyHash String := ⟨fun key => key.length⟩
    let opened : InMemoryStore String String :=
      ((init leapingClock).call (.op (.key "session" (.set "open" (some 5))))).2
    (∀ n, opened.expiration.nowFn.get n ≤ opened.expiration.nowFn.get (n + 1)) ∧
      ∃ data expiresAt after, InMemoryStore.snapshot opened = (.ok (data, expiresAt), after) ∧
        data.get? "session" = some "open" ∧ expiresAt.get? "session" = none ∧
        ¬ PointInTime opened data expiresAt := by
  intro _ opened
  obtain ⟨after, hrun, hcell, hothers⟩ := leaping_session
  obtain rfl : opened = after := congrArg Prod.snd hrun
  have hslot : opened.slot "session" = ⟨some "open", some (Reading.atSecond 5).time⟩ :=
    congrArg Cell.toSlot hcell
  have hclock : opened.expiration.nowFn = leapingClock.tail := congrArg Cell.nowFn hcell
  have hdeadline : ∀ key, (opened.slot key).deadline.isSome = (key == "session") := by
    intro key
    by_cases hkey : key = "session"
    · rw [hkey, hslot]
      rfl
    · rw [hothers key hkey, beq_false_of_ne hkey]
      rfl
  -- the session is checked by the first reading, and the second one is the last
  have hcheck : opened.checkReading "session" = Reading.atSecond 4 := by
    have hnone : opened.readings (opened.data.keys.takeWhile (· ≠ "session")) = 0 := by
      rw [readings, List.countP_eq_zero]
      intro key hmem
      have hne := List.mem_takeWhile_imp hmem
      rw [hdeadline, beq_iff_eq]
      simpa using hne
    rw [checkReading, checkedAt, hnone, hclock]
    rfl
  have hlast : opened.lastReading = Reading.atSecond 7 := by
    have hone : opened.readings opened.data.keys = 1 := by
      have hmem : "session" ∈ opened.data.keys := by
        have hvalue : opened.data.lookup "session" = some "open" := congrArg Slot.value hslot
        rw [Table.mem_keys_iff, hvalue]
        rfl
      rw [readings]
      simp only [hdeadline]
      exact List.count_eq_one_of_mem opened.data.nodup_keys hmem
    rw [lastReading, hone, hclock]
    rfl
  have hbetween : opened.FallsBetween "session" := by
    refine ⟨"open", (Reading.atSecond 5).time, hslot, ?_, ?_⟩
    · rw [hcheck]
      exact (Reading.at_second_gt 5 4).trans (by decide)
    · rw [hlast]
      exact (Reading.at_second_gt 5 7).trans (by decide)
  have hmono : ∀ n, opened.expiration.nowFn.get n ≤ opened.expiration.nowFn.get (n + 1) := by
    rw [hclock]
    exact fun n => leaping_clock_le (n + 1)
  obtain ⟨data, expiresAt, after, hsnapshot, hslots⟩ := snapshot_spec opened
  have hevicted : opened.evicted "session" =
      ⟨some "open", some (Reading.atSecond 5).time⟩ := by
    have hgt : (Reading.atSecond 5).time.gt (Reading.atSecond 4).time = true :=
      (Reading.at_second_gt 5 4).trans (by decide)
    simp [evicted, hslot, Slot.purge, Slot.expired, hcheck, hgt]
  refine ⟨hmono, data, expiresAt, after, hsnapshot, ?_, ?_, fun hpoint => ?_⟩
  · rw [(hslots "session").1, hevicted]
  · have hgt : (Reading.atSecond 5).time.gt (Reading.atSecond 7).time = false :=
      (Reading.at_second_gt 5 7).trans (by decide)
    rw [(hslots "session").2, hevicted, Option.filter_some, hlast, hgt, if_neg Bool.false_ne_true]
  · have hiff := point_in_time_iff hmono (fun key => (hslots key).1) fun key => (hslots key).2
    exact (hiff.mp hpoint "session").1 hbetween

end PersistenceManager

end MiniRedis
