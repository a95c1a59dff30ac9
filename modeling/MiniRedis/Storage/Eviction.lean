import MiniRedis.Storage.Cell

/-!
# Eviction

`_evict_if_expired` leaves a slot as it is or empties it, by one reading of the clock
(`Cell.evict_eq`); the loop of `snapshot` and `load` does so to every key that has a value
(`InMemoryStore.evict_all_spec`). Neither can raise as long as every deadline belongs to a
value, and then no method that takes a key can raise for another reason than the size of a
number (`Cell.perform_consistent`).
-/

namespace MiniRedis

namespace Slot

variable {V : Type}

/-- Whether the deadline has passed. -/
def expired (slot : Slot V) (now : Reading) : Bool :=
  match slot.deadline with
  | some expiresAt => !expiresAt.gt now.time
  | none => false

/-- The slot after an eviction at `now`. -/
def purge (slot : Slot V) (now : Reading) : Slot V := if slot.expired now then absent else slot

@[simp] theorem expired_absent (now : Reading) : (absent : Slot V).expired now = false := rfl

@[simp] theorem purge_absent (now : Reading) : (absent : Slot V).purge now = absent := rfl

theorem consistent_absent : (absent : Slot V).Consistent := fun _ => rfl

/-- An eviction leaves no deadline without a value. -/
theorem Consistent.purge {slot : Slot V} (h : slot.Consistent) (now : Reading) :
    (slot.purge now).Consistent := by
  unfold Slot.purge
  split
  · exact consistent_absent
  · exact h

end Slot

namespace Cell

variable {V : Type}

/-- An eviction reads the clock if there is a deadline, and empties the slot if it has passed. -/
theorem evict_eq (cell : Cell V) (h : cell.toSlot.Consistent) :
    evictIfExpired cell = (.ok (cell.expired cell.nowFn.head),
      ⟨cell.purge cell.nowFn.head,
        if cell.deadline.isSome then cell.nowFn.tail else cell.nowFn⟩) := by
  obtain ⟨⟨value, deadline⟩, nowFn⟩ := cell
  cases deadline with
  | none => simp [evictIfExpired, isExpired, Slot.expired, Slot.purge]
  | some expiresAt =>
      cases hgt : expiresAt.gt nowFn.head.time with
      | true => simp [evictIfExpired, isExpired, now, Slot.expired, Slot.purge, hgt]
      | false =>
          cases value with
          | none => cases h rfl
          | some value =>
              simp [evictIfExpired, isExpired, now, dropDeadline, dropValue, Slot.expired,
                Slot.purge, Slot.absent, hgt]

end Cell

namespace InMemoryStore

variable {K V : Type} [PyHash K] [DecidableEq K]

/-- Every deadline belongs to a value. -/
def Consistent (store : InMemoryStore K V) : Prop := ∀ key, (store.slot key).Consistent

/-- The number of readings of the clock that evicting some distinct keys takes: one for each that
has a deadline. -/
def readings (store : InMemoryStore K V) (keys : List K) : Nat :=
  keys.countP fun key => (store.slot key).deadline.isSome

/-- The reading at which a key is checked when some keys are evicted in order. -/
def checkedAt (store : InMemoryStore K V) (keys : List K) (key : K) : Reading :=
  store.expiration.nowFn.get (store.readings (keys.takeWhile (· ≠ key)))

theorem readings_cons (store : InMemoryStore K V) (first : K) (rest : List K) :
    store.readings (first :: rest) =
      (if (store.slot first).deadline.isSome then 1 else 0) + store.readings rest := by
  rw [readings, List.countP_cons, Nat.add_comm]
  rfl

theorem readings_congr {store other : InMemoryStore K V} {keys : List K}
    (h : ∀ key ∈ keys, other.slot key = store.slot key) :
    other.readings keys = store.readings keys :=
  List.countP_congr fun key hkey => by rw [h key hkey]

/-- Evicting a list of distinct keys, each with a value if it has a deadline, empties those that
have expired by the readings of the clock at which they are checked. -/
theorem evict_each_spec {keys : List K} (hnodup : keys.Nodup) (store : InMemoryStore K V)
    (h : ∀ key ∈ keys, (store.slot key).Consistent) :
    ∃ after, Py.forEach keys (fun key => do let _ ← evictIfExpired key) store = (.ok (), after) ∧
      after.expiration.nowFn = store.expiration.nowFn.drop (store.readings keys) ∧
      (∀ key, key ∉ keys → after.slot key = store.slot key) ∧
      ∀ key ∈ keys, after.slot key = (store.slot key).purge (store.checkedAt keys key) := by
  induction keys generalizing store with
  | nil => exact ⟨store, rfl, rfl, fun key _ => rfl, fun key hkey => by simp at hkey⟩
  | cons first rest ih =>
      obtain ⟨hfirst, hrest⟩ := List.nodup_cons.mp hnodup
      obtain ⟨middle, hrun, hcell, hframe⟩ :=
        local_evict.run (Cell.evict_eq (store.cell first) (h first List.mem_cons_self))
      have hslot : middle.slot first = (store.slot first).purge store.expiration.nowFn.head :=
        congrArg Cell.toSlot hcell
      have hother : ∀ key ∈ rest, middle.slot key = store.slot key := by
        intro key hkey
        refine hframe key ?_
        rintro rfl
        exact hfirst hkey
      -- the check of the first key takes a reading if it has a deadline
      have hskipped : middle.expiration.nowFn = store.expiration.nowFn.drop
          (if (store.slot first).deadline.isSome then 1 else 0) := by
        have hclock : middle.expiration.nowFn = _ := congrArg Cell.nowFn hcell
        rw [hclock, show (store.cell first).deadline = (store.slot first).deadline from rfl]
        split <;> rfl
      obtain ⟨after, hrest, hclock, hkept, hpurged⟩ := ih hrest middle (fun key hkey => by
        rw [hother key hkey]
        exact h key (List.mem_cons_of_mem _ hkey))
      refine ⟨after, ?_, ?_, fun key hkey => ?_, fun key hkey => ?_⟩
      · simp only [Py.forEach, Py.bind_apply, hrun]
        exact hrest
      · rw [hclock, hskipped, Stream'.drop_drop, readings_cons, readings_congr hother,
          Nat.add_comm]
      · rw [hkept key (fun hmem => hkey (List.mem_cons_of_mem _ hmem))]
        refine hframe key ?_
        rintro rfl
        exact hkey List.mem_cons_self
      · rcases List.mem_cons.mp hkey with rfl | hmem
        · have hhead : store.checkedAt (key :: rest) key = store.expiration.nowFn.head := by
            rw [checkedAt, List.takeWhile_cons_of_neg (by simp)]
            rfl
          rw [hkept key hfirst, hslot, hhead]
        · have hne : first ≠ key := by
            rintro rfl
            exact hfirst hmem
          have hcheck : middle.checkedAt rest key = store.checkedAt (first :: rest) key := by
            have hbefore : middle.readings (rest.takeWhile (· ≠ key)) =
                store.readings (rest.takeWhile (· ≠ key)) :=
              readings_congr fun other hmem => hother other (List.takeWhile_subset _ hmem)
            rw [checkedAt, checkedAt, List.takeWhile_cons_of_pos (by simpa using hne),
              readings_cons, hskipped, hbefore, Stream'.get_drop, Nat.add_comm]
          rw [hpurged key hmem, hother key hmem, hcheck]

/-- The eviction loop never raises: it purges each key that has a value, by the reading at which it
is checked. -/
theorem evict_all_exact (store : InMemoryStore K V) :
    ∃ after, evictAll store = (.ok (), after) ∧
      after.expiration.nowFn = store.expiration.nowFn.drop (store.readings store.data.keys) ∧
      ∀ key, after.slot key = if (store.slot key).value = none then store.slot key
        else (store.slot key).purge (store.checkedAt store.data.keys key) := by
  have hconsistent : ∀ key ∈ store.data.keys, (store.slot key).Consistent := by
    intro key hkey hnone
    rw [Table.mem_keys_iff, Option.isSome_iff_ne_none] at hkey
    exact absurd hnone hkey
  obtain ⟨after, hrun, hclock, hkept, hpurged⟩ :=
    evict_each_spec store.data.nodup_keys store hconsistent
  refine ⟨after, by simpa [evictAll, keyList] using hrun, hclock, fun key => ?_⟩
  split
  · next hnone =>
      refine hkept key fun hkey => ?_
      rw [Table.mem_keys_iff] at hkey
      simp_all [slot]
  · next hsome =>
      refine hpurged key ?_
      rw [Table.mem_keys_iff]
      exact Option.isSome_iff_ne_none.mpr hsome

/-- The eviction loop purges each key that has a value by some reading. -/
theorem evict_all_spec (store : InMemoryStore K V) :
    ∃ after, evictAll store = (.ok (), after) ∧
      (∃ count, after.expiration.nowFn = store.expiration.nowFn.drop count) ∧
      ∀ key, if (store.slot key).value = none then after.slot key = store.slot key
        else ∃ index, after.slot key =
          (store.slot key).purge (store.expiration.nowFn.get index) := by
  obtain ⟨after, hrun, hclock, hslots⟩ := evict_all_exact store
  refine ⟨after, hrun, ⟨_, hclock⟩, fun key => ?_⟩
  have hkey := hslots key
  split
  · next hnone => rwa [if_pos hnone] at hkey
  · next hsome =>
      rw [if_neg hsome] at hkey
      exact ⟨_, hkey⟩

/-- What a `load` at a time puts under a key, before the eviction loop: deadlines that have passed
are dropped. -/
def loaded (data : Dict K V) (expiresAt : Dict K PyFloat) (now : Reading) (key : K) : Slot V :=
  ⟨data.get? key, (expiresAt.get? key).filter (·.gt now.time)⟩

/-- A `load` never raises: it keeps the values, drops the deadlines that have passed by the first
reading, and purges each key that has a value by some later reading. -/
theorem load_spec (store : InMemoryStore K V) (data : Dict K V) (expiresAt : Dict K PyFloat) :
    ∃ after, load data expiresAt store = (.ok (), after) ∧
      (∃ count, after.expiration.nowFn = store.expiration.nowFn.tail.drop count) ∧
      ∀ key, if data.get? key = none
        then after.slot key = loaded data expiresAt store.expiration.nowFn.head key
        else ∃ index, after.slot key =
          (loaded data expiresAt store.expiration.nowFn.head key).purge
            (store.expiration.nowFn.tail.get index) := by
  obtain ⟨after, hrun, hcount, hpurged⟩ := evict_all_spec
    (⟨store.data.clear.update data.entries,
      ⟨expiresAt.filter (fun _ value => value.gt store.expiration.nowFn.head.time),
        store.expiration.nowFn.tail⟩⟩ : InMemoryStore K V)
  refine ⟨after, ?_, hcount, fun key => ?_⟩
  · simp [load, onExpiration, ExpirationManager.load, ExpirationManager.now, hrun]
  · have hkey := hpurged key
    have hslot : (⟨store.data.clear.update data.entries,
        ⟨expiresAt.filter (fun _ value => value.gt store.expiration.nowFn.head.time),
          store.expiration.nowFn.tail⟩⟩ : InMemoryStore K V).slot key =
        loaded data expiresAt store.expiration.nowFn.head key := by
      simp only [slot, loaded, Table.lookup_update _ data.nodup, Table.lookup_clear,
        Option.or_none, Dict.get?_filter]
      rfl
    rw [hslot] at hkey
    exact hkey

end InMemoryStore

end MiniRedis
