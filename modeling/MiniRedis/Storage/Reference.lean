import MiniRedis.Storage.Eviction

/-!
# The reference store

The reference store keeps, under each key, a value and perhaps an absolute deadline, and a
key is present at a time exactly when it has no deadline or its deadline is later. The
store refines it (`lazy_refines_eager_iff`) as long as no deadline is asked for that lies
out of the range of floats: there `set` and `expire` raise `OverflowError`.
-/

namespace MiniRedis

/-- What the reference store keeps under a key. -/
structure Entry (V : Type) where
  value : V
  deadline : Option PyFloat

namespace Entry

variable {V : Type}

/-- Whether the key of the entry is present at a time. -/
def present (entry : Entry V) (now : Reading) : Bool :=
  match entry.deadline with
  | none => true
  | some expiresAt => expiresAt.gt now.time

@[simp] theorem present_none (value : V) (now : Reading) :
    (Entry.mk value none).present now = true := rfl

@[simp] theorem present_some (value : V) (expiresAt : PyFloat) (now : Reading) :
    (Entry.mk value (some expiresAt)).present now = expiresAt.gt now.time := rfl

/-- A key that is present is present at every earlier time. -/
theorem present_of_later (entry : Entry V) {now later : Reading} (hle : now ≤ later)
    (h : entry.present later = true) : entry.present now = true := by
  obtain ⟨value, deadline⟩ := entry
  cases deadline with
  | none => rfl
  | some expiresAt => exact Reading.gt_of_le hle h

/-- What is present later is among what is present now. -/
theorem filter_present (found : Option (Entry V)) {now later : Reading} (hle : now ≤ later) :
    (found.filter (·.present now)).filter (·.present later) = found.filter (·.present later) := by
  rw [Option.filter_filter]
  congr 1
  funext entry
  cases hlater : entry.present later with
  | false => rw [Bool.and_false]
  | true => rw [entry.present_of_later hle hlater, Bool.and_self]

/-- The time that lies a number of seconds after a reading. -/
def deadlineAfter (now : Reading) (seconds : Int) : PyFloat :=
  match now.time.addInt seconds with
  | .ok expiresAt => expiresAt
  | .error _ => .infinity false

/-- What the reference store replies to a method, and the entry afterwards, by the entry that is
present before. -/
def perform (now : Reading) (found : Option (Entry V)) :
    KeyOp V → KeyReply V × Option (Entry V)
  | .set value none => (.done, some ⟨value, none⟩)
  | .set value (some ex) =>
      (.done, if ex ≤ 0 then none else some ⟨value, some (deadlineAfter now ex)⟩)
  | .get => (.value (found.map Entry.value), found)
  | .delete => (.number (if found.isSome then 1 else 0), none)
  | .invalidate => (.number (if found.isSome then 1 else 0), none)
  | .exists => (.number (if found.isSome then 1 else 0), found)
  | .expire seconds =>
      match found with
      | none => (.number 0, none)
      | some entry =>
          if seconds ≤ 0 then (.number 0, some entry)
          else (.number 1, some { entry with deadline := some (deadlineAfter now seconds) })
  | .ttl =>
      match found with
      | none => (.number (-2), none)
      | some ⟨value, none⟩ => (.number (-1), some ⟨value, none⟩)
      | some ⟨value, some expiresAt⟩ =>
          (.number (expiresAt.sub now.time).floor, some ⟨value, some expiresAt⟩)
  | .getExpireAt => (.time (found.bind Entry.deadline), found)

/-- The number of seconds that a method asks for, if any, is in the range of floats. -/
def Fits (found : Option (Entry V)) : KeyOp V → Prop
  | .set _ (some ex) => ex < PyFloat.intLimit
  | .expire seconds => found.isSome → seconds < PyFloat.intLimit
  | _ => True

end Entry

/-- The reference store: a map from keys to entries. -/
abbrev ReferenceStore (K V : Type) := K → Option (Entry V)

namespace ReferenceStore

variable {K V : Type} [DecidableEq K]

/-- The reference store without keys. -/
def empty : ReferenceStore K V := fun _ => none

/-- The entry of a key that is present at a time. -/
def present (store : ReferenceStore K V) (now : Reading) (key : K) : Option (Entry V) :=
  (store key).filter (fun entry => entry.present now)

/-- The operations of the reference store. -/
def perform (now : Reading) (store : ReferenceStore K V) :
    StoreOp K V → StoreReply K V × ReferenceStore K V
  | .key key op =>
      let (reply, entry) := Entry.perform now (store.present now key) op
      (.key reply, Function.update store key entry)
  | .snapshot =>
      (.snapshot (fun key => (store.present now key).map Entry.value)
        (fun key => (store.present now key).bind Entry.deadline), store)

/-- No number of seconds that an operation asks for is out of the range of floats. -/
def Fits (now : Reading) (store : ReferenceStore K V) : StoreOp K V → Prop
  | .key key op => Entry.Fits (store.present now key) op
  | .snapshot => True

/-- Every operation of a run fits. -/
def AllFit (store : ReferenceStore K V) : List (Reading × StoreOp K V) → Prop
  | [] => True
  | (now, op) :: rest => store.Fits now op ∧ AllFit (store.perform now op).2 rest

end ReferenceStore

namespace Slot

variable {V : Type}

/-- The slot of a key with the given entry. -/
def ofEntry : Option (Entry V) → Slot V
  | none => absent
  | some entry => ⟨some entry.value, entry.deadline⟩

/-- The entry of a slot. -/
def entry (slot : Slot V) : Option (Entry V) := slot.value.map (⟨·, slot.deadline⟩)

/-- The deadline, if there is one, is a finite time. -/
def Finite (slot : Slot V) : Prop :=
  ∀ expiresAt, slot.deadline = some expiresAt →
    ∃ units isDouble, expiresAt = .finite units isDouble

/-- A slot and an entry that agree on when the key is present, and with what. -/
structure Matches (slot : Slot V) (now : Reading) (entry : Option (Entry V)) : Prop where
  consistent : slot.Consistent
  finite : slot.Finite
  agree : ∀ later, now ≤ later → slot.entry.filter (fun entry => entry.present later) =
    entry.filter (fun entry => entry.present later)

@[simp] theorem entry_of_entry (entry : Option (Entry V)) : (ofEntry entry).entry = entry := by
  cases entry <;> rfl

theorem consistent_of_entry (entry : Option (Entry V)) : (ofEntry entry).Consistent := by
  cases entry with
  | none => exact consistent_absent
  | some entry =>
      intro h
      cases h

/-- An eviction leaves the entry if it is present, and empties the slot otherwise. -/
theorem purge_eq_of_entry {slot : Slot V} (h : slot.Consistent) (now : Reading) :
    slot.purge now = ofEntry (slot.entry.filter (fun entry => entry.present now)) := by
  obtain ⟨value, deadline⟩ := slot
  cases value with
  | none =>
      have hnone : deadline = none := h rfl
      subst hnone
      rfl
  | some value =>
      cases deadline with
      | none => rfl
      | some expiresAt =>
          cases hgt : expiresAt.gt now.time <;>
            simp [purge, expired, entry, Option.filter_some, ofEntry, hgt]

end Slot

/-- The deadline of a method that fits is a finite time after the reading. -/
theorem Entry.deadline_after_spec (now : Reading) {seconds : Int} (hpos : 0 < seconds)
    (hfits : seconds < PyFloat.intLimit) :
    ∃ units isDouble, now.time.addInt seconds = .ok (.finite units isDouble) ∧
      Entry.deadlineAfter now seconds = .finite units isDouble ∧ now.units < units := by
  obtain ⟨units, isDouble, hsum, hlt⟩ :=
    now.add_seconds_spec hpos (by omega : seconds.natAbs < PyFloat.intLimit)
  exact ⟨units, isDouble, hsum, by rw [deadlineAfter, hsum], hlt⟩

/-- A deadline out of the range of floats cannot be computed. -/
theorem Entry.deadline_overflow (now : Reading) {seconds : Int}
    (h : (PyFloat.intLimit : Int) ≤ seconds) :
    ∃ message, now.time.addInt seconds = .error (.overflowError message) := by
  have hoverflow := PyFloat.of_int_overflow (by omega : PyFloat.intLimit ≤ seconds.natAbs)
  exact ⟨_, by rw [PyFloat.addInt, hoverflow]; rfl⟩

namespace Cell

variable {V : Type}

/-- While the clock stands still, an eviction leaves the entry that is present. -/
theorem evict_at (now : Reading) {slot : Slot V} (h : slot.Consistent) :
    evictIfExpired (⟨slot, Stream'.const now⟩ : Cell V) = (.ok (slot.expired now),
      ⟨Slot.ofEntry (slot.entry.filter (fun entry => entry.present now)), Stream'.const now⟩) := by
  rw [evict_eq _ h, ← Slot.purge_eq_of_entry h]
  simp

/-- While the clock stands still, a positive number of seconds that fits gives the deadline of
the reference store. -/
theorem set_expire_at (now : Reading) (slot : Slot V) {seconds : Int} (hpos : 0 < seconds)
    (hfits : seconds < PyFloat.intLimit) :
    setExpire seconds (⟨slot, Stream'.const now⟩ : Cell V) =
      (.ok true, ⟨{ slot with deadline := some (Entry.deadlineAfter now seconds) },
        Stream'.const now⟩) := by
  obtain ⟨units, isDouble, hsum, hafter, -⟩ := Entry.deadline_after_spec now hpos hfits
  have hsign : ¬ seconds ≤ 0 := by omega
  simp [setExpire, Cell.now, hsign, hsum, hafter]

/-- While the clock stands still, the seconds left of an entry that is present are those of the
reference store. -/
theorem seconds_left_at (now : Reading) {entry : Entry V} (hpresent : entry.present now = true)
    (hfinite : (Slot.ofEntry (some entry)).Finite) :
    secondsLeft true (⟨Slot.ofEntry (some entry), Stream'.const now⟩ : Cell V) =
      (.ok (match entry.deadline with
        | none => -1
        | some expiresAt => (expiresAt.sub now.time).floor),
      ⟨Slot.ofEntry (some entry), Stream'.const now⟩) := by
  obtain ⟨value, deadline⟩ := entry
  cases deadline with
  | none => simp [secondsLeft, Slot.ofEntry]
  | some expiresAt =>
      obtain ⟨units, isDouble, rfl⟩ := hfinite expiresAt rfl
      have hlt : now.units < units := by
        simpa [Entry.present, PyFloat.gt, Reading.time] using hpresent
      obtain ⟨left, hleft, hsign, hfloor⟩ := now.seconds_left isDouble hlt
      simp [secondsLeft, Slot.ofEntry, Cell.now, hleft, hsign, hfloor]

/-- While the clock stands still, a method that fits replies like the reference store and leaves
its entry. -/
theorem perform_at (now : Reading) {slot : Slot V} (hconsistent : slot.Consistent)
    (hfinite : slot.Finite) (op : KeyOp V)
    (hfits : Entry.Fits (slot.entry.filter (fun entry => entry.present now)) op) :
    perform op (⟨slot, Stream'.const now⟩ : Cell V) =
      let reply := Entry.perform now (slot.entry.filter (fun entry => entry.present now)) op
      (.ok reply.1, ⟨Slot.ofEntry reply.2, Stream'.const now⟩) := by
  -- every method but `set` evicts first, and then acts on the entry that is left
  have hevict := evict_at now hconsistent
  generalize hfound : slot.entry.filter (fun entry => entry.present now) = found at *
  have hlive : ∀ entry, found = some entry →
      entry.present now = true ∧ (Slot.ofEntry (some entry)).Finite := by
    rintro entry rfl
    obtain ⟨hentry, hpresent⟩ := Option.filter_eq_some_iff.mp hfound
    refine ⟨hpresent, ?_⟩
    obtain ⟨value, hvalue, rfl⟩ := Option.map_eq_some_iff.mp hentry
    exact hfinite
  cases op with
  | set value ex =>
      cases ex with
      | none => simp [perform, set, persist, dropDeadline, Entry.perform, Slot.ofEntry]
      | some ex =>
          by_cases hsign : ex ≤ 0
          · simp [perform, set, persist, dropDeadline, dropValue, Entry.perform, Slot.ofEntry,
              Slot.absent, hsign]
          · have hset := set_expire_at now ⟨some value, none⟩ (by omega) hfits
            simp [perform, set, persist, dropDeadline, Entry.perform, Slot.ofEntry, hsign, hset]
  | get => cases found <;> simp [perform, get, hevict, Entry.perform, Slot.ofEntry, Slot.absent]
  | delete =>
      cases found <;> simp [perform, delete, hevict, inData, dropDeadline, dropValue,
        Entry.perform, Slot.ofEntry, Slot.absent]
  | «exists» =>
      cases found <;> simp [perform, «exists», hevict, inData, Entry.perform, Slot.ofEntry,
        Slot.absent]
  | expire seconds =>
      cases found with
      | none => simp [perform, expire, hevict, inData, Entry.perform, Slot.ofEntry, Slot.absent]
      | some entry =>
          by_cases hsign : seconds ≤ 0
          · simp [perform, expire, hevict, inData, setExpire, Entry.perform, Slot.ofEntry, hsign]
          · have hset := set_expire_at now (Slot.ofEntry (some entry)) (by omega) (hfits rfl)
            simp only [Slot.ofEntry] at hset hevict
            simp [perform, expire, hevict, inData, hset, Entry.perform, Slot.ofEntry, hsign]
  | ttl =>
      -- `ttl` tells a key that has just been evicted from one that was absent
      cases hexpired : slot.expired now with
      | true =>
          have hnone : found = none := by
            have hpurge := Slot.purge_eq_of_entry hconsistent now
            rw [hfound, Slot.purge, if_pos hexpired] at hpurge
            rw [← Slot.entry_of_entry found, ← hpurge]
            rfl
          subst hnone
          simp [perform, ttl, hevict, hexpired, Entry.perform]
      | false =>
          cases found with
          | none =>
              simp [perform, ttl, hevict, hexpired, inData, secondsLeft, Entry.perform,
                Slot.ofEntry, Slot.absent]
          | some entry =>
              obtain ⟨hpresent, hentry⟩ := hlive entry rfl
              have hleft := seconds_left_at now hpresent hentry
              simp only [Slot.ofEntry] at hleft hevict
              obtain ⟨value, deadline⟩ := entry
              cases deadline <;>
                simp [perform, ttl, hevict, hexpired, inData, hleft, Entry.perform, Slot.ofEntry]
  | invalidate =>
      cases found <;> simp [perform, delete, hevict, inData, dropDeadline, dropValue,
        Entry.perform, Slot.ofEntry, Slot.absent]
  | getExpireAt =>
      cases found with
      | none =>
          simp [perform, getExpireAt, hevict, currentDeadline, isExpired, Entry.perform,
            Slot.ofEntry, Slot.absent]
      | some entry =>
          obtain ⟨hpresent, -⟩ := hlive entry rfl
          obtain ⟨value, deadline⟩ := entry
          cases deadline with
          | none =>
              simp [perform, getExpireAt, hevict, currentDeadline, isExpired, Entry.perform,
                Slot.ofEntry]
          | some expiresAt =>
              rw [Entry.present_some] at hpresent
              simp [perform, getExpireAt, hevict, currentDeadline, isExpired, Cell.now, hpresent,
                Entry.perform, Slot.ofEntry]

/-- An `expire` of a key that is present raises if the deadline is too large, and only evicts. -/
theorem expire_overflow_at (now : Reading) {slot : Slot V} (hconsistent : slot.Consistent)
    (hlive : (slot.entry.filter (fun entry => entry.present now)).isSome) {seconds : Int}
    (hlarge : (PyFloat.intLimit : Int) ≤ seconds) :
    ∃ message, expire seconds (⟨slot, Stream'.const now⟩ : Cell V) =
      (.error (.overflowError message),
        ⟨Slot.ofEntry (slot.entry.filter (fun entry => entry.present now)),
          Stream'.const now⟩) := by
  have hevict := evict_at now hconsistent
  generalize slot.entry.filter (fun entry => entry.present now) = found at *
  have hpos : (0 : Int) < PyFloat.intLimit := PyFloat.lt_int_limit (by omega)
  obtain ⟨entry, rfl⟩ := Option.isSome_iff_exists.mp hlive
  obtain ⟨message, hsum⟩ := Entry.deadline_overflow now hlarge
  have hsign : ¬ seconds ≤ 0 := by omega
  exact ⟨message, by simp [expire, hevict, inData, setExpire, Cell.now, hsign, hsum,
    Slot.ofEntry]⟩

/-- A method that does not fit raises `OverflowError`. -/
theorem perform_overflow (now : Reading) {slot : Slot V} (hconsistent : slot.Consistent)
    (op : KeyOp V)
    (hfits : ¬ Entry.Fits (slot.entry.filter (fun entry => entry.present now)) op) :
    ∃ message, (perform op (⟨slot, Stream'.const now⟩ : Cell V)).1 =
      .error (.overflowError message) := by
  have hpos : (0 : Int) < PyFloat.intLimit := PyFloat.lt_int_limit (by omega)
  cases op with
  | set value ex =>
      cases ex with
      | none => exact absurd trivial hfits
      | some ex =>
          have hlarge : (PyFloat.intLimit : Int) ≤ ex := Int.not_lt.mp hfits
          obtain ⟨message, hsum⟩ := Entry.deadline_overflow now hlarge
          have hsign : ¬ ex ≤ 0 := by omega
          exact ⟨message, by simp [perform, set, persist, dropDeadline, setExpire, Cell.now,
            hsign, hsum]⟩
  | expire seconds =>
      simp only [Entry.Fits, Classical.not_imp, Int.not_lt] at hfits
      obtain ⟨message, hexpire⟩ := expire_overflow_at now hconsistent hfits.1 hfits.2
      exact ⟨message, by simp [perform, hexpire]⟩
  | get => exact absurd trivial hfits
  | delete => exact absurd trivial hfits
  | «exists» => exact absurd trivial hfits
  | ttl => exact absurd trivial hfits
  | invalidate => exact absurd trivial hfits
  | getExpireAt => exact absurd trivial hfits

end Cell

namespace Slot.Matches

variable {V : Type} {slot : Slot V} {now : Reading} {entry : Option (Entry V)}

/-- Agreement lasts. -/
theorem later (h : slot.Matches now entry) {later : Reading} (hle : now ≤ later) :
    slot.Matches later entry :=
  ⟨h.consistent, h.finite, fun last hlast => h.agree last (Reading.le_trans hle hlast)⟩

/-- A slot that holds exactly a finite entry agrees with it. -/
theorem of_entry (now : Reading) (hfinite : (Slot.ofEntry entry).Finite) :
    (Slot.ofEntry entry).Matches now entry :=
  ⟨consistent_of_entry entry, hfinite, fun last _ => by rw [entry_of_entry]⟩

/-- Forgetting an entry that is not present keeps the agreement. -/
theorem of_present (h : slot.Matches now entry) :
    (Slot.ofEntry (slot.entry.filter (fun entry => entry.present now))).Matches now entry := by
  refine ⟨consistent_of_entry _, ?_, fun last hlast => ?_⟩
  · rw [← purge_eq_of_entry h.consistent]
    unfold Slot.purge
    split
    · intro expiresAt hdeadline
      cases hdeadline
    · exact h.finite
  · -- an entry that is present later is present now
    rw [entry_of_entry, Entry.filter_present _ hlast, ← h.agree last hlast]

end Slot.Matches

/-- The entry after a method that fits has a finite deadline, if any. -/
theorem Entry.finite_perform {V : Type} (now : Reading) {found : Option (Entry V)}
    (hfinite : (Slot.ofEntry found).Finite) (op : KeyOp V) (hfits : Entry.Fits found op) :
    (Slot.ofEntry (Entry.perform now found op).2).Finite := by
  have hnone : ∀ value : Option V, (Slot.mk value none).Finite := by
    intro value expiresAt hdeadline
    cases hdeadline
  have hafter : ∀ (value : Option V) {seconds : Int}, ¬ seconds ≤ 0 →
      seconds < PyFloat.intLimit →
      (Slot.mk value (some (Entry.deadlineAfter now seconds))).Finite := by
    intro value seconds hsign hlt expiresAt hdeadline
    obtain ⟨units, isDouble, -, hafter, -⟩ := Entry.deadline_after_spec now (by omega) hlt
    cases hdeadline
    exact ⟨units, isDouble, hafter⟩
  cases op with
  | set value ex =>
      cases ex with
      | none => exact hnone _
      | some ex =>
          simp only [Entry.perform]
          split
          · exact hnone _
          · next hsign => exact hafter _ hsign hfits
  | delete => exact hnone _
  | invalidate => exact hnone _
  | expire seconds =>
      cases found with
      | none => exact hnone _
      | some entry =>
          simp only [Entry.perform]
          split
          · exact hfinite
          · next hsign => exact hafter _ hsign (hfits rfl)
  | ttl =>
      rcases found with _ | ⟨value, _ | expiresAt⟩
      · exact hnone _
      · exact hnone _
      · exact hfinite
  | get => exact hfinite
  | «exists» => exact hfinite
  | getExpireAt => exact hfinite

namespace InMemoryStore

variable {K V : Type} [PyHash K] [DecidableEq K]

/-- The store and the reference store agree on every key. -/
def Matches (store : InMemoryStore K V) (now : Reading) (reference : ReferenceStore K V) : Prop :=
  ∀ key, (store.slot key).Matches now (reference key)

/-- An operation on a key keeps what the store has under every other key. -/
def KeepsOthers (store after : InMemoryStore K V) : StoreOp K V → Prop
  | .key key _ => ∀ other, other ≠ key → after.slot other = store.slot other
  | .snapshot => True

/-- While the clock stands still, the eviction loop leaves the entries that are present. -/
theorem evict_all_at (now : Reading) (store : InMemoryStore K V) (h : store.Consistent) :
    ∃ after, evictAll (store.atTime now) = (.ok (), after) ∧
      after.expiration.nowFn = Stream'.const now ∧
      ∀ key, after.slot key = Slot.ofEntry ((store.slot key).entry.filter (·.present now)) := by
  obtain ⟨after, hrun, ⟨count, hclock⟩, hpurged⟩ := evict_all_spec (store.atTime now)
  refine ⟨after, hrun, ?_, fun key => ?_⟩
  · rw [hclock]
    exact Stream'.drop_const count now
  · have hkey := hpurged key
    rw [show (store.atTime now).slot key = store.slot key from rfl] at hkey
    rw [← Slot.purge_eq_of_entry (h key)]
    split at hkey
    · next hnone =>
        -- without a value there is no deadline either
        have habsent : store.slot key = Slot.absent := by
          have hdeadline := h key hnone
          cases hslot : store.slot key
          simp_all [Slot.absent]
        rw [hkey, habsent, Slot.purge_absent]
    · obtain ⟨index, hindex⟩ := hkey
      rw [hindex]
      rfl

/-- While the clock stands still, a snapshot has the keys that are present, and evicts those
that are not. -/
theorem snapshot_at (now : Reading) (store : InMemoryStore K V) (h : store.Consistent) :
    ∃ data expiresAt after,
      snapshot (store.atTime now) = (.ok (data, expiresAt), after) ∧
      after.expiration.nowFn = Stream'.const now ∧
      ∀ key,
        after.slot key = Slot.ofEntry ((store.slot key).entry.filter (·.present now)) ∧
        data.get? key = ((store.slot key).entry.filter (·.present now)).map Entry.value ∧
        expiresAt.get? key =
          ((store.slot key).entry.filter (·.present now)).bind Entry.deadline := by
  obtain ⟨evicted, hrun, hclock, hslots⟩ := evict_all_at now store h
  refine ⟨Dict.ofList evicted.data.items,
    evicted.expiration.expiresAt.filter (fun _ expiresAt => expiresAt.gt now.time),
    { evicted with expiration := { evicted.expiration with nowFn := Stream'.const now } },
    ?_, rfl, fun key => ?_⟩
  · simp [snapshot, hrun, onExpiration, ExpirationManager.snapshot, ExpirationManager.now, hclock]
  · have hslot := hslots key
    rw [Dict.get?_ofList evicted.data.nodup_items, Table.lookup_items, Dict.get?_filter]
    rw [show evicted.data.lookup key = (evicted.slot key).value from rfl,
      show evicted.expiration.expiresAt.get? key = (evicted.slot key).deadline from rfl]
    refine ⟨hslot, ?_⟩
    rw [hslot]
    cases hfound : (store.slot key).entry.filter (·.present now) with
    | none => exact ⟨rfl, rfl⟩
    | some entry =>
        refine ⟨rfl, ?_⟩
        -- the deadline of an entry that is present passes the filter of the snapshot
        obtain ⟨value, deadline⟩ := entry
        obtain ⟨-, hpresent⟩ := Option.filter_eq_some_iff.mp hfound
        cases deadline with
        | none => rfl
        | some expiresAt =>
            rw [Entry.present_some] at hpresent
            simp [Slot.ofEntry, hpresent]

/-- A method that fits replies as it does on the entry that is present, and leaves the other keys
and the clock alone. -/
theorem Matches.perform_key {store : InMemoryStore K V} {now : Reading}
    {reference : ReferenceStore K V} (h : store.Matches now reference) (key : K) (op : KeyOp V)
    (hfits : Entry.Fits (reference.present now key) op) :
    ∃ after, performKey key op (store.atTime now) =
        (.ok (Entry.perform now (reference.present now key) op).1, after) ∧
      after.expiration.nowFn = Stream'.const now ∧
      (∀ other, other ≠ key → after.slot other = store.slot other) ∧
      after.Matches now
        (Function.update reference key (Entry.perform now (reference.present now key) op).2) := by
  have hpresent : (store.slot key).entry.filter (·.present now) = reference.present now key :=
    (h key).agree now (Reading.le_refl now)
  have hcell := Cell.perform_at now (h key).consistent (h key).finite op (by
    rw [hpresent]
    exact hfits)
  rw [hpresent] at hcell
  rw [show (⟨store.slot key, Stream'.const now⟩ : Cell V) = (store.atTime now).cell key
    from rfl] at hcell
  obtain ⟨after, hrun, hafter, hframe⟩ := (local_perform key op).run hcell
  refine ⟨after, hrun, congrArg Cell.nowFn hafter, hframe, fun other => ?_⟩
  by_cases hother : other = key
  · subst hother
    have hslot : after.slot other = _ := congrArg Cell.toSlot hafter
    have hlive : (Slot.ofEntry (reference.present now other)).Finite := by
      rw [← hpresent]
      exact (h other).of_present.finite
    rw [hslot, Function.update_self]
    exact Slot.Matches.of_entry now (Entry.finite_perform now hlive op hfits)
  · rw [hframe other hother, Function.update_of_ne hother]
    exact h other

/-- A step of a run that fits: the store replies like the reference store, keeps what it has under
other keys and agrees with the reference store afterwards. -/
theorem Matches.perform {store : InMemoryStore K V} {now : Reading}
    {reference : ReferenceStore K V} (h : store.Matches now reference) (op : StoreOp K V)
    (hfits : reference.Fits now op) :
    ∃ after, InMemoryStore.perform op (store.atTime now) =
        (.ok (reference.perform now op).1, after) ∧
      KeepsOthers store after op ∧ after.Matches now (reference.perform now op).2 := by
  cases op with
  | key key op =>
      obtain ⟨after, hrun, -, hframe, hmatches⟩ := h.perform_key key op hfits
      refine ⟨after, ?_, hframe, hmatches⟩
      simp [InMemoryStore.perform, hrun, ReferenceStore.perform]
  | snapshot =>
      have hpresent : ∀ key, (store.slot key).entry.filter (·.present now) =
          reference.present now key := fun key => (h key).agree now (Reading.le_refl now)
      obtain ⟨data, expiresAt, after, hrun, -, hafter⟩ :=
        snapshot_at now store (fun key => (h key).consistent)
      refine ⟨after, ?_, trivial, fun key => ?_⟩
      · have hdata : data.get? = fun key => (reference.present now key).map Entry.value := by
          funext key
          rw [(hafter key).2.1, hpresent key]
        have hdeadlines : expiresAt.get? =
            fun key => (reference.present now key).bind Entry.deadline := by
          funext key
          rw [(hafter key).2.2, hpresent key]
        simp [InMemoryStore.perform, hrun, ReferenceStore.perform, hdata, hdeadlines]
      · rw [(hafter key).1]
        exact (h key).of_present

/-- A step of a run that does not fit raises `OverflowError`. -/
theorem Matches.perform_overflow {store : InMemoryStore K V} {now : Reading}
    {reference : ReferenceStore K V} (h : store.Matches now reference) (op : StoreOp K V)
    (hfits : ¬ reference.Fits now op) :
    ∃ message, (InMemoryStore.perform op (store.atTime now)).1 =
      .error (.overflowError message) := by
  cases op with
  | key key op =>
      have hpresent : (store.slot key).entry.filter (·.present now) = reference.present now key :=
        (h key).agree now (Reading.le_refl now)
      obtain ⟨message, hcell⟩ := Cell.perform_overflow now (h key).consistent op (by
        rw [hpresent]
        exact hfits)
      rw [show (⟨store.slot key, Stream'.const now⟩ : Cell V) = (store.atTime now).cell key
        from rfl] at hcell
      obtain ⟨after, hrun, -, -⟩ := (local_perform key op).run (Prod.ext hcell rfl)
      exact ⟨message, by simp [InMemoryStore.perform, hrun]⟩
  | snapshot => exact absurd trivial hfits

/-- Along a run, no operation raises, each replies like the reference store, and operations on
other keys change nothing under a key. The clock stands still during each operation. -/
def Refines (store : InMemoryStore K V) (reference : ReferenceStore K V) :
    List (Reading × StoreOp K V) → Prop
  | [] => True
  | (now, op) :: rest =>
      let (result, after) := perform op (store.atTime now)
      let (reply, referenceAfter) := reference.perform now op
      result = .ok reply ∧ KeepsOthers store after op ∧ Refines after referenceAfter rest

/-- From any state that agrees with the reference store, a run refines it exactly if every
operation fits. -/
theorem Matches.refines_iff (steps : List (Reading × StoreOp K V)) {store : InMemoryStore K V}
    {now : Reading} {reference : ReferenceStore K V} (h : store.Matches now reference)
    (hclock : (now :: steps.map Prod.fst).Pairwise (· ≤ ·)) :
    Refines store reference steps ↔ reference.AllFit steps := by
  induction steps generalizing store now reference with
  | nil => exact Iff.rfl
  | cons step rest ih =>
      obtain ⟨later, op⟩ := step
      obtain ⟨hle, htail⟩ := List.pairwise_cons.mp hclock
      have hlater : store.Matches later reference := fun key =>
        (h key).later (hle later List.mem_cons_self)
      by_cases hfits : reference.Fits later op
      · obtain ⟨after, hrun, hkeeps, hmatches⟩ := hlater.perform op hfits
        simp only [Refines, hrun, ReferenceStore.AllFit, hfits, hkeeps, true_and]
        exact ih hmatches htail
      · obtain ⟨message, hrun⟩ := hlater.perform_overflow op hfits
        simp [Refines, hrun, ReferenceStore.AllFit, hfits]

/-- The empty store agrees with the empty reference store at any time. -/
theorem matches_init (nowFn : Stream' Reading) (now : Reading) :
    (init nowFn : InMemoryStore K V).Matches now ReferenceStore.empty := by
  intro key
  have hslot : (init nowFn : InMemoryStore K V).slot key = Slot.ofEntry none := by
    simp [slot, init, Slot.ofEntry, Slot.absent]
  rw [hslot]
  refine Slot.Matches.of_entry now ?_
  intro expiresAt hdeadline
  cases hdeadline

/-- Lazy expiration refines eager expiration exactly on the runs in which no operation asks for
a deadline out of the range of floats. -/
theorem lazy_refines_eager_iff (nowFn : Stream' Reading) (steps : List (Reading × StoreOp K V))
    (hclock : (steps.map Prod.fst).Pairwise (· ≤ ·)) :
    Refines (init nowFn) ReferenceStore.empty steps ↔ ReferenceStore.empty.AllFit steps := by
  cases steps with
  | nil => exact Iff.rfl
  | cons step rest =>
      refine (matches_init nowFn step.1).refines_iff (step :: rest) ?_
      refine List.pairwise_cons.mpr ⟨fun later hlater => ?_, hclock⟩
      rcases List.mem_cons.mp hlater with rfl | hrest
      · exact Reading.le_refl _
      · exact (List.pairwise_cons.mp hclock).1 later hrest

/-- Deadlines in the range of floats, with the keys hashed by their lengths: a key is set with
one, moved to another and read after it has passed. -/
theorem lazy_refines_eager_in_range :
    let _ : PyHash String := ⟨fun key => key.length⟩
    Refines (init (V := String) (Stream'.const (Reading.atSecond 0)))
      ReferenceStore.empty
      [(Reading.atSecond 1, .key "session" (.set "open" (some 60))),
        (Reading.atSecond 2, .key "session" (.expire 5)),
        (Reading.atSecond 9, .key "session" .get)] := by
  intro _
  refine (lazy_refines_eager_iff _ _ ?_).mpr ?_
  · simp [Reading.at_second_le]
  · exact ⟨PyFloat.lt_int_limit (by omega), fun _ => PyFloat.lt_int_limit (by omega), trivial,
      trivial⟩

/-- The interpreter cannot add `2 ^ 1024` seconds to a reading: a run that asks for such a deadline
stops with `OverflowError` where the reference store replies `1`. -/
theorem lazy_differs_from_eager :
    let _ : PyHash String := ⟨fun key => key.length⟩
    ¬ Refines (init (V := String) (Stream'.const (Reading.atSecond 0)))
      ReferenceStore.empty
      [(Reading.atSecond 1, .key "session" (.set "open" none)),
        (Reading.atSecond 2, .key "session" (.expire PyFloat.intLimit))] := by
  intro _
  rw [(matches_init _ (Reading.atSecond 1)).refines_iff _ (by
    simp [Reading.at_second_le, Reading.le_refl])]
  intro hfits
  have hsome : ∀ now, (((ReferenceStore.empty : ReferenceStore String String).perform now
      (.key "session" (.set "open" none))).2.present
        (Reading.atSecond 2) "session").isSome := by
    intro now
    simp [ReferenceStore.perform, ReferenceStore.present, Entry.perform]
  exact Int.lt_irrefl _ (hfits.2.1 (hsome _))

end InMemoryStore

end MiniRedis
