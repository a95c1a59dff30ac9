import MiniRedis.Foundation.Digits
import MiniRedis.Foundation.Triple
import MiniRedis.Storage.Reference

/-!
# Sound slots

A slot is sound when its deadline is a finite time that belongs to a value, and the value has
a property that all values that come in have. Whatever the clock shows, the methods of the
store keep slots sound; and none of them raises on a sound slot, except for an `expire` of a
live key by a number of seconds that is too large for a float (`Cell.triple_expire_overflow`).
-/

namespace PyFloat

/-- The integer part of a float has a text. -/
theorem to_int_text {x : PyFloat} {n : Int} (h : x.toInt = .ok n) :
    ∃ text, PyText.intText n = .ok text := by
  cases x with
  | nan => cases h
  | infinity negative => cases h
  | finite units isDouble =>
      cases h
      have hsmall : units.natAbs < 2 ^ (Binary64.tailExponent + 54) * Binary64.one := by
        have hoverflow := isDouble.2
        rw [Binary64.overflow_eq, Binary64.last_half_eq] at hoverflow
        rw [Nat.pow_add, Nat.mul_right_comm]
        exact hoverflow
      have hpower : 2 ^ (Binary64.tailExponent + 54) ≤ 10 ^ PyText.maxStrDigits := by
        have hexponent : Binary64.tailExponent + 54 ≤ PyText.maxStrDigits := by
          unfold Binary64.tailExponent
          decide
        calc 2 ^ (Binary64.tailExponent + 54)
            ≤ 10 ^ (Binary64.tailExponent + 54) := Nat.pow_le_pow_left (by decide) _
          _ ≤ 10 ^ PyText.maxStrDigits := Nat.pow_le_pow_right (by decide) hexponent
      refine PyText.int_text_of_lt ?_
      rw [Int.natAbs_tdiv, Int.natAbs_natCast]
      exact Nat.lt_of_lt_of_le (Nat.div_lt_of_lt_mul (Nat.mul_comm _ _ ▸ hsmall)) hpower

end PyFloat

namespace MiniRedis

/-- A deadline that is finite and belongs to a value with the property `P`. -/
structure Slot.Sound {V : Type} (P : V → Prop) (slot : Slot V) : Prop where
  consistent : slot.Consistent
  finite : slot.Finite
  value : ∀ value, slot.value = some value → P value

namespace Cell

open Py

variable {V : Type} {P : V → Prop}

/-- The key is live: it has a value that an eviction leaves. -/
def Live (cell : Cell V) : Prop := (cell.purge cell.nowFn.head).value ≠ none

theorem sound_absent : (Slot.absent : Slot V).Sound P := by
  refine ⟨Slot.consistent_absent, ?_, ?_⟩
  · intro expiresAt h
    cases h
  · intro value h
    cases h

/-- A value without a deadline is sound. -/
theorem sound_value {value : V} (h : P value) : (Slot.mk (some value) none).Sound P := by
  refine ⟨?_, ?_, ?_⟩
  · intro hnone
    cases hnone
  · intro expiresAt hdeadline
    cases hdeadline
  · intro other hother
    cases hother
    exact h

theorem sound_purge {slot : Slot V} (h : slot.Sound P) (now : Reading) :
    (slot.purge now).Sound P := by
  unfold Slot.purge
  split
  · exact sound_absent
  · exact h

/-- An eviction keeps the value of a live key, and takes that of any other. -/
theorem triple_evict (live : Prop) :
    Triple (fun cell : Cell V => cell.toSlot.Sound P ∧ (cell.Live ↔ live)) evictIfExpired
      (fun _ cell => cell.toSlot.Sound P ∧ (cell.value ≠ none ↔ live)) fun _ _ => False := by
  intro cell h
  obtain ⟨hsound, hlive⟩ := h
  rw [evict_eq cell hsound.consistent]
  exact ⟨sound_purge hsound _, hlive⟩

theorem triple_evict_sound :
    Triple (fun cell : Cell V => cell.toSlot.Sound P) evictIfExpired
      (fun _ cell => cell.toSlot.Sound P) fun _ _ => False := by
  intro cell h
  rw [evict_eq cell h.consistent]
  exact sound_purge h _

theorem triple_in_data {R : Cell V → Prop} :
    Triple R inData (fun present cell => R cell ∧ present = cell.value.isSome)
      fun _ _ => False :=
  fun _ h => ⟨h, rfl⟩

theorem triple_set {value : V} (h : P value) :
    Triple (fun cell : Cell V => cell.toSlot.Sound P) (set value none)
      (fun _ cell => cell.toSlot.Sound P) fun _ _ => False :=
  fun _ _ => sound_value h

theorem triple_get :
    Triple (fun cell : Cell V => cell.toSlot.Sound P) get
      (fun found cell => cell.toSlot.Sound P ∧ ∀ value, found = some value → P value)
      fun _ _ => False := by
  refine .bind triple_evict_sound fun _ => ?_
  intro cell h
  exact ⟨h, h.value⟩

theorem triple_delete :
    Triple (fun cell : Cell V => cell.toSlot.Sound P) delete
      (fun deleted cell => cell.toSlot.Sound P ∧ (deleted = 0 ∨ deleted = 1))
      fun _ _ => False := by
  refine .bind triple_evict_sound fun _ => .bind triple_in_data fun present => .ite ?_ ?_
  · intro hpresent cell h
    obtain ⟨⟨value, deadline⟩, nowFn⟩ := cell
    obtain ⟨hsound, rfl⟩ := h
    obtain rfl : value = none := by simpa using hpresent
    exact ⟨sound_absent, .inl rfl⟩
  · intro hpresent cell h
    obtain ⟨⟨value, deadline⟩, nowFn⟩ := cell
    obtain ⟨hsound, rfl⟩ := h
    cases value with
    | none => exact absurd rfl hpresent
    | some value => exact ⟨sound_absent, .inr rfl⟩

theorem triple_exists :
    Triple (fun cell : Cell V => cell.toSlot.Sound P) «exists»
      (fun found cell => cell.toSlot.Sound P ∧ (found = 0 ∨ found = 1)) fun _ _ => False := by
  refine .bind triple_evict_sound fun _ => .bind triple_in_data fun present => .pure ?_
  intro cell h
  refine ⟨h.1, ?_⟩
  cases present
  · exact .inl rfl
  · exact .inr rfl

/-- Setting a deadline that fits. -/
theorem triple_set_expire {seconds : Int} (hpos : 0 < seconds)
    (hfits : seconds < PyFloat.intLimit) :
    Triple (fun cell : Cell V => cell.toSlot.Sound P ∧ cell.value ≠ none) (setExpire seconds)
      (fun _ cell => cell.toSlot.Sound P) fun _ _ => False := by
  intro cell h
  obtain ⟨⟨value, deadline⟩, nowFn⟩ := cell
  obtain ⟨hsound, hvalue⟩ := h
  obtain ⟨units, isDouble, hsum, -⟩ :=
    nowFn.head.add_seconds_spec hpos (by omega : seconds.natAbs < PyFloat.intLimit)
  have hsign : ¬ seconds ≤ 0 := by omega
  simp only [setExpire, hsign, if_false, now, bind_apply, hsum, of_except_apply, modify_apply,
    pure_apply]
  refine ⟨?_, ?_, hsound.value⟩
  · intro hnone
    exact absurd hnone hvalue
  · intro expiresAt hdeadline
    cases hdeadline
    exact ⟨units, isDouble, rfl⟩

/-- Setting a deadline that is too large for a float raises, and changes no slot. -/
theorem triple_set_expire_overflow {seconds : Int} (hlarge : (PyFloat.intLimit : Int) ≤ seconds)
    (hpos : 0 < seconds) :
    Triple (fun cell : Cell V => cell.toSlot.Sound P) (setExpire seconds)
      (fun _ _ => False)
      fun error cell => (∃ message, error = .overflowError message) ∧ cell.toSlot.Sound P := by
  intro cell h
  have hoverflow := PyFloat.of_int_overflow (by omega : PyFloat.intLimit ≤ seconds.natAbs)
  have hsign : ¬ seconds ≤ 0 := by omega
  have hsum : cell.nowFn.head.time.addInt seconds =
      .error (.overflowError "int too large to convert to float") := by
    rw [PyFloat.addInt, hoverflow]
    rfl
  simp only [setExpire, hsign, if_false, now, bind_apply, hsum, of_except_apply]
  exact ⟨⟨_, rfl⟩, h⟩

/-- An `expire` that fits, or of a key that is not live, sets a deadline or does not. -/
theorem triple_expire {seconds : Int} (hpos : 0 < seconds) (live : Prop)
    (hfits : live → seconds < PyFloat.intLimit) :
    Triple (fun cell : Cell V => cell.toSlot.Sound P ∧ (cell.Live ↔ live)) (expire seconds)
      (fun updated cell => cell.toSlot.Sound P ∧ (updated = 0 ∨ updated = 1))
      fun _ _ => False := by
  refine .bind (triple_evict live) fun _ => .bind triple_in_data fun present => .ite ?_ ?_
  · intro hpresent cell h
    exact ⟨h.1.1, .inl rfl⟩
  · intro hpresent
    have hsome : present = true := by simpa using hpresent
    have hlive : ∀ cell : Cell V, ((cell.toSlot.Sound P ∧ (cell.value ≠ none ↔ live)) ∧
        present = cell.value.isSome) → live := by
      intro cell h
      refine h.1.2.mp ?_
      rw [hsome] at h
      exact Option.isSome_iff_ne_none.mp h.2.symm
    intro cell h
    have hexpire := triple_set_expire (P := P) hpos (hfits (hlive cell h))
    refine Triple.bind (hexpire.strengthen (P := fun other => other = cell) ?_) ?_ cell rfl
    · rintro other rfl
      exact ⟨h.1.1, h.1.2.mpr (hlive other h)⟩
    · intro updated
      refine .pure ?_
      intro after hafter
      refine ⟨hafter, ?_⟩
      cases updated
      · exact .inl rfl
      · exact .inr rfl

/-- An `expire` of a live key by too many seconds raises. -/
theorem triple_expire_overflow {seconds : Int} (hpos : 0 < seconds)
    (hlarge : (PyFloat.intLimit : Int) ≤ seconds) :
    Triple (fun cell : Cell V => cell.toSlot.Sound P ∧ (cell.Live ↔ True)) (expire seconds)
      (fun _ _ => False)
      fun error cell => (∃ message, error = .overflowError message) ∧ cell.toSlot.Sound P := by
  refine .bind ((triple_evict True).weaken_error fun _ _ h => h.elim) fun _ => ?_
  refine .bind (triple_in_data.weaken_error fun _ _ h => h.elim) fun present => .ite ?_ ?_
  · intro hpresent cell h
    have hnone : cell.value = none := by
      have hsame := h.2
      simp only [Bool.not_eq_true'] at hpresent
      rw [hpresent] at hsame
      simpa using hsame.symm
    exact absurd hnone (h.1.2.mpr trivial)
  · intro hpresent
    refine .bind ((triple_set_expire_overflow hlarge hpos).strengthen fun _ h => h.1.1)
      fun updated => ?_
    intro cell h
    exact h.elim

theorem triple_ttl :
    Triple (fun cell : Cell V => cell.toSlot.Sound P) ttl
      (fun left cell => cell.toSlot.Sound P ∧ ∃ text, PyText.intText left = .ok text)
      fun _ _ => False := by
  have hone : ∃ text, PyText.intText (-1) = .ok text := PyText.int_text_of_small (by decide)
  have htwo : ∃ text, PyText.intText (-2) = .ok text := PyText.int_text_of_small (by decide)
  refine .bind triple_evict_sound fun expired => .ite ?_ ?_
  · intro hexpired cell h
    exact ⟨h, htwo⟩
  · intro hexpired
    refine .bind triple_in_data fun present => .ite ?_ ?_
    · intro hpresent cell h
      exact ⟨h.1, htwo⟩
    · intro hpresent cell h
      obtain ⟨⟨value, deadline⟩, nowFn⟩ := cell
      obtain ⟨hsound, hsame⟩ := h
      cases deadline with
      | none => exact ⟨hsound, hone⟩
      | some expiresAt =>
          obtain ⟨units, isDouble, rfl⟩ := hsound.finite expiresAt rfl
          obtain ⟨left, isDouble', hleft⟩ := nowFn.head.sub_finite isDouble
          simp only [get_apply, bind_apply, now, hleft, PyFloat.toInt, of_except_apply]
          by_cases hsign : 0 ≤ left.tdiv Binary64.one
          · rw [if_pos hsign]
            exact ⟨hsound, PyFloat.to_int_text (x := .finite left isDouble') rfl⟩
          · -- the deadline is dropped, and the value stays
            rw [if_neg hsign]
            refine ⟨⟨fun _ => rfl, ?_, hsound.value⟩, htwo⟩
            intro other hother
            cases hother

theorem triple_get_expire_at :
    Triple (fun cell : Cell V => cell.toSlot.Sound P) getExpireAt
      (fun _ cell => cell.toSlot.Sound P) fun _ _ => False := by
  refine .bind triple_evict_sound fun _ => ?_
  intro cell h
  obtain ⟨⟨value, deadline⟩, nowFn⟩ := cell
  cases deadline with
  | none => exact h
  | some expiresAt =>
      cases hgt : expiresAt.gt nowFn.head.time with
      | true =>
          simp only [currentDeadline, isExpired, now, bind_apply, get_apply, hgt, if_true,
            pure_apply, if_false, Bool.false_eq_true]
          exact h
      | false =>
          simp only [currentDeadline, isExpired, now, bind_apply, get_apply, hgt, if_true,
            pure_apply, if_false, Bool.false_eq_true, dropDeadline, modify_apply]
          refine ⟨fun _ => rfl, ?_, h.value⟩
          intro other hother
          cases hother

end Cell

end MiniRedis
