import MiniRedis.Foundation.Binary64

/-!
# The `float` of Python

`PyFloat` is a binary64 number, an infinity or a NaN, with the arithmetic and comparisons
that Python performs on it, and the conversions between `int` and `float` with their
exceptions. `Reading` is a result of `time.time()`. A reading lies within `2 ^ 34` seconds
of the epoch, as the interpreter keeps time in signed 64-bit nanoseconds, and this is what
makes a deadline exact enough: `add_seconds_spec` says that a positive number of seconds
added to a reading is either too large for a float or a finite time after the reading.
-/

open Binary64

/-- A `float`: a finite number in units of the least positive one, or a special value. -/
inductive PyFloat where
  | nan
  | infinity (negative : Bool)
  | finite (units : Int) (isDouble : IsDouble units)
deriving DecidableEq

namespace PyFloat

/-- The float nearest to a number of units. -/
def ofUnits (exact : Int) : PyFloat :=
  if h : roundNat exact.natAbs < overflow then .finite (Binary64.round exact) (is_double_round h)
  else .infinity (decide (exact < 0))

/-- A float is the float nearest to its own number of units. -/
theorem of_units_double {units : Int} (h : IsDouble units) : ofUnits units = .finite units h := by
  have hround : Binary64.round units = units := round_eq_self h.1
  have hlt : roundNat units.natAbs < overflow := by
    rw [← nat_abs_round, hround]
    exact h.2
  rw [ofUnits, dif_pos hlt]
  congr 1

/-- `x + y`. -/
def add : PyFloat → PyFloat → PyFloat
  | .nan, _ => .nan
  | _, .nan => .nan
  | .infinity s, .infinity t => if s = t then .infinity s else .nan
  | .infinity s, .finite _ _ => .infinity s
  | .finite _ _, .infinity t => .infinity t
  | .finite a _, .finite b _ => ofUnits (a + b)

/-- `x - y`. -/
def sub : PyFloat → PyFloat → PyFloat
  | .nan, _ => .nan
  | _, .nan => .nan
  | .infinity s, .infinity t => if s = t then .nan else .infinity s
  | .infinity s, .finite _ _ => .infinity s
  | .finite _ _, .infinity t => .infinity !t
  | .finite a _, .finite b _ => ofUnits (a - b)

/-- `x > y`: false for a NaN. -/
def gt : PyFloat → PyFloat → Bool
  | .nan, _ => false
  | _, .nan => false
  | .infinity s, .infinity t => !s && t
  | .infinity s, .finite _ _ => !s
  | .finite _ _, .infinity t => t
  | .finite a _, .finite b _ => decide (b < a)

/-- `float(n)` of an integer, as Python converts it in mixed arithmetic. -/
def ofInt (n : Int) : Except PyError PyFloat :=
  match ofUnits (n * one) with
  | .finite units isDouble => .ok (.finite units isDouble)
  | _ => .error (.overflowError "int too large to convert to float")

/-- `int(x)`: the fraction is dropped. -/
def toInt : PyFloat → Except PyError Int
  | .nan => .error (.valueError "cannot convert float NaN to integer")
  | .infinity _ => .error (.overflowError "cannot convert float infinity to integer")
  | .finite units _ => .ok (units.tdiv one)

/-- The greatest integer up to a finite float. -/
def floor : PyFloat → Int
  | .finite units _ => units / one
  | _ => 0

/-- `x + n` with an integer on the right. -/
def addInt (x : PyFloat) (n : Int) : Except PyError PyFloat := (ofInt n).map x.add

/-- The least positive integer that is too large for a float, `2 ^ 1024 - 2 ^ 970`. -/
def intLimit : Nat := 2 ^ (tailExponent + 54) - 2 ^ tailExponent

/-- Every integer below `2 ^ 53` is in the range of floats. -/
theorem lt_int_limit {n : Int} (h : n < 2 ^ 53) : n < intLimit := by
  have hlimit : intLimit = 2 ^ tailExponent * (2 ^ 54 - 1) := by
    rw [intLimit, Nat.pow_add, Nat.mul_sub_one]
  have hle : 2 ^ 54 - 1 ≤ intLimit := by
    rw [hlimit]
    exact Nat.le_mul_of_pos_left _ (Nat.two_pow_pos _)
  omega

/-- An integer is too large for a float exactly from `2 ^ 1024 - 2 ^ 970` on. -/
theorem round_int_lt_iff (n : Int) :
    roundNat (n * one).natAbs < overflow ↔ n.natAbs < intLimit := by
  have hlimit : intLimit + 2 ^ tailExponent = 2 ^ tailExponent * 2 ^ 54 := by
    rw [intLimit, Nat.pow_add]
    exact Nat.sub_add_cancel (Nat.le_mul_of_pos_right _ (by decide))
  rw [round_nat_lt_overflow_iff, overflow_eq, last_half_eq, Int.natAbs_mul, Int.natAbs_natCast,
    ← Nat.add_mul, Nat.mul_right_comm, Nat.mul_lt_mul_right Binary64.one_pos, ← hlimit]
  exact Nat.add_lt_add_iff_right

/-- A conversion that overflows raises. -/
theorem of_int_overflow {n : Int} (h : intLimit ≤ n.natAbs) :
    ofInt n = .error (.overflowError "int too large to convert to float") := by
  have hround : ¬ roundNat (n * one).natAbs < overflow := by
    rw [round_int_lt_iff]
    omega
  rw [ofInt, ofUnits, dif_neg hround]

/-- A conversion that does not overflow gives the nearest float. -/
theorem of_int_finite {n : Int} (h : n.natAbs < intLimit) :
    ofInt n = .ok (.finite (Binary64.round (n * one))
      (is_double_round ((round_int_lt_iff n).mpr h))) := by
  rw [ofInt, ofUnits, dif_pos ((round_int_lt_iff n).mpr h)]

end PyFloat

/-- A result of `time.time()`. -/
structure Reading where
  units : Int
  isDouble : IsDouble units
  bounded : units.natAbs < 2 ^ 34 * one

namespace Reading

/-- The reading as a float. -/
def time (now : Reading) : PyFloat := .finite now.units now.isDouble

/-- The reading a whole number of seconds after the epoch. -/
def atSecond (seconds : Fin (2 ^ 34)) : Reading :=
  ⟨(seconds * one : Nat), is_double_seconds seconds.isLt, by
    rw [Int.natAbs_natCast]
    exact Nat.mul_lt_mul_of_pos_right seconds.isLt Binary64.one_pos⟩

instance : LE Reading := ⟨fun first second => first.units ≤ second.units⟩

theorem le_def {first second : Reading} : first ≤ second ↔ first.units ≤ second.units := Iff.rfl

theorem le_refl (now : Reading) : now ≤ now := Int.le_refl _

theorem le_trans {first second third : Reading} (h : first ≤ second) (h' : second ≤ third) :
    first ≤ third := Int.le_trans h h'

/-- Seconds after the epoch are ordered as their readings. -/
theorem at_second_le {first second : Fin (2 ^ 34)} (hle : first ≤ second) :
    atSecond first ≤ atSecond second :=
  Int.ofNat_le.mpr (Nat.mul_le_mul_right _ hle)

open PyFloat

/-- A time after a reading is after every earlier reading. -/
theorem gt_of_le {x : PyFloat} {earlier later : Reading} (hle : earlier ≤ later)
    (h : x.gt later.time = true) : x.gt earlier.time = true := by
  rw [le_def] at hle
  cases x with
  | nan => simp [gt] at h
  | infinity negative => simpa [gt, time] using h
  | finite units isDouble =>
      simp only [gt, time, decide_eq_true_eq] at h ⊢
      omega

/-- Moving a float by the distance of a reading from the epoch does not overflow. -/
theorem round_lt_overflow {units : Int} (h : IsDouble units) (now : Reading) {exact : Int}
    (hexact : exact.natAbs ≤ units.natAbs + now.units.natAbs) :
    roundNat exact.natAbs < overflow := by
  have hstep := h.add_step_le
  have hbound := now.bounded
  have hsmall := reading_le_last_half
  rw [round_nat_lt_overflow_iff]
  omega

/-- A positive number of seconds added to a reading is a finite time after it, unless the
number is too large for a float. -/
theorem add_seconds_spec (now : Reading) {seconds : Int} (hpos : 0 < seconds)
    (hfits : seconds.natAbs < intLimit) :
    ∃ units isDouble, now.time.addInt seconds = .ok (.finite units isDouble) ∧
      now.units < units := by
  have hdouble := is_double_round ((round_int_lt_iff seconds).mpr hfits)
  have hlt : roundNat (now.units + Binary64.round (seconds * one)).natAbs < overflow :=
    round_lt_overflow hdouble now (by
      rw [Nat.add_comm]
      exact Int.natAbs_add_le _ _)
  refine ⟨Binary64.round (now.units + Binary64.round (seconds * one)), is_double_round hlt, ?_, ?_⟩
  · rw [addInt, of_int_finite hfits, Except.map, time, add, ofUnits, dif_pos hlt]
  · -- two roundings of a distance of at least one second, one of them next to the epoch
    have hone : (0 : Int) < one := Int.natCast_pos.mpr Binary64.one_pos
    have hlong : (one : Int) ≤ seconds * one := by nlinarith
    have herror := round_error (seconds * one)
    have herror' := round_error (now.units + Binary64.round (seconds * one))
    have hbound : |now.units| < 2 ^ 34 * (one : Int) := by
      rw [Int.abs_eq_natAbs]
      exact_mod_cast now.bounded
    generalize seconds * (one : Int) = exact at *
    generalize Binary64.round exact = delay at *
    generalize Binary64.round (now.units + delay) = deadline at *
    rw [abs_of_nonneg (by omega : 0 ≤ exact)] at herror
    obtain ⟨hlow, hhigh⟩ := abs_le.mp (le_of_eq (rfl : |delay - exact| = _))
    obtain ⟨hlow', hhigh'⟩ := abs_le.mp (le_of_eq (rfl : |deadline - (now.units + delay)| = _))
    obtain ⟨hback, hforth⟩ := abs_lt.mp hbound
    have hsum : |now.units + delay| ≤ 2 ^ 34 * one + exact + |delay - exact| := by
      rw [abs_le]
      constructor <;> linarith
    linarith

/-- The distance of a finite time from a reading is finite. -/
theorem sub_finite (now : Reading) {units : Int} (isDouble : IsDouble units) :
    ∃ left isDouble', (PyFloat.finite units isDouble).sub now.time = .finite left isDouble' := by
  have hlt : roundNat (units - now.units).natAbs < overflow :=
    round_lt_overflow isDouble now (Int.natAbs_sub_le _ _)
  exact ⟨_, is_double_round hlt, by rw [time, sub, ofUnits, dif_pos hlt]⟩

/-- The seconds left until a finite time after a reading are a nonnegative integer, and
dropping the fraction rounds them down. -/
theorem seconds_left (now : Reading) {units : Int} (isDouble : IsDouble units)
    (h : now.units < units) :
    ∃ left, ((PyFloat.finite units isDouble).sub now.time).toInt = .ok left ∧ 0 ≤ left ∧
      ((PyFloat.finite units isDouble).sub now.time).floor = left := by
  have hlt : roundNat (units - now.units).natAbs < overflow :=
    round_lt_overflow isDouble now (Int.natAbs_sub_le _ _)
  have hsign : 0 ≤ Binary64.round (units - now.units) := round_nonneg (by omega)
  have hsub : (PyFloat.finite units isDouble).sub now.time =
      .finite (Binary64.round (units - now.units)) (is_double_round hlt) := by
    rw [time, sub, ofUnits, dif_pos hlt]
  rw [hsub]
  refine ⟨(Binary64.round (units - now.units)).tdiv one, rfl, ?_, ?_⟩
  · exact Int.tdiv_nonneg hsign (Int.natCast_nonneg _)
  · exact (Int.tdiv_eq_ediv_of_nonneg hsign).symm

/-- Whole seconds are compared as integers. -/
theorem at_second_gt (first second : Fin (2 ^ 34)) :
    (atSecond first).time.gt (atSecond second).time = decide (second < first) := by
  have hlt : ((second.val * one : Nat) : Int) < (first.val * one : Nat) ↔ second < first := by
    rw [Int.ofNat_lt, Nat.mul_lt_mul_right Binary64.one_pos, Fin.lt_def]
  simp only [atSecond, time, gt, hlt]

/-- Whole seconds are added exactly. -/
theorem at_second_add (first second : Fin (2 ^ 34)) (hsum : first.val + second.val < 2 ^ 34) :
    (atSecond first).time.addInt second.val = .ok (atSecond ⟨first + second, hsum⟩).time := by
  have hunits : ofUnits ((second.val : Int) * one) =
      .finite (second * one : Nat) (is_double_seconds second.isLt) :=
    (congrArg ofUnits (Nat.cast_mul _ _).symm).trans (of_units_double _)
  have hadd : ((first.val * one : Nat) : Int) + (second.val * one : Nat) =
      ((first.val + second.val) * one : Nat) := by
    rw [Nat.add_mul, Nat.cast_add]
  have htotal : ofUnits (((first.val * one : Nat) : Int) + (second.val * one : Nat)) =
      (atSecond ⟨first + second, hsum⟩).time :=
    (congrArg ofUnits hadd).trans (of_units_double _)
  rw [addInt, ofInt, hunits]
  exact congrArg Except.ok htotal

/-- The whole seconds between two readings are exact. -/
theorem at_second_sub (first second : Fin (2 ^ 34)) :
    ((atSecond first).time.sub (atSecond second).time).toInt =
      .ok ((first.val : Int) - second.val) := by
  have hsub : ((first.val * one : Nat) : Int) - (second.val * one : Nat) =
      ((first.val : Int) - second.val) * one := by
    push_cast
    ring
  have hdouble : IsDouble (((first.val : Int) - second.val) * one) := by
    rcases Nat.le_total second.val first.val with hle | hle
    · rw [← Nat.cast_sub hle, ← Nat.cast_mul]
      exact is_double_seconds (by omega)
    · have hneg : ((first.val : Int) - second.val) * one =
          -((second.val - first.val) * one : Nat) := by
        rw [Nat.cast_mul, Nat.cast_sub hle]
        ring
      rw [hneg]
      exact (is_double_seconds (by omega)).neg
  have hunits : (atSecond first).time.sub (atSecond second).time =
      .finite (((first.val : Int) - second.val) * one) hdouble :=
    (congrArg ofUnits hsub).trans (of_units_double hdouble)
  rw [hunits, toInt,
    Int.mul_tdiv_cancel _ (Int.natCast_ne_zero.mpr (Nat.ne_of_gt Binary64.one_pos))]

end Reading
