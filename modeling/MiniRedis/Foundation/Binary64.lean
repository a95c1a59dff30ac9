import Mathlib.Tactic.Linarith
import Mathlib.Tactic.Ring
import Mathlib.Tactic.Positivity
import Mathlib.Tactic.NormNum
import MiniRedis.Foundation.Effect

/-!
# Binary64 numbers as multiples of the least one

Every finite binary64 number is a whole number of units of `2 ^ -1074`, so sums,
differences and comparisons are those of integers, and rounding to nearest keeps the 53
leading bits of an integer, ties to even. The sign of a zero and the payload of a NaN are
left out: no comparison, sum or conversion to an integer sees them.

The main facts are the relative error of one rounding (`round_nat_error`) and the exact
bound from which on a rounding overflows (`round_nat_lt_iff`).
-/

namespace Binary64

/-- Round a natural number to 53 leading bits, ties to even. -/
def roundNat (a : Nat) : Nat :=
  let shift := a.log2 - 52
  let quotient := a / 2 ^ shift
  let rest := a % 2 ^ shift
  (if 2 * rest < 2 ^ shift then quotient
    else if 2 ^ shift < 2 * rest then quotient + 1
    else quotient + quotient % 2) * 2 ^ shift

/-- Round an integer to 53 leading bits, ties to even. -/
def round (a : Int) : Int := a.sign * roundNat a.natAbs

/-- The exponent of the number of units in `1.0`. It is kept from unfolding, as the
elaborator would otherwise write such powers out in digits. -/
@[irreducible] def unitExponent : Nat := 1074

/-- The exponent of half the last bit of the largest numbers. -/
@[irreducible] def tailExponent : Nat := 970

/-- The number of units in `1.0`. -/
def one : Nat := 2 ^ unitExponent

/-- Half the last bit of the largest numbers, in units. -/
def lastHalf : Nat := 2 ^ (tailExponent + unitExponent)

/-- `2 ^ 1024` in units, the least power of two that is too large for a binary64 number. -/
def overflow : Nat := 2 ^ (tailExponent + unitExponent + 54)

/-- The integer has at most 53 significant bits and does not overflow. -/
def IsDouble (units : Int) : Prop :=
  2 ^ (units.natAbs.log2 - 52) ∣ units.natAbs ∧ units.natAbs < overflow

instance (units : Int) : Decidable (IsDouble units) := inferInstanceAs (Decidable (_ ∧ _))

/-- The rounded mantissa of `roundNat`: within one half of the exact quotient. -/
theorem round_nat_cases (a : Nat) :
    ∃ mantissa, roundNat a = mantissa * 2 ^ (a.log2 - 52) ∧
      2 * a ≤ (2 * mantissa + 1) * 2 ^ (a.log2 - 52) ∧
      2 * mantissa * 2 ^ (a.log2 - 52) ≤ 2 * a + 2 ^ (a.log2 - 52) ∧
      (a.log2 ≤ 52 → mantissa = a) := by
  have hdiv := Nat.div_add_mod a (2 ^ (a.log2 - 52))
  have hmod := Nat.mod_lt a (Nat.two_pow_pos (a.log2 - 52))
  have hsmall : a.log2 ≤ 52 → 2 ^ (a.log2 - 52) = 1 := by
    intro h
    rw [Nat.sub_eq_zero_of_le h, pow_zero]
  simp only [roundNat]
  -- from here on the argument is about a quotient and a rest
  generalize 2 ^ (a.log2 - 52) = step at hdiv hmod hsmall ⊢
  generalize a / step = quotient at hdiv ⊢
  generalize a % step = rest at hdiv hmod ⊢
  have hcomm : step * quotient = quotient * step := Nat.mul_comm _ _
  split_ifs with hlow hhigh
  · refine ⟨quotient, rfl, ?_, ?_, ?_⟩
    · rw [Nat.add_mul, Nat.mul_assoc]
      omega
    · rw [Nat.mul_assoc]
      omega
    · intro h
      rw [hsmall h] at hdiv hmod
      omega
  · refine ⟨quotient + 1, rfl, ?_, ?_, ?_⟩
    · rw [Nat.add_mul, Nat.mul_assoc, Nat.add_mul]
      omega
    · rw [Nat.mul_assoc, Nat.add_mul]
      omega
    · intro h
      rw [hsmall h] at hmod hhigh
      omega
  · have hparity := Nat.mod_two_eq_zero_or_one quotient
    refine ⟨quotient + quotient % 2, rfl, ?_, ?_, ?_⟩
    · rcases hparity with heven | hodd
      · simp only [heven, Nat.add_zero, Nat.add_mul, Nat.mul_assoc]
        omega
      · rw [hodd, Nat.add_mul, Nat.mul_assoc, Nat.add_mul]
        omega
    · rcases hparity with heven | hodd
      · simp only [heven, Nat.add_zero, Nat.mul_assoc]
        omega
      · rw [hodd, Nat.mul_assoc, Nat.add_mul]
        omega
    · intro h
      rw [hsmall h] at hmod hlow
      omega

/-- Above 53 bits the last kept bit is at most one part in `2 ^ 52`. -/
theorem step_le (a : Nat) (h : 52 < a.log2) : 2 ^ 52 * 2 ^ (a.log2 - 52) ≤ a := by
  have hne : a ≠ 0 := by
    rintro rfl
    simp at h
  rw [← Nat.pow_add, Nat.add_sub_cancel' (Nat.le_of_lt h)]
  exact Nat.log2_self_le hne

/-- One rounding moves a number by at most one part in `2 ^ 53`. -/
theorem round_nat_error (a : Nat) :
    2 ^ 53 * roundNat a ≤ (2 ^ 53 + 1) * a ∧ (2 ^ 53 - 1) * a ≤ 2 ^ 53 * roundNat a := by
  obtain ⟨mantissa, hround, hlow, hhigh, hexact⟩ := round_nat_cases a
  by_cases h : a.log2 ≤ 52
  · have hsame : roundNat a = a := by rw [hround, hexact h, Nat.sub_eq_zero_of_le h]; simp
    rw [hsame]
    omega
  · have hstep := step_le a (by omega)
    rw [hround]
    generalize 2 ^ (a.log2 - 52) = step at *
    rw [Nat.add_mul, Nat.mul_assoc] at hlow
    rw [Nat.mul_assoc] at hhigh
    generalize mantissa * step = rounded at *
    omega

/-- A rounded number has the leading power of two of the exact one, or the next. -/
theorem round_nat_bounds {a : Nat} (h : a ≠ 0) :
    2 ^ a.log2 ≤ roundNat a ∧ roundNat a ≤ 2 ^ (a.log2 + 1) := by
  obtain ⟨mantissa, hround, hlow, hhigh, hexact⟩ := round_nat_cases a
  have hself := Nat.log2_self_le h
  have hlt : a < 2 ^ (a.log2 + 1) := Nat.lt_log2_self
  by_cases hsmall : a.log2 ≤ 52
  · have hsame : roundNat a = a := by
      rw [hround, hexact hsmall, Nat.sub_eq_zero_of_le hsmall]
      simp
    rw [hsame]
    omega
  · obtain ⟨shift, hshift⟩ : ∃ shift, a.log2 = 52 + shift := ⟨a.log2 - 52, by omega⟩
    rw [hround]
    rw [hshift] at hself hlt hlow hhigh ⊢
    rw [Nat.add_sub_cancel_left] at hlow hhigh ⊢
    rw [Nat.pow_add] at hself
    rw [show 52 + shift + 1 = 53 + shift by omega, Nat.pow_add] at hlt ⊢
    rw [Nat.pow_add]
    have hpos := Nat.two_pow_pos shift
    generalize 2 ^ shift = step at *
    constructor
    · refine Nat.mul_le_mul_right _ ?_
      by_contra hcontra
      have hmul : (2 * mantissa + 1) * step ≤ (2 * 2 ^ 52 - 1) * step :=
        Nat.mul_le_mul_right _ (by omega)
      rw [Nat.sub_mul, Nat.mul_assoc] at hmul
      omega
    · refine Nat.mul_le_mul_right _ ?_
      by_contra hcontra
      have hmul : (2 * 2 ^ 53 + 2) * step ≤ 2 * mantissa * step :=
        Nat.mul_le_mul_right _ (by omega)
      rw [Nat.add_mul, Nat.mul_assoc] at hmul
      omega

/-- Rounding reaches a power of two exactly from half a step below it. -/
theorem round_nat_lt_iff (a j : Nat) :
    roundNat a < 2 ^ (j + 54) ↔ a + 2 ^ j < 2 ^ (j + 54) := by
  by_cases hzero : a = 0
  · have hpow : (2 : Nat) ^ j < 2 ^ (j + 54) := Nat.pow_lt_pow_right (by decide) (by omega)
    subst hzero
    simpa [roundNat] using hpow
  have hbounds := round_nat_bounds hzero
  have hself := Nat.log2_self_le hzero
  have hlt : a < 2 ^ (a.log2 + 1) := Nat.lt_log2_self
  have hj := Nat.two_pow_pos j
  have hsplit : (2 : Nat) ^ (j + 54) = 2 ^ 54 * 2 ^ j := by rw [Nat.pow_add, Nat.mul_comm]
  rcases Nat.lt_trichotomy a.log2 (j + 53) with hless | hequal | hmore
  · -- at least one bit below the power: neither side is near it
    have hpow : (2 : Nat) ^ (a.log2 + 1) ≤ 2 ^ (j + 53) :=
      Nat.pow_le_pow_right (by decide) (by omega)
    have hhalf : (2 : Nat) ^ (j + 53) = 2 ^ 53 * 2 ^ j := by rw [Nat.pow_add, Nat.mul_comm]
    constructor <;> intro _ <;> omega
  · -- the last binade: the mantissa decides
    have hstep : (2 : Nat) ^ (a.log2 - 52) = 2 * 2 ^ j := by
      rw [hequal, show j + 53 - 52 = j + 1 by omega, Nat.pow_succ, Nat.mul_comm]
    have hfull : a < 2 ^ 54 * 2 ^ j := by
      rwa [hequal, show j + 53 + 1 = j + 54 by omega, hsplit] at hlt
    have hdiv := Nat.div_add_mod a (2 * 2 ^ j)
    have hmod := Nat.mod_lt a (show 2 * 2 ^ j > 0 by omega)
    have hquotient : a / (2 * 2 ^ j) < 2 ^ 53 := by
      rw [Nat.div_lt_iff_lt_mul (by omega)]
      omega
    rw [hsplit, roundNat, hstep]
    generalize 2 ^ j = half at *
    generalize a / (2 * half) = quotient at *
    generalize a % (2 * half) = rest at *
    by_cases hlast : quotient = 2 ^ 53 - 1
    · subst hlast
      split_ifs <;> omega
    · have hmul : (2 * half) * quotient ≤ (2 * half) * (2 ^ 53 - 2) :=
        Nat.mul_le_mul_left _ (by omega)
      have hresult : ∀ mantissa, mantissa ≤ quotient + 1 →
          mantissa * (2 * half) ≤ (2 ^ 53 - 1) * (2 * half) :=
        fun mantissa hm => Nat.mul_le_mul_right _ (by omega)
      have hparity := Nat.mod_two_eq_zero_or_one quotient
      split_ifs
      · have := hresult quotient (by omega)
        omega
      · have := hresult (quotient + 1) (by omega)
        omega
      · have := hresult (quotient + quotient % 2) (by omega)
        omega
  · have hpow : (2 : Nat) ^ (j + 54) ≤ 2 ^ a.log2 := Nat.pow_le_pow_right (by decide) (by omega)
    constructor <;> intro _ <;> omega

/-- A number of at most 53 significant bits below a power of two is a whole step below it. -/
theorem add_step_le {a j : Nat} (hdvd : 2 ^ (a.log2 - 52) ∣ a) (hlt : a < 2 ^ (j + 54)) :
    a + 2 * 2 ^ j ≤ 2 ^ (j + 54) := by
  have hsplit : (2 : Nat) ^ (j + 54) = 2 ^ 54 * 2 ^ j := by rw [Nat.pow_add, Nat.mul_comm]
  by_cases hzero : a = 0
  · omega
  have hlog : a.log2 < j + 54 := (Nat.log2_lt hzero).mpr hlt
  by_cases htop : a.log2 = j + 53
  · rw [htop, show j + 53 - 52 = j + 1 by omega, Nat.pow_succ] at hdvd
    obtain ⟨steps, hsteps⟩ := hdvd
    rw [hsplit] at hlt ⊢
    have hless : steps < 2 ^ 53 := by
      by_contra hcontra
      have hmul : 2 ^ j * 2 * 2 ^ 53 ≤ 2 ^ j * 2 * steps := Nat.mul_le_mul_left _ (by omega)
      omega
    have hmul : 2 ^ j * 2 * steps ≤ 2 ^ j * 2 * (2 ^ 53 - 1) := Nat.mul_le_mul_left _ (by omega)
    omega
  · have hhalf : a < 2 ^ (j + 53) := (Nat.log2_lt hzero).mp (by omega)
    have hbelow : (2 : Nat) ^ (j + 53) = 2 ^ 53 * 2 ^ j := by rw [Nat.pow_add, Nat.mul_comm]
    omega

/-- A rounded number has at most 53 significant bits. -/
theorem round_nat_dvd (a : Nat) : 2 ^ ((roundNat a).log2 - 52) ∣ roundNat a := by
  by_cases hzero : a = 0
  · subst hzero
    simp [roundNat]
  obtain ⟨mantissa, hround, -, -, -⟩ := round_nat_cases a
  obtain ⟨hlow, hhigh⟩ := round_nat_bounds hzero
  have hne : roundNat a ≠ 0 := by
    have := Nat.two_pow_pos a.log2
    omega
  by_cases htop : roundNat a = 2 ^ (a.log2 + 1)
  · rw [htop, Nat.log2_two_pow]
    exact Nat.pow_dvd_pow 2 (by omega)
  · have hlog : (roundNat a).log2 = a.log2 := by
      have hlt : (roundNat a).log2 < a.log2 + 1 := (Nat.log2_lt hne).mpr (by omega)
      have hge : ¬ (roundNat a).log2 < a.log2 := fun h => by
        have := (Nat.log2_lt hne).mp h
        omega
      omega
    rw [hlog, hround]
    exact Nat.dvd_mul_left _ _

theorem one_pos : 0 < one := Nat.two_pow_pos _

/-- The last bit of the largest numbers stands for `2 ^ 971`. -/
theorem last_half_eq : lastHalf = 2 ^ tailExponent * one := Nat.pow_add 2 _ _

/-- The overflow in steps of half the last bit. -/
theorem overflow_eq : overflow = lastHalf * 2 ^ 54 := Nat.pow_add 2 _ 54

/-- Half the last bit of the largest numbers is more than `2 ^ 34`. -/
theorem reading_le_last_half : 2 ^ 34 * one ≤ lastHalf := by
  rw [last_half_eq]
  refine Nat.mul_le_mul_right _ (Nat.pow_le_pow_right (by decide) ?_)
  unfold tailExponent
  decide

/-- Rounding overflows exactly from half a step below the overflow. -/
theorem round_nat_lt_overflow_iff (a : Nat) : roundNat a < overflow ↔ a + lastHalf < overflow :=
  round_nat_lt_iff a _

/-- A double is a whole step below the overflow. -/
theorem IsDouble.add_step_le {units : Int} (h : IsDouble units) :
    units.natAbs + 2 * lastHalf ≤ overflow :=
  Binary64.add_step_le h.1 h.2

/-- The negative of a double is a double. -/
theorem IsDouble.neg {units : Int} (h : IsDouble units) : IsDouble (-units) := by
  rw [IsDouble, Int.natAbs_neg]
  exact h

/-- Rounding keeps a number with at most 53 significant bits. -/
theorem round_eq_self {exact : Int} (h : 2 ^ (exact.natAbs.log2 - 52) ∣ exact.natAbs) :
    round exact = exact := by
  have hnat : roundNat exact.natAbs = exact.natAbs := by
    simp only [roundNat, Nat.mod_eq_zero_of_dvd h, Nat.mul_zero, Nat.two_pow_pos, if_true]
    exact Nat.div_mul_cancel h
  rw [round, hnat, Int.sign_mul_natAbs]

/-- A number of seconds below `2 ^ 34` is a double. -/
theorem is_double_seconds {n : Nat} (h : n < 2 ^ 34) : IsDouble ((n * one : Nat) : Int) := by
  rw [IsDouble, Int.natAbs_natCast]
  constructor
  · have hlt : n * one < 2 ^ (34 + unitExponent) := by
      rw [Nat.pow_add]
      exact Nat.mul_lt_mul_of_pos_right h one_pos
    have hlog : (n * one).log2 - 52 ≤ unitExponent := by
      by_cases hzero : n * one = 0
      · simp [hzero]
      · have hlog := (Nat.log2_lt hzero).mpr hlt
        omega
    exact Dvd.dvd.mul_left (Nat.pow_dvd_pow 2 hlog) n
  · calc n * one < 2 ^ 34 * one := Nat.mul_lt_mul_of_pos_right h one_pos
      _ ≤ lastHalf := reading_le_last_half
      _ ≤ overflow := by
        rw [overflow_eq]
        exact Nat.le_mul_of_pos_right _ (by decide)

/-- Rounding an integer rounds its distance from zero. -/
theorem nat_abs_round (exact : Int) : (round exact).natAbs = roundNat exact.natAbs := by
  rw [round, Int.natAbs_mul, Int.natAbs_natCast]
  rcases Int.sign_trichotomy exact with hs | hs | hs
  · simp [hs]
  · have hzero : exact = 0 := Int.sign_eq_zero_iff_zero.mp hs
    subst hzero
    simp [roundNat]
  · simp [hs]

/-- Rounding gives a double unless it overflows. -/
theorem is_double_round {exact : Int} (h : roundNat exact.natAbs < overflow) :
    IsDouble (round exact) := by
  rw [IsDouble, nat_abs_round]
  exact ⟨round_nat_dvd _, h⟩

/-- The rounding of a nonnegative number is nonnegative. -/
theorem round_nonneg {exact : Int} (h : 0 ≤ exact) : 0 ≤ round exact :=
  Int.mul_nonneg (Int.sign_nonneg_iff.mpr h) (Int.natCast_nonneg _)

/-- One rounding moves an integer by at most one part in `2 ^ 53`. -/
theorem round_error (exact : Int) : 2 ^ 53 * |round exact - exact| ≤ |exact| := by
  obtain ⟨hhigh, hlow⟩ := round_nat_error exact.natAbs
  have hround : |round exact - exact| = |(roundNat exact.natAbs : Int) - exact.natAbs| := by
    rcases Int.lt_trichotomy exact 0 with h | h | h
    · rw [round, Int.sign_eq_neg_one_of_neg h, Int.ofNat_natAbs_of_nonpos (le_of_lt h), ← abs_neg]
      congr 1
      ring
    · subst h
      simp [round, roundNat]
    · rw [round, Int.sign_eq_one_of_pos h, Int.natAbs_of_nonneg (le_of_lt h), one_mul]
  rw [hround, Int.abs_eq_natAbs exact]
  generalize exact.natAbs = a at *
  generalize roundNat a = rounded at *
  rcases abs_cases ((rounded : Int) - a) with ⟨habs, _⟩ | ⟨habs, _⟩ <;> rw [habs] <;> omega

end Binary64
