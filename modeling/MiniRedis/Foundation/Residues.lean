import Mathlib.Data.Int.CardIntervalMod

/-!
# Counting residues

How many of the numbers below a bound have a given residue, or one of the first residues. Two
consecutive moduli give the same residue where the residue modulo their product is small.
-/

namespace Nat

/-- The numbers below `bound` with one residue: there is one in each whole block, and one in the
rest if the residue comes before its end. -/
theorem card_mod_eq {modulus residue : ℕ} (h : residue < modulus) (bound : ℕ) :
    ((Finset.range bound).filter fun n => n % modulus = residue).card =
      bound / modulus + if residue < bound % modulus then 1 else 0 := by
  have hcount := count_modEq_card bound (by omega : 0 < modulus) residue
  rw [count_eq_card_filter_range, Nat.mod_eq_of_lt h] at hcount
  rw [← hcount]
  refine congrArg Finset.card (Finset.filter_congr fun n _ => ?_)
  rw [Nat.ModEq, Nat.mod_eq_of_lt h]

/-- The numbers below `bound` with one of the first residues. -/
theorem card_mod_lt {modulus first : ℕ} (h : first ≤ modulus) (bound : ℕ) :
    ((Finset.range bound).filter fun n => n % modulus < first).card =
      bound / modulus * first + min first (bound % modulus) := by
  induction first with
  | zero => simp
  | succ first ih =>
      have hsplit : ((Finset.range bound).filter fun n => n % modulus < first + 1) =
          ((Finset.range bound).filter fun n => n % modulus < first) ∪
            (Finset.range bound).filter fun n => n % modulus = first := by
        rw [← Finset.filter_or]
        exact Finset.filter_congr fun n _ => by omega
      have hdisjoint : Disjoint ((Finset.range bound).filter fun n => n % modulus < first)
          ((Finset.range bound).filter fun n => n % modulus = first) :=
        Finset.disjoint_filter.mpr fun n _ hlt heq => by omega
      rw [hsplit, Finset.card_union_of_disjoint hdisjoint, ih (by omega), card_mod_eq (by omega),
        Nat.mul_succ]
      split <;> omega

/-- Two consecutive moduli give a number the same residue exactly if it is, modulo their product,
less than the first of them. -/
theorem mod_eq_mod_succ_iff {modulus : ℕ} (h : 0 < modulus) (n : ℕ) :
    n % modulus = n % (modulus + 1) ↔ n % (modulus * (modulus + 1)) < modulus := by
  have hleft : n % (modulus * (modulus + 1)) % modulus = n % modulus :=
    Nat.mod_mod_of_dvd n (Nat.dvd_mul_right _ _)
  have hright : n % (modulus * (modulus + 1)) % (modulus + 1) = n % (modulus + 1) :=
    Nat.mod_mod_of_dvd n (Nat.dvd_mul_left _ _)
  have hlt : n % (modulus * (modulus + 1)) < modulus * (modulus + 1) :=
    Nat.mod_lt _ (Nat.mul_pos h (Nat.succ_pos _))
  rw [← hleft, ← hright]
  generalize n % (modulus * (modulus + 1)) = rest at hlt
  constructor
  · intro hsame
    have hdiv := Nat.div_add_mod rest modulus
    have hdiv' := Nat.div_add_mod rest (modulus + 1)
    -- the quotient by the second modulus is a multiple of the first, and less than it
    have hequal : modulus * (rest / modulus) = (modulus + 1) * (rest / (modulus + 1)) := by omega
    have hdvd : modulus ∣ rest / (modulus + 1) := by
      have hcoprime : Nat.Coprime modulus (modulus + 1) :=
        Nat.coprime_self_add_right.mpr (Nat.coprime_one_right modulus)
      exact hcoprime.dvd_of_dvd_mul_left ⟨rest / modulus, hequal.symm⟩
    have hsmall : rest / (modulus + 1) < modulus := Nat.div_lt_of_lt_mul (by
      rw [Nat.mul_comm]
      exact hlt)
    have hzero : rest / (modulus + 1) = 0 := Nat.eq_zero_of_dvd_of_lt hdvd hsmall
    rw [hzero, Nat.mul_zero, Nat.zero_add] at hdiv'
    have hmod := Nat.mod_lt rest h
    omega
  · intro hsmall
    rw [Nat.mod_eq_of_lt hsmall, Nat.mod_eq_of_lt (by omega)]

end Nat
