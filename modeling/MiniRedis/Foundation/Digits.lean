import Mathlib.Algebra.Group.Nat.Defs
import Mathlib.Data.List.TakeWhile
import MiniRedis.Foundation.Text

/-!
# Decimal text

The digits that `str` writes are ASCII, are read back by `int` (`PyText.parse_int_digits`), and
determine the number (`PyText.int_text_injective`). What else `int` reads, with a sign, underscores
and spaces, is given as a grammar (`PyText.parse_int_iff`).
-/

namespace Bytes

/-- Text is encoded character by character. -/
theorem of_text_of_list (text : List Char) :
    ofText (String.ofList text) = text.flatMap String.utf8EncodeChar := by
  rw [ofText, String.toByteArray_ofList, List.utf8Encode]
  simp

/-- ASCII text is encoded one byte for a character. -/
theorem of_text_ascii {text : List Char} (h : ∀ c ∈ text, c.toNat < 128) :
    ofText (String.ofList text) = text.map fun c => UInt8.ofNat c.toNat := by
  rw [of_text_of_list]
  induction text with
  | nil => rfl
  | cons c rest ih =>
      have hc : c.val.toNat ≤ 127 := Nat.le_of_lt_succ (h c List.mem_cons_self)
      rw [List.flatMap_cons, List.map_cons, ih fun other hother =>
        h other (List.mem_cons_of_mem _ hother)]
      rw [String.utf8EncodeChar.eq_1]
      simp only [hc, if_true, Char.toNat]
      rfl

/-- An ASCII byte of an encoded character is the character. -/
theorem utf8_encode_char_ascii {c : Char} {byte : UInt8} (h : byte ∈ String.utf8EncodeChar c)
    (hbyte : byte.toNat < 128) : c.toNat = byte.toNat := by
  rw [String.utf8EncodeChar.eq_1] at h
  show c.val.toNat = byte.toNat
  split_ifs at h with hone htwo hthree
  · rw [List.mem_singleton.mp h, UInt8.toNat_ofNat']
    omega
  all_goals
    -- every byte of a longer encoding has its upper bit set
    simp only [List.mem_cons, List.not_mem_nil, or_false] at h
    rcases h with rfl | rfl | rfl | rfl <;> rw [UInt8.toNat_ofNat'] at hbyte <;> omega

/-- An ASCII byte of encoded text is one of the characters. -/
theorem mem_of_text_ascii {text : String} {byte : UInt8} (h : byte ∈ ofText text)
    (hbyte : byte.toNat < 128) : Char.ofNat byte.toNat ∈ text.toList := by
  rw [← String.ofList_toList (s := text), of_text_of_list, List.mem_flatMap] at h
  obtain ⟨c, hc, hmem⟩ := h
  rw [← utf8_encode_char_ascii hmem hbyte, Char.ofNat_toNat]
  exact hc

/-- ASCII text is decoded from its encoding. -/
theorem to_ascii_of_text {text : List Char} (h : ∀ c ∈ text, c.toNat < 128) :
    toAscii? (ofText (String.ofList text)) = some (String.ofList text) := by
  have hbytes : ∀ c ∈ text, (UInt8.ofNat c.toNat).toNat = c.toNat := fun c hc =>
    Nat.mod_eq_of_lt (Nat.lt_trans (h c hc) (by decide))
  have hall : (text.map fun c => UInt8.ofNat c.toNat).all (· < 128) = true := by
    rw [List.all_map, List.all_eq_true]
    intro c hc
    simp only [Function.comp_apply, decide_eq_true_eq, UInt8.lt_iff_toNat_lt, hbytes c hc]
    exact h c hc
  have hback : (text.map fun c => UInt8.ofNat c.toNat).map
      (fun byte => Char.ofNat byte.toNat) = text := by
    rw [List.map_map]
    refine (List.map_congr_left fun c hc => ?_).trans (List.map_id text)
    simp only [Function.comp_apply, hbytes c hc, Char.ofNat_toNat, id_eq]
  rw [of_text_ascii h, toAscii?, if_pos hall, hback]

/-- Bytes are decoded as ASCII exactly if they encode a text of ASCII characters. -/
theorem to_ascii_some_iff {raw : Bytes} {text : List Char} :
    toAscii? raw = some (String.ofList text) ↔
      raw = ofText (String.ofList text) ∧ ∀ c ∈ text, c.toNat < 128 := by
  constructor
  · intro h
    unfold toAscii? at h
    split at h
    · next hall =>
        have htext : raw.map (fun byte => Char.ofNat byte.toNat) = text :=
          String.ofList_injective (Option.some.inj h)
        have hbyte : ∀ byte ∈ raw, (Char.ofNat byte.toNat).toNat = byte.toNat ∧
            byte.toNat < 128 := by
          intro byte hmem
          have hlt := List.all_eq_true.mp hall byte hmem
          simp only [decide_eq_true_eq, UInt8.lt_iff_toNat_lt] at hlt
          have hsmall : byte.toNat < 128 := hlt
          refine ⟨?_, hsmall⟩
          rw [Char.ofNat, dif_pos (.inl (by omega))]
          rfl
        have hascii : ∀ c ∈ text, c.toNat < 128 := by
          rw [← htext]
          intro c hc
          obtain ⟨byte, hmem, rfl⟩ := List.mem_map.mp hc
          rw [(hbyte byte hmem).1]
          exact (hbyte byte hmem).2
        refine ⟨?_, hascii⟩
        rw [of_text_ascii hascii, ← htext, List.map_map]
        refine ((List.map_congr_left fun byte hmem => ?_).trans (List.map_id raw)).symm
        rw [Function.comp_apply, (hbyte byte hmem).1, UInt8.ofNat_toNat, id_eq]
    · cases h
  · rintro ⟨rfl, hascii⟩
    exact to_ascii_of_text hascii

end Bytes

namespace PyText

/-- Text without spaces is not trimmed. -/
theorem trim_eq_self {space : Char → Bool} {text : List Char}
    (h : ∀ c ∈ text, space c = false) : trim space text = text := by
  have hdrop : ∀ text : List Char, (∀ c ∈ text, space c = false) →
      text.dropWhile space = text := by
    intro text htext
    cases text with
    | nil => rfl
    | cons c rest => rw [List.dropWhile_cons_of_neg (by simp [htext c List.mem_cons_self])]
  rw [trim, hdrop text h, hdrop text.reverse (fun c hc => h c (List.mem_reverse.mp hc)),
    List.reverse_reverse]

/-- A run of digits without underscores is read as it is. -/
theorem digit_run_digits {digits : List Char} (hne : digits ≠ [])
    (h : ∀ c ∈ digits, c.isDigit = true) : digitRun digits = some digits := by
  fun_induction digitRun digits with
  | case1 => exact absurd rfl hne
  | case2 c hdigit => rfl
  | case3 c hdigit tail ih => exact absurd (h '_' (by simp)) (by decide)
  | case4 c hdigit next tail hnext ih =>
      rw [ih (by simp) fun other hother => h other (List.mem_cons_of_mem _ hother)]
      rfl
  | case5 c rest hdigit => exact absurd (h c List.mem_cons_self) hdigit

/-- A digit is none of the other characters that `int` looks for. -/
theorem digit_bounds {c : Char} (h : c.isDigit = true) : 48 ≤ c.toNat ∧ c.toNat ≤ 57 := by
  simp only [Char.isDigit, ge_iff_le, Bool.and_eq_true, decide_eq_true_eq] at h
  exact h

/-- Digits are ASCII. -/
theorem ascii_of_digits {digits : List Char} (h : ∀ c ∈ digits, c.isDigit = true) :
    ∀ c ∈ digits, c.toNat < 128 := by
  intro c hc
  have hbounds := digit_bounds (h c hc)
  omega

/-- `int` reads digits as they are. -/
theorem parse_int_eq {digits : List Char} (h : ∀ c ∈ digits, c.isDigit = true) :
    parseInt (String.ofList digits) = (parseDigits digits).map fun (n : Nat) => (n : Int) := by
  have hchar : digits.map intChar = digits := by
    refine (List.map_congr_left fun c hc => ?_).trans (List.map_id digits)
    have hbounds := digit_bounds (h c hc)
    rw [intChar, if_pos (by omega), id_eq]
  have htrim : trim isIntSpace digits = digits := by
    refine trim_eq_self fun c hc => ?_
    have hbounds := digit_bounds (h c hc)
    simp only [isIntSpace, decide_eq_false_iff_not, List.mem_cons, List.not_mem_nil, or_false]
    omega
  rw [parseInt, String.toList_ofList, hchar, htrim]
  split
  · exact absurd (h '-' List.mem_cons_self) (by decide)
  · exact absurd (h '+' List.mem_cons_self) (by decide)
  · rfl

/-- `int` reads a run of digits of bounded length. -/
theorem parse_int_of_digits {digits : List Char} (hne : digits ≠ [])
    (h : ∀ c ∈ digits, c.isDigit = true) (hlength : digits.length ≤ maxStrDigits) :
    parseInt (String.ofList digits) = some (Nat.ofDigitChars 10 digits 0 : Int) := by
  rw [parse_int_eq h, parseDigits, digit_run_digits hne h]
  simp [hlength]

/-- Digits that `int` reads are a run of bounded length. -/
theorem parse_int_digits_some {digits : List Char} (h : ∀ c ∈ digits, c.isDigit = true) {n : Nat}
    (hread : parseInt (String.ofList digits) = some (n : Int)) :
    digits ≠ [] ∧ digits.length ≤ maxStrDigits ∧ Nat.ofDigitChars 10 digits 0 = n := by
  by_cases hne : digits = []
  · subst hne
    cases hread
  · rw [parse_int_eq h, parseDigits, digit_run_digits hne h] at hread
    by_cases hlength : digits.length ≤ maxStrDigits
    · simp only [hlength, if_true, Option.map_some, Option.some.injEq, Int.natCast_inj] at hread
      exact ⟨hne, hlength, hread⟩
    · simp only [hlength, if_false, Option.map_none] at hread
      cases hread

/-- The digits of a number are digits. -/
theorem is_digit_of_mem_digits {n : Nat} {c : Char} (h : c ∈ Nat.toDigits 10 n) :
    c.isDigit = true := Nat.isDigit_of_mem_toDigits (by decide) (by decide) h

/-- `int` reads back what `str` wrote. -/
theorem parse_int_digits {n : Nat} (h : (Nat.toDigits 10 n).length ≤ maxStrDigits) :
    parseInt (String.ofList (Nat.toDigits 10 n)) = some (n : Int) := by
  rw [parse_int_of_digits Nat.toDigits_ne_nil (fun c hc => is_digit_of_mem_digits hc) h,
    Nat.ofDigitChars_ten_toDigits]

/-- The text of a natural number, if it is not too long. -/
theorem int_text_natCast {n : Nat} {text : String} (h : intText n = .ok text) :
    text = String.ofList (Nat.toDigits 10 n) ∧
      (Nat.toDigits 10 n).length ≤ maxStrDigits := by
  rw [intText, Int.natAbs_natCast, natText] at h
  by_cases hlength : (Nat.toDigits 10 n).length ≤ maxStrDigits
  · simp only [hlength, if_true] at h
    cases h
    have hsign : ¬ (n : Int) < 0 := by omega
    exact ⟨by rw [if_neg hsign], hlength⟩
  · simp only [hlength, if_false] at h
    cases h

/-- `int` reads back the bytes of a natural number. -/
theorem parse_int_written {n : Nat} {text : String} (h : intText n = .ok text) :
    (Bytes.toAscii? (Bytes.ofText text)).bind parseInt = some (n : Int) := by
  obtain ⟨rfl, hlength⟩ := int_text_natCast h
  have hascii := ascii_of_digits fun c hc => is_digit_of_mem_digits (n := n) hc
  rw [Bytes.to_ascii_of_text hascii, Option.bind_some, parse_int_digits hlength]

/-- An integer has a text exactly when it has not too many digits. -/
theorem int_text_ok_iff {n : Int} :
    (∃ text, intText n = .ok text) ↔ (Nat.toDigits 10 n.natAbs).length ≤ maxStrDigits := by
  rw [intText, natText]
  by_cases hlength : (Nat.toDigits 10 n.natAbs).length ≤ maxStrDigits
  · simp [hlength]
  · simp [hlength]

/-- An integer that is not too large has a text. -/
theorem int_text_of_lt {n : Int} (h : n.natAbs < 10 ^ maxStrDigits) :
    ∃ text, intText n = .ok text := by
  rw [int_text_ok_iff, Nat.length_toDigits_le_iff (by decide) (by decide)]
  exact h

/-- A small integer has a text. -/
theorem int_text_of_small {n : Int} (h : n.natAbs < 10 ^ 5) : ∃ text, intText n = .ok text :=
  int_text_of_lt (Nat.lt_of_lt_of_le h (Nat.pow_le_pow_right (by decide) (by decide)))

/-- The text of an integer is a sign and its digits. -/
theorem int_text_spec {n : Int} {text : String} (h : intText n = .ok text) :
    text.toList = (if n < 0 then ['-'] else []) ++ Nat.toDigits 10 n.natAbs := by
  rw [intText, natText] at h
  by_cases hlength : (Nat.toDigits 10 n.natAbs).length ≤ maxStrDigits
  · simp only [hlength, if_true] at h
    cases h
    split <;> simp
  · simp only [hlength, if_false] at h
    cases h

/-- The characters of the text of an integer are digits and the sign. -/
theorem mem_int_text {n : Int} {text : String} (h : intText n = .ok text) {c : Char}
    (hc : c ∈ text.toList) : c = '-' ∨ c.isDigit = true := by
  rw [int_text_spec h, List.mem_append] at hc
  rcases hc with hsign | hdigit
  · split at hsign
    · exact .inl (List.mem_singleton.mp hsign)
    · cases hsign
  · exact .inr (is_digit_of_mem_digits hdigit)

/-- A character that is no digit and no sign is not in the text of an integer. -/
theorem not_mem_int_text {n : Int} {text : String} (h : intText n = .ok text) {c : Char}
    (hsign : c ≠ '-') (hdigit : c.isDigit = false) : c ∉ text.toList := by
  intro hc
  rcases mem_int_text h hc with hsame | hrun
  · exact hsign hsame
  · rw [hdigit] at hrun
    cases hrun

/-- Integers with one text are equal. -/
theorem int_text_injective {first second : Int} {text : String} (h : intText first = .ok text)
    (h' : intText second = .ok text) : first = second := by
  have hdigits : ∀ {n m : Nat}, Nat.toDigits 10 n = Nat.toDigits 10 m → n = m := by
    intro n m hnm
    have hvalue := congrArg (Nat.ofDigitChars 10 · 0) hnm
    simpa only [Nat.ofDigitChars_ten_toDigits] using hvalue
  have hsign : ∀ n : Nat, ∀ digits, Nat.toDigits 10 n ≠ '-' :: digits := by
    intro n digits hdigits
    have hmem : '-' ∈ Nat.toDigits 10 n := by
      rw [hdigits]
      exact List.mem_cons_self
    exact absurd (is_digit_of_mem_digits hmem) (by decide)
  have htext := (int_text_spec h).symm.trans (int_text_spec h')
  by_cases hfirst : first < 0
  · by_cases hsecond : second < 0
    · rw [if_pos hfirst, if_pos hsecond] at htext
      have habs := hdigits (List.append_cancel_left htext)
      omega
    · rw [if_pos hfirst, if_neg hsecond] at htext
      exact absurd htext.symm (hsign _ _)
  · by_cases hsecond : second < 0
    · rw [if_neg hfirst, if_pos hsecond] at htext
      exact absurd htext (hsign _ _)
    · rw [if_neg hfirst, if_neg hsecond] at htext
      have habs := hdigits (List.append_cancel_left htext)
      omega

/-- A run of digits consists of digits. -/
theorem digit_run_all {text digits : List Char} (h : digitRun text = some digits) :
    ∀ c ∈ digits, c.isDigit = true := by
  fun_induction digitRun text generalizing digits with
  | case1 => cases h
  | case2 c hdigit =>
      cases h
      intro other hother
      rw [List.mem_singleton.mp hother]
      exact hdigit
  | case3 c hdigit tail ih =>
      obtain ⟨rest, hrest, rfl⟩ := Option.map_eq_some_iff.mp h
      intro other hother
      rcases List.mem_cons.mp hother with rfl | hmem
      · exact hdigit
      · exact ih hrest other hmem
  | case4 c hdigit next tail hnext ih =>
      obtain ⟨rest, hrest, rfl⟩ := Option.map_eq_some_iff.mp h
      intro other hother
      rcases List.mem_cons.mp hother with rfl | hmem
      · exact hdigit
      · exact ih hrest other hmem
  | case5 c rest hdigit => cases h

/-- Digits denote a number below a power of ten. -/
theorem of_digit_chars_lt {digits : List Char} (h : ∀ c ∈ digits, c.isDigit = true) :
    Nat.ofDigitChars 10 digits 0 < 10 ^ digits.length := by
  induction digits with
  | nil => simp
  | cons c rest ih =>
      have hbounds := digit_bounds (h c List.mem_cons_self)
      have hrest := ih fun other hother => h other (List.mem_cons_of_mem _ hother)
      have hzero : '0'.toNat = 48 := rfl
      rw [Nat.ofDigitChars_cons, Nat.ofDigitChars_eq_ofDigitChars_zero, List.length_cons,
        Nat.pow_succ, hzero]
      have hdigit : 10 ^ rest.length * (10 * 0 + (c.toNat - 48)) ≤ 10 ^ rest.length * 9 :=
        Nat.mul_le_mul_left _ (by omega)
      omega

/-- `int` gives no number with too many digits. -/
theorem parse_int_bound {text : String} {n : Int} (h : parseInt text = some n) :
    n.natAbs < 10 ^ maxStrDigits := by
  have hdigits : ∀ {run : List Char} {value : Nat}, parseDigits run = some value →
      value < 10 ^ maxStrDigits := by
    intro run value hvalue
    unfold parseDigits at hvalue
    split at hvalue
    · next digits hrun =>
        split at hvalue
        · next hlength =>
            cases hvalue
            exact Nat.lt_of_lt_of_le (of_digit_chars_lt (digit_run_all hrun))
              (Nat.pow_le_pow_right (by decide) hlength)
        · cases hvalue
    · cases hvalue
  unfold parseInt at h
  split at h
  all_goals
    obtain ⟨value, hvalue, rfl⟩ := Option.map_eq_some_iff.mp h
    have hbound := hdigits hvalue
    omega

/-- A run of digits with single underscores between them, and the digits alone. -/
inductive DigitRun : List Char → List Char → Prop where
  | last {c : Char} (hdigit : c.isDigit = true) : DigitRun [c] [c]
  | next {c : Char} {text digits : List Char} (hdigit : c.isDigit = true)
      (hrest : DigitRun text digits) : DigitRun (c :: text) (c :: digits)
  | underscore {c : Char} {text digits : List Char} (hdigit : c.isDigit = true)
      (hrest : DigitRun text digits) : DigitRun (c :: '_' :: text) (c :: digits)

theorem DigitRun.head {text digits : List Char} (h : DigitRun text digits) :
    ∃ c rest, text = c :: rest ∧ c.isDigit = true := by
  cases h with
  | last hdigit => exact ⟨_, _, rfl, hdigit⟩
  | next hdigit hrest => exact ⟨_, _, rfl, hdigit⟩
  | underscore hdigit hrest => exact ⟨_, _, rfl, hdigit⟩

theorem DigitRun.last_digit {text digits : List Char} (h : DigitRun text digits) :
    ∃ front c, text = front ++ [c] ∧ c.isDigit = true := by
  induction h with
  | @last c hdigit => exact ⟨[], c, rfl, hdigit⟩
  | @next c text digits hdigit hrest ih =>
      obtain ⟨front, d, rfl, hd⟩ := ih
      exact ⟨c :: front, d, rfl, hd⟩
  | @underscore c text digits hdigit hrest ih =>
      obtain ⟨front, d, rfl, hd⟩ := ih
      exact ⟨c :: '_' :: front, d, rfl, hd⟩

theorem DigitRun.mem {text digits : List Char} (h : DigitRun text digits) :
    ∀ c ∈ text, c = '_' ∨ c.isDigit = true := by
  induction h with
  | last hdigit => simp [hdigit]
  | next hdigit hrest ih => simpa [hdigit] using ih
  | underscore hdigit hrest ih => simpa [hdigit] using ih

theorem digit_run_iff {text digits : List Char} :
    digitRun text = some digits ↔ DigitRun text digits := by
  constructor
  · intro h
    fun_induction digitRun text generalizing digits with
    | case1 => cases h
    | case2 c hdigit =>
        cases h
        exact .last hdigit
    | case3 c hdigit tail ih =>
        obtain ⟨rest, hrest, rfl⟩ := Option.map_eq_some_iff.mp h
        exact .underscore hdigit (ih hrest)
    | case4 c hdigit next tail hnext ih =>
        obtain ⟨rest, hrest, rfl⟩ := Option.map_eq_some_iff.mp h
        exact .next hdigit (ih hrest)
    | case5 c rest hdigit => cases h
  · intro h
    induction h with
    | last hdigit => rw [digitRun, if_pos hdigit]
    | next hdigit hrest ih =>
        -- the next character is a digit, so it is no underscore
        obtain ⟨d, rest, rfl, hd⟩ := hrest.head
        have hne : d ≠ '_' := by
          rintro rfl
          exact absurd hd (by decide)
        rw [digitRun, if_pos hdigit, ih, Option.map_some]
        exact hne
    | underscore hdigit hrest ih =>
        rw [digitRun, if_pos hdigit]
        simp only [ih, Option.map_some]

/-- An integer as `int` reads it without the spaces around it: a run of digits that is not too long,
behind a sign or not. -/
inductive IntLiteral : List Char → Int → Prop where
  | plain {run digits : List Char} (hrun : DigitRun run digits)
      (hlength : digits.length ≤ maxStrDigits) :
      IntLiteral run (Nat.ofDigitChars 10 digits 0 : Nat)
  | plus {run digits : List Char} (hrun : DigitRun run digits)
      (hlength : digits.length ≤ maxStrDigits) :
      IntLiteral ('+' :: run) (Nat.ofDigitChars 10 digits 0 : Nat)
  | minus {run digits : List Char} (hrun : DigitRun run digits)
      (hlength : digits.length ≤ maxStrDigits) :
      IntLiteral ('-' :: run) (-(Nat.ofDigitChars 10 digits 0 : Nat))

/-- A text that `int` reads: an integer with any spaces around it. -/
def IntText (text : List Char) (n : Int) : Prop :=
  ∃ before literal after, (∀ c ∈ before, isIntSpace c = true) ∧
    (∀ c ∈ after, isIntSpace c = true) ∧ IntLiteral literal n ∧ text = before ++ (literal ++ after)

theorem parse_digits_iff {text : List Char} {n : Nat} :
    parseDigits text = some n ↔ ∃ digits, DigitRun text digits ∧
      digits.length ≤ maxStrDigits ∧ Nat.ofDigitChars 10 digits 0 = n := by
  unfold parseDigits
  constructor
  · intro h
    split at h
    · next digits hrun =>
        split at h
        · next hlength =>
            cases h
            exact ⟨digits, digit_run_iff.mp hrun, hlength, rfl⟩
        · cases h
    · cases h
  · rintro ⟨digits, hrun, hlength, rfl⟩
    simp only [digit_run_iff.mpr hrun, if_pos hlength]

/-- The characters of an integer are no spaces. -/
theorem not_space_of_digit {c : Char} (h : c.isDigit = true) : isIntSpace c = false := by
  have hbounds := digit_bounds h
  simp only [isIntSpace, decide_eq_false_iff_not, List.mem_cons, List.not_mem_nil, or_false]
  omega

theorem IntLiteral.ends {text : List Char} {n : Int} (h : IntLiteral text n) :
    (∃ c rest, text = c :: rest ∧ isIntSpace c = false) ∧
      ∃ front c, text = front ++ [c] ∧ isIntSpace c = false := by
  cases h with
  | plain hrun hlength =>
      obtain ⟨c, rest, hhead, hc⟩ := hrun.head
      obtain ⟨front, d, hlast, hd⟩ := hrun.last_digit
      exact ⟨⟨c, rest, hhead, not_space_of_digit hc⟩, front, d, hlast, not_space_of_digit hd⟩
  | plus hrun hlength =>
      obtain ⟨front, d, rfl, hd⟩ := hrun.last_digit
      exact ⟨⟨'+', _, rfl, by decide⟩, '+' :: front, d, rfl, not_space_of_digit hd⟩
  | minus hrun hlength =>
      obtain ⟨front, d, rfl, hd⟩ := hrun.last_digit
      exact ⟨⟨'-', _, rfl, by decide⟩, '-' :: front, d, rfl, not_space_of_digit hd⟩

/-- `int` takes the characters of an integer and of the spaces around it as they are. -/
theorem IntText.int_char {text : List Char} {n : Int} (h : IntText text n) :
    ∀ c ∈ text, c.toNat < 127 ∧ c ≠ '?' := by
  have hspace : ∀ c : Char, isIntSpace c = true → c.toNat < 127 ∧ c ≠ '?' := by
    intro c hc
    simp only [isIntSpace, decide_eq_true_eq, List.mem_cons, List.not_mem_nil, or_false] at hc
    refine ⟨by omega, ?_⟩
    rintro rfl
    exact absurd hc (by decide)
  have hrun : ∀ {run digits : List Char}, DigitRun run digits →
      ∀ c ∈ run, c.toNat < 127 ∧ c ≠ '?' := by
    intro run digits hrun c hc
    rcases hrun.mem c hc with rfl | hdigit
    · decide
    · have hbounds := digit_bounds hdigit
      refine ⟨by omega, ?_⟩
      rintro rfl
      exact absurd hdigit (by decide)
  obtain ⟨before, literal, after, hbefore, hafter, hliteral, rfl⟩ := h
  intro c hc
  rcases List.mem_append.mp hc with hc | hc
  · exact hspace c (hbefore c hc)
  · rcases List.mem_append.mp hc with hc | hc
    · cases hliteral with
      | plain hdigits hlength => exact hrun hdigits c hc
      | plus hdigits hlength =>
          rcases List.mem_cons.mp hc with rfl | hc
          · decide
          · exact hrun hdigits c hc
      | minus hdigits hlength =>
          rcases List.mem_cons.mp hc with rfl | hc
          · decide
          · exact hrun hdigits c hc
    · exact hspace c (hafter c hc)

/-- Spaces around a text whose ends are none are trimmed. -/
theorem trim_around {space : Char → Bool} {before text after : List Char}
    (hbefore : ∀ c ∈ before, space c = true) (hafter : ∀ c ∈ after, space c = true)
    (hends : (∃ c rest, text = c :: rest ∧ space c = false) ∧
      ∃ front c, text = front ++ [c] ∧ space c = false) :
    trim space (before ++ (text ++ after)) = text := by
  obtain ⟨⟨c, rest, hhead, hc⟩, front, d, hlast, hd⟩ := hends
  have hdrop : (before ++ (text ++ after)).dropWhile space = text ++ after := by
    rw [List.dropWhile_append_of_pos hbefore, hhead, List.cons_append,
      List.dropWhile_cons_of_neg (by simp [hc])]
  have hback : (text ++ after).reverse.dropWhile space = text.reverse := by
    rw [List.reverse_append, List.dropWhile_append_of_pos
      fun c hmem => hafter c (List.mem_reverse.mp hmem), hlast, List.reverse_append,
      List.reverse_singleton, List.singleton_append, List.dropWhile_cons_of_neg (by simp [hd])]
  rw [trim, hdrop, hback, List.reverse_reverse]

/-- A text is what is left of it when it is trimmed, with spaces around. -/
theorem trim_split (space : Char → Bool) (text : List Char) :
    ∃ before after, (∀ c ∈ before, space c = true) ∧ (∀ c ∈ after, space c = true) ∧
      text = before ++ (trim space text ++ after) := by
  refine ⟨text.takeWhile space, ((text.dropWhile space).reverse.takeWhile space).reverse,
    fun c hc => List.mem_takeWhile_imp hc, fun c hc => List.mem_takeWhile_imp
      (List.mem_reverse.mp hc), ?_⟩
  rw [trim, ← List.reverse_append, List.takeWhile_append_dropWhile, List.reverse_reverse,
    List.takeWhile_append_dropWhile]

/-- `int` reads an integer with any spaces around it, and nothing else. -/
theorem parse_int_iff {text : List Char} (hascii : ∀ c ∈ text, c.toNat < 128) {n : Int} :
    parseInt (String.ofList text) = some n ↔ IntText text n := by
  have hread : parseInt (String.ofList text) = some n ↔ IntText (text.map intChar) n := by
    constructor
    · intro h
      obtain ⟨before, after, hbefore, hafter, hsplit⟩ := trim_split isIntSpace (text.map intChar)
      refine ⟨before, _, after, hbefore, hafter, ?_, hsplit⟩
      rw [parseInt, String.toList_ofList] at h
      split at h
      all_goals
        obtain ⟨value, hvalue, rfl⟩ := Option.map_eq_some_iff.mp h
        obtain ⟨digits, hrun, hlength, rfl⟩ := parse_digits_iff.mp hvalue
      · next hliteral => exact hliteral ▸ .minus hrun hlength
      · next hliteral => exact hliteral ▸ .plus hrun hlength
      · exact .plain hrun hlength
    · rintro ⟨before, literal, after, hbefore, hafter, hliteral, hsplit⟩
      rw [parseInt, String.toList_ofList, hsplit, trim_around hbefore hafter hliteral.ends]
      cases hliteral with
      | plain hrun hlength =>
          have hvalue := parse_digits_iff.mpr ⟨_, hrun, hlength, rfl⟩
          obtain ⟨c, rest, rfl, hc⟩ := hrun.head
          split
          · next hsign =>
              cases hsign
              exact absurd hc (by decide)
          · next hsign =>
              cases hsign
              exact absurd hc (by decide)
          · rw [hvalue, Option.map_some]
      | plus hrun hlength =>
          simp only [parse_digits_iff.mpr ⟨_, hrun, hlength, rfl⟩, Option.map_some]
      | minus hrun hlength =>
          simp only [parse_digits_iff.mpr ⟨_, hrun, hlength, rfl⟩, Option.map_some]
  rw [hread]
  -- of the ASCII characters only one is read as another one, which no integer has
  have hsame : (∀ c ∈ text, intChar c = c) → text.map intChar = text := fun h =>
    (List.map_congr_left h).trans (List.map_id text)
  constructor
  · intro h
    rwa [hsame] at h
    intro c hc
    have hplain := (h.int_char (intChar c) (List.mem_map_of_mem hc)).2
    by_cases hlt : c.toNat < 127
    · rw [intChar, if_pos hlt]
    · obtain rfl : c = Char.ofNat 127 := by
        rw [← Char.ofNat_toNat c]
        exact congrArg Char.ofNat (by have := hascii c hc; omega)
      exact absurd (by decide) hplain
  · intro h
    rwa [hsame]
    intro c hc
    rw [intChar, if_pos (h.int_char c hc).1]

end PyText
