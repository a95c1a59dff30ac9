import Mathlib.Data.List.Sort
import MiniRedis.Persistence.Replay

/-!
# A codec

The texts of the two files as `json` writes them, for strings of printable ASCII and for times
that are whole seconds; other characters and times get texts of their own. The reader looks at
the strings, the numbers and the closing braces of a text and skips what is between them. That it
reads back what was written, and finds what was cut off, is `lawful`, `detects_cuts` and
`rejects_extra_data`.
-/

namespace MiniRedis

namespace JsonText

/-- A character that stands for itself in a text. -/
def isPlain (c : Char) : Bool := 32 ≤ c.toNat && c.toNat < 127

/-- A character inside a string. -/
def escape (c : Char) : List Char :=
  if c = '"' then ['\\', '"']
  else if c = '\\' then ['\\', '\\']
  else if isPlain c then [c]
  else ['\\', 'u'] ++ Nat.toDigits 10 c.toNat ++ [';']

/-- A string. -/
def quote (text : String) : List Char := '"' :: (text.toList.flatMap escape ++ ['"'])

/-- The strings of an array. -/
def arrayText : List String → List Char
  | [] => []
  | [text] => quote text
  | text :: rest => quote text ++ [',', ' '] ++ arrayText rest

/-- The text of a record, without the closing brace. -/
def recordBody (command : String) (args : List String) : List Char :=
  ['{'] ++ quote "command" ++ [':', ' '] ++ quote command ++ [',', ' '] ++ quote "args" ++
    [':', ' ', '['] ++ arrayText args ++ [']']

/-- The digits of an integer. -/
def intText (n : Int) : List Char :=
  (if n < 0 then ['-'] else []) ++ Nat.toDigits 10 n.natAbs

/-- The integer of some digits. -/
def readInt : List Char → Int
  | '-' :: digits => -(Nat.ofDigitChars 10 digits 0 : Int)
  | digits => (Nat.ofDigitChars 10 digits 0 : Int)

/-- The text of a float: a whole number of seconds with `.0`, or a number of the least units. -/
def floatText : PyFloat → List Char
  | .nan => ['n', 'a', 'n']
  | .infinity false => ['i', 'n', 'f']
  | .infinity true => ['-', 'i', 'n', 'f']
  | .finite units _ =>
      if units % Binary64.one = 0 then intText (units / Binary64.one) ++ ['.', '0']
      else intText units ++ ['u']

/-- The float of a text. -/
def readFloat (text : List Char) : Option PyFloat :=
  match text.reverse with
  | '0' :: '.' :: digits => some (PyFloat.ofUnits (readInt digits.reverse * Binary64.one))
  | 'u' :: digits => some (PyFloat.ofUnits (readInt digits.reverse))
  | ['n', 'a', 'n'] => some .nan
  | ['f', 'n', 'i'] => some (.infinity false)
  | ['f', 'n', 'i', '-'] => some (.infinity true)
  | _ => none

/-- A value inside an object. -/
def valueText : Json String → List Char
  | .str text => quote text
  | .float x => floatText x
  | _ => []

/-- The fields of an object inside another one, with the closing brace. -/
def fieldsText : List (String × Json String) → List Char
  | [] => ['\n', ' ', ' ', '}']
  | (key, value) :: rest =>
      ['\n', ' ', ' ', ' ', ' '] ++ quote key ++ [':', ' '] ++ valueText value ++
        (match rest with
          | [] => []
          | _ => [',']) ++ fieldsText rest

/-- An object inside another one. -/
def objectText : List (String × Json String) → List Char
  | [] => ['{', '}']
  | fields => '{' :: fieldsText fields

/-- The text of a snapshot, without the closing brace. -/
def snapshotBody (data expiresAt : List (String × Json String)) : List Char :=
  ['{', '\n', ' ', ' '] ++ quote "data" ++ [':', ' '] ++ objectText data ++
    [',', '\n', ' ', ' '] ++ quote "expires_at" ++ [':', ' '] ++ objectText expiresAt ++ ['\n']

/-- What the reader looks at. -/
inductive Token where
  | text (content : String)
  | number (content : List Char)
  | close

/-- Where the reader is, with what it has read of a string or a number, backwards. -/
inductive Mode where
  | outside
  | quoted (content : List Char)
  | escaped (content : List Char)
  | coded (content digits : List Char)
  | number (content : List Char)

/-- The characters between strings and numbers. -/
def isBetween (c : Char) : Bool := c ∈ ['{', '[', ']', ',', ':', ' ', '\n']

/-- The strings, numbers and closing braces of a text. -/
def scan : Mode → List Char → List Token
  | _, [] => []
  | .outside, c :: rest =>
      if c = '"' then scan (.quoted []) rest
      else if c = '}' then .close :: scan .outside rest
      else if isBetween c then scan .outside rest
      else scan (.number [c]) rest
  | .quoted content, c :: rest =>
      if c = '"' then .text (String.ofList content.reverse) :: scan .outside rest
      else if c = '\\' then scan (.escaped content) rest
      else scan (.quoted (c :: content)) rest
  | .escaped content, c :: rest =>
      if c = 'u' then scan (.coded content []) rest else scan (.quoted (c :: content)) rest
  | .coded content digits, c :: rest =>
      if c = ';' then
        scan (.quoted (Char.ofNat (Nat.ofDigitChars 10 digits.reverse 0) :: content)) rest
      else scan (.coded content (c :: digits)) rest
  | .number content, c :: rest =>
      if c = ',' ∨ c = '\n' then .number content.reverse :: scan .outside rest
      else scan (.number (c :: content)) rest

/-- The strings up to the closing brace of a record. -/
def readArray : List Token → Option (List (Json String))
  | [.close] => some []
  | .text content :: rest => (readArray rest).map (.str content :: ·)
  | _ => none

/-- The fields up to the closing brace of an object, and what follows. -/
def readFields : List Token → Option (List (String × Json String) × List Token)
  | .close :: rest => some ([], rest)
  | .text key :: .text content :: rest =>
      (readFields rest).map fun fields => ((key, .str content) :: fields.1, fields.2)
  | .text key :: .number content :: rest =>
      (readFields rest).bind fun fields =>
        (readFloat content).map fun x => ((key, .float x) :: fields.1, fields.2)
  | _ => none

/-- The value of a text. -/
def readValue : List Token → Option (Json String)
  | .text "command" :: .text command :: .text "args" :: rest =>
      (readArray rest).map fun args =>
        .object [("command", .str command), ("args", .array args)]
  | .text "data" :: rest =>
      match readFields rest with
      | some (data, .text "expires_at" :: rest) =>
          match readFields rest with
          | some (expiresAt, [.close]) =>
              some (.object [("data", .object data), ("expires_at", .object expiresAt)])
          | _ => none
      | _ => none
  | _ => none

/-- The strings of an array. -/
def strings (items : List (Json String)) : List String :=
  items.filterMap fun item =>
    match item with
    | .str text => some text
    | _ => none

/-- Fields in the order of their keys. -/
def sorted (fields : List (String × Json String)) : List (String × Json String) :=
  fields.insertionSort fun first second => first.1 ≤ second.1

/-- The value that was read, or a `JSONDecodeError`. -/
def decoded : Option (Json String) → Except LoadsError (Json String)
  | some value => .ok value
  | none => .error .decode

/-- The codec. -/
def codec : JsonCodec String where
  loads text := decoded (readValue (scan .outside text.toList))
  dumps
    | .object [(_, .str command), (_, .array items)] =>
        String.ofList (recordBody command (strings items) ++ ['}'])
    | _ => ""
  dumpIndented
    | .object [(_, .object data), (_, .object expiresAt)] =>
        String.ofList (snapshotBody (sorted data) (sorted expiresAt) ++ ['}'])
    | _ => ""
  repr _ := ""
  parseFloat text := readFloat text.toList
  floatText x := String.ofList (floatText x)

/-- Reading undoes writing an integer. -/
theorem read_int_text (n : Int) : readInt (intText n) = n := by
  by_cases hneg : n < 0
  · rw [intText, if_pos hneg]
    show -((Nat.ofDigitChars 10 (Nat.toDigits 10 n.natAbs) 0 : Nat) : Int) = n
    rw [Nat.ofDigitChars_ten_toDigits]
    omega
  · rw [intText, if_neg hneg, List.nil_append]
    have hread : readInt (Nat.toDigits 10 n.natAbs) =
        (Nat.ofDigitChars 10 (Nat.toDigits 10 n.natAbs) 0 : Nat) := by
      unfold readInt
      split
      · next digits hdigits =>
          have hsign : '-'.isDigit = true :=
            PyText.is_digit_of_mem_digits (n := n.natAbs) (hdigits ▸ List.mem_cons_self)
          cases hsign
      · rfl
    rw [hread, Nat.ofDigitChars_ten_toDigits]
    omega

/-- Reading undoes writing a float. -/
theorem read_float_text (x : PyFloat) : readFloat (floatText x) = some x := by
  cases x with
  | nan => rfl
  | infinity negative => cases negative <;> rfl
  | finite units isDouble =>
      rw [floatText]
      by_cases hwhole : units % Binary64.one = 0
      · have hunits : units / Binary64.one * Binary64.one = units :=
          Int.ediv_mul_cancel (Int.dvd_of_emod_eq_zero hwhole)
        rw [if_pos hwhole, readFloat, List.reverse_append]
        show some (PyFloat.ofUnits (readInt (intText _).reverse.reverse * Binary64.one)) = _
        rw [List.reverse_reverse, read_int_text, hunits, PyFloat.of_units_double isDouble]
      · rw [if_neg hwhole, readFloat, List.reverse_append]
        show some (PyFloat.ofUnits (readInt (intText _).reverse.reverse)) = _
        rw [List.reverse_reverse, read_int_text, PyFloat.of_units_double isDouble]

/-- A whole number of seconds is written with `.0`. -/
theorem float_text_at_second (seconds : Fin (2 ^ 34)) :
    floatText (Reading.atSecond seconds).time = Nat.toDigits 10 seconds ++ ['.', '0'] := by
  have hone : (Binary64.one : Int) ≠ 0 := Int.natCast_ne_zero.mpr Binary64.one_pos.ne'
  have hunits : (Reading.atSecond seconds).units = (seconds : Nat) * (Binary64.one : Int) :=
    Nat.cast_mul _ _
  rw [Reading.time, floatText, hunits, Int.mul_emod_left, if_pos rfl, Int.mul_ediv_cancel _ hone]
  rfl

/-- A character of a number. -/
def isNumeric (c : Char) : Bool := c.isDigit || c ∈ ['-', '.', 'u', 'n', 'a', 'i', 'f']

/-- A number is not empty and has no other characters. -/
theorem float_text_numeric (x : PyFloat) :
    floatText x ≠ [] ∧ ∀ c ∈ floatText x, isNumeric c = true := by
  have hint : ∀ n : Int, ∀ c ∈ intText n, isNumeric c = true := by
    intro n c hc
    rcases List.mem_append.mp hc with hsign | hdigit
    · split at hsign
      · obtain rfl := List.mem_singleton.mp hsign
        rfl
      · cases hsign
    · rw [isNumeric, PyText.is_digit_of_mem_digits hdigit, Bool.true_or]
  have happend : ∀ (n : Int) (tail : List Char), (∀ c ∈ tail, isNumeric c = true) →
      ∀ c ∈ intText n ++ tail, isNumeric c = true := by
    intro n tail htail c hc
    rcases List.mem_append.mp hc with hc | hc
    · exact hint n c hc
    · exact htail c hc
  cases x with
  | nan => exact ⟨by simp [floatText], List.all_eq_true.mp (by decide)⟩
  | infinity negative =>
      cases negative <;> exact ⟨by simp [floatText], List.all_eq_true.mp (by decide)⟩
  | finite units isDouble =>
      rw [floatText]
      split
      · exact ⟨by simp, happend _ _ (List.all_eq_true.mp (by decide))⟩
      · exact ⟨by simp, happend _ _ (List.all_eq_true.mp (by decide))⟩

theorem numeric_not_special {c : Char} (h : isNumeric c = true) :
    c ≠ '"' ∧ c ≠ '}' ∧ isBetween c = false ∧ c ≠ ',' ∧ c ≠ '\n' ∧ isPlain c = true := by
  rcases Bool.or_eq_true_iff.mp h with hdigit | hletter
  · obtain ⟨hlower, hupper⟩ := PyText.digit_bounds hdigit
    have hne : ∀ other : Char, other.toNat < 48 ∨ 57 < other.toNat → c ≠ other := by
      rintro other hother rfl
      omega
    refine ⟨hne _ (by decide), hne _ (by decide), ?_, hne _ (by decide), hne _ (by decide), ?_⟩
    · rw [isBetween, decide_eq_false_iff_not]
      simp only [List.mem_cons, List.not_mem_nil, or_false, not_or]
      exact ⟨hne _ (by decide), hne _ (by decide), hne _ (by decide), hne _ (by decide),
        hne _ (by decide), hne _ (by decide), hne _ (by decide)⟩
    · rw [isPlain, Bool.and_eq_true_iff, decide_eq_true_iff, decide_eq_true_iff]
      omega
  · have hmem : c ∈ ['-', '.', 'u', 'n', 'a', 'i', 'f'] := of_decide_eq_true hletter
    simp only [List.mem_cons, List.not_mem_nil, or_false] at hmem
    rcases hmem with rfl | rfl | rfl | rfl | rfl | rfl | rfl <;> decide

/-- The characters between strings and numbers are skipped. -/
theorem scan_between {c : Char} (h : isBetween c = true) (rest : List Char) :
    scan .outside (c :: rest) = scan .outside rest := by
  have hquote : c ≠ '"' := by
    rintro rfl
    cases h
  have hclose : c ≠ '}' := by
    rintro rfl
    cases h
  rw [scan, if_neg hquote, if_neg hclose, if_pos h]

/-- The code of a character is read back. -/
theorem scan_coded {code : List Char} (h : ∀ c ∈ code, c ≠ ';') (content digits rest : List Char) :
    scan (.coded content digits) (code ++ ';' :: rest) =
      scan (.quoted (Char.ofNat (Nat.ofDigitChars 10 (digits.reverse ++ code) 0) :: content))
        rest := by
  induction code generalizing digits with
  | nil => rw [List.nil_append, scan, if_pos rfl, List.append_nil]
  | cons c code ih =>
      have hrest := ih (fun other hmem => h other (List.mem_cons_of_mem _ hmem)) (c :: digits)
      rw [List.cons_append, scan, if_neg (h c List.mem_cons_self), hrest]
      simp

/-- A character of a string is read back. -/
theorem scan_escape (c : Char) (content rest : List Char) :
    scan (.quoted content) (escape c ++ rest) = scan (.quoted (c :: content)) rest := by
  by_cases hquote : c = '"'
  · subst hquote
    rfl
  by_cases hbackslash : c = '\\'
  · subst hbackslash
    rfl
  rw [escape, if_neg hquote, if_neg hbackslash]
  by_cases hplain : isPlain c = true
  · rw [if_pos hplain, List.cons_append, List.nil_append, scan, if_neg hquote, if_neg hbackslash]
  · have hdigits : ∀ digit ∈ Nat.toDigits 10 c.toNat, digit ≠ ';' := by
      rintro digit hdigit rfl
      have hsemicolon : ';'.isDigit = true := PyText.is_digit_of_mem_digits hdigit
      cases hsemicolon
    rw [if_neg hplain, List.append_assoc, List.append_assoc]
    show scan (.coded content []) (Nat.toDigits 10 c.toNat ++ ';' :: rest) = _
    rw [scan_coded hdigits, List.reverse_nil, List.nil_append, Nat.ofDigitChars_ten_toDigits,
      Char.ofNat_toNat]

/-- The reader leaves a string at its end. -/
theorem scan_quoted (text content rest : List Char) :
    scan (.quoted content) (text.flatMap escape ++ '"' :: rest) =
      .text (String.ofList (content.reverse ++ text)) :: scan .outside rest := by
  induction text generalizing content with
  | nil => simp [scan]
  | cons c text ih =>
      rw [List.flatMap_cons, List.append_assoc, scan_escape, ih]
      simp

/-- A string is read back. -/
theorem scan_quote (text : String) (rest : List Char) :
    scan .outside (quote text ++ rest) = .text text :: scan .outside rest := by
  have hquoted := scan_quoted text.toList [] rest
  rw [List.reverse_nil, List.nil_append, String.ofList_toList] at hquoted
  rw [← hquoted, quote, List.cons_append, List.append_assoc, List.singleton_append, scan,
    if_pos rfl]

/-- A number is read up to what ends it. -/
theorem scan_number {number : List Char} (h : ∀ c ∈ number, isNumeric c = true)
    (content rest : List Char) {last : Char} (hlast : last = ',' ∨ last = '\n') :
    scan (.number content) (number ++ last :: rest) =
      .number (content.reverse ++ number) :: scan .outside rest := by
  induction number generalizing content with
  | nil => rw [List.nil_append, scan, if_pos hlast, List.append_nil]
  | cons c number ih =>
      obtain ⟨-, -, -, hcomma, hlf, -⟩ := numeric_not_special (h c List.mem_cons_self)
      have hrest := ih (fun other hmem => h other (List.mem_cons_of_mem _ hmem)) (c :: content)
      rw [List.cons_append, scan, if_neg (not_or.mpr ⟨hcomma, hlf⟩), hrest]
      simp

/-- A float is read back. -/
theorem scan_float (x : PyFloat) (rest : List Char) {last : Char}
    (hlast : last = ',' ∨ last = '\n') :
    scan .outside (floatText x ++ last :: rest) = .number (floatText x) :: scan .outside rest := by
  obtain ⟨hne, hnumeric⟩ := float_text_numeric x
  cases htext : floatText x with
  | nil => exact absurd htext hne
  | cons c number =>
      rw [htext] at hnumeric
      obtain ⟨hquote, hclose, hbetween, -⟩ := numeric_not_special (hnumeric c List.mem_cons_self)
      rw [List.cons_append, scan, if_neg hquote, if_neg hclose, hbetween,
        if_neg Bool.false_ne_true,
        scan_number (fun other hmem => hnumeric other (List.mem_cons_of_mem _ hmem)) [c] rest hlast]
      rfl

/-- The array of a record is read back. -/
theorem scan_array (args : List String) (rest : List Char) :
    scan .outside (arrayText args ++ rest) = args.map .text ++ scan .outside rest := by
  induction args with
  | nil => rfl
  | cons text others ih =>
      cases others with
      | nil => exact scan_quote text rest
      | cons next others =>
          rw [arrayText, List.append_assoc, List.append_assoc, scan_quote]
          · show Token.text text :: scan .outside (',' :: ' ' :: (arrayText (next :: others) ++ rest))
              = _
            rw [scan_between rfl, scan_between rfl, ih]
            rfl
          · rintro ⟨⟩

/-- A record is read back, but for its closing brace. -/
theorem scan_record (command : String) (args : List String) (rest : List Char) :
    scan .outside (recordBody command args ++ rest) =
      .text "command" :: .text command :: .text "args" :: (args.map .text ++ scan .outside rest) := by
  simp only [recordBody, List.append_assoc, List.cons_append, List.nil_append]
  rw [scan_between rfl, scan_quote, scan_between rfl, scan_between rfl, scan_quote,
    scan_between rfl, scan_between rfl, scan_quote, scan_between rfl, scan_between rfl,
    scan_between rfl, scan_array, scan_between rfl]

theorem read_array_map (args : List String) :
    readArray (args.map .text ++ [.close]) = some (args.map .str) := by
  induction args with
  | nil => rfl
  | cons text rest ih =>
      show (readArray (rest.map .text ++ [.close])).map (.str text :: ·) = _
      rw [ih]
      rfl

/-- A value that a snapshot has inside an object. -/
def IsScalar : Json String → Prop
  | .str _ => True
  | .float _ => True
  | _ => False

/-- What the reader sees of a field. -/
def fieldTokens : String × Json String → List Token
  | (key, .str text) => [.text key, .text text]
  | (key, .float x) => [.text key, .number (floatText x)]
  | (key, _) => [.text key]

/-- A field is read back. -/
theorem scan_field (key : String) {value : Json String} (h : IsScalar value) (rest : List Char)
    {last : Char} (hlast : last = ',' ∨ last = '\n') :
    scan .outside (['\n', ' ', ' ', ' ', ' '] ++ quote key ++ [':', ' '] ++ valueText value ++
      last :: rest) = fieldTokens (key, value) ++ scan .outside rest := by
  have hbetween : isBetween last = true := by rcases hlast with rfl | rfl <;> rfl
  simp only [List.append_assoc, List.cons_append, List.nil_append]
  rw [scan_between rfl, scan_between rfl, scan_between rfl, scan_between rfl, scan_between rfl,
    scan_quote, scan_between rfl, scan_between rfl]
  cases value with
  | str text =>
      rw [valueText, scan_quote, scan_between hbetween]
      rfl
  | float x =>
      rw [valueText, scan_float x rest hlast]
      rfl
  | _ => cases h

/-- The fields of an object are read back. -/
theorem scan_fields {fields : List (String × Json String)} (h : ∀ field ∈ fields, IsScalar field.2)
    (rest : List Char) :
    scan .outside (fieldsText fields ++ rest) =
      fields.flatMap fieldTokens ++ .close :: scan .outside rest := by
  have hclose : scan .outside (' ' :: ' ' :: '}' :: rest) = .close :: scan .outside rest := by
    rw [scan_between rfl, scan_between rfl]
    rfl
  induction fields with
  | nil => exact hclose
  | cons field others ih =>
      obtain ⟨key, value⟩ := field
      have hvalue : IsScalar value := h _ List.mem_cons_self
      rw [List.flatMap_cons, List.append_assoc]
      cases others with
      | nil =>
          -- the line break before the closing brace ends a number
          have hfield := scan_field key hvalue (' ' :: ' ' :: '}' :: rest) (.inr rfl)
          rw [hclose] at hfield
          rw [List.flatMap_nil, List.nil_append, ← hfield, fieldsText, fieldsText]
          simp only [List.append_assoc, List.cons_append, List.nil_append]
      | cons next others =>
          have hrest := ih fun other hmem => h other (List.mem_cons_of_mem _ hmem)
          rw [← hrest, ← scan_field key hvalue _ (.inl rfl), fieldsText]
          · simp only [List.append_assoc, List.cons_append, List.nil_append]
          · rintro ⟨⟩

/-- An object is read back. -/
theorem scan_object {fields : List (String × Json String)} (h : ∀ field ∈ fields, IsScalar field.2)
    (rest : List Char) :
    scan .outside (objectText fields ++ rest) =
      fields.flatMap fieldTokens ++ .close :: scan .outside rest := by
  cases fields with
  | nil => rfl
  | cons field others =>
      rw [objectText, List.cons_append, scan_between rfl]
      · exact scan_fields h rest
      · rintro ⟨⟩

/-- A snapshot is read back, but for its closing brace. -/
theorem scan_snapshot {data expiresAt : List (String × Json String)}
    (hdata : ∀ field ∈ data, IsScalar field.2) (hexpires : ∀ field ∈ expiresAt, IsScalar field.2)
    (rest : List Char) :
    scan .outside (snapshotBody data expiresAt ++ rest) =
      .text "data" :: (data.flatMap fieldTokens ++ .close :: .text "expires_at" ::
        (expiresAt.flatMap fieldTokens ++ .close :: scan .outside rest)) := by
  simp only [snapshotBody, List.append_assoc, List.cons_append, List.nil_append]
  rw [scan_between rfl, scan_between rfl, scan_between rfl, scan_between rfl, scan_quote,
    scan_between rfl, scan_between rfl, scan_object hdata, scan_between rfl, scan_between rfl,
    scan_between rfl, scan_between rfl, scan_quote, scan_between rfl, scan_between rfl,
    scan_object hexpires, scan_between rfl]

theorem read_fields_tokens {fields : List (String × Json String)}
    (h : ∀ field ∈ fields, IsScalar field.2) (rest : List Token) :
    readFields (fields.flatMap fieldTokens ++ .close :: rest) = some (fields, rest) := by
  induction fields with
  | nil => rfl
  | cons field others ih =>
      obtain ⟨key, value⟩ := field
      have hrest := ih fun other hmem => h other (List.mem_cons_of_mem _ hmem)
      have hvalue : IsScalar value := h _ List.mem_cons_self
      rw [List.flatMap_cons, List.append_assoc]
      cases value with
      | str text =>
          show (readFields (others.flatMap fieldTokens ++ .close :: rest)).map _ = _
          rw [hrest]
          rfl
      | float x =>
          show (readFields (others.flatMap fieldTokens ++ .close :: rest)).bind _ = _
          rw [hrest, Option.bind_some, read_float_text]
          rfl
      | _ => cases hvalue

/-- Every character of a string stands for itself. -/
theorem quote_plain (text : String) : ∀ c ∈ quote text, isPlain c = true := by
  have hescape : ∀ c, ∀ other ∈ escape c, isPlain other = true := by
    intro c other hother
    unfold escape at hother
    split at hother
    · exact List.all_eq_true.mp (by decide) other hother
    split at hother
    · exact List.all_eq_true.mp (by decide) other hother
    split at hother
    · next hplain =>
        obtain rfl := List.mem_singleton.mp hother
        exact hplain
    · rcases List.mem_append.mp hother with hother | hother
      · rcases List.mem_append.mp hother with hother | hother
        · exact List.all_eq_true.mp (by decide) other hother
        · refine (numeric_not_special ?_).2.2.2.2.2
          rw [isNumeric, PyText.is_digit_of_mem_digits hother, Bool.true_or]
      · exact List.all_eq_true.mp (by decide) other hother
  intro c hc
  rcases List.mem_cons.mp hc with rfl | hc
  · rfl
  rcases List.mem_append.mp hc with hc | hc
  · obtain ⟨source, -, hsource⟩ := List.mem_flatMap.mp hc
    exact hescape source c hsource
  · obtain rfl := List.mem_singleton.mp hc
    rfl

theorem array_plain (args : List String) : ∀ c ∈ arrayText args, isPlain c = true := by
  induction args with
  | nil => exact fun c hc => by cases hc
  | cons text others ih =>
      cases others with
      | nil => exact quote_plain text
      | cons next others =>
          intro c hc
          rw [arrayText, List.mem_append, List.mem_append] at hc
          · rcases hc with (hc | hc) | hc
            · exact quote_plain text c hc
            · exact List.all_eq_true.mp (by decide) c hc
            · exact ih c hc
          · rintro ⟨⟩

/-- Every character of a record stands for itself. -/
theorem record_plain (command : String) (args : List String) :
    ∀ c ∈ recordBody command args, isPlain c = true := by
  have hbetween : ∀ c ∈ ['{', ':', ' ', ',', '[', ']'], isPlain c = true :=
    List.all_eq_true.mp (by decide)
  intro c hc
  simp only [recordBody, List.mem_append] at hc
  rcases hc with (((((((hc | hc) | hc) | hc) | hc) | hc) | hc) | hc) | hc
  · exact hbetween c (by simp_all)
  · exact quote_plain _ c hc
  · exact hbetween c (by simp_all; tauto)
  · exact quote_plain _ c hc
  · exact hbetween c (by simp_all; tauto)
  · exact quote_plain _ c hc
  · exact hbetween c (by simp_all; tauto)
  · exact array_plain args c hc
  · exact hbetween c (by simp_all)

/-- There is no carriage return in the fields of an object. -/
theorem fields_no_return (fields : List (String × Json String)) : '\r' ∉ fieldsText fields := by
  have hquote : ∀ text, '\r' ∉ quote text := fun text hmem => by
    cases quote_plain text _ hmem
  have hvalue : ∀ value, '\r' ∉ valueText value := by
    intro value hmem
    cases value with
    | str text => exact hquote text hmem
    | float x =>
        have hnumeric := (float_text_numeric x).2 _ hmem
        cases hnumeric
    | _ => cases hmem
  induction fields with
  | nil => decide
  | cons field others ih =>
      obtain ⟨key, value⟩ := field
      have hcomma : '\r' ∉ (match others with
          | [] => []
          | _ => [',']) := by
        cases others with
        | nil => exact List.not_mem_nil
        | cons next rest =>
            show '\r' ∉ [',']
            decide
      unfold fieldsText
      simp only [List.mem_append, not_or]
      exact ⟨⟨⟨⟨⟨by decide, hquote _⟩, by decide⟩, hvalue _⟩, hcomma⟩, ih⟩

theorem snapshot_no_return (data expiresAt : List (String × Json String)) :
    '\r' ∉ snapshotBody data expiresAt := by
  have hquote : ∀ text, '\r' ∉ quote text := fun text hmem => by
    cases quote_plain text _ hmem
  have hobject : ∀ fields, '\r' ∉ objectText fields := by
    intro fields
    cases fields with
    | nil => decide
    | cons field others =>
        rw [objectText, List.mem_cons, not_or]
        · exact ⟨by decide, fields_no_return _⟩
        · rintro ⟨⟩
  simp only [snapshotBody, List.mem_append, not_or]
  exact ⟨⟨⟨⟨⟨⟨⟨⟨by decide, hquote _⟩, by decide⟩, hobject _⟩, by decide⟩, hquote _⟩, by decide⟩,
    hobject _⟩, by decide⟩

/-- What is seen of a text is seen of every longer one. -/
theorem scan_prefix (mode : Mode) (text rest : List Char) :
    scan mode text <+: scan mode (text ++ rest) := by
  induction text generalizing mode with
  | nil => cases mode <;> exact List.nil_prefix
  | cons c text ih =>
      rw [List.cons_append]
      cases mode <;> simp only [scan] <;> (repeat' split) <;>
        first
          | exact ih _
          | exact List.prefix_cons_inj _ |>.mpr (ih _)

/-- Without a closing brace there is no value. -/
theorem read_value_close {tokens : List Token} (h : .close ∉ tokens) : readValue tokens = none := by
  have harray : ∀ tokens : List Token, .close ∉ tokens → readArray tokens = none := by
    intro tokens h
    induction tokens using readArray.induct with
    | case1 => exact absurd List.mem_cons_self h
    | case2 content rest ih =>
        rw [readArray, ih (fun hmem => h (List.mem_cons_of_mem _ hmem))]
        rfl
    | case3 tokens hclose htext => rw [readArray] <;> assumption
  have hfields : ∀ tokens : List Token, .close ∉ tokens → readFields tokens = none := by
    intro tokens h
    induction tokens using readFields.induct with
    | case1 rest => exact absurd List.mem_cons_self h
    | case2 key content rest ih =>
        rw [readFields, ih (fun hmem => h (List.mem_cons_of_mem _ (List.mem_cons_of_mem _ hmem)))]
        rfl
    | case3 key content rest ih =>
        rw [readFields, ih (fun hmem => h (List.mem_cons_of_mem _ (List.mem_cons_of_mem _ hmem)))]
        rfl
    | case4 tokens hclose htext hnumber => rw [readFields] <;> assumption
  unfold readValue
  split
  · next command rest =>
      rw [harray rest fun hmem => h (by simp [hmem])]
      rfl
  · next rest =>
      rw [hfields rest fun hmem => h (by simp [hmem])]
  · rfl

theorem strings_map (args : List String) : strings (args.map .str) = args := by
  induction args with
  | nil => rfl
  | cons text rest ih =>
      show text :: strings (rest.map .str) = text :: rest
      rw [ih]

/-- The text of a record. -/
theorem dumps_record (command : String) (args : List String) :
    codec.dumps (recordJson command args) = String.ofList (recordBody command args ++ ['}']) := by
  show String.ofList (recordBody command (strings (args.map .str)) ++ ['}']) = _
  rw [strings_map]

/-- What is loaded from a text. -/
theorem loads_of_list (text : List Char) :
    codec.loads (String.ofList text) = decoded (readValue (scan .outside text)) := by
  show decoded (readValue (scan .outside (String.ofList text).toList)) = _
  rw [String.toList_ofList]

/-- A plain character is none of those that end a line. -/
theorem not_mem_of_plain {text : List Char} (h : ∀ c ∈ text, isPlain c = true) {c : Char}
    (hc : isPlain c = false) : c ∉ text := by
  intro hmem
  rw [h c hmem] at hc
  cases hc

/-- A record is written on one line and read back. -/
theorem writes_lines : codec.WritesLines where
  loads_dumps command args := by
    rw [dumps_record, loads_of_list, scan_record]
    show decoded ((readArray (args.map .text ++ [.close])).map _) = _
    rw [read_array_map]
    rfl
  dumps_line command args := by
    have hplain := record_plain command args
    obtain ⟨body, hbody⟩ : ∃ body, recordBody command args = '{' :: body := ⟨_, rfl⟩
    rw [hbody] at hplain
    refine ⟨body, by rw [dumps_record, String.toList_ofList, hbody]; rfl, ?_, ?_⟩
    · exact not_mem_of_plain (fun c hc => hplain c (List.mem_cons_of_mem _ hc)) rfl
    · exact not_mem_of_plain (fun c hc => hplain c (List.mem_cons_of_mem _ hc)) rfl

/-- A record that is cut off is found. -/
theorem detects_cuts : codec.DetectsCuts where
  toWritesLines := writes_lines
  dumps_ascii command args c hc := by
    have hplain : isPlain c = true := by
      rw [dumps_record, String.toList_ofList] at hc
      rcases List.mem_append.mp hc with hc | hc
      · exact record_plain command args c hc
      · obtain rfl := List.mem_singleton.mp hc
        rfl
    simpa [isPlain] using hplain
  loads_cut command args cut hcut hne := by
    rw [dumps_record, String.toList_ofList] at hcut hne
    -- what is left does not reach the closing brace
    have hbody : cut <+: recordBody command args := by
      rcases List.prefix_concat_iff.mp hcut with h | h
      · exact absurd h hne
      · exact h
    obtain ⟨rest, hrest⟩ := hbody
    have hseen : scan .outside cut <+: scan .outside (recordBody command args) := by
      rw [← hrest]
      exact scan_prefix _ _ _
    have hbodyTokens := scan_record command args []
    rw [List.append_nil] at hbodyTokens
    have hclose : Token.close ∉ scan .outside cut := by
      intro hmem
      have hmem := hseen.subset hmem
      rw [hbodyTokens] at hmem
      simp [scan] at hmem
    rw [loads_of_list, read_value_close hclose]
    rfl

/-- Two records on one line are found. -/
theorem rejects_extra_data : codec.RejectsExtraData := by
  intro command args other otherArgs
  have harray : ∀ rest : List Token, rest ≠ [] → readArray (args.map .text ++ .close :: rest) =
      none := by
    intro rest hrest
    induction args with
    | nil =>
        rw [List.map_nil, List.nil_append, readArray]
        · intro h
          exact hrest (List.cons.inj h).2
        · rintro content tail ⟨⟩
    | cons text others ih =>
        show (readArray (others.map .text ++ .close :: rest)).map _ = none
        rw [ih]
        rfl
  have hsecond : scan .outside (recordBody other otherArgs ++ ['}']) ≠ [] := by
    rw [scan_record]
    exact List.cons_ne_nil _ _
  rw [dumps_record, dumps_record, ← String.ofList_append, loads_of_list, List.append_assoc,
    scan_record]
  show decoded ((readArray (args.map .text ++ .close ::
    scan .outside (recordBody other otherArgs ++ ['}']))).map _) = _
  rw [harray _ hsecond]
  rfl

theorem perm_sorted (fields : List (String × Json String)) : (sorted fields).Perm fields :=
  List.perm_insertionSort _ fields

/-- The codec reads back what it wrote. -/
theorem lawful : codec.Lawful where
  toWritesLines := writes_lines
  loads_indented data expiresAt := by
    have hdata : ∀ field ∈ sorted (data.entries.map fun entry => (entry.1, Json.str entry.2)),
        IsScalar field.2 := by
      intro field hfield
      obtain ⟨entry, -, rfl⟩ := List.mem_map.mp ((perm_sorted _).mem_iff.mp hfield)
      trivial
    have hexpires : ∀ field ∈ sorted (expiresAt.entries.map fun entry =>
        (entry.1, Json.float entry.2)), IsScalar field.2 := by
      intro field hfield
      obtain ⟨entry, -, rfl⟩ := List.mem_map.mp ((perm_sorted _).mem_iff.mp hfield)
      trivial
    refine ⟨_, _, ?_, perm_sorted _, perm_sorted _⟩
    show codec.loads (String.ofList (snapshotBody (sorted _) (sorted _) ++ ['}'])) = _
    rw [loads_of_list, scan_snapshot hdata hexpires]
    simp only [readValue, read_fields_tokens hdata, read_fields_tokens hexpires]
    rfl
  indented_text data expiresAt := by
    obtain ⟨body, hbody⟩ : ∃ body, snapshotBody
        (sorted (data.entries.map fun entry => (entry.1, Json.str entry.2)))
        (sorted (expiresAt.entries.map fun entry => (entry.1, Json.float entry.2))) =
          '{' :: body := ⟨_, rfl⟩
    have hreturn := snapshot_no_return
      (sorted (data.entries.map fun entry => (entry.1, Json.str entry.2)))
      (sorted (expiresAt.entries.map fun entry => (entry.1, Json.float entry.2)))
    rw [hbody] at hreturn
    refine ⟨body, ?_, fun hmem => hreturn (List.mem_cons_of_mem _ hmem)⟩
    show (String.ofList (snapshotBody (sorted _) (sorted _) ++ ['}'])).toList = _
    rw [String.toList_ofList, hbody]
    rfl
  parse_float_text x := by
    show readFloat (String.ofList (floatText x)).toList = some x
    rw [String.toList_ofList, read_float_text]

end JsonText

end MiniRedis
