import MiniRedis.Protocol.Grammar

/-!
# Length lines that are not digits

The parser leaves its length lines to `int`, so it takes `*+1` and `$ 4` for length lines, too. It
accepts exactly the requests, and refuses every other length line, as long as each byte of a length
line is a digit where the bytes are a request for `int` (`accepts_exactly_iff`).
-/

namespace MiniRedis.RequestGrammar

open RespParser

/-- A length line of the bytes: all that stands before it is as in a request. -/
inductive LengthLine (line : Bytes) : Bytes → Prop where
  | array {rest} (hline : findCrlf line = none) : LengthLine line (header "*" line rest)
  | bulk {first count lines bulks parts rest} (hfirst : DigitLine first count)
      (hbulks : Bulks DigitLine lines bulks parts) (hcount : parts.length < count)
      (hline : findCrlf line = none) :
      LengthLine line (header "*" first (bulks ++ header "$" line rest))

/-- `parse_command` accepts the bytes exactly if they are a request, and refuses a length line that
is not a run of digits. -/
def AcceptsExactly (raw : Bytes) : Prop :=
  (∀ command, parseCommand raw = .ok command ↔
    ∃ lines, IsRequest DigitLine lines raw (command.name :: command.args)) ∧
  ∀ line, LengthLine line raw → (∀ n, ¬ DigitLine line n) →
    ∃ message, parseCommand raw = .error (.protocol message)

/-- The byte of an ASCII digit. -/
def IsDigit (byte : UInt8) : Prop := 48 ≤ byte ∧ byte ≤ 57

/-- The lines that `int` reads: an ASCII text without a line end in it that is an integer, perhaps
with a sign, with underscores between its digits and with spaces around it. -/
theorem int_line_iff {line : Bytes} {n : Nat} :
    IntLine line n ↔ findCrlf line = none ∧ ∃ text : List Char, (∀ c ∈ text, c.toNat < 128) ∧
      line = Bytes.ofText (String.ofList text) ∧ PyText.IntText text n := by
  unfold IntLine
  refine and_congr_right fun _ => ?_
  rw [Option.bind_eq_some_iff]
  constructor
  · rintro ⟨text, htext, hread⟩
    rw [← String.ofList_toList (s := text)] at htext hread
    obtain ⟨hline, hascii⟩ := Bytes.to_ascii_some_iff.mp htext
    exact ⟨text.toList, hascii, hline, (PyText.parse_int_iff hascii).mp hread⟩
  · rintro ⟨text, hascii, hline, hread⟩
    exact ⟨_, Bytes.to_ascii_some_iff.mpr ⟨hline, hascii⟩, (PyText.parse_int_iff hascii).mpr hread⟩

/-- A line that `int` reads is a run of digits if its bytes are digits. -/
theorem IntLine.digit_line {line : Bytes} {n : Nat} (h : IntLine line n)
    (hdigits : ∀ byte ∈ line, IsDigit byte) : DigitLine line n := by
  obtain ⟨-, text, hascii, rfl, hread⟩ := int_line_iff.mp h
  have hrun : ∀ c ∈ text, c.isDigit = true := by
    intro c hc
    have hbyte := hdigits (UInt8.ofNat c.toNat) (by
      rw [Bytes.of_text_ascii hascii]
      exact List.mem_map_of_mem hc)
    have hnat : (UInt8.ofNat c.toNat).toNat = c.toNat :=
      Nat.mod_eq_of_lt (Nat.lt_trans (hascii c hc) (by decide))
    have hlow := UInt8.le_iff_toNat_le.mp hbyte.1
    have hhigh := UInt8.le_iff_toNat_le.mp hbyte.2
    rw [hnat] at hlow hhigh
    rw [Char.isDigit_iff_toNat]
    exact ⟨hlow, hhigh⟩
  obtain ⟨hne, hlength, hvalue⟩ :=
    PyText.parse_int_digits_some hrun ((PyText.parse_int_iff hascii).mpr hread)
  exact ⟨text, hne, hlength, hrun, rfl, hvalue⟩

/-- The bytes of a run of digits are digits. -/
theorem DigitLine.is_digit {line : Bytes} {n : Nat} (h : DigitLine line n) :
    ∀ byte ∈ line, IsDigit byte := by
  obtain ⟨digits, -, -, hdigits, rfl, -⟩ := h
  intro byte hmem
  rw [Bytes.of_text_ascii (PyText.ascii_of_digits hdigits), List.mem_map] at hmem
  obtain ⟨c, hc, rfl⟩ := hmem
  have hbounds := PyText.digit_bounds (hdigits c hc)
  have hnat : (UInt8.ofNat c.toNat).toNat = c.toNat := by
    rw [UInt8.toNat_ofNat']
    omega
  refine ⟨UInt8.le_iff_toNat_le.mpr ?_, UInt8.le_iff_toNat_le.mpr ?_⟩
  · show 48 ≤ _
    omega
  · show _ ≤ 57
    omega

theorem Bulks.digit_lines {lines : List Bytes} {raw : Bytes} {parts : List String}
    (h : Bulks IntLine lines raw parts)
    (hdigits : ∀ line ∈ lines, ∀ byte ∈ line, IsDigit byte) : Bulks DigitLine lines raw parts := by
  induction h with
  | nil => exact .nil
  | cons hline hrest ih =>
      refine .cons (hline.digit_line (hdigits _ List.mem_cons_self)) (ih fun line hmem => ?_)
      exact hdigits line (List.mem_cons_of_mem _ hmem)

/-- Bulk strings that are all there are a way to go on. -/
theorem Bulks.continues {Line : Bytes → Nat → Prop} {lines : List Bytes} {raw : Bytes}
    {parts : List String} (h : Bulks Line lines raw parts) :
    Continues Line parts.length lines raw := by
  induction h with
  | nil => exact .done
  | cons hline hrest ih => exact .bulk hline ih

theorem IsRequest.reading {Line : Bytes → Nat → Prop} {lines : List Bytes} {raw : Bytes}
    {parts : List String} (h : IsRequest Line lines raw parts) : Reading Line lines raw := by
  obtain ⟨line, others, bulks, hline, hpos, hbulks, hlines, hraw⟩ := h
  exact ⟨line, others, parts.length, bulks, hline, hpos, hbulks.continues, hlines, hraw⟩

theorem IsRequest.digit_lines {lines : List Bytes} {raw : Bytes} {parts : List String}
    (h : IsRequest IntLine lines raw parts)
    (hdigits : ∀ line ∈ lines, ∀ byte ∈ line, IsDigit byte) :
    IsRequest DigitLine lines raw parts := by
  obtain ⟨line, others, bulks, hline, hpos, hbulks, rfl, hraw⟩ := h
  refine ⟨line, others, bulks, hline.digit_line (hdigits line List.mem_cons_self), hpos,
    hbulks.digit_lines fun other hmem => ?_, rfl, hraw⟩
  exact hdigits other (List.mem_cons_of_mem _ hmem)

/-- The length lines of a way to go on are of their kind. -/
theorem Continues.line_of_mem {Line : Bytes → Nat → Prop} {count : Nat} {lines : List Bytes}
    {raw : Bytes} (h : Continues Line count lines raw) {line : Bytes} (hmem : line ∈ lines) :
    ∃ n, Line line n := by
  induction h with
  | done => cases hmem
  | nothing => cases hmem
  | line hline => cases hmem
  | data hline hshort =>
      obtain rfl := List.mem_singleton.mp hmem
      exact ⟨_, hline⟩
  | bulk hline hrest ih =>
      rcases List.mem_cons.mp hmem with rfl | hmem
      · exact ⟨_, hline⟩
      · exact ih hmem

theorem Reading.line_of_mem {Line : Bytes → Nat → Prop} {lines : List Bytes} {raw : Bytes}
    (h : Reading Line lines raw) {line : Bytes} (hmem : line ∈ lines) : ∃ n, Line line n := by
  obtain ⟨first, others, count, rest, hfirst, -, hrest, rfl, -⟩ := h
  rcases List.mem_cons.mp hmem with rfl | hmem
  · exact ⟨count, hfirst⟩
  · exact hrest.line_of_mem hmem

/-- A header determines its line and what follows it. -/
theorem header_injective {mark : String} {line line' rest rest' : Bytes}
    (hline : findCrlf line = none) (hline' : findCrlf line' = none)
    (h : header mark line rest = header mark line' rest') : line = line' ∧ rest = rest' := by
  have hbody := List.append_cancel_left h
  have hlength : line.length = line'.length := by
    have hfind := find_crlf_behind hline rest
    rw [hbody, find_crlf_behind hline' rest'] at hfind
    exact (Option.some.inj hfind).symm
  obtain ⟨rfl, htail⟩ := List.append_inj hbody hlength
  exact ⟨rfl, List.append_cancel_left htail⟩

/-- A header has a line that ends. -/
theorem header_ne {mark : String} {line line' rest : Bytes} (hline : findCrlf line = none)
    (hline' : findCrlf line' = none) : header mark line rest ≠ Bytes.ofText mark ++ line' := by
  intro h
  have hfind := find_crlf_behind hline rest
  rw [List.append_cancel_left h, hline'] at hfind
  cases hfind

theorem header_ne_nil {mark : String} {line rest : Bytes} : header mark line rest ≠ [] := by
  simp [header, Bytes.crlf]

/-- Where a length line comes after bulk strings, it is one of the length lines. -/
theorem continues_mem {lines others : List Bytes} {bulks line rest : Bytes} {parts : List String}
    {count : Nat} (hbulks : Bulks DigitLine lines bulks parts) (hcount : parts.length < count)
    (hline : findCrlf line = none)
    (h : Continues IntLine count others (bulks ++ header "$" line rest)) : line ∈ others := by
  induction hbulks generalizing count others with
  | nil =>
      generalize hraw : [] ++ header "$" line rest = raw at h
      cases h with
      | done => exact absurd hcount (Nat.lt_irrefl 0)
      | nothing => exact absurd hraw header_ne_nil
      | line hopen => exact absurd hraw (header_ne hline hopen)
      | data hnumber hshort =>
          obtain ⟨rfl, -⟩ := header_injective hline hnumber.1 hraw
          exact List.mem_cons_self
      | bulk hnumber hrest =>
          obtain ⟨rfl, -⟩ := header_injective hline hnumber.1 hraw
          exact List.mem_cons_self
  | @cons first lines bulks part parts hfirst hrest ih =>
      generalize hraw : bulk first part bulks ++ header "$" line rest = raw at h
      rw [bulk_eq, List.append_assoc, ← bulk_eq] at hraw
      have hint := hfirst.int_line
      cases h with
      | done => exact absurd hcount (Nat.not_lt_zero _)
      | nothing => exact absurd hraw header_ne_nil
      | line hopen => exact absurd hraw (header_ne hint.1 hopen)
      | data hnumber hshort =>
          -- the part is there in full
          obtain ⟨rfl, rfl⟩ := header_injective hint.1 hnumber.1 hraw
          obtain rfl := hint.unique hnumber
          rw [List.length_append, List.length_append, Bytes.crlf, List.length_cons] at hshort
          simp only [List.length_cons, List.length_nil] at hshort
          omega
      | @bulk count _ others other tail hnumber hafter =>
          obtain ⟨rfl, hbody⟩ := header_injective hint.1 hnumber.1 hraw
          obtain ⟨-, htail⟩ := List.append_inj hbody (hint.unique hnumber)
          have hsame := List.append_cancel_left htail
          subst hsame
          exact List.mem_cons_of_mem _ (ih (Nat.lt_of_succ_lt_succ hcount) hafter)

/-- A way to go on whose length lines are not all digits has a first length line that is not. -/
theorem continues_first {count : Nat} {lines : List Bytes} {raw : Bytes}
    (h : Continues IntLine count lines raw)
    (hbad : ∃ line ∈ lines, ¬ ∀ byte ∈ line, IsDigit byte) :
    ∃ others bulks parts line rest, Bulks DigitLine others bulks parts ∧ parts.length < count ∧
      findCrlf line = none ∧ (¬ ∀ byte ∈ line, IsDigit byte) ∧
      raw = bulks ++ header "$" line rest := by
  induction h with
  | done =>
      obtain ⟨line, hmem, -⟩ := hbad
      cases hmem
  | nothing =>
      obtain ⟨line, hmem, -⟩ := hbad
      cases hmem
  | line hline =>
      obtain ⟨line, hmem, -⟩ := hbad
      cases hmem
  | data hline hshort =>
      obtain ⟨line, hmem, hnot⟩ := hbad
      obtain rfl := List.mem_singleton.mp hmem
      exact ⟨[], [], [], line, _, .nil, Nat.succ_pos _, hline.1, hnot, rfl⟩
  | @bulk count first lines part rest hfirst hrest ih =>
      by_cases hdigits : ∀ byte ∈ first, IsDigit byte
      · -- the length line is in order, so a later one is not
        obtain ⟨line, hmem, hnot⟩ := hbad
        have hlater : line ∈ lines := by
          rcases List.mem_cons.mp hmem with rfl | hmem
          · exact absurd hdigits hnot
          · exact hmem
        obtain ⟨others, bulks, parts, line, tail, hbulks, hcount, hline, hnot, rfl⟩ :=
          ih ⟨line, hlater, hnot⟩
        refine ⟨first :: others, RequestGrammar.bulk first part bulks, part :: parts, line, tail,
          .cons (hfirst.digit_line hdigits) hbulks, Nat.succ_lt_succ hcount, hline, hnot, ?_⟩
        rw [bulk_eq, bulk_eq first part bulks, List.append_assoc]
      · exact ⟨[], [], [], first, _, .nil, Nat.succ_pos _, hfirst.1, hdigits, rfl⟩

/-- A reading whose length lines are not all digits has a first length line that is not. -/
theorem reading_first {lines : List Bytes} {raw : Bytes} (h : Reading IntLine lines raw)
    (hbad : ∃ line ∈ lines, ¬ ∀ byte ∈ line, IsDigit byte) :
    ∃ line, LengthLine line raw ∧ ¬ ∀ byte ∈ line, IsDigit byte := by
  obtain ⟨first, others, count, rest, hfirst, -, hrest, rfl, rfl⟩ := h
  by_cases hdigits : ∀ byte ∈ first, IsDigit byte
  · obtain ⟨line, hmem, hnot⟩ := hbad
    have hlater : line ∈ others := by
      rcases List.mem_cons.mp hmem with rfl | hmem
      · exact absurd hdigits hnot
      · exact hmem
    obtain ⟨lines, bulks, parts, line, tail, hbulks, hcount, hline, hnot, rfl⟩ :=
      continues_first hrest ⟨line, hlater, hnot⟩
    exact ⟨line, .bulk (hfirst.digit_line hdigits) hbulks hcount hline, hnot⟩
  · exact ⟨first, .array hfirst.1, hdigits⟩

/-- The length lines of the bytes are among those of a reading. -/
theorem reading_mem {line : Bytes} {lines : List Bytes} {raw : Bytes} (hline : LengthLine line raw)
    (h : Reading IntLine lines raw) : line ∈ lines := by
  obtain ⟨first, others, count, rest, hfirst, -, hrest, rfl, hraw⟩ := h
  cases hline with
  | array hline =>
      obtain ⟨rfl, -⟩ := header_injective hline hfirst.1 hraw
      exact List.mem_cons_self
  | bulk hdigits hbulks hcount hline =>
      obtain ⟨rfl, rfl⟩ := header_injective hdigits.int_line.1 hfirst.1 hraw
      obtain rfl := hdigits.int_line.unique hfirst
      exact List.mem_cons_of_mem _ (continues_mem hbulks hcount hline hrest)

/-- Bytes with a length line that are not refused are a request, or break off within one. -/
theorem reading_of_length_line {line : Bytes} {raw : Bytes} (hline : LengthLine line raw)
    (h : ∀ message, parseCommand raw ≠ .error (.protocol message)) :
    ∃ lines, Reading IntLine lines raw := by
  obtain ⟨first, rest, hfirst, hraw⟩ :
      ∃ first rest, findCrlf first = none ∧ raw = header "*" first rest := by
    cases hline with
    | array hline => exact ⟨_, _, hline, rfl⟩
    | bulk hdigits hbulks hcount hline => exact ⟨_, _, hdigits.int_line.1, rfl⟩
  cases hverdict : parseCommand raw with
  | ok command =>
      obtain ⟨lines, hrequest⟩ := parse_command_ok_iff.mp hverdict
      exact ⟨lines, hrequest.reading⟩
  | error error =>
      cases error with
      | protocol message => exact absurd hverdict (h message)
      | incomplete message =>
          rcases parse_command_open hverdict with (hnil | ⟨other, hother, hopen⟩) | hreading
          · rw [hraw] at hnil
            exact absurd hnil header_ne_nil
          · rw [hraw] at hopen
            exact absurd hopen (header_ne hfirst hother)
          · exact hreading

/-- `parse_command` accepts exactly the requests, and refuses every length line that is not a run of
digits, if and only if the bytes are not a request, or bytes that break off within one, where `int`
reads a length line that has another byte than digits. -/
theorem accepts_exactly_iff (raw : Bytes) :
    AcceptsExactly raw ↔
      ∀ lines, Reading IntLine lines raw → ∀ line ∈ lines, ∀ byte ∈ line, IsDigit byte := by
  constructor
  · rintro ⟨-, hrefuses⟩ lines hreading line hmem
    by_contra hbad
    -- the first length line with another byte is not refused
    obtain ⟨message, hrefused⟩ : ∃ message, parseCommand raw = .error (.protocol message) := by
      obtain ⟨first, hfirst, hnot⟩ := reading_first hreading ⟨line, hmem, hbad⟩
      exact hrefuses first hfirst fun n hdigits => hnot hdigits.is_digit
    exact parse_command_reading hreading message hrefused
  · intro hdigits
    refine ⟨fun command => ?_, fun line hline hnot => ?_⟩
    · rw [parse_command_ok_iff]
      constructor
      · rintro ⟨lines, hrequest⟩
        exact ⟨lines, hrequest.digit_lines (hdigits lines hrequest.reading)⟩
      · rintro ⟨lines, hrequest⟩
        exact ⟨lines, hrequest.int_lines⟩
    · by_contra hverdict
      have hrefused : ∀ message, parseCommand raw ≠ .error (.protocol message) :=
        fun message h => hverdict ⟨message, h⟩
      obtain ⟨lines, hreading⟩ := reading_of_length_line hline hrefused
      have hmem := reading_mem hline hreading
      obtain ⟨n, hnumber⟩ := hreading.line_of_mem hmem
      exact hnot n (hnumber.digit_line (hdigits lines hreading line hmem))

/-- A `PING` whose array length has a plus sign is no request, and is accepted. -/
theorem accepts_plus_sign :
    let raw := Bytes.ofText "*+1\r\n$4\r\nPING\r\n"
    parseCommand raw = .ok ⟨"PING", []⟩ ∧ (∀ lines parts, ¬ IsRequest DigitLine lines raw parts) ∧
      ¬ AcceptsExactly raw := by
  intro raw
  have hraw : raw = header "*" (Bytes.ofText "+1") (bulk (Bytes.ofText "4") "PING" []) := by decide
  have hsign : IntLine (Bytes.ofText "+1") 1 := ⟨by decide, by decide⟩
  have hfour : IntLine (Bytes.ofText "4") (Bytes.ofText "PING").length := ⟨by decide, by decide⟩
  have hplus : ∀ n, ¬ DigitLine (Bytes.ofText "+1") n := by
    intro n h
    exact absurd (h.is_digit 43 (by decide)).1 (by decide)
  have haccepted : parseCommand raw = .ok ⟨"PING", []⟩ :=
    parse_command_ok_iff.mpr ⟨_, _, _, _, hsign, Nat.one_pos, .cons hfour .nil, rfl, hraw⟩
  have hnot : ∀ lines parts, ¬ IsRequest DigitLine lines raw parts := by
    rintro lines parts ⟨line, others, bulks, hline, -, -, -, hheader⟩
    obtain ⟨rfl, -⟩ := header_injective hsign.1 hline.int_line.1 (hraw.symm.trans hheader)
    exact hplus _ hline
  refine ⟨haccepted, hnot, fun hexact => ?_⟩
  obtain ⟨lines, hrequest⟩ := (hexact.1 _).mp haccepted
  exact hnot lines _ hrequest

end MiniRedis.RequestGrammar
