import MiniRedis.Foundation.Digits
import MiniRedis.Protocol.Stability

/-!
# The grammar of requests

A request is an array of bulk strings, and each of its length lines is a run of digits
(`IsRequest DigitLine`). The parser leaves the length lines to `int`, which also takes signs,
underscores and spaces. `Bulks`, `IsRequest` and `Reading` have the kind of the length lines as a
parameter, so that one grammar says what a request is and what the parser takes for one
(`parse_command_ok_iff`, `parse_command_incomplete`).
-/

namespace MiniRedis

namespace RespParser

/-- The mark of an array. -/
theorem array_mark : Bytes.ofText "*" = [42] := by decide

/-- The mark of a bulk string. -/
theorem bulk_mark : Bytes.ofText "$" = [36] := by decide

/-- There is no line end without a carriage return. -/
theorem find_crlf_none {line : Bytes} (h : ∀ byte ∈ line, byte ≠ 13) : findCrlf line = none := by
  induction line with
  | nil => rfl
  | cons byte rest ih =>
      have hbyte : byte ≠ 13 := h byte List.mem_cons_self
      rw [findCrlf, ih fun other hother => h other (List.mem_cons_of_mem _ hother)]
      · rfl
      · intro tail hfirst
        exact absurd hfirst hbyte

/-- A line ends at the line end behind it. -/
theorem find_crlf_behind {line : Bytes} (h : findCrlf line = none) (tail : Bytes) :
    findCrlf (line ++ (Bytes.crlf ++ tail)) = some line.length := by
  fun_induction findCrlf line with
  | case1 => cases h
  | case2 byte rest hcrlf ih =>
      rw [List.cons_append, findCrlf, ih (Option.map_eq_none_iff.mp h)]
      · rfl
      · -- a carriage return at the end of the line is not followed by a line feed
        intro after hbyte hafter
        cases rest with
        | nil => cases hafter
        | cons next rest =>
            rw [List.cons_append, List.cons.injEq] at hafter
            exact hcrlf rest hbyte (by rw [hafter.1])
  | case3 => rfl

/-- A line that `int` reads is a number line. -/
theorem read_number_line_behind {line : Bytes} {number : Int} (hline : findCrlf line = none)
    (hnumber : (Bytes.toAscii? line).bind PyText.parseInt = some number) (front tail : Bytes)
    (context : String) :
    readNumberLine (front ++ (line ++ (Bytes.crlf ++ tail))) front.length context =
      .ok (number, front.length + line.length + 2) := by
  have hne : line ≠ [] := by
    rintro rfl
    cases hnumber
  simp only [readNumberLine, List.drop_left, find_crlf_behind hline, List.take_left, if_neg hne,
    hnumber]

/-- The bytes of digits are not carriage returns. -/
theorem digits_ne_cr {digits : List Char} (h : ∀ c ∈ digits, c.isDigit = true) :
    ∀ byte ∈ Bytes.ofText (String.ofList digits), byte ≠ 13 := by
  intro byte hbyte
  rw [Bytes.of_text_ascii (PyText.ascii_of_digits h), List.mem_map] at hbyte
  obtain ⟨c, hc, rfl⟩ := hbyte
  have hbounds := PyText.digit_bounds (h c hc)
  intro hcr
  have hnat : (UInt8.ofNat c.toNat).toNat = 13 := by rw [hcr]; rfl
  rw [UInt8.toNat_ofNat'] at hnat
  omega

/-- Before the first line end there is a line. -/
theorem find_crlf_split {raw : Bytes} {offset : Nat} (h : findCrlf raw = some offset) :
    ∃ line rest, findCrlf line = none ∧ line.length = offset ∧
      raw = line ++ (Bytes.crlf ++ rest) := by
  fun_induction findCrlf raw generalizing offset with
  | case1 rest =>
      cases h
      exact ⟨[], rest, rfl, rfl, rfl⟩
  | case2 byte tail hcrlf ih =>
      obtain ⟨inner, hinner, rfl⟩ := Option.map_eq_some_iff.mp h
      obtain ⟨line, rest, hline, hlength, rfl⟩ := ih hinner
      refine ⟨byte :: line, rest, ?_, by rw [List.length_cons, hlength], rfl⟩
      rw [findCrlf, hline]
      · rfl
      · intro after hbyte hafter
        rw [hafter] at hcrlf
        exact hcrlf _ hbyte rfl
  | case3 => cases h

/-- A number line that was read is a line that `int` reads. -/
theorem read_number_line_split {front raw : Bytes} {context : String} {number : Int} {stop : Nat}
    (h : readNumberLine (front ++ raw) front.length context = .ok (number, stop)) :
    ∃ line rest, findCrlf line = none ∧
      (Bytes.toAscii? line).bind PyText.parseInt = some number ∧
      stop = front.length + line.length + 2 ∧ raw = line ++ (Bytes.crlf ++ rest) := by
  unfold readNumberLine at h
  rw [List.drop_left] at h
  cases hfind : findCrlf raw with
  | none =>
      rw [hfind] at h
      cases h
  | some offset =>
      obtain ⟨line, rest, hline, rfl, rfl⟩ := find_crlf_split hfind
      simp only [hfind, List.take_left] at h
      split at h
      · cases h
      · split at h
        · next number hnumber =>
            cases h
            exact ⟨line, rest, hline, hnumber, rfl, rfl⟩
        · cases h

/-- A number line is waited for as long as it does not end. -/
theorem read_number_line_open {front raw : Bytes} {context message : String}
    (h : readNumberLine (front ++ raw) front.length context = .error (.incomplete message)) :
    findCrlf raw = none := by
  unfold readNumberLine at h
  rw [List.drop_left] at h
  cases hfind : findCrlf raw with
  | none => rfl
  | some offset =>
      simp only [hfind] at h
      split at h
      · cases h
      · split at h
        · cases h
        · cases h

/-- The data of a part is read, whatever bytes it consists of. -/
theorem read_bulk_data_written (part : String) (front tail : Bytes) :
    readBulkData (front ++ (Bytes.ofText part ++ (Bytes.crlf ++ tail))) (Bytes.ofText part).length
        front.length = .ok (part, front.length + (Bytes.ofText part).length + 2) := by
  have hsign : ¬ ((Bytes.ofText part).length : Int) < 0 := by omega
  have hlength : ¬ (front ++ (Bytes.ofText part ++ (Bytes.crlf ++ tail))).length <
      front.length + ((Bytes.ofText part).length : Int).toNat + 2 := by
    simp only [List.length_append, Int.toNat_natCast, Bytes.crlf, List.length_cons, List.length_nil]
    omega
  have hdrop : (front ++ (Bytes.ofText part ++ (Bytes.crlf ++ tail))).drop
      (front.length + (Bytes.ofText part).length) = Bytes.crlf ++ tail := by
    rw [← List.append_assoc, ← List.length_append, List.drop_left]
  have hend : (Bytes.crlf ++ tail).take 2 = Bytes.crlf := rfl
  rw [readBulkData, if_neg hsign, if_neg hlength, Int.toNat_natCast, hdrop, hend,
    if_neg (fun h => h rfl), List.drop_left, List.take_left, Bytes.to_text_of_text]

/-- Data that was read is that of a part, with a line end behind it. -/
theorem read_bulk_data_split {front raw : Bytes} {bulkLen : Int} {part : String} {stop : Nat}
    (h : readBulkData (front ++ raw) bulkLen front.length = .ok (part, stop)) :
    ∃ rest, bulkLen = (Bytes.ofText part).length ∧
      stop = front.length + (Bytes.ofText part).length + 2 ∧
      raw = Bytes.ofText part ++ (Bytes.crlf ++ rest) := by
  unfold readBulkData at h
  split at h
  · cases h
  next hsign =>
    split at h
    · cases h
    next hlength =>
      split at h
      · cases h
      next hend =>
        split at h
        · next part htext =>
            cases h
            rw [List.length_append] at hlength
            rw [List.drop_left] at htext
            have hpart := Bytes.of_text_to_text htext
            have hcount : (Bytes.ofText part).length = bulkLen.toNat := by
              rw [hpart, List.length_take]
              omega
            rw [← List.drop_drop, List.drop_left, not_not] at hend
            refine ⟨(raw.drop bulkLen.toNat).drop 2, by omega, by omega, ?_⟩
            rw [hpart, ← hend, List.take_append_drop, List.take_append_drop]
        · cases h

/-- Data is waited for as long as there is not enough. -/
theorem read_bulk_data_open {front raw : Bytes} {bulkLen : Int} {message : String}
    (h : readBulkData (front ++ raw) bulkLen front.length = .error (.incomplete message)) :
    ∃ n : Nat, bulkLen = n ∧ raw.length < n + 2 := by
  unfold readBulkData at h
  split at h
  · cases h
  next hsign =>
    split at h
    · next hlength =>
        rw [List.length_append] at hlength
        exact ⟨bulkLen.toNat, by omega, by omega⟩
    · split at h
      · cases h
      · split at h
        · cases h
        · cases h

theorem read_bulk_data_short {raw : Bytes} {n : Nat} (h : raw.length < n + 2) (front : Bytes) :
    readBulkData (front ++ raw) n front.length =
      .error (.incomplete "bulk string data not fully received") := by
  have hsign : ¬ (n : Int) < 0 := by omega
  rw [readBulkData, if_neg hsign, if_pos]
  rw [List.length_append, Int.toNat_natCast]
  omega

end RespParser

namespace RequestGrammar

open RespParser

/-- A run of ASCII digits that `int` is ready to read, and the number that it denotes. -/
def DigitLine (line : Bytes) (n : Nat) : Prop :=
  ∃ digits : List Char, digits ≠ [] ∧ digits.length ≤ PyText.maxStrDigits ∧
    (∀ c ∈ digits, c.isDigit = true) ∧ line = Bytes.ofText (String.ofList digits) ∧
    Nat.ofDigitChars 10 digits 0 = n

/-- A line that `int` reads as a number. -/
def IntLine (line : Bytes) (n : Nat) : Prop :=
  findCrlf line = none ∧ (Bytes.toAscii? line).bind PyText.parseInt = some (n : Int)

/-- A length line behind its mark, and what follows it. -/
def header (mark : String) (line rest : Bytes) : Bytes :=
  Bytes.ofText mark ++ (line ++ (Bytes.crlf ++ rest))

/-- A bulk string, and what follows it. -/
def bulk (line : Bytes) (part : String) (rest : Bytes) : Bytes :=
  header "$" line (Bytes.ofText part ++ (Bytes.crlf ++ rest))

/-- Bulk strings one after the other, with their length lines. -/
inductive Bulks (Line : Bytes → Nat → Prop) : List Bytes → Bytes → List String → Prop where
  | nil : Bulks Line [] [] []
  | cons {line lines rest part parts} (hline : Line line (Bytes.ofText part).length)
      (hrest : Bulks Line lines rest parts) :
      Bulks Line (line :: lines) (bulk line part rest) (part :: parts)

/-- A request that consists of these parts, with its length lines. -/
def IsRequest (Line : Bytes → Nat → Prop) (lines : List Bytes) (raw : Bytes)
    (parts : List String) : Prop :=
  ∃ line others bulks, Line line parts.length ∧ 0 < parts.length ∧
    Bulks Line others bulks parts ∧ lines = line :: others ∧ raw = header "*" line bulks

/-- Where a number of bulk strings is to come: all of them and nothing else, or the bytes break off.
With them go the length lines that are there. -/
inductive Continues (Line : Bytes → Nat → Prop) : Nat → List Bytes → Bytes → Prop where
  | done : Continues Line 0 [] []
  | nothing {count} : Continues Line (count + 1) [] []
  | line {count line} (hline : findCrlf line = none) :
      Continues Line (count + 1) [] (Bytes.ofText "$" ++ line)
  | data {count line n rest} (hline : Line line n) (hshort : rest.length < n + 2) :
      Continues Line (count + 1) [line] (header "$" line rest)
  | bulk {count line lines part rest} (hline : Line line (Bytes.ofText part).length)
      (hrest : Continues Line count lines rest) :
      Continues Line (count + 1) (line :: lines) (bulk line part rest)

/-- The bytes are a request, or break off within one after its first line, with these length lines.
-/
def Reading (Line : Bytes → Nat → Prop) (lines : List Bytes) (raw : Bytes) : Prop :=
  ∃ line others count rest, Line line count ∧ 0 < count ∧ Continues Line count others rest ∧
    lines = line :: others ∧ raw = header "*" line rest

/-! ## Length lines -/

/-- Digits are a line that `int` reads. -/
theorem DigitLine.int_line {line : Bytes} {n : Nat} (h : DigitLine line n) : IntLine line n := by
  obtain ⟨digits, hne, hlength, hdigits, rfl, rfl⟩ := h
  refine ⟨find_crlf_none (digits_ne_cr hdigits), ?_⟩
  rw [Bytes.to_ascii_of_text (PyText.ascii_of_digits hdigits), Option.bind_some,
    PyText.parse_int_of_digits hne hdigits hlength]

theorem Bulks.int_lines {lines : List Bytes} {raw : Bytes} {parts : List String}
    (h : Bulks DigitLine lines raw parts) : Bulks IntLine lines raw parts := by
  induction h with
  | nil => exact .nil
  | cons hline hrest ih => exact .cons hline.int_line ih

theorem IsRequest.int_lines {lines : List Bytes} {raw : Bytes} {parts : List String}
    (h : IsRequest DigitLine lines raw parts) : IsRequest IntLine lines raw parts := by
  obtain ⟨line, others, bulks, hline, hpos, hbulks, hlines, hraw⟩ := h
  exact ⟨line, others, bulks, hline.int_line, hpos, hbulks.int_lines, hlines, hraw⟩

/-- A line denotes one number. -/
theorem IntLine.unique {line : Bytes} {n m : Nat} (h : IntLine line n) (h' : IntLine line m) :
    n = m :=
  Int.natCast_inj.mp (Option.some.inj (h.2.symm.trans h'.2))

/-! ## One bulk string -/

/-- The mark, the line and the line end of a header. -/
theorem header_eq (mark : String) (line rest : Bytes) :
    header mark line rest = header mark line [] ++ rest := by
  simp only [header, List.append_assoc, List.append_nil]

/-- The bytes of a bulk string. -/
theorem bulk_eq (line : Bytes) (part : String) (rest : Bytes) :
    bulk line part rest = bulk line part [] ++ rest := by
  simp only [bulk, header, List.append_assoc, List.append_nil]

/-- A bulk string is read after its length line. -/
theorem read_bulk_header {line : Bytes} {number : Int} (hline : findCrlf line = none)
    (hnumber : (Bytes.toAscii? line).bind PyText.parseInt = some number) (front rest : Bytes) :
    readBulk (front ++ header "$" line rest) front.length =
      readBulkData ((front ++ header "$" line []) ++ rest) number
        (front ++ header "$" line []).length := by
  have hread := read_number_line_behind hline hnumber (front ++ Bytes.ofText "$") rest
    "bulk string length"
  have hlength : ¬ (front ++ header "$" line rest).length ≤ front.length := by
    rw [header, bulk_mark, List.length_append, List.length_append, List.length_singleton]
    omega
  have htake : ((front ++ header "$" line rest).drop front.length).take 1 =
      Bytes.ofText "$" := by
    rw [List.drop_left, header, bulk_mark]
    rfl
  have hstop : front.length + 1 + line.length + 2 =
      (front ++ header "$" line []).length := by
    simp only [header, bulk_mark, Bytes.crlf, List.length_append, List.length_cons, List.length_nil]
    omega
  rw [List.append_assoc, List.length_append, bulk_mark, List.length_singleton, ← bulk_mark] at hread
  rw [readBulk, if_neg hlength, htake, if_neg (fun hne => hne rfl)]
  show (readNumberLine (front ++ (Bytes.ofText "$" ++ (line ++ (Bytes.crlf ++ rest)))) _ _ >>=
    _) = _
  rw [hread, hstop, List.append_assoc, ← header_eq]
  rfl

/-- A bulk string is read, whatever follows it. -/
theorem read_bulk_whole {line : Bytes} {part : String}
    (h : IntLine line (Bytes.ofText part).length) (front rest : Bytes) :
    readBulk (front ++ bulk line part rest) front.length =
      .ok (part, (front ++ bulk line part []).length) := by
  rw [bulk, read_bulk_header h.1 h.2, read_bulk_data_written, bulk, header_eq "$" line (_ ++ _),
    ← List.append_assoc]
  simp only [List.length_append, Bytes.crlf, List.length_cons, List.length_nil]
  rfl

/-- A bulk string is waited for where there is nothing. -/
theorem read_bulk_nothing (front : Bytes) :
    readBulk (front ++ []) front.length = .error (.incomplete "waiting for next bulk string") := by
  rw [List.append_nil, readBulk, if_pos (Nat.le_refl _)]

/-- A bulk string is waited for where its length line does not end. -/
theorem read_bulk_unended {line : Bytes} (h : findCrlf line = none) (front : Bytes) :
    readBulk (front ++ (Bytes.ofText "$" ++ line)) front.length =
      .error (.incomplete "missing CRLF after bulk string length") := by
  have hlength : ¬ (front ++ (Bytes.ofText "$" ++ line)).length ≤ front.length := by
    rw [bulk_mark, List.length_append, List.length_append, List.length_singleton]
    omega
  have htake : (Bytes.ofText "$" ++ line).take 1 = Bytes.ofText "$" := by
    rw [bulk_mark]
    rfl
  have hfront : front.length + 1 = (front ++ Bytes.ofText "$").length := by
    rw [List.length_append, bulk_mark, List.length_singleton]
  rw [readBulk, if_neg hlength, List.drop_left, htake, if_neg (not_not.mpr rfl), hfront,
    ← List.append_assoc, readNumberLine, List.drop_left, h]
  rfl

/-- A bulk string that is not refused at its mark or its length line is waited for there, or has a
length line. -/
theorem read_bulk_begins {front raw : Bytes} (h : ∀ message,
      readBulk (front ++ raw) front.length ≠ .error (.protocol message)) :
    (∃ message, readBulk (front ++ raw) front.length = .error (.incomplete message) ∧
      ∀ count, Continues IntLine (count + 1) [] raw) ∨
    ∃ line number rest, findCrlf line = none ∧
      (Bytes.toAscii? line).bind PyText.parseInt = some number ∧ raw = header "$" line rest := by
  by_cases hnil : raw = []
  · subst hnil
    exact .inl ⟨_, read_bulk_nothing front, fun count => .nothing⟩
  have hlength : ¬ (front ++ raw).length ≤ front.length := by
    have hpos := List.length_pos_iff.mpr hnil
    rw [List.length_append]
    omega
  unfold readBulk at h ⊢
  rw [if_neg hlength, List.drop_left] at h ⊢
  by_cases htake : raw.take 1 = Bytes.ofText "$"
  · rw [if_neg (not_not.mpr htake)] at h ⊢
    obtain ⟨rest, rfl⟩ : ∃ rest, raw = Bytes.ofText "$" ++ rest :=
      ⟨raw.drop 1, by rw [← htake, List.take_append_drop]⟩
    have hfront : front.length + 1 = (front ++ Bytes.ofText "$").length := by
      rw [List.length_append, bulk_mark, List.length_singleton]
    rw [← List.append_assoc, hfront] at h ⊢
    cases hread : readNumberLine (front ++ Bytes.ofText "$" ++ rest)
        (front ++ Bytes.ofText "$").length "bulk string length" with
    | ok line =>
        obtain ⟨line, tail, hline, hnumber, -, rfl⟩ := read_number_line_split hread
        exact .inr ⟨line, _, tail, hline, hnumber, rfl⟩
    | error error =>
        cases error with
        | incomplete message =>
            exact .inl ⟨message, rfl, fun count => .line (read_number_line_open hread)⟩
        | protocol message =>
            rw [hread] at h
            exact absurd rfl (h message)
  · rw [if_pos htake] at h
    exact absurd rfl (h _)

/-- What is accepted is not refused. -/
theorem not_refused_of_ok {α : Type} {verdict : Except ParseError α} {a : α}
    (h : verdict = .ok a) (message : String) : verdict ≠ .error (.protocol message) := by
  rw [h]
  intro hrefused
  cases hrefused

/-- What is waited for is not refused. -/
theorem not_refused_of_open {α : Type} {verdict : Except ParseError α} {text : String}
    (h : verdict = .error (.incomplete text)) (message : String) :
    verdict ≠ .error (.protocol message) := by
  rw [h]
  intro hrefused
  cases hrefused

/-- A bulk string that was read is one of the grammar. -/
theorem read_bulk_split {front raw : Bytes} {part : String} {stop : Nat}
    (h : readBulk (front ++ raw) front.length = .ok (part, stop)) :
    ∃ line rest, IntLine line (Bytes.ofText part).length ∧
      stop = (front ++ bulk line part []).length ∧ raw = bulk line part rest := by
  obtain ⟨message, hopen, -⟩ | ⟨line, number, rest, hline, hnumber, rfl⟩ :=
    read_bulk_begins (not_refused_of_ok h)
  · rw [h] at hopen
    cases hopen
  · rw [read_bulk_header hline hnumber] at h
    obtain ⟨tail, rfl, rfl, rfl⟩ := read_bulk_data_split h
    refine ⟨line, tail, ⟨hline, hnumber⟩, ?_, rfl⟩
    rw [bulk, header_eq "$" line (_ ++ _), ← List.append_assoc]
    simp only [List.length_append, Bytes.crlf, List.length_cons, List.length_nil]
    omega

/-- A bulk string is waited for where the bytes break off. -/
theorem read_bulk_open {front raw : Bytes} {message : String}
    (h : readBulk (front ++ raw) front.length = .error (.incomplete message)) (count : Nat) :
    ∃ lines, Continues IntLine (count + 1) lines raw := by
  obtain ⟨-, -, hcontinues⟩ | ⟨line, number, rest, hline, hnumber, rfl⟩ :=
    read_bulk_begins (not_refused_of_open h)
  · exact ⟨[], hcontinues count⟩
  · rw [read_bulk_header hline hnumber] at h
    obtain ⟨n, rfl, hshort⟩ := read_bulk_data_open h
    exact ⟨[line], .data ⟨hline, hnumber⟩ hshort⟩

/-! ## The loop -/

/-- The loop goes on behind a bulk string. -/
theorem read_parts_step {line : Bytes} {part : String}
    (h : IntLine line (Bytes.ofText part).length) (front rest : Bytes) (count : Nat) :
    readParts (front ++ bulk line part rest) (count + 1) front.length = (do
      let (parts, idx) ← readParts ((front ++ bulk line part []) ++ rest) count
        (front ++ bulk line part []).length
      return (part :: parts, idx)) := by
  rw [readParts, read_bulk_whole h, List.append_assoc, ← bulk_eq]
  rfl

/-- Bulk strings are read, whatever follows them. -/
theorem read_parts_bulks {lines : List Bytes} {bulks : Bytes} {parts : List String}
    (h : Bulks IntLine lines bulks parts) (front rest : Bytes) :
    readParts (front ++ (bulks ++ rest)) parts.length front.length =
      .ok (parts, (front ++ bulks).length) := by
  induction h generalizing front with
  | nil =>
      rw [List.append_nil]
      rfl
  | @cons line lines bulks part parts hline hbulks ih =>
      have hraw : bulk line part bulks ++ rest = bulk line part (bulks ++ rest) := by
        rw [bulk_eq, List.append_assoc, ← bulk_eq]
      rw [hraw, List.length_cons, read_parts_step hline, ih, bulk_eq line part bulks,
        ← List.append_assoc]
      rfl

/-- Bulk strings that were read are those of the grammar. -/
theorem read_parts_split {front raw : Bytes} {count : Nat} {parts : List String} {stop : Nat}
    (h : readParts (front ++ raw) count front.length = .ok (parts, stop)) :
    ∃ lines bulks rest, Bulks IntLine lines bulks parts ∧ parts.length = count ∧
      stop = (front ++ bulks).length ∧ raw = bulks ++ rest := by
  induction count generalizing front raw parts with
  | zero =>
      cases h
      exact ⟨[], [], raw, .nil, rfl, by rw [List.append_nil], rfl⟩
  | succ count ih =>
      obtain ⟨⟨part, middle⟩, hbulk, -⟩ := Except.exists_of_bind_ok h
      obtain ⟨line, rest, hline, -, rfl⟩ := read_bulk_split hbulk
      rw [read_parts_step hline] at h
      obtain ⟨⟨others, last⟩, hparts, hdone⟩ := Except.exists_of_bind_ok h
      cases hdone
      obtain ⟨lines, bulks, tail, hbulks, hlength, rfl, rfl⟩ := ih hparts
      refine ⟨line :: lines, bulk line part bulks, tail, .cons hline hbulks, ?_, ?_, ?_⟩
      · rw [List.length_cons, hlength]
      · rw [bulk_eq line part bulks, List.append_assoc]
      · rw [bulk_eq, bulk_eq line part bulks, List.append_assoc]

/-- Where the bytes break off, or end with the last bulk string, they are not refused. -/
theorem read_parts_continues {count : Nat} {lines : List Bytes} {raw : Bytes}
    (h : Continues IntLine count lines raw) (front : Bytes) :
    (∃ message, readParts (front ++ raw) count front.length = .error (.incomplete message)) ∨
      ∃ parts,
        readParts (front ++ raw) count front.length = .ok (parts, (front ++ raw).length) := by
  induction h generalizing front with
  | done =>
      refine .inr ⟨[], ?_⟩
      rw [List.append_nil]
      rfl
  | nothing =>
      refine .inl ⟨"waiting for next bulk string", ?_⟩
      rw [readParts, read_bulk_nothing]
      rfl
  | @line count line hline =>
      refine .inl ⟨"missing CRLF after bulk string length", ?_⟩
      rw [readParts, read_bulk_unended hline]
      rfl
  | @data count line n rest hline hshort =>
      refine .inl ⟨"bulk string data not fully received", ?_⟩
      rw [readParts, read_bulk_header hline.1 hline.2, read_bulk_data_short hshort]
      rfl
  | @bulk count line lines part rest hline hrest ih =>
      rw [read_parts_step hline]
      obtain ⟨message, hopen⟩ | ⟨parts, hparts⟩ := ih (front ++ bulk line part [])
      · rw [hopen]
        exact .inl ⟨message, rfl⟩
      · rw [hparts, List.append_assoc, ← bulk_eq]
        exact .inr ⟨part :: parts, rfl⟩

/-- Bulk strings are waited for where the bytes break off. -/
theorem read_parts_open {front raw : Bytes} {count : Nat} {message : String}
    (h : readParts (front ++ raw) count front.length = .error (.incomplete message)) :
    ∃ lines, Continues IntLine count lines raw := by
  induction count generalizing front raw with
  | zero => cases h
  | succ count ih =>
      rcases error_of_bind h with hbulk | ⟨⟨part, middle⟩, hbulk, -⟩
      · exact read_bulk_open hbulk count
      · obtain ⟨line, rest, hline, -, rfl⟩ := read_bulk_split hbulk
        rw [read_parts_step hline] at h
        rcases error_of_bind h with hparts | ⟨found, -, hdone⟩
        · obtain ⟨lines, hlines⟩ := ih hparts
          exact ⟨line :: lines, .bulk hline hlines⟩
        · cases hdone

/-! ## The verdicts of `parse_command` -/

/-- An array is read after its length line. -/
theorem parse_one_header {line : Bytes} {count : Nat} (h : IntLine line count) (hpos : 0 < count)
    (rest : Bytes) :
    parseOne (header "*" line rest) = (do
      let (parts, idx) ← readParts (header "*" line [] ++ rest) count (header "*" line []).length
      return (⟨parts.headD "", parts.tail⟩, idx)) := by
  have hread := read_number_line_behind h.1 h.2 (Bytes.ofText "*") rest "array length"
  have hstop : (Bytes.ofText "*").length + line.length + 2 = (header "*" line []).length := by
    simp only [header, array_mark, Bytes.crlf, List.length_append, List.length_cons,
      List.length_nil]
    omega
  have hne : header "*" line rest ≠ [] := by
    rw [header, array_mark]
    exact List.cons_ne_nil _ _
  have htake : (header "*" line rest).take 1 = Bytes.ofText "*" := by
    rw [header, array_mark]
    rfl
  have hsign : ¬ (count : Int) ≤ 0 := by omega
  rw [parseOne, if_neg hne, htake, if_neg (not_not.mpr rfl)]
  show (readNumberLine (Bytes.ofText "*" ++ (line ++ (Bytes.crlf ++ rest)))
    (Bytes.ofText "*").length "array length" >>= _) = _
  rw [hread, hstop, ← header_eq]
  show readArray _ _ _ = _
  rw [readArray, if_neg hsign]
  rfl

/-- A request is read, whatever follows it. -/
theorem parse_one_request {lines : List Bytes} {raw : Bytes} {command : Command}
    (h : IsRequest IntLine lines raw (command.name :: command.args)) (rest : Bytes) :
    parseOne (raw ++ rest) = .ok (command, raw.length) := by
  obtain ⟨line, others, bulks, hline, hpos, hbulks, rfl, rfl⟩ := h
  have hraw : header "*" line bulks ++ rest = header "*" line (bulks ++ rest) := by
    rw [header_eq, List.append_assoc, ← header_eq]
  rw [hraw, parse_one_header hline hpos, read_parts_bulks hbulks, ← header_eq]
  rfl

/-- Bytes that are not refused at their mark or their first line are waited for there, or have a
first line. -/
theorem parse_one_begins {raw : Bytes} (h : ∀ message, parseOne raw ≠ .error (.protocol message)) :
    ((∃ message, parseOne raw = .error (.incomplete message)) ∧
      (raw = [] ∨ ∃ line, findCrlf line = none ∧ raw = Bytes.ofText "*" ++ line)) ∨
    ∃ line count rest, IntLine line count ∧ 0 < count ∧ raw = header "*" line rest := by
  by_cases hnil : raw = []
  · exact .inl ⟨⟨"empty buffer", by rw [parseOne, if_pos hnil]⟩, .inl hnil⟩
  unfold parseOne at h ⊢
  rw [if_neg hnil] at h ⊢
  by_cases htake : raw.take 1 = Bytes.ofText "*"
  · rw [if_neg (not_not.mpr htake)] at h ⊢
    obtain ⟨rest, rfl⟩ : ∃ rest, raw = Bytes.ofText "*" ++ rest :=
      ⟨raw.drop 1, by rw [← htake, List.take_append_drop]⟩
    have hmark : 1 = (Bytes.ofText "*").length := by decide
    cases hread : readNumberLine (Bytes.ofText "*" ++ rest) 1 "array length" with
    | ok found =>
        obtain ⟨number, stop⟩ := found
        -- an array without parts is refused
        have hpos : ¬ number ≤ 0 := by
          intro hsign
          rw [hread] at h
          refine h "array length must be greater than zero" ?_
          show readArray _ _ _ = _
          rw [readArray, if_pos hsign]
        rw [hmark] at hread
        obtain ⟨line, tail, hline, hnumber, -, rfl⟩ := read_number_line_split hread
        obtain ⟨count, rfl⟩ := Int.eq_ofNat_of_zero_le (by omega : 0 ≤ number)
        exact .inr ⟨line, count, tail, ⟨hline, hnumber⟩, by omega, rfl⟩
    | error error =>
        cases error with
        | incomplete message =>
            rw [hmark] at hread
            exact .inl ⟨⟨message, rfl⟩, .inr ⟨rest, read_number_line_open hread, rfl⟩⟩
        | protocol message =>
            rw [hread] at h
            exact absurd rfl (h message)
  · rw [if_pos htake] at h
    exact absurd rfl (h _)

/-- What is not refused by `parse_command` is not refused by `parse_one`. -/
theorem parse_one_not_refused {raw : Bytes}
    (h : ∀ message, parseCommand raw ≠ .error (.protocol message)) (message : String) :
    parseOne raw ≠ .error (.protocol message) := by
  intro hrefused
  refine h message ?_
  rw [parseCommand, hrefused]
  rfl

/-- A command is parsed from all the bytes, or is not. -/
theorem parse_command_ok {raw : Bytes} {command : Command} :
    parseCommand raw = .ok command ↔ parseOne raw = .ok (command, raw.length) := by
  unfold parseCommand
  cases parseOne raw with
  | error error => exact iff_of_false (fun h => by cases h) fun h => by cases h
  | ok parsed =>
      obtain ⟨found, consumed⟩ := parsed
      by_cases hconsumed : consumed = raw.length
      · simp [hconsumed, bind, Except.bind]
      · simp [hconsumed, bind, Except.bind]

/-- The parser takes for a request what is one up to the kind of its length lines. -/
theorem parse_command_ok_iff {raw : Bytes} {command : Command} :
    parseCommand raw = .ok command ↔
      ∃ lines, IsRequest IntLine lines raw (command.name :: command.args) := by
  rw [parse_command_ok]
  constructor
  · intro h
    obtain ⟨⟨message, hopen⟩, -⟩ | ⟨line, count, rest, hline, hpos, rfl⟩ :=
      parse_one_begins (not_refused_of_ok h)
    · rw [h] at hopen
      cases hopen
    · rw [parse_one_header hline hpos] at h
      obtain ⟨⟨parts, stop⟩, hparts, hdone⟩ := Except.exists_of_bind_ok h
      obtain ⟨lines, bulks, tail, hbulks, rfl, rfl, rfl⟩ := read_parts_split hparts
      obtain ⟨rfl, hlength⟩ := Prod.mk.inj (Except.ok.inj hdone)
      obtain rfl : tail = [] := by
        rw [header_eq "*" line (bulks ++ tail), List.length_append, List.length_append,
          List.length_append] at hlength
        exact List.length_eq_zero_iff.mp (by omega)
      cases parts with
      | nil => exact absurd hpos (Nat.lt_irrefl 0)
      | cons name args =>
          rw [List.append_nil]
          exact ⟨line :: lines, line, lines, bulks, hline, hpos, hbulks, rfl, rfl⟩
  · intro ⟨lines, h⟩
    have hone := parse_one_request h []
    rwa [List.append_nil] at hone

/-- A request, or bytes that break off within one, are not refused. -/
theorem parse_command_reading {lines : List Bytes} {raw : Bytes} (h : Reading IntLine lines raw)
    (message : String) : parseCommand raw ≠ .error (.protocol message) := by
  obtain ⟨line, others, count, rest, hline, hpos, hrest, rfl, rfl⟩ := h
  rw [parseCommand, parse_one_header hline hpos]
  obtain ⟨text, hopen⟩ | ⟨parts, hparts⟩ := read_parts_continues hrest (header "*" line [])
  · rw [hopen]
    intro h
    cases h
  · rw [hparts, ← header_eq]
    show (if (header "*" line rest).length ≠ (header "*" line rest).length then _ else _) ≠ _
    rw [if_neg (not_not.mpr rfl)]
    intro h
    cases h

/-- What the parser waits for breaks off before the end of the first line, or within a request. -/
theorem parse_command_open {raw : Bytes} {message : String}
    (h : parseCommand raw = .error (.incomplete message)) :
    (raw = [] ∨ ∃ line, findCrlf line = none ∧ raw = Bytes.ofText "*" ++ line) ∨
      ∃ lines, Reading IntLine lines raw := by
  obtain ⟨-, hfirst⟩ | ⟨line, count, rest, hline, hpos, rfl⟩ :=
    parse_one_begins (parse_one_not_refused (not_refused_of_open h))
  · exact .inl hfirst
  · refine .inr ?_
    rcases error_of_bind h with hone | ⟨⟨command, consumed⟩, -, hdone⟩
    · rw [parse_one_header hline hpos] at hone
      rcases error_of_bind hone with hparts | ⟨parts, -, hdone⟩
      · obtain ⟨lines, hlines⟩ := read_parts_open hparts
        exact ⟨line :: lines, line, lines, count, rest, hline, hpos, hlines, rfl, rfl⟩
      · cases hdone
    · simp only at hdone
      split at hdone
      · cases hdone
      · cases hdone

end RequestGrammar

end MiniRedis
