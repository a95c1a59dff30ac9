import MiniRedis.Protocol.Parser

/-!
# Verdicts of the parser under more data

A verdict other than "incomplete" looks at a prefix of the buffer only, so it stays the same
when bytes are appended (`parse_one_append`), and a parsed command takes at least one byte
and no more than there are (`parse_one_bounds`). Each function of the parser has its own pair
of lemmas, and the loop gets them by induction on the number of parts.
-/

namespace MiniRedis.RespParser

/-- The verdict does not ask for more data. -/
def Settled {α : Type} (verdict : Except ParseError α) : Prop :=
  ∀ message, verdict ≠ .error (.incomplete message)

theorem settled_ok {α : Type} (a : α) : Settled (.ok a : Except ParseError α) := by
  intro message h
  cases h

theorem settled_protocol {α : Type} (message : String) :
    Settled (.error (.protocol message) : Except ParseError α) := by
  intro other h
  cases h

theorem not_settled {α : Type} (message : String) :
    ¬ Settled (.error (.incomplete message) : Except ParseError α) :=
  fun h => h message rfl

/-- A sequence is settled if its first part is, and what follows it. -/
theorem settled_bind {α β : Type} {first : Except ParseError α} {next : α → Except ParseError β}
    (h : Settled (first >>= next)) :
    Settled first ∧ ∀ a, first = .ok a → Settled (next a) := by
  refine ⟨fun message hfirst => ?_, fun a hfirst => ?_⟩
  · rw [hfirst] at h
    exact h message rfl
  · rw [hfirst] at h
    exact h

/-- A line end that was found stays the first one. -/
theorem find_crlf_append {raw : Bytes} {offset : Nat} (h : findCrlf raw = some offset)
    (more : Bytes) : findCrlf (raw ++ more) = some offset ∧ offset + 2 ≤ raw.length := by
  fun_induction findCrlf raw generalizing offset with
  | case1 rest =>
      cases h
      exact ⟨rfl, by simp⟩
  | case2 byte rest hcrlf ih =>
      obtain ⟨inner, hinner, rfl⟩ := Option.map_eq_some_iff.mp h
      obtain ⟨hfind, hlength⟩ := ih hinner
      refine ⟨?_, by simp only [List.length_cons]; omega⟩
      rw [List.cons_append, findCrlf, hfind]
      · rfl
      · -- the byte after the first is the same in both buffers
        intro tail hbyte hrest
        cases rest with
        | nil => cases hinner
        | cons next rest =>
            rw [List.cons_append, List.cons.injEq] at hrest
            exact hcrlf rest hbyte (by rw [hrest.1])
  | case3 => cases h

/-- A slice within the buffer does not see what is appended. -/
theorem take_drop_append {raw : Bytes} {start count : Nat} (h : start + count ≤ raw.length)
    (more : Bytes) : ((raw ++ more).drop start).take count = (raw.drop start).take count := by
  rw [List.drop_append_of_le_length (by omega), List.take_append_of_le_length]
  rw [List.length_drop]
  omega

/-- A number line that was read, or refused, is read the same with more data. -/
theorem read_number_line_append {raw : Bytes} {start : Nat} {context : String}
    (hstart : start ≤ raw.length) (h : Settled (readNumberLine raw start context)) (more : Bytes) :
    readNumberLine (raw ++ more) start context = readNumberLine raw start context := by
  cases hfind : findCrlf (raw.drop start) with
  | none =>
      simp only [readNumberLine, hfind] at h
      exact absurd h (not_settled _)
  | some offset =>
      obtain ⟨happend, hlength⟩ := find_crlf_append hfind more
      rw [List.length_drop] at hlength
      have hdrop : (raw ++ more).drop start = raw.drop start ++ more :=
        List.drop_append_of_le_length hstart
      have htake : ((raw ++ more).drop start).take offset = (raw.drop start).take offset :=
        take_drop_append (by omega) more
      simp only [readNumberLine, hdrop, happend, hfind]
      rw [← hdrop, htake]

/-- A number line that was read ends within the buffer. -/
theorem read_number_line_bounds {raw : Bytes} {start : Nat} {context : String} {number : Int}
    {stop : Nat} (h : readNumberLine raw start context = .ok (number, stop)) :
    start < stop ∧ stop ≤ raw.length := by
  unfold readNumberLine at h
  cases hfind : findCrlf (raw.drop start) with
  | none =>
      rw [hfind] at h
      cases h
  | some offset =>
      have hlength := (find_crlf_append hfind []).2
      rw [List.length_drop] at hlength
      simp only [hfind] at h
      split at h
      · cases h
      · split at h
        · cases h
          omega
        · cases h

/-- Data that was read, or refused, is read the same with more data. -/
theorem read_bulk_data_append {raw : Bytes} {bulkLen : Int} {idx : Nat}
    (h : Settled (readBulkData raw bulkLen idx)) (more : Bytes) :
    readBulkData (raw ++ more) bulkLen idx = readBulkData raw bulkLen idx := by
  by_cases hsign : bulkLen < 0
  · rw [readBulkData, readBulkData, if_pos hsign, if_pos hsign]
  · by_cases hlength : raw.length < idx + bulkLen.toNat + 2
    · rw [readBulkData, if_neg hsign, if_pos hlength] at h
      exact absurd h (not_settled _)
    · have hlength' : ¬ (raw ++ more).length < idx + bulkLen.toNat + 2 := by
        rw [List.length_append]
        omega
      rw [readBulkData, readBulkData, if_neg hsign, if_neg hsign, if_neg hlength, if_neg hlength',
        take_drop_append (by omega), take_drop_append (by omega)]

/-- A bulk string that was read, or refused, is read the same with more data. -/
theorem read_bulk_append {raw : Bytes} {idx : Nat} (h : Settled (readBulk raw idx)) (more : Bytes) :
    readBulk (raw ++ more) idx = readBulk raw idx := by
  by_cases hidx : raw.length ≤ idx
  · rw [readBulk, if_pos hidx] at h
    exact absurd h (not_settled _)
  · have hidx' : ¬ (raw ++ more).length ≤ idx := by
      rw [List.length_append]
      omega
    rw [readBulk, if_neg hidx] at h
    rw [readBulk, readBulk, if_neg hidx, if_neg hidx', take_drop_append (by omega)]
    split at h
    · next hmark => rw [if_pos hmark, if_pos hmark]
    · next hmark =>
        rw [if_neg hmark, if_neg hmark]
        obtain ⟨hline, hdata⟩ := settled_bind h
        rw [read_number_line_append (by omega) hline]
        cases hread : readNumberLine raw (idx + 1) "bulk string length" with
        | error error => rfl
        | ok line => exact read_bulk_data_append (hdata line hread) more

/-- A bulk string that was read ends within the buffer. -/
theorem read_bulk_bounds {raw : Bytes} {idx : Nat} {part : String} {stop : Nat}
    (h : readBulk raw idx = .ok (part, stop)) : idx < stop ∧ stop ≤ raw.length := by
  unfold readBulk at h
  split at h
  · cases h
  · split at h
    · cases h
    · obtain ⟨⟨bulkLen, middle⟩, hread, hdata⟩ := Except.exists_of_bind_ok h
      obtain ⟨hstart, -⟩ := read_number_line_bounds hread
      simp only [readBulkData] at hdata
      split at hdata
      · cases hdata
      · split at hdata
        · cases hdata
        · split at hdata
          · cases hdata
          · split at hdata
            · cases hdata
              omega
            · cases hdata

/-- Parts that were read, or refused, are read the same with more data. -/
theorem read_parts_append {raw : Bytes} {count idx : Nat} (h : Settled (readParts raw count idx))
    (more : Bytes) : readParts (raw ++ more) count idx = readParts raw count idx := by
  induction count generalizing idx with
  | zero => rfl
  | succ count ih =>
      obtain ⟨hbulk, hrest⟩ := settled_bind h
      rw [readParts, readParts, read_bulk_append hbulk]
      cases hread : readBulk raw idx with
      | error error => rfl
      | ok bulk =>
          obtain ⟨hparts, -⟩ := settled_bind (hrest bulk hread)
          show (readParts (raw ++ more) count bulk.2 >>= _) = _
          rw [ih hparts]
          rfl

/-- Parts that were read end within the buffer, one byte at least for each. -/
theorem read_parts_bounds {raw : Bytes} {count idx : Nat} {parts : List String} {stop : Nat}
    (hidx : idx ≤ raw.length) (h : readParts raw count idx = .ok (parts, stop)) :
    idx ≤ stop ∧ stop ≤ raw.length ∧ parts.length = count := by
  induction count generalizing idx parts with
  | zero =>
      cases h
      exact ⟨Nat.le_refl _, hidx, rfl⟩
  | succ count ih =>
      obtain ⟨⟨part, middle⟩, hread, htail⟩ := Except.exists_of_bind_ok h
      obtain ⟨⟨others, last⟩, hrest, hdone⟩ := Except.exists_of_bind_ok htail
      obtain ⟨hstart, hmiddle⟩ := read_bulk_bounds hread
      cases hdone
      obtain ⟨hle, hlast, hlength⟩ := ih hmiddle hrest
      exact ⟨by omega, hlast, by rw [List.length_cons, hlength]⟩

/-- A verdict of `parse_one` that does not ask for more data stays with more data. -/
theorem parse_one_append {raw : Bytes} (h : Settled (parseOne raw)) (more : Bytes) :
    parseOne (raw ++ more) = parseOne raw := by
  by_cases hempty : raw = []
  · rw [parseOne, if_pos hempty] at h
    exact absurd h (not_settled _)
  · have hpos : 0 < raw.length := List.length_pos_iff.mpr hempty
    have hempty' : raw ++ more ≠ [] := by simp [hempty]
    have hmark : (raw ++ more).take 1 = raw.take 1 :=
      List.take_append_of_le_length (by omega)
    rw [parseOne, if_neg hempty] at h
    rw [parseOne, parseOne, if_neg hempty, if_neg hempty', hmark]
    split at h
    · next hstar => rw [if_pos hstar, if_pos hstar]
    · next hstar =>
        rw [if_neg hstar, if_neg hstar]
        obtain ⟨hline, harray⟩ := settled_bind h
        rw [read_number_line_append (by omega) hline]
        cases hread : readNumberLine raw 1 "array length" with
        | error error => rfl
        | ok line =>
            have hsettled := harray line hread
            change readArray (raw ++ more) line.1 line.2 = readArray raw line.1 line.2
            change Settled (readArray raw line.1 line.2) at hsettled
            unfold readArray at hsettled ⊢
            split
            · rfl
            · next hcount =>
                rw [if_neg hcount] at hsettled
                rw [read_parts_append (settled_bind hsettled).1]

/-- A command that was parsed takes at least one byte and no more than there are. -/
theorem parse_one_bounds {raw : Bytes} {command : Command} {consumed : Nat}
    (h : parseOne raw = .ok (command, consumed)) : 0 < consumed ∧ consumed ≤ raw.length := by
  unfold parseOne at h
  split at h
  · cases h
  · split at h
    · cases h
    · obtain ⟨⟨arrayCount, middle⟩, hread, harray⟩ := Except.exists_of_bind_ok h
      obtain ⟨hstart, hmiddle⟩ := read_number_line_bounds hread
      simp only [readArray] at harray
      split at harray
      · cases harray
      · obtain ⟨⟨parts, last⟩, hparts, hdone⟩ := Except.exists_of_bind_ok harray
        obtain ⟨hle, hlast, -⟩ := read_parts_bounds hmiddle hparts
        cases hdone
        omega

/-- A line end is found without what lies behind it. -/
theorem find_crlf_take {raw : Bytes} {offset : Nat} (h : findCrlf raw = some offset)
    {count : Nat} (hcount : offset + 2 ≤ count) : findCrlf (raw.take count) = some offset := by
  fun_induction findCrlf raw generalizing offset count with
  | case1 rest =>
      cases h
      obtain ⟨count, rfl⟩ := Nat.exists_eq_add_of_le hcount
      rw [Nat.add_comm]
      rfl
  | case2 byte rest hcrlf ih =>
      obtain ⟨inner, hinner, rfl⟩ := Option.map_eq_some_iff.mp h
      obtain ⟨count, rfl⟩ := Nat.exists_eq_add_of_le hcount
      rw [show inner + 1 + 2 + count = (inner + 2 + count) + 1 by omega, List.take_succ_cons,
        findCrlf, ih hinner (by omega)]
      · rfl
      · intro tail hbyte hrest
        cases rest with
        | nil => cases hinner
        | cons next rest =>
            rw [show inner + 2 + count = (inner + 1 + count) + 1 by omega, List.take_succ_cons,
              List.cons.injEq] at hrest
            exact hcrlf rest hbyte (by rw [hrest.1])
  | case3 => cases h

/-- A slice that ends before a cut does not see the cut. -/
theorem take_drop_take {raw : Bytes} {start count stop : Nat} (h : start + count ≤ stop) :
    ((raw.take stop).drop start).take count = (raw.drop start).take count := by
  rw [List.drop_take, List.take_take, Nat.min_eq_left (by omega)]

/-- A number line that was read is read without what lies behind it. -/
theorem read_number_line_take {raw : Bytes} {start : Nat} {context : String} {number : Int}
    {stop : Nat} (h : readNumberLine raw start context = .ok (number, stop)) {count : Nat}
    (hcount : stop ≤ count) :
    readNumberLine (raw.take count) start context = .ok (number, stop) := by
  obtain ⟨hstart, -⟩ := read_number_line_bounds h
  unfold readNumberLine at h ⊢
  cases hfind : findCrlf (raw.drop start) with
  | none =>
      rw [hfind] at h
      cases h
  | some offset =>
      have hstop : stop = start + offset + 2 := by
        simp only [hfind] at h
        split at h
        · cases h
        · split at h
          · cases h
            rfl
          · cases h
      have htake : findCrlf ((raw.take count).drop start) = some offset := by
        rw [List.drop_take]
        exact find_crlf_take hfind (by omega)
      simp only [hfind] at h
      simp only [htake, take_drop_take (by omega : start + offset ≤ count)]
      exact h

/-- A bulk string that was read is read without what lies behind it. -/
theorem read_bulk_take {raw : Bytes} {idx : Nat} {part : String} {stop : Nat}
    (h : readBulk raw idx = .ok (part, stop)) {count : Nat} (hcount : stop ≤ count) :
    readBulk (raw.take count) idx = .ok (part, stop) := by
  obtain ⟨hidx, hstop⟩ := read_bulk_bounds h
  have hlength : stop ≤ (raw.take count).length := by
    rw [List.length_take]
    omega
  unfold readBulk at h ⊢
  rw [if_neg (by omega), take_drop_take (by omega)]
  rw [if_neg (by omega)] at h
  split at h
  · cases h
  · next hmark =>
      rw [if_neg hmark]
      obtain ⟨⟨bulkLen, middle⟩, hread, hdata⟩ := Except.exists_of_bind_ok h
      simp only [readBulkData] at hdata
      split at hdata
      · cases hdata
      · next hsign =>
          split at hdata
          · cases hdata
          · split at hdata
            · cases hdata
            · next hcrlf =>
                -- the data ends at `stop`, which is within the bytes that are left
                have hend : middle + bulkLen.toNat + 2 = stop := by
                  split at hdata
                  · cases hdata
                    rfl
                  · cases hdata
                rw [read_number_line_take hread (by omega)]
                change readBulkData (raw.take count) bulkLen middle = .ok (part, stop)
                rw [readBulkData, if_neg hsign, if_neg (by omega), take_drop_take (by omega),
                  take_drop_take (by omega), if_neg hcrlf]
                exact hdata

/-- Parts that were read are read without what lies behind them. -/
theorem read_parts_take {raw : Bytes} {parts idx : Nat} {texts : List String} {stop : Nat}
    (hidx : idx ≤ raw.length) (h : readParts raw parts idx = .ok (texts, stop)) {count : Nat}
    (hcount : stop ≤ count) : readParts (raw.take count) parts idx = .ok (texts, stop) := by
  induction parts generalizing idx texts with
  | zero => exact h
  | succ parts ih =>
      obtain ⟨⟨part, middle⟩, hread, htail⟩ := Except.exists_of_bind_ok h
      obtain ⟨⟨others, last⟩, hrest, hdone⟩ := Except.exists_of_bind_ok htail
      obtain ⟨-, hmiddle⟩ := read_bulk_bounds hread
      cases hdone
      obtain ⟨hle, -, -⟩ := read_parts_bounds hmiddle hrest
      rw [readParts, read_bulk_take hread (by omega)]
      show (readParts (raw.take count) parts middle >>= _) = _
      rw [ih hmiddle hrest]
      rfl

/-- A command that was parsed is parsed without what lies behind it. -/
theorem parse_one_take {raw : Bytes} {command : Command} {consumed : Nat}
    (h : parseOne raw = .ok (command, consumed)) :
    parseOne (raw.take consumed) = .ok (command, consumed) := by
  obtain ⟨hpos, hlength⟩ := parse_one_bounds h
  have hempty : raw.take consumed ≠ [] := by
    rw [← List.length_pos_iff, List.length_take]
    omega
  unfold parseOne at h ⊢
  rw [if_neg hempty, List.take_take, Nat.min_eq_left (by omega)]
  split at h
  · cases h
  · split at h
    · cases h
    · next hmark =>
        rw [if_neg hmark]
        obtain ⟨⟨arrayCount, middle⟩, hread, harray⟩ := Except.exists_of_bind_ok h
        obtain ⟨-, hmiddle⟩ := read_number_line_bounds hread
        simp only [readArray] at harray
        split at harray
        · cases harray
        · next hcount =>
            obtain ⟨⟨parts, last⟩, hparts, hdone⟩ := Except.exists_of_bind_ok harray
            cases hdone
            obtain ⟨hle, -, -⟩ := read_parts_bounds hmiddle hparts
            rw [read_number_line_take hread hle]
            change readArray (raw.take _) arrayCount middle = _
            rw [readArray, if_neg hcount, read_parts_take hmiddle hparts (Nat.le_refl _)]
            rfl

/-- The texts of `RespProtocolError`. -/
def protocolMessages : List String :=
  ["expected RESP array", "empty array length", "invalid array length",
    "array length must be greater than zero", "expected bulk string",
    "empty bulk string length", "invalid bulk string length",
    "null bulk string is not allowed in request", "missing CRLF after bulk string data",
    "request contains invalid UTF-8"]

/-- A sequence that fails has a first part that fails or a part behind it that does. -/
theorem error_of_bind {α β : Type} {first : Except ParseError α} {next : α → Except ParseError β}
    {error : ParseError} (h : (first >>= next) = .error error) :
    first = .error error ∨ ∃ a, first = .ok a ∧ next a = .error error := by
  cases first with
  | error other =>
      cases h
      exact .inl rfl
  | ok a => exact .inr ⟨a, rfl, h⟩

/-- A number line is refused as empty or as invalid. -/
theorem read_number_line_message {raw : Bytes} {start : Nat} {context message : String}
    (h : readNumberLine raw start context = .error (.protocol message)) :
    message = s!"empty {context}" ∨ message = s!"invalid {context}" := by
  unfold readNumberLine at h
  split at h
  · cases h
  · simp only at h
    split at h
    · cases h
      exact .inl rfl
    · split at h
      · cases h
      · cases h
        exact .inr rfl

theorem read_bulk_message {raw : Bytes} {idx : Nat} {message : String}
    (h : readBulk raw idx = .error (.protocol message)) : message ∈ protocolMessages := by
  unfold readBulk at h
  split at h
  · cases h
  · split at h
    · cases h
      decide
    · rcases error_of_bind h with hline | ⟨⟨bulkLen, middle⟩, -, hdata⟩
      · rcases read_number_line_message hline with rfl | rfl <;> decide
      · simp only [readBulkData] at hdata
        split at hdata
        · cases hdata
          decide
        · split at hdata
          · cases hdata
          · split at hdata
            · cases hdata
              decide
            · split at hdata
              · cases hdata
              · cases hdata
                decide

theorem read_parts_message {raw : Bytes} {count idx : Nat} {message : String}
    (h : readParts raw count idx = .error (.protocol message)) : message ∈ protocolMessages := by
  induction count generalizing idx with
  | zero => cases h
  | succ count ih =>
      rcases error_of_bind h with hbulk | ⟨⟨part, middle⟩, -, htail⟩
      · exact read_bulk_message hbulk
      · rcases error_of_bind htail with hparts | ⟨rest, -, hdone⟩
        · exact ih hparts
        · cases hdone

/-- A malformed request is refused with one of the ten texts. -/
theorem parse_one_message {raw : Bytes} {message : String}
    (h : parseOne raw = .error (.protocol message)) : message ∈ protocolMessages := by
  unfold parseOne at h
  split at h
  · cases h
  · split at h
    · cases h
      decide
    · rcases error_of_bind h with hline | ⟨⟨arrayCount, middle⟩, -, harray⟩
      · rcases read_number_line_message hline with rfl | rfl <;> decide
      · simp only [readArray] at harray
        split at harray
        · cases harray
          decide
        · rcases error_of_bind harray with hparts | ⟨rest, -, hdone⟩
          · exact read_parts_message hparts
          · cases hdone

end MiniRedis.RespParser
