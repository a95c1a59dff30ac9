import MiniRedis.Protocol.Encoder
import MiniRedis.Protocol.Grammar

/-!
# Requests survive encoding

What the demo client encodes is a request of the grammar (`encode_command_request`), so the parser
reads it back, whatever stands behind it (`parse_one_encode_command`).
-/

namespace MiniRedis

namespace DemoClient

open RequestGrammar

/-- A length in decimal is a length line. -/
theorem length_line {n : Nat} {text : String} (h : PyText.intText n = .ok text) :
    DigitLine (Bytes.ofText text) n := by
  obtain ⟨rfl, hlength⟩ := PyText.int_text_natCast h
  exact ⟨Nat.toDigits 10 n, Nat.toDigits_ne_nil, hlength,
    fun c hc => PyText.is_digit_of_mem_digits hc, rfl, Nat.ofDigitChars_ten_toDigits⟩

/-- An encoded part is a bulk string. -/
theorem encode_part_bulk {part : String} {encoded : Bytes} (h : encodePart part = .ok encoded) :
    ∃ line, DigitLine line (Bytes.ofText part).length ∧ encoded = bulk line part [] := by
  obtain ⟨length, hlength, hdone⟩ := Except.exists_of_bind_ok h
  cases hdone
  refine ⟨Bytes.ofText length, length_line hlength, ?_⟩
  simp only [bulk, header, List.append_assoc, List.append_nil]

/-- The encoded parts are bulk strings one after the other. -/
theorem encode_parts_bulks {parts : List String} {encoded : Bytes}
    (h : encodeParts parts = .ok encoded) : ∃ lines, Bulks DigitLine lines encoded parts := by
  induction parts generalizing encoded with
  | nil =>
      cases h
      exact ⟨[], .nil⟩
  | cons part rest ih =>
      obtain ⟨first, hfirst, hothers⟩ := Except.exists_of_bind_ok h
      obtain ⟨others, hrest, hdone⟩ := Except.exists_of_bind_ok hothers
      cases hdone
      obtain ⟨line, hline, rfl⟩ := encode_part_bulk hfirst
      obtain ⟨lines, hlines⟩ := ih hrest
      refine ⟨line :: lines, ?_⟩
      rw [← bulk_eq]
      exact .cons hline hlines

/-- What the demo client encodes is a request. -/
theorem encode_command_request {parts : List String} (hparts : parts ≠ []) {encoded : Bytes}
    (h : encodeCommand parts = .ok encoded) : ∃ lines, IsRequest DigitLine lines encoded parts := by
  obtain ⟨count, hcount, hchunks⟩ := Except.exists_of_bind_ok h
  obtain ⟨chunks, hencoded, hdone⟩ := Except.exists_of_bind_ok hchunks
  cases hdone
  obtain ⟨lines, hlines⟩ := encode_parts_bulks hencoded
  refine ⟨_, Bytes.ofText count, lines, chunks, length_line hcount,
    List.length_pos_iff.mpr hparts, hlines, rfl, ?_⟩
  simp only [header, List.append_assoc]

end DemoClient

/-- A request is read back from its encoding, whatever stands behind it. -/
theorem RespParser.parse_one_encode_command {name : String} {args : List String} {encoded : Bytes}
    (h : DemoClient.encodeCommand (name :: args) = .ok encoded) (tail : Bytes) :
    parseOne (encoded ++ tail) = .ok (⟨name, args⟩, encoded.length) := by
  obtain ⟨lines, hrequest⟩ := DemoClient.encode_command_request (List.cons_ne_nil name args) h
  exact RequestGrammar.parse_one_request hrequest.int_lines tail

/-- A command with the bytes that `encode_command` sends for it. -/
structure Request where
  command : Command
  encoding : Bytes
  encodes : DemoClient.encodeCommand (command.name :: command.args) = .ok encoding

namespace Request

/-- A request is read back from the stream, whatever follows it. -/
theorem parse_encoding (request : Request) (tail : Bytes) :
    RespParser.parseOne (request.encoding ++ tail) =
      .ok (request.command, request.encoding.length) :=
  RespParser.parse_one_encode_command request.encodes tail

end Request

end MiniRedis
