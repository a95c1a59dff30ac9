import MiniRedis.Protocol.Lenient
import MiniRedis.Protocol.RoundTrip

/-!
# Reading replies

The client's side of a connection: `recv_resp` after `scripts/benchmark.py`. However the socket cuts
the stream, a reply is read off its front byte for byte (`recv_resp_encoded`), so that replies are
read one by one and determine their bytes and are determined by them (`replies_decodable`).
-/

namespace MiniRedis

namespace PyText

/-- A byte in the `repr` of a `bytes` object, between quotes of a kind. -/
def byteRepr (quote byte : UInt8) : String :=
  if byte = quote ∨ byte = 92 then String.ofList ['\\', Char.ofNat byte.toNat]
  else if byte = 9 then "\\t"
  else if byte = 10 then "\\n"
  else if byte = 13 then "\\r"
  else if 32 ≤ byte ∧ byte < 127 then String.singleton (Char.ofNat byte.toNat)
  else "\\x" ++ String.ofList [Nat.digitChar (byte.toNat / 16), Nat.digitChar (byte.toNat % 16)]

/-- `repr` of a `bytes` object. -/
def bytesRepr (raw : Bytes) : String :=
  let quote : UInt8 := if 39 ∈ raw ∧ 34 ∉ raw then 34 else 39
  let mark := String.singleton (Char.ofNat quote.toNat)
  "b" ++ mark ++ String.join (raw.map (byteRepr quote)) ++ mark

end PyText

namespace Benchmark

/-- A socket: the pieces in which the stream will be received. -/
abbrev Socket : Type := List Bytes

/-- `sock.recv(size)`: what is there of the next piece, up to `size` bytes; nothing at the end of
the stream. -/
def recv (size : Nat) : Socket → Bytes × Socket
  | [] => ([], [])
  | [] :: rest => recv size rest
  | (byte :: piece) :: rest => ((byte :: piece).take size, (byte :: piece).drop size :: rest)

/-- What is received comes off the front of the stream, and there is some of it unless the stream
has ended. -/
theorem recv_spec {size : Nat} (hpos : 0 < size) (sock : Socket) :
    (recv size sock).1 ++ (recv size sock).2.flatten = sock.flatten ∧
      (recv size sock).1.length ≤ size ∧ ((recv size sock).1 = [] → sock.flatten = []) := by
  fun_induction recv size sock with
  | case1 => exact ⟨rfl, Nat.zero_le _, fun _ => rfl⟩
  | case2 rest ih => exact ih
  | case3 byte piece rest =>
      refine ⟨?_, List.length_take_le _ _, fun hnone => ?_⟩
      · rw [List.flatten_cons, ← List.append_assoc, List.take_append_drop, List.flatten_cons]
      · obtain ⟨size, rfl⟩ := Nat.exists_eq_succ_of_ne_zero (Nat.pos_iff_ne_zero.mp hpos)
        cases hnone

/-- The loop of `_recv_exact`. A `ConnectionError` is an `OSError`. -/
def recvExactLoop (remaining : Nat) (chunks : List Bytes) (sock : Socket) :
    Except PyError Bytes × Socket :=
  if remaining = 0 then (.ok chunks.flatten, sock)
  else
    match recv remaining sock with
    | (chunk, after) =>
        if _hchunk : chunk = [] then (.error .osError, after)
        else recvExactLoop (remaining - chunk.length) (chunks ++ [chunk]) after
termination_by remaining
decreasing_by
  have hlength := List.length_pos_iff.mpr _hchunk
  omega

/-- `_recv_exact`. -/
def recvExact (size : Nat) : Py Socket Bytes := recvExactLoop size []

/-- The last two chunks are a carriage return and a line feed. -/
def endsLine (chunks : List Bytes) : Bool :=
  match chunks.reverse with
  | last :: before :: _ => before = [13] && last = [10]
  | _ => false

/-- The loop of `_recv_until_crlf`. -/
def recvUntilCrlfLoop (chunks : List Bytes) (sock : Socket) : Except PyError Bytes × Socket :=
  match _hrecv : recv 1 sock with
  | (chunk, after) =>
      if _hchunk : chunk = [] then (.error .osError, after)
      else if endsLine (chunks ++ [chunk]) then (.ok (chunks ++ [chunk]).flatten, after)
      else recvUntilCrlfLoop (chunks ++ [chunk]) after
termination_by sock.flatten.length
decreasing_by
  obtain ⟨hflatten, -, -⟩ := recv_spec Nat.one_pos sock
  have hlength := List.length_pos_iff.mpr _hchunk
  rw [_hrecv] at hflatten
  change chunk ++ after.flatten = sock.flatten at hflatten
  rw [← hflatten, List.length_append]
  omega

/-- `_recv_until_crlf`. -/
def recvUntilCrlf : Py Socket Bytes := recvUntilCrlfLoop []

/-- `int(raw.decode("ascii"))`. A `UnicodeDecodeError` is a `ValueError`. -/
def intOfAscii (raw : Bytes) : Except PyError Int :=
  match Bytes.toAscii? raw with
  | none => .error (.valueError "'ascii' codec can't decode byte")
  | some text =>
      match PyText.parseInt text with
      | none => .error (.valueError s!"invalid literal for int() with base 10: '{text}'")
      | some n => .ok n

/-- `recv_resp`. -/
def recvResp : Py Socket Bytes := do
  let first ← recvExact 1
  if first ∈ [Bytes.ofText "+", Bytes.ofText "-", Bytes.ofText ":"] then do
    let line ← recvUntilCrlf
    return first ++ line
  else if first = Bytes.ofText "$" then do
    let lengthLine ← recvUntilCrlf
    let payload := first ++ lengthLine
    let length ← Py.ofExcept (intOfAscii (lengthLine.take (lengthLine.length - 2)))
    if length = -1 then return payload
    else do
      let data ← recvExact (length + 2).toNat
      return payload ++ data
  else Py.raise (.valueError s!"unsupported RESP response prefix: {PyText.bytesRepr first}")

/-- `recv_resp`, a number of times. -/
def recvReplies : Nat → Py Socket (List Bytes)
  | 0 => pure []
  | count + 1 => do
      let reply ← recvResp
      let replies ← recvReplies count
      return reply :: replies

/-- The next chunk of at most some size is the beginning of the stream. -/
theorem recv_front {size : Nat} (hpos : 0 < size) (sock : Socket) (hsock : sock.flatten ≠ []) :
    ∃ chunk after, recv size sock = (chunk, after) ∧ chunk ≠ [] ∧ chunk.length ≤ size ∧
      sock.flatten = chunk ++ after.flatten := by
  obtain ⟨hflatten, hlength, hnone⟩ := recv_spec hpos sock
  exact ⟨_, _, rfl, fun h => hsock (hnone h), hlength, hflatten.symm⟩

theorem recv_exact_loop_spec (remaining : Nat) (chunks : List Bytes) (sock : Socket)
    {data rest : Bytes} (hdata : sock.flatten = data ++ rest) (hlength : data.length = remaining) :
    ∃ after, recvExactLoop remaining chunks sock = (.ok (chunks.flatten ++ data), after) ∧
      after.flatten = rest := by
  induction remaining using Nat.strongRecOn generalizing chunks sock data with
  | ind remaining ih =>
      by_cases hzero : remaining = 0
      · obtain rfl : data = [] := List.length_eq_zero_iff.mp (by omega)
        rw [recvExactLoop, if_pos hzero, List.append_nil]
        exact ⟨sock, rfl, hdata⟩
      · have hsock : sock.flatten ≠ [] := by
          rw [hdata, ← List.length_pos_iff, List.length_append]
          omega
        obtain ⟨chunk, after, hrecv, hchunk, hle, hfront⟩ :=
          recv_front (Nat.pos_of_ne_zero hzero) sock hsock
        -- the chunk is a part of the data
        obtain ⟨more, rfl⟩ : chunk <+: data :=
          List.prefix_of_prefix_length_le ⟨after.flatten, hfront.symm⟩ ⟨rest, hdata.symm⟩ (by omega)
        have hafter : after.flatten = more ++ rest := by
          rw [hfront, List.append_assoc] at hdata
          exact List.append_cancel_left hdata
        have hpositive := List.length_pos_iff.mpr hchunk
        rw [List.length_append] at hlength
        obtain ⟨last, hrun, hlast⟩ := ih (remaining - chunk.length) (by omega) (chunks ++ [chunk])
          after hafter (by omega)
        refine ⟨last, ?_, hlast⟩
        rw [recvExactLoop, if_neg hzero, hrecv]
        simp only [hchunk, dite_false]
        rw [hrun, List.flatten_append, List.flatten_singleton, List.append_assoc]

/-- As many bytes as are asked for come off the front of the stream. -/
theorem recv_exact_spec {size : Nat} {sock : Socket} {data rest : Bytes}
    (hdata : sock.flatten = data ++ rest) (hlength : data.length = size) :
    ∃ after, recvExact size sock = (.ok data, after) ∧ after.flatten = rest := by
  obtain ⟨after, hrun, hafter⟩ := recv_exact_loop_spec size [] sock hdata hlength
  exact ⟨after, hrun, hafter⟩

/-- Chunks of one byte end a line if the bytes do. -/
theorem ends_line_iff (received : Bytes) :
    endsLine (received.map fun byte => [byte]) = true ↔ ∃ line, received = line ++ Bytes.crlf := by
  have hcrlf : ∀ line : Bytes, (line ++ Bytes.crlf).reverse = 10 :: 13 :: line.reverse := fun line =>
    List.reverse_append
  rw [endsLine, ← List.map_reverse]
  constructor
  · intro h
    match hreverse : received.reverse with
    | [] =>
        rw [hreverse] at h
        cases h
    | [last] =>
        rw [hreverse] at h
        cases h
    | last :: before :: front =>
        rw [hreverse] at h
        simp only [List.map_cons, Bool.and_eq_true, decide_eq_true_eq, List.cons.injEq,
          and_true] at h
        obtain ⟨rfl, rfl⟩ := h
        refine ⟨front.reverse, List.reverse_inj.mp ?_⟩
        rw [hcrlf, hreverse, List.reverse_reverse]
  · rintro ⟨line, rfl⟩
    rw [hcrlf]
    rfl

/-- The first line end is not behind another one. -/
theorem find_crlf_le {first rest : Bytes} {offset : Nat}
    (h : RespParser.findCrlf (first ++ (Bytes.crlf ++ rest)) = some offset) :
    offset ≤ first.length := by
  induction first generalizing offset with
  | nil =>
      cases h
      exact Nat.le_refl 0
  | cons byte first ih =>
      rw [List.cons_append, RespParser.findCrlf.eq_def] at h
      split at h
      · cases h
        exact Nat.zero_le _
      · next hcons =>
          obtain ⟨rfl, rfl⟩ := List.cons.inj hcons
          obtain ⟨inner, hinner, rfl⟩ := Option.map_eq_some_iff.mp h
          exact Nat.succ_le_succ (ih hinner)
      · next hnil => cases hnil

/-- Bytes that end a line are not received before the first line end. -/
theorem ends_line_first {line received rest : Bytes} (hline : RespParser.findCrlf line = none)
    (h : received ++ rest = line ++ Bytes.crlf) (hends : ∃ first, received = first ++ Bytes.crlf) :
    rest = [] := by
  obtain ⟨first, rfl⟩ := hends
  have hfind := RespParser.find_crlf_behind hline []
  rw [List.append_nil, ← h, List.append_assoc] at hfind
  have hle := find_crlf_le hfind
  have hlength := congrArg List.length h
  simp only [List.length_append] at hlength
  exact List.length_eq_zero_iff.mp (by omega)

theorem recv_until_crlf_loop_spec (received : Bytes) {line todo rest : Bytes}
    (hline : RespParser.findCrlf line = none) (hreceived : received ++ todo = line ++ Bytes.crlf)
    (htodo : todo ≠ []) (sock : Socket) (hsock : sock.flatten = todo ++ rest) :
    ∃ after, recvUntilCrlfLoop (received.map fun byte => [byte]) sock =
      (.ok (line ++ Bytes.crlf), after) ∧ after.flatten = rest := by
  induction todo generalizing received sock with
  | nil => exact absurd rfl htodo
  | cons byte todo ih =>
      obtain ⟨chunk, after, hrecv, hchunk, hle, hfront⟩ :=
        recv_front Nat.one_pos sock (hsock ▸ List.cons_ne_nil _ _)
      -- one byte is asked for, so the chunk is the next byte of the stream
      obtain ⟨rfl, hafter⟩ : chunk = [byte] ∧ after.flatten = todo ++ rest := by
        have hlength : chunk.length = [byte].length := by
          have hpositive := List.length_pos_iff.mpr hchunk
          rw [List.length_singleton]
          omega
        exact List.append_inj (hfront.symm.trans hsock) hlength
      have hmap : (received.map fun byte => [byte]) ++ [[byte]] =
          (received ++ [byte]).map fun byte => [byte] := by
        rw [List.map_append, List.map_singleton]
      have hnext : (received ++ [byte]) ++ todo = line ++ Bytes.crlf := by
        rw [← hreceived, List.append_assoc, List.singleton_append]
      rw [recvUntilCrlfLoop, hrecv]
      simp only [hchunk, dite_false, hmap]
      by_cases hends : endsLine ((received ++ [byte]).map fun byte => [byte]) = true
      · obtain rfl := ends_line_first hline hnext ((ends_line_iff _).mp hends)
        rw [if_pos hends, ← hnext, List.append_nil, ← List.flatMap_def, List.flatMap_singleton']
        exact ⟨after, rfl, hafter⟩
      · have hmore : todo ≠ [] := by
          rintro rfl
          rw [List.append_nil] at hnext
          exact hends ((ends_line_iff _).mpr ⟨line, hnext⟩)
        rw [if_neg hends]
        exact ih (received ++ [byte]) hnext hmore after hafter

/-- A line comes off the front of the stream up to its end. -/
theorem recv_until_crlf_spec (sock : Socket) {line rest : Bytes}
    (hline : RespParser.findCrlf line = none)
    (hsock : sock.flatten = line ++ (Bytes.crlf ++ rest)) :
    ∃ after, recvUntilCrlf sock = (.ok (line ++ Bytes.crlf), after) ∧ after.flatten = rest := by
  have htodo : line ++ Bytes.crlf ≠ [] := by simp [Bytes.crlf]
  rw [← List.append_assoc] at hsock
  exact recv_until_crlf_loop_spec [] hline rfl htodo sock hsock

/-- The line of a reply behind its mark, and the body behind the line. -/
inductive Frame : Response → Bytes → Bytes → Prop where
  | simpleString {value} (hvalue : ∀ byte ∈ Bytes.ofText value, byte ≠ 13) :
      Frame (.simpleString value) (Bytes.ofText value) []
  | error {message} (hmessage : ∀ byte ∈ Bytes.ofText message, byte ≠ 13) :
      Frame (.error message) (Bytes.ofText message) []
  | integer {n text} (htext : PyText.intText n = .ok text) :
      Frame (.integer n) (Bytes.ofText text) []
  | bulkString {value text} (htext : PyText.intText (Bytes.ofText value).length = .ok text) :
      Frame (.bulkString value) (Bytes.ofText text) (Bytes.ofText value ++ Bytes.crlf)
  | nullBulkString : Frame .nullBulkString (Bytes.ofText "-1") []

/-- The mark of a reply. -/
def mark : Response → String
  | .simpleString _ => "+"
  | .error _ => "-"
  | .integer _ => ":"
  | .bulkString _ => "$"
  | .nullBulkString => "$"

theorem mark_length (response : Response) : (Bytes.ofText (mark response)).length = 1 := by
  have hmarks : ∀ mark ∈ ["+", "-", ":", "$"], (Bytes.ofText mark).length = 1 := by decide
  cases response <;> exact hmarks _ (by simp [mark])

/-- A reply is encoded as its mark, its line and its body. -/
theorem encode_frame {response : Response} {encoding : Bytes}
    (h : RespEncoder.encode response = .ok encoding) :
    ∃ line body, Frame response line body ∧
      encoding = RequestGrammar.header (mark response) line body := by
  have hline : ∀ {value typeName : String}, RespEncoder.validateNoCrlf value typeName = .ok () →
      ∀ byte ∈ Bytes.ofText value, byte ≠ 13 := by
    rintro value typeName hvalid byte hmem rfl
    have hcr : '\r' ∈ value.toList := Bytes.mem_of_text_ascii hmem (by decide)
    rw [RespEncoder.validateNoCrlf, if_pos (.inl hcr)] at hvalid
    cases hvalid
  cases response with
  | simpleString value =>
      obtain ⟨⟨⟩, hvalid, hdone⟩ := Except.exists_of_bind_ok h
      cases hdone
      refine ⟨_, _, .simpleString (hline hvalid), ?_⟩
      simp only [mark, RequestGrammar.header, List.append_assoc, List.append_nil]
  | error message =>
      obtain ⟨⟨⟩, hvalid, hdone⟩ := Except.exists_of_bind_ok h
      cases hdone
      refine ⟨_, _, .error (hline hvalid), ?_⟩
      simp only [mark, RequestGrammar.header, List.append_assoc, List.append_nil]
  | integer n =>
      obtain ⟨text, htext, hdone⟩ := Except.exists_of_bind_ok h
      cases hdone
      refine ⟨_, _, .integer htext, ?_⟩
      simp only [mark, RequestGrammar.header, List.append_assoc, List.append_nil]
  | bulkString value =>
      obtain ⟨text, htext, hdone⟩ := Except.exists_of_bind_ok h
      cases hdone
      refine ⟨_, _, .bulkString htext, ?_⟩
      simp only [mark, RequestGrammar.header, List.append_assoc]
  | nullBulkString =>
      cases h
      exact ⟨_, _, .nullBulkString, by decide⟩

/-- The line of a reply has no carriage return. -/
theorem Frame.line {response : Response} {line body : Bytes} (h : Frame response line body) :
    RespParser.findCrlf line = none := by
  have hint : ∀ {n text}, PyText.intText n = .ok text →
      ∀ byte ∈ Bytes.ofText text, byte ≠ 13 := by
    rintro n text htext byte hmem rfl
    have hcr := Bytes.mem_of_text_ascii hmem (by decide)
    exact PyText.not_mem_int_text htext (by decide) (by decide) hcr
  cases h with
  | simpleString hvalue => exact RespParser.find_crlf_none hvalue
  | error hmessage => exact RespParser.find_crlf_none hmessage
  | integer htext => exact RespParser.find_crlf_none (hint htext)
  | bulkString htext => exact RespParser.find_crlf_none (hint htext)
  | nullBulkString => decide

theorem of_text_injective {text text' : String} (h : Bytes.ofText text = Bytes.ofText text') :
    text = text' := by
  have hdecode := Bytes.to_text_of_text text
  rw [h, Bytes.to_text_of_text] at hdecode
  exact (Option.some.inj hdecode).symm

/-- The length of a value is not written as that of the null bulk string. -/
theorem length_text_ne {n : Nat} {text : String} (h : PyText.intText n = .ok text) :
    Bytes.ofText text ≠ Bytes.ofText "-1" := by
  intro hsame
  obtain rfl := of_text_injective hsame
  have hminus : PyText.intText (-1) = .ok "-1" := by decide
  have hint := PyText.int_text_injective h hminus
  omega

/-- A mark, a line and a body are those of one reply. -/
theorem Frame.injective {first second : Response} {line line' body body' : Bytes}
    (h : Frame first line body) (h' : Frame second line' body')
    (hmark : mark first = mark second) (hline : line = line') (hbody : body = body') :
    first = second := by
  cases h with
  | simpleString =>
      cases h' with
      | simpleString => rw [of_text_injective hline]
      | _ => simp [mark] at hmark
  | error =>
      cases h' with
      | error => rw [of_text_injective hline]
      | _ => simp [mark] at hmark
  | integer htext =>
      cases h' with
      | integer htext' =>
          rw [← of_text_injective hline] at htext'
          rw [PyText.int_text_injective htext htext']
      | _ => simp [mark] at hmark
  | bulkString htext =>
      cases h' with
      | bulkString => rw [of_text_injective (List.append_cancel_right hbody)]
      | nullBulkString => exact absurd hline (length_text_ne htext)
      | _ => simp [mark] at hmark
  | nullBulkString =>
      cases h' with
      | nullBulkString => rfl
      | bulkString htext => exact absurd hline.symm (length_text_ne htext)
      | _ => simp [mark] at hmark

/-- The mark and the line come off the front of the stream. -/
theorem recv_header {mark : String} (hmark : (Bytes.ofText mark).length = 1)
    {line body rest : Bytes}
    (hline : RespParser.findCrlf line = none) {sock : Socket}
    (hsock : sock.flatten = RequestGrammar.header mark line body ++ rest) :
    ∃ middle after, recvExact 1 sock = (.ok (Bytes.ofText mark), middle) ∧
      recvUntilCrlf middle = (.ok (line ++ Bytes.crlf), after) ∧ after.flatten = body ++ rest := by
  rw [RequestGrammar.header, List.append_assoc] at hsock
  obtain ⟨middle, hfirst, hmiddle⟩ := recv_exact_spec hsock hmark
  rw [List.append_assoc, List.append_assoc] at hmiddle
  obtain ⟨after, hread, hafter⟩ := recv_until_crlf_spec middle hline hmiddle
  exact ⟨middle, after, hfirst, hread, hafter⟩

/-- A reply that is one line comes off the front of the stream. -/
theorem recv_resp_line (mark : String) (hmark : mark ∈ ["+", "-", ":"]) {line rest : Bytes}
    (hline : RespParser.findCrlf line = none) {sock : Socket}
    (hsock : sock.flatten = RequestGrammar.header mark line [] ++ rest) :
    ∃ after, recvResp sock = (.ok (RequestGrammar.header mark line []), after) ∧
      after.flatten = rest := by
  have hmarks : ∀ mark ∈ ["+", "-", ":"], (Bytes.ofText mark).length = 1 ∧
      Bytes.ofText mark ∈ [Bytes.ofText "+", Bytes.ofText "-", Bytes.ofText ":"] := by decide
  obtain ⟨hlength, hmem⟩ := hmarks mark hmark
  obtain ⟨middle, after, hfirst, hread, hafter⟩ := recv_header hlength hline hsock
  refine ⟨after, ?_, hafter⟩
  rw [recvResp, Py.bind_ok hfirst, if_pos hmem, Py.bind_ok hread]
  rfl

/-- After a length line the reader takes the data that it announces. -/
theorem recv_resp_length {line body rest : Bytes} {length : Int}
    (hline : RespParser.findCrlf line = none)
    (hlength : (Bytes.toAscii? line).bind PyText.parseInt = some length) {sock : Socket}
    (hsock : sock.flatten = RequestGrammar.header "$" line body ++ rest) :
    ∃ after, after.flatten = body ++ rest ∧ recvResp sock =
      (if length = -1 then return RequestGrammar.header "$" line []
      else do
        let data ← recvExact (length + 2).toNat
        return RequestGrammar.header "$" line [] ++ data : Py Socket Bytes) after := by
  have hmark : Bytes.ofText "$" ∉ [Bytes.ofText "+", Bytes.ofText "-", Bytes.ofText ":"] := by
    decide
  obtain ⟨middle, after, hfirst, hread, hafter⟩ := recv_header (by decide) hline hsock
  have hcut : (line ++ Bytes.crlf).take ((line ++ Bytes.crlf).length - 2) = line := by
    rw [List.length_append]
    exact List.take_left
  have hint : intOfAscii line = .ok length := by
    obtain ⟨text, htext, hnumber⟩ := Option.bind_eq_some_iff.mp hlength
    simp only [intOfAscii, htext, hnumber]
  refine ⟨after, hafter, ?_⟩
  rw [recvResp, Py.bind_ok hfirst, if_neg hmark, if_pos rfl, Py.bind_ok hread, hcut, hint]
  rfl

/-- A reply comes off the front of the stream. -/
theorem recv_resp_frame {response : Response} {line body : Bytes} (h : Frame response line body)
    {sock : Socket} {rest : Bytes}
    (hsock : sock.flatten = RequestGrammar.header (mark response) line body ++ rest) :
    ∃ after, recvResp sock = (.ok (RequestGrammar.header (mark response) line body), after) ∧
      after.flatten = rest := by
  have hline := h.line
  cases h with
  | simpleString => exact recv_resp_line "+" (by decide) hline hsock
  | error => exact recv_resp_line "-" (by decide) hline hsock
  | integer => exact recv_resp_line ":" (by decide) hline hsock
  | @bulkString value text htext =>
      obtain ⟨middle, hmiddle, hrun⟩ :=
        recv_resp_length hline (PyText.parse_int_written htext) hsock
      have hsize : (Bytes.ofText value ++ Bytes.crlf).length =
          (((Bytes.ofText value).length : Int) + 2).toNat := by
        rw [List.length_append]
        exact (Int.toNat_natCast _).symm
      have hsign : ((Bytes.ofText value).length : Int) ≠ -1 := by omega
      obtain ⟨after, hread, hafter⟩ := recv_exact_spec hmiddle hsize
      refine ⟨after, ?_, hafter⟩
      rw [hrun, if_neg hsign, Py.bind_ok hread, RequestGrammar.header_eq _ _ (_ ++ _)]
      rfl
  | nullBulkString =>
      have hnumber : (Bytes.toAscii? (Bytes.ofText "-1")).bind PyText.parseInt = some (-1) := by
        decide
      obtain ⟨after, hafter, hrun⟩ := recv_resp_length hline hnumber hsock
      exact ⟨after, hrun, hafter⟩

/-- An encoded reply comes off the front of the stream. -/
theorem recv_resp_encoded {response : Response} {encoding rest : Bytes}
    (h : RespEncoder.encode response = .ok encoding) (sock : Socket)
    (hsock : sock.flatten = encoding ++ rest) :
    ∃ after, recvResp sock = (.ok encoding, after) ∧ after.flatten = rest := by
  obtain ⟨line, body, hframe, rfl⟩ := encode_frame h
  exact recv_resp_frame hframe hsock

/-- Encoded replies come off the stream in order. -/
theorem recv_replies_encoded {responses : List Response} {encodings : List Bytes}
    (h : List.Forall₂ (fun response encoding => RespEncoder.encode response = .ok encoding)
      responses encodings) {sock : Socket} (hsock : sock.flatten = encodings.flatten) :
    ∃ after, recvReplies responses.length sock = (.ok encodings, after) ∧ after.flatten = [] := by
  induction h generalizing sock with
  | nil => exact ⟨sock, rfl, hsock⟩
  | @cons response encoding responses encodings hfirst hrest ih =>
      obtain ⟨middle, hread, hmiddle⟩ := recv_resp_encoded hfirst sock hsock
      obtain ⟨after, hreplies, hafter⟩ := ih hmiddle
      refine ⟨after, ?_, hafter⟩
      rw [List.length_cons, recvReplies, Py.bind_ok hread, Py.bind_ok hreplies]
      rfl

/-- Replies with one encoding are the same. -/
theorem encode_injective {first second : Response} {encoding : Bytes}
    (h : RespEncoder.encode first = .ok encoding) (h' : RespEncoder.encode second = .ok encoding) :
    first = second := by
  obtain ⟨line, body, hframe, rfl⟩ := encode_frame h
  obtain ⟨line', body', hframe', hsame⟩ := encode_frame h'
  have hmark : mark first = mark second :=
    of_text_injective (List.append_inj hsame ((mark_length _).trans (mark_length _).symm)).1
  rw [hmark] at hsame
  obtain ⟨hline, hbody⟩ :=
    RequestGrammar.header_injective hframe.line hframe'.line hsame
  exact hframe.injective hframe' hmark hline hbody

/-- An encoding that another one begins with is that one. -/
theorem encode_begins {first second : Response} {encoding encoding' : Bytes}
    (h : RespEncoder.encode first = .ok encoding) (h' : RespEncoder.encode second = .ok encoding')
    (hbegins : encoding <+: encoding') : encoding = encoding' := by
  obtain ⟨rest, rfl⟩ := hbegins
  -- both are what is read off a stream of the longer one
  have hsock : [encoding ++ rest].flatten = encoding ++ rest := List.flatten_singleton
  have hwhole : [encoding ++ rest].flatten = (encoding ++ rest) ++ [] := by
    rw [hsock, List.append_nil]
  obtain ⟨after, hread, -⟩ := recv_resp_encoded h _ hsock
  obtain ⟨after', hread', -⟩ := recv_resp_encoded h' _ hwhole
  rw [hread] at hread'
  exact Except.ok.inj (congrArg Prod.fst hread')

/-- However the socket cuts the encodings of replies into pieces, they are read one by one, and
nothing is left. An encoding is that of one reply, and none is the beginning of another. -/
theorem replies_decodable :
    (∀ responses encodings,
      List.Forall₂ (fun response encoding => RespEncoder.encode response = .ok encoding)
        responses encodings →
      ∀ sock : Socket, sock.flatten = encodings.flatten →
        ∃ after, recvReplies responses.length sock = (.ok encodings, after) ∧
          after.flatten = []) ∧
    ∀ first second encoding encoding', RespEncoder.encode first = .ok encoding →
      RespEncoder.encode second = .ok encoding' →
        (encoding = encoding' → first = second) ∧
        (encoding <+: encoding' → encoding = encoding') := by
  refine ⟨fun responses encodings h sock hsock => recv_replies_encoded h hsock, ?_⟩
  intro first second encoding encoding' h h'
  refine ⟨?_, encode_begins h h'⟩
  rintro rfl
  exact encode_injective h h'

end Benchmark

end MiniRedis
