import MiniRedis.Protocol.RoundTrip
import MiniRedis.Server.Segmentation

/-!
# Pipelined requests

What a connection does with a part of a stream of requests, however it is cut:
`pipelined_requests` says that the complete requests are dispatched and answered in order
and that the unfinished one waits in the buffer.
-/

namespace MiniRedis

namespace Service

variable {σ : Type} {dispatch : Command → Py σ Response}

/-- Unless one raises, every command is dispatched, and answered with one reply. -/
theorem serve_all (commands : List Command) {world : σ}
    (h : (serve dispatch commands world).raised = false) :
    (serve dispatch commands world).dispatched = commands ∧
      (serve dispatch commands world).written.length = commands.length := by
  induction commands generalizing world with
  | nil => exact ⟨rfl, rfl⟩
  | cons command rest ih =>
      rw [serve] at h ⊢
      split at h
      · next reply after hanswer =>
          obtain ⟨hdispatched, hwritten⟩ := ih h
          exact ⟨congrArg (command :: ·) hdispatched, congrArg (· + 1) hwritten⟩
      · cases h

end Service

namespace Session

variable {σ : Type}

/-- The parser takes the complete requests off a part of a stream, and waits with the rest. -/
theorem split_requests (requests : List Request) {delivered : Bytes}
    (h : delivered <+: Incremental.stream Request.encoding requests) :
    respParser.split delivered =
      ⟨(Incremental.contained Request.encoding requests delivered.length).map Request.command,
        delivered.drop (Incremental.stream Request.encoding
          (Incremental.contained Request.encoding requests delivered.length)).length, none⟩ ∧
    Incremental.stream Request.encoding
      (Incremental.contained Request.encoding requests delivered.length) <+: delivered := by
  refine Incremental.split_stream ?_ ?_ requests h
  · have hempty : RespParser.parseOne [] = .error (.incomplete "empty buffer") := rfl
    exact verdict_wait_iff.mpr ⟨_, hempty⟩
  · intro request tail
    exact verdict_item_iff.mpr (request.parse_encoding tail)

/-- On a stream of complete commands that raise nothing, everything is served and the rest is kept.
-/
theorem settle_complete {dispatch : Command → Py σ Response} {session : Session σ}
    {raw rest : Bytes} {items : List Command}
    (hsplit : respParser.split raw = ⟨items, rest, none⟩)
    (hraised : (Service.serve dispatch items session.world).raised = false) :
    session.settle dispatch raw =
      ⟨rest, (Service.serve dispatch items session.world).world,
        session.dispatched ++ (Service.serve dispatch items session.world).dispatched,
        session.written ++ (Service.serve dispatch items session.world).written, false⟩ := by
  simp [settle, hsplit, hraised]

/-- However a part of a stream of requests is cut, the complete requests are dispatched once each
and in order, each is answered, and the unfinished one stays in the buffer. -/
theorem pipelined_requests (dispatch : Command → Py σ Response) (world : σ)
    (requests : List Request) (chunks : List Bytes) (hchunks : ∀ chunk ∈ chunks, chunk ≠ [])
    (hpart : chunks.flatten <+: Incremental.stream Request.encoding requests)
    (hraised : (Service.serve dispatch
      ((Incremental.contained Request.encoding requests chunks.flatten.length).map Request.command)
      world).raised = false) :
    let complete := Incremental.contained Request.encoding requests chunks.flatten.length
    let service := Service.serve dispatch (complete.map Request.command) world
    ∃ session, handleClient dispatch world chunks = some session ∧
      session.dispatched = complete.map Request.command ∧
      session.written = service.written ∧ session.written.length = complete.length ∧
      chunks.flatten = Incremental.stream Request.encoding complete ++ session.buffer ∧
      session.world = service.world ∧ session.closed = false := by
  intro complete service
  obtain ⟨hsplit, hfront⟩ := split_requests requests hpart
  have herror : (respParser.split ((start world).buffer ++ chunks.flatten)).error = none := by
    show (respParser.split chunks.flatten).error = none
    rw [hsplit]
  have hrun := run_of_wait dispatch chunks (waiting_start world) herror
  obtain ⟨hdispatched, hwritten⟩ := Service.serve_all (complete.map Request.command) hraised
  refine ⟨_, outer_loop_spec dispatch chunks hchunks (start world), ?_⟩
  rw [hrun, start, List.nil_append, settle_complete hsplit hraised]
  refine ⟨hdispatched, rfl, ?_, ?_, rfl, rfl⟩
  · rw [List.length_map] at hwritten
    exact hwritten
  · show chunks.flatten = Incremental.stream Request.encoding complete ++ chunks.flatten.drop _
    exact (List.prefix_iff_eq_append.mp hfront).symm

/-- A value with a line end and two bytes for one character, cut between these bytes, and a second
request that is not complete. -/
theorem pipelined_requests_cut :
    ∃ session, handleClient (fun _ => pure (.simpleString "OK")) ()
        [Bytes.ofText "*2\r\n$3\r\nGET\r\n$4\r\n\r\n" ++ [0xC3],
          [0xA9] ++ Bytes.ofText "\r\n*1\r\n$4\r\nPI"] = some session ∧
      session.dispatched = [⟨"GET", ["\r\né"]⟩] ∧
      session.buffer = Bytes.ofText "*1\r\n$4\r\nPI" := by
  let get : Request := ⟨⟨"GET", ["\r\né"]⟩,
    Bytes.ofText "*2\r\n$3\r\nGET\r\n$4\r\n\r\né\r\n", by decide +kernel⟩
  let ping : Request := ⟨⟨"PING", []⟩, Bytes.ofText "*1\r\n$4\r\nPING\r\n", by decide +kernel⟩
  obtain ⟨session, hrun, hdispatched, -, -, hbuffer, -, -⟩ :=
    pipelined_requests (fun _ => pure (.simpleString "OK")) () [get, ping]
      [Bytes.ofText "*2\r\n$3\r\nGET\r\n$4\r\n\r\n" ++ [0xC3],
        [0xA9] ++ Bytes.ofText "\r\n*1\r\n$4\r\nPI"] (by decide +kernel) (by decide +kernel) (by rfl)
  refine ⟨session, hrun, hdispatched, ?_⟩
  have hstream : Bytes.ofText "*2\r\n$3\r\nGET\r\n$4\r\n\r\né\r\n" ++ Bytes.ofText "*1\r\n$4\r\nPI" =
      Bytes.ofText "*2\r\n$3\r\nGET\r\n$4\r\n\r\né\r\n" ++ session.buffer := hbuffer
  exact (List.append_cancel_left hstream).symm

end Session

end MiniRedis
