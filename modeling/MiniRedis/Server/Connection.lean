import MiniRedis.Foundation.Incremental
import MiniRedis.Protocol.Encoder
import MiniRedis.Protocol.Stability

/-!
# One client connection

`AsyncRedisServer.handle_client` after `server/tcp_server.py`, over any dispatcher. A chunk
that arrives is appended to the buffer, and the inner loop takes commands off the buffer
until the parser asks for more data, the request is malformed, or something raises. A
malformed request is answered, and whatever the buffer holds is thrown away.

`receive_spec` says what one chunk does in terms of the commands at the front of the stream
(`Incremental.StableParser.split`), served in order.
-/

namespace MiniRedis

/-- A connection: the buffer, the state of the dispatcher, and what the handler did so far. -/
structure Session (σ : Type) where
  buffer : Bytes
  world : σ
  dispatched : List Command
  written : List Bytes
  closed : Bool

namespace Session

variable {σ : Type} (dispatch : Command → Py σ Response)

/-- A connection that was just opened. -/
def start (world : σ) : Session σ := ⟨[], world, [], [], false⟩

/-- One turn of the inner loop of `handle_client`, and whether the loop goes on. An exception
ends in the handler of the outer `try`, which closes the connection, and the buffer is gone. -/
def turn (session : Session σ) : Bool × Session σ :=
  match RespParser.parseOne session.buffer with
  | .error (.incomplete _) => (false, session)
  | .error (.protocol message) =>
      match RespEncoder.encode (Response.ofError message) with
      | .ok reply =>
          (false, { session with buffer := [], written := session.written ++ [reply] })
      | .error _ => (false, { session with buffer := [], closed := true })
  | .ok (command, consumed) =>
      let session := { session with
        buffer := session.buffer.drop consumed
        dispatched := session.dispatched ++ [command] }
      match dispatch command session.world with
      | (.error _, world) => (false, { session with buffer := [], world, closed := true })
      | (.ok response, world) =>
          match RespEncoder.encode response with
          | .ok reply => (true, { session with world, written := session.written ++ [reply] })
          | .error _ => (false, { session with buffer := [], world, closed := true })

/-- The inner loop, `while buffer`, for at most `fuel` turns; `none` if they do not suffice. -/
def innerLoop : Nat → Session σ → Option (Session σ)
  | 0, _ => none
  | fuel + 1, session =>
      if session.buffer = [] then some session
      else
        let (again, after) := session.turn dispatch
        if again then innerLoop fuel after else some after

/-- One turn of the outer loop: a chunk arrives. A turn of the inner loop that goes on takes a
byte off the buffer, so one turn more than there are bytes suffices. -/
def receive (session : Session σ) (chunk : Bytes) : Option (Session σ) :=
  if session.closed then some session
  else
    let buffer := session.buffer ++ chunk
    innerLoop dispatch (buffer.length + 1) { session with buffer }

/-- The outer loop, on the chunks that `reader.read` returns; an empty one is the end of the
stream. -/
def outerLoop (session : Session σ) : List Bytes → Option (Session σ)
  | [] => some session
  | chunk :: rest =>
      if chunk = [] then some session
      else do
        let after ← receive dispatch session chunk
        outerLoop after rest

/-- `handle_client`. -/
def handleClient (world : σ) (chunks : List Bytes) : Option (Session σ) :=
  outerLoop dispatch (start world) chunks

end Session

/-- The parser, as a parser of streams. -/
def respVerdict (raw : Bytes) : Incremental.Verdict Command String :=
  match RespParser.parseOne raw with
  | .ok (command, consumed) => .item command consumed
  | .error (.incomplete _) => .wait
  | .error (.protocol message) => .fail message

theorem verdict_item_iff {raw : Bytes} {command : Command} {consumed : Nat} :
    respVerdict raw = .item command consumed ↔
      RespParser.parseOne raw = .ok (command, consumed) := by
  unfold respVerdict
  split <;> simp_all

theorem verdict_wait_iff {raw : Bytes} :
    respVerdict raw = .wait ↔ ∃ message, RespParser.parseOne raw = .error (.incomplete message) := by
  unfold respVerdict
  split <;> simp_all

theorem verdict_fail_iff {raw : Bytes} {message : String} :
    respVerdict raw = .fail message ↔ RespParser.parseOne raw = .error (.protocol message) := by
  unfold respVerdict
  split <;> simp_all

/-- Commands and protocol errors stay the same under more data. -/
def respParser : Incremental.StableParser UInt8 Command String where
  parse := respVerdict
  bounds := by
    intro raw command consumed h
    exact RespParser.parse_one_bounds (verdict_item_iff.mp h)
  item_append := by
    intro raw command consumed h more
    have hparse := verdict_item_iff.mp h
    rw [verdict_item_iff, RespParser.parse_one_append (hparse ▸ RespParser.settled_ok _), hparse]
  item_take := by
    intro raw command consumed h
    exact verdict_item_iff.mpr (RespParser.parse_one_take (verdict_item_iff.mp h))
  fail_append := by
    intro raw message h more
    have hparse := verdict_fail_iff.mp h
    rw [verdict_fail_iff, RespParser.parse_one_append (hparse ▸ RespParser.settled_protocol _),
      hparse]

/-- What serving commands in order does, up to and including the first one that raises. -/
structure Service (σ : Type) where
  world : σ
  dispatched : List Command
  written : List Bytes
  raised : Bool

namespace Service

variable {σ : Type} (dispatch : Command → Py σ Response)

/-- Dispatch a command and encode the response. -/
def answer (command : Command) : Py σ Bytes := do
  let response ← dispatch command
  Py.ofExcept (RespEncoder.encode response)

/-- Serve commands in order. -/
def serve : List Command → σ → Service σ
  | [], world => ⟨world, [], [], false⟩
  | command :: rest, world =>
      match answer dispatch command world with
      | (.ok reply, world) =>
          let service := serve rest world
          { service with
            dispatched := command :: service.dispatched
            written := reply :: service.written }
      | (.error _, world) => ⟨world, [command], [], true⟩

/-- Serving goes on behind a part that does not raise, and stops in a part that does. -/
theorem serve_append (first second : List Command) (world : σ) :
    serve dispatch (first ++ second) world =
      let before := serve dispatch first world
      if before.raised then before
      else
        let after := serve dispatch second before.world
        ⟨after.world, before.dispatched ++ after.dispatched, before.written ++ after.written,
          after.raised⟩ := by
  induction first generalizing world with
  | nil => rfl
  | cons command rest ih =>
      rw [List.cons_append, serve, serve]
      split
      · next reply after hanswer =>
          simp only [ih]
          split <;> simp_all
      · rfl

end Service

namespace RespParser

/-- The reply to a malformed request. -/
def errorReply (message : String) : Bytes :=
  Bytes.ofText "-ERR " ++ Bytes.ofText message ++ Bytes.crlf

/-- Every protocol error can be encoded. -/
theorem encode_protocol_message {message : String} (h : message ∈ protocolMessages) :
    RespEncoder.encode (Response.ofError message) = .ok (errorReply message) := by
  revert message
  decide +kernel

end RespParser

namespace Session

variable {σ : Type} (dispatch : Command → Py σ Response)

/-- The connection after the inner loop has worked on a buffer: the commands at its front are
served in order; unless one raises, what is left stays in the buffer or, if it is malformed, is
answered and thrown away. -/
def settle (session : Session σ) (raw : Bytes) : Session σ :=
  let stream := respParser.split raw
  let service := Service.serve dispatch stream.items session.world
  { buffer := if service.raised || stream.error.isSome then [] else stream.rest
    world := service.world
    dispatched := session.dispatched ++ service.dispatched
    written := session.written ++ service.written ++
      if service.raised then [] else stream.error.toList.map RespParser.errorReply
    closed := service.raised }

variable {dispatch} in
/-- A turn with a command at the front of the buffer answers it. -/
theorem turn_item {session : Session σ} {command : Command} {consumed : Nat}
    (h : RespParser.parseOne session.buffer = .ok (command, consumed)) :
    session.turn dispatch =
      match Service.answer dispatch command session.world with
      | (.ok reply, world) => (true, { session with
          buffer := session.buffer.drop consumed
          world
          dispatched := session.dispatched ++ [command]
          written := session.written ++ [reply] })
      | (.error _, world) => (false, { session with
          buffer := []
          world
          dispatched := session.dispatched ++ [command]
          closed := true }) := by
  simp only [turn, h, Service.answer, Py.bind_apply]
  cases hrun : dispatch command session.world with
  | mk result world =>
      cases result with
      | error error => rfl
      | ok response =>
          simp only [Py.of_except_apply]
          cases RespEncoder.encode response <;> rfl

/-- The inner loop ends, and leaves the settled connection. -/
theorem inner_loop_spec (raw : Bytes) {fuel : Nat} (hfuel : raw.length < fuel) (world : σ)
    (dispatched : List Command) (written : List Bytes) :
    innerLoop dispatch fuel ⟨raw, world, dispatched, written, false⟩ =
      some (settle dispatch ⟨raw, world, dispatched, written, false⟩ raw) := by
  induction raw using respParser.split_induction
    generalizing fuel world dispatched written with
  | wait raw h =>
      obtain ⟨message, hparse⟩ := verdict_wait_iff.mp h
      obtain ⟨fuel, rfl⟩ := Nat.exists_eq_add_of_lt hfuel
      simp [innerLoop, turn, hparse, settle, Incremental.StableParser.split_wait h, Service.serve]
  | fail raw message h =>
      have hparse := verdict_fail_iff.mp h
      have hreply := RespParser.encode_protocol_message (RespParser.parse_one_message hparse)
      have hempty : raw ≠ [] := by
        rintro rfl
        cases hparse
      obtain ⟨fuel, rfl⟩ := Nat.exists_eq_add_of_lt hfuel
      simp [innerLoop, hempty, turn, hparse, hreply, settle, Incremental.StableParser.split_fail h,
        Service.serve]
  | item raw command consumed h ih =>
      have hparse := verdict_item_iff.mp h
      obtain ⟨hpos, hle⟩ := RespParser.parse_one_bounds hparse
      have hempty : raw ≠ [] := by
        rintro rfl
        cases hparse
      obtain ⟨fuel, rfl⟩ := Nat.exists_eq_add_of_lt hfuel
      rw [innerLoop, if_neg hempty, turn_item hparse]
      simp only [settle, Incremental.StableParser.split_item h, Service.serve]
      cases hanswer : Service.answer dispatch command world with
      | mk result after =>
          cases result with
          | error error => simp
          | ok reply =>
              -- the rest of the buffer is shorter, so the remaining turns suffice for it
              have hshort : (raw.drop consumed).length < raw.length + fuel := by
                rw [List.length_drop]
                omega
              simp [ih hshort, settle, List.append_assoc]

/-- A chunk is always handled in finitely many turns. -/
theorem receive_spec (session : Session σ) (chunk : Bytes) :
    receive dispatch session chunk =
      some (if session.closed then session
        else session.settle dispatch (session.buffer ++ chunk)) := by
  obtain ⟨buffer, world, dispatched, written, closed⟩ := session
  cases closed with
  | true => rfl
  | false =>
      exact inner_loop_spec dispatch (buffer ++ chunk) (Nat.lt_succ_self _) world dispatched written

end Session

end MiniRedis
