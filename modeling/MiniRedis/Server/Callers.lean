import Mathlib.Data.List.Forall2
import MiniRedis.Protocol.Blocking
import MiniRedis.Server.Isolation

/-!
# A client that waits for its replies

A client of `scripts/benchmark.py`, its socket and its connection: the client sends a command, and
the next one when `recv_resp` has returned. In between, both directions of the socket deliver what
is on its way in pieces of any size. `Paired` says where client and connection are; it is kept by
every move (`Paired.move`), and one of them can always be made (`Paired.progress`).
-/

namespace MiniRedis

/-- A client: the commands that it has not sent yet, whether it is in `recv_resp`, whether that has
raised, and the responses it has received; its socket: what is on its way to the server, what is
on its way back, and the pieces that have arrived; and the other end of the socket. -/
structure Caller where
  todo : List Request
  waiting : Bool
  failed : Bool
  responses : List Bytes
  outgoing : Bytes
  incoming : Bytes
  inbox : Benchmark.Socket
  connection : Connection

/-- What happens next to a client: it sends a command; a chunk of what is on its way reaches the
server; `handle_client` goes on; a piece of a reply reaches the client; or `recv_resp` returns or
raises. -/
inductive Move where
  | send
  | carry (size : Nat)
  | resume
  | arrive (size : Nat)
  | receive

namespace Caller

/-- A client that has just connected. -/
def start (requests : List Request) : Caller :=
  ⟨requests, false, false, [], [], [], [], ⟨[], [], .reading, []⟩⟩

/-- All commands have been sent and answered. -/
def Done (caller : Caller) : Prop := caller.todo = [] ∧ caller.waiting = false

instance (caller : Caller) : Decidable caller.Done := instDecidableAnd

/-- `sock.sendall(payload)` of the loop in `benchmark_scenario`. -/
def send (caller : Caller) : Option Caller :=
  match caller.waiting, caller.todo with
  | false, request :: rest =>
      some { caller with
        todo := rest
        waiting := true
        outgoing := caller.outgoing ++ request.encoding }
  | _, _ => none

/-- The next chunk that `reader.read(4096)` will return. -/
def carry (caller : Caller) (size : Nat) : Option Caller :=
  if h : size ≤ 4096 ∧ caller.outgoing.take size ≠ [] then
    some { caller with
      outgoing := caller.outgoing.drop size
      connection := { caller.connection with
        pending := caller.connection.pending ++ [⟨caller.outgoing.take size, h.2⟩] } }
  else none

/-- `handle_client` goes on, unless it is at an end or waits for a chunk. The end of the stream is
when the client is done and has closed its socket. -/
def resume {σ : Type} (server : AsyncRedisServer σ) (caller : Caller) (world : σ) :
    Option (Option Item × Caller × σ) :=
  let connection := caller.connection
  if connection.phase = .closed ∨
      connection.phase = .reading ∧ connection.pending = [] ∧ ¬ caller.Done then none
  else
    let turn := connection.wake server world
    some (turn.1, { caller with
      incoming := caller.incoming ++ (turn.2.1.written.drop connection.written.length).flatten
      connection := turn.2.1 }, turn.2.2)

/-- A piece of a reply reaches the client. -/
def arrive (caller : Caller) (size : Nat) : Option Caller :=
  if caller.incoming.take size ≠ [] then
    some { caller with
      incoming := caller.incoming.drop size
      inbox := caller.inbox ++ [caller.incoming.take size] }
  else none

/-- `recv_resp` returns, or raises. At the end of what has arrived it blocks, unless that is the
end of the stream. -/
def receive (caller : Caller) : Option Caller :=
  if caller.waiting = true ∧ caller.failed = false then
    match Benchmark.recvResp caller.inbox with
    | (.ok response, rest) =>
        some { caller with
          waiting := false
          responses := caller.responses ++ [response]
          inbox := rest }
    | (.error .osError, _) =>
        if caller.connection.phase = .closed ∧ caller.incoming = [] then
          some { caller with failed := true }
        else none
    | (.error _, _) => some { caller with failed := true }
  else none

/-- A move, and the item if the server has served one. `none` if it is not the time for it. -/
def move {σ : Type} (server : AsyncRedisServer σ) (caller : Caller) (world : σ) :
    Move → Option (Option Item × Caller × σ)
  | .send => caller.send.map fun after => (none, after, world)
  | .carry size => (caller.carry size).map fun after => (none, after, world)
  | .resume => caller.resume server world
  | .arrive size => (caller.arrive size).map fun after => (none, after, world)
  | .receive => caller.receive.map fun after => (none, after, world)

end Caller

namespace Request

/-- A request as an item of a connection. -/
def item (request : Request) : Item := .command request.command

/-- The request of `warm_up`. -/
def ping : Request := ⟨⟨"PING", []⟩, Bytes.ofText "*1\r\n$4\r\nPING\r\n", by decide +kernel⟩

/-- How much there is to send. -/
def size (requests : List Request) : Nat :=
  (requests.map Request.encoding).flatten.length

@[simp]
theorem size_cons (request : Request) (rest : List Request) :
    size (request :: rest) = request.encoding.length + size rest := List.length_append

theorem encoding_pos (request : Request) : 0 < request.encoding.length := by
  have hparse := request.parse_encoding []
  exact (RespParser.parse_one_bounds hparse).1

end Request

namespace Connection

variable {σ : Type} (server : AsyncRedisServer σ) (request : Request) (connection : Connection)
  (world : σ)

/-- The connection waits for the rest of a request. -/
theorem turn_part {more : Bytes} (hbuffer : connection.buffer ++ more = request.encoding)
    (hmore : more ≠ []) :
    turn server connection world = (none, { connection with phase := .reading }, world) := by
  have hshort : connection.buffer.length < request.encoding.length := by
    have hlength := List.length_pos_iff.mpr hmore
    rw [← hbuffer, List.length_append]
    omega
  have hwhole : respParser.parse (connection.buffer ++ more) =
      .item request.command request.encoding.length := by
    have hparse := request.parse_encoding []
    rw [List.append_nil, ← hbuffer] at hparse
    rw [← hbuffer]
    exact verdict_item_iff.mpr hparse
  obtain ⟨message, hparse⟩ :=
    verdict_wait_iff.mp (Incremental.StableParser.wait_of_short hwhole hshort)
  unfold turn
  split
  · rfl
  · simp [hparse]

/-- A request that is complete is answered, or its command raises. -/
theorem turn_request (hbuffer : connection.buffer = request.encoding) :
    (∃ response reply after, RespEncoder.encode response = .ok reply ∧
      turn server connection world = (some request.item, { connection with
        buffer := []
        phase := .draining
        written := connection.written ++ [reply] }, after)) ∨
    ∃ after, turn server connection world =
      (some request.item, close { connection with buffer := [] }, after) := by
  have hparse := request.parse_encoding []
  rw [List.append_nil] at hparse
  have hnonempty : request.encoding ≠ [] := List.length_pos_iff.mp request.encoding_pos
  unfold turn
  rw [hbuffer, if_neg hnonempty, hparse]
  cases hanswer : Service.answer server.dispatch request.command world with
  | mk result after =>
      cases result with
      | error error => exact .inr ⟨after, by simp [hanswer, Request.item]⟩
      | ok reply =>
          -- a reply is an encoding
          have hencode := hanswer
          rw [Service.answer, Py.bind_apply] at hencode
          split at hencode
          · next response between hdispatch =>
              exact .inl ⟨response, reply, after, (Prod.mk.inj hencode).1,
                by simp [hanswer, Request.item]⟩
          · cases hencode

end Connection

namespace Caller

/-- How many moves there are for some requests and the replies to them. -/
def budget (requests : List Request) (written : List Bytes) : Nat :=
  3 * requests.length + 2 * Request.size requests + written.flatten.length + 1

/-- Where a client is after some moves, when the items `done` have been served: between two
commands, or the command it has sent is on its way, or the reply is, or the command has raised. -/
inductive Paired (requests : List Request) (moves : Nat) (done : List Item) (caller : Caller) :
    Prop where
  | idle (front : List Request) (hrequests : requests = front ++ caller.todo)
      (hwaiting : caller.waiting = false) (hfailed : caller.failed = false)
      (hdone : done = front.map Request.item)
      (hphase : caller.connection.phase = .reading ∨ caller.connection.phase = .draining ∨
        caller.connection.phase = .closed ∧ caller.todo = [])
      (hsent : caller.outgoing = [] ∧ caller.connection.pending = [] ∧
        caller.connection.buffer = [])
      (hquiet : caller.incoming = [] ∧ caller.inbox.flatten = [])
      (hwritten : caller.connection.written = caller.responses)
      (hcount : caller.responses.length = front.length)
      (hmoves : moves + 3 * caller.todo.length + 2 * Request.size caller.todo +
          caller.connection.drains + (if caller.connection.phase = .closed then 0 else 1) ≤
        budget requests caller.connection.written)
  | asked (front : List Request) (request : Request)
      (hrequests : requests = front ++ request :: caller.todo)
      (hwaiting : caller.waiting = true) (hfailed : caller.failed = false)
      (hdone : done = front.map Request.item)
      (hphase : caller.connection.phase = .reading ∨
        caller.connection.phase = .draining ∧ caller.connection.buffer = [])
      (hsent : caller.connection.buffer ++ ((caller.connection.pending.map Subtype.val).flatten ++
        caller.outgoing) = request.encoding)
      (hmissing : (caller.connection.pending.map Subtype.val).flatten ++ caller.outgoing ≠ [])
      (hquiet : caller.incoming = [] ∧ caller.inbox.flatten = [])
      (hwritten : caller.connection.written = caller.responses)
      (hcount : caller.responses.length = front.length)
      (hmoves : moves + 3 * caller.todo.length + 2 * Request.size caller.todo +
          2 * caller.outgoing.length + caller.connection.pending.length +
          caller.connection.drains + 3 ≤
        budget requests caller.connection.written)
  | answered (front : List Request) (request : Request) (response : Response) (reply : Bytes)
      (hrequests : requests = front ++ request :: caller.todo)
      (hwaiting : caller.waiting = true) (hfailed : caller.failed = false)
      (hdone : done = (front ++ [request]).map Request.item)
      (hphase : caller.connection.phase = .reading ∨ caller.connection.phase = .draining)
      (hsent : caller.outgoing = [] ∧ caller.connection.pending = [] ∧
        caller.connection.buffer = [])
      (hreply : RespEncoder.encode response = .ok reply)
      (harrives : caller.inbox.flatten ++ caller.incoming = reply)
      (hwritten : caller.connection.written = caller.responses ++ [reply])
      (hcount : caller.responses.length = front.length)
      (hmoves : moves + 3 * caller.todo.length + 2 * Request.size caller.todo +
          caller.incoming.length + caller.connection.drains + 2 ≤
        budget requests caller.connection.written)
  | raised (front : List Request) (request : Request)
      (hrequests : requests = front ++ request :: caller.todo)
      (hwaiting : caller.waiting = true)
      (hdone : done = (front ++ [request]).map Request.item)
      (hphase : caller.connection.phase = .closed)
      (hquiet : caller.incoming = [] ∧ caller.inbox.flatten = [])
      (hsent : caller.outgoing = [])
      (hwritten : caller.connection.written = caller.responses)
      (hcount : caller.responses.length = front.length)
      (hmoves : moves + (if caller.failed then 0 else 1) ≤
        budget requests caller.connection.written)

variable {requests : List Request} {moves : Nat} {done : List Item} {caller after : Caller}

theorem paired_start (requests : List Request) : Paired requests 0 [] (start requests) := by
  refine .idle [] rfl rfl rfl rfl (.inl rfl) ⟨rfl, rfl, rfl⟩ ⟨rfl, rfl⟩ rfl rfl ?_
  simp [start, Connection.drains, budget]

theorem Paired.send (h : Paired requests moves done caller) (hsend : caller.send = some after) :
    Paired requests (moves + 1) done after := by
  unfold Caller.send at hsend
  split at hsend
  · next request rest hwaiting htodo =>
      cases hsend
      cases h with
      | idle front hrequests hidle hfailed hdone hphase hsent hquiet hwritten hcount hmoves =>
          have hopen : caller.connection.phase = .reading ∨
              caller.connection.phase = .draining ∧ caller.connection.buffer = [] := by
            obtain hreading | hdraining | ⟨-, hnone⟩ := hphase
            · exact .inl hreading
            · exact .inr ⟨hdraining, hsent.2.2⟩
            · rw [hnone] at htodo
              cases htodo
          refine .asked front request (hrequests.trans (congrArg _ htodo)) rfl hfailed hdone hopen
            ?_ ?_ hquiet hwritten hcount ?_
          · simp [hsent.1, hsent.2.1, hsent.2.2]
          · have hpos := List.length_pos_iff.mp request.encoding_pos
            simpa [hsent.1, hsent.2.1] using hpos
          · have hlive : caller.connection.phase ≠ .closed := by
              obtain hreading | ⟨hdraining, -⟩ := hopen
              · simp [hreading]
              · simp [hdraining]
            rw [if_neg hlive, htodo] at hmoves
            rw [List.length_cons, Request.size_cons] at hmoves
            show _ + 3 * rest.length + 2 * Request.size rest +
              2 * (caller.outgoing ++ request.encoding).length +
              caller.connection.pending.length + caller.connection.drains + 3 ≤
                budget requests caller.connection.written
            rw [hsent.1, hsent.2.1, List.nil_append, List.length_nil]
            omega
      | asked front other hrequests hbusy =>
          rw [hbusy] at hwaiting
          cases hwaiting
      | answered front other response reply hrequests hbusy =>
          rw [hbusy] at hwaiting
          cases hwaiting
      | raised front other hrequests hbusy =>
          rw [hbusy] at hwaiting
          cases hwaiting
  · cases hsend

theorem Paired.carry (h : Paired requests moves done caller) {size : Nat}
    (hcarry : caller.carry size = some after) : Paired requests (moves + 1) done after := by
  unfold Caller.carry at hcarry
  split at hcarry
  · next hchunk =>
      cases hcarry
      obtain ⟨-, htake⟩ := hchunk
      have hnone : caller.outgoing ≠ [] := by
        intro hempty
        rw [hempty, List.take_nil] at htake
        exact htake rfl
      cases h with
      | idle front hrequests hwaiting hfailed hdone hphase hsent => exact absurd hsent.1 hnone
      | asked front request hrequests hwaiting hfailed hdone hphase hsent hmissing hquiet hwritten
          hcount hmoves =>
          have hsplit : caller.outgoing.take size ++ caller.outgoing.drop size = caller.outgoing :=
            List.take_append_drop _ _
          refine .asked front request hrequests hwaiting hfailed hdone hphase ?_ ?_ hquiet hwritten
            hcount ?_
          · simpa [hsplit] using hsent
          · simpa [htake] using hmissing
          · have hlength := congrArg List.length hsplit
            have hpos := List.length_pos_iff.mpr htake
            rw [List.length_append] at hlength
            show _ + 3 * caller.todo.length + 2 * Request.size caller.todo +
              2 * (caller.outgoing.drop size).length +
              (caller.connection.pending ++ [_]).length + caller.connection.drains + 3 ≤
                budget requests caller.connection.written
            rw [List.length_append, List.length_singleton]
            omega
      | answered front request response reply hrequests hwaiting hfailed hdone hphase hsent =>
          exact absurd hsent.1 hnone
      | raised front request hrequests hwaiting hdone hphase hquiet hsent =>
          exact absurd hsent hnone
  · cases hcarry

theorem Paired.arrive (h : Paired requests moves done caller) {size : Nat}
    (harrive : caller.arrive size = some after) : Paired requests (moves + 1) done after := by
  unfold Caller.arrive at harrive
  split at harrive
  · next htake =>
      cases harrive
      have hnone : caller.incoming ≠ [] := by
        intro hempty
        rw [hempty, List.take_nil] at htake
        exact htake rfl
      cases h with
      | idle front hrequests hwaiting hfailed hdone hphase hsent hquiet =>
          exact absurd hquiet.1 hnone
      | asked front request hrequests hwaiting hfailed hdone hphase hsent hmissing hquiet =>
          exact absurd hquiet.1 hnone
      | answered front request response reply hrequests hwaiting hfailed hdone hphase hsent hreply
          harrives hwritten hcount hmoves =>
          have hsplit : caller.incoming.take size ++ caller.incoming.drop size = caller.incoming :=
            List.take_append_drop _ _
          refine .answered front request response reply hrequests hwaiting hfailed hdone hphase
            hsent hreply ?_ hwritten hcount ?_
          · simpa [hsplit] using harrives
          · have hlength := congrArg List.length hsplit
            have hpos := List.length_pos_iff.mpr htake
            rw [List.length_append] at hlength
            show _ + 3 * caller.todo.length + 2 * Request.size caller.todo +
              (caller.incoming.drop size).length + caller.connection.drains + 2 ≤
                budget requests caller.connection.written
            omega
      | raised front request hrequests hwaiting hdone hphase hquiet =>
          exact absurd hquiet.1 hnone
  · cases harrive

/-- A client of whose reply nothing has arrived is blocked. -/
theorem recv_nothing {sock : Benchmark.Socket} (h : sock.flatten = []) :
    (Benchmark.recvResp sock).1 = .error .osError := by
  have hreply : RespEncoder.encode (.simpleString "PONG") = .ok (Bytes.ofText "+PONG\r\n") := by
    decide +kernel
  have hsock : sock.flatten ++ Bytes.ofText "+PONG\r\n" = Bytes.ofText "+PONG\r\n" := by
    rw [h, List.nil_append]
  exact (Benchmark.recv_resp_waits hreply hsock).1 (by decide)

/-- `receive` at the end of what has arrived. -/
theorem receive_blocked (h : (Benchmark.recvResp caller.inbox).1 = .error .osError)
    (hreceive : caller.receive = some after) :
    caller.connection.phase = .closed ∧ caller.incoming = [] ∧ caller.failed = false ∧
      after = { caller with failed := true } := by
  unfold Caller.receive at hreceive
  split at hreceive
  · next hwaiting =>
      generalize Benchmark.recvResp caller.inbox = result at h hreceive
      obtain ⟨result, rest⟩ := result
      obtain rfl : result = .error .osError := h
      dsimp only at hreceive
      split at hreceive
      · next hend =>
          cases hreceive
          exact ⟨hend.1, hend.2, hwaiting.2, rfl⟩
      · cases hreceive
  · cases hreceive

theorem Paired.receive (h : Paired requests moves done caller)
    (hreceive : caller.receive = some after) : Paired requests (moves + 1) done after := by
  cases h with
  | idle front hrequests hwaiting =>
      simp [Caller.receive, hwaiting] at hreceive
  | asked front request hrequests hwaiting hfailed hdone hphase hsent hmissing hquiet =>
      obtain ⟨hclosed, -⟩ := receive_blocked (recv_nothing hquiet.2) hreceive
      obtain hreading | ⟨hdraining, -⟩ := hphase
      · rw [hreading] at hclosed
        cases hclosed
      · rw [hdraining] at hclosed
        cases hclosed
  | answered front request response reply hrequests hwaiting hfailed hdone hphase hsent hreply
      harrives hwritten hcount hmoves =>
      have hlive : caller.connection.phase ≠ .closed := by
        obtain hreading | hdraining := hphase
        · simp [hreading]
        · simp [hdraining]
      obtain ⟨hblocks, hreturns⟩ := Benchmark.recv_resp_waits hreply harrives
      by_cases hincoming : caller.incoming = []
      · obtain ⟨rest, hrun, hrest⟩ := hreturns hincoming
        simp only [Caller.receive, hwaiting, hfailed, and_self, if_true, hrun,
          Option.some.injEq] at hreceive
        subst hreceive
        refine .idle (front ++ [request]) ?_ rfl rfl hdone ?_ hsent ⟨hincoming, hrest⟩ hwritten ?_
          ?_
        · simpa using hrequests
        · obtain hreading | hdraining := hphase
          · exact .inl hreading
          · exact .inr (.inl hdraining)
        · simp [hcount]
        · show _ + 3 * caller.todo.length + 2 * Request.size caller.todo +
            caller.connection.drains + (if caller.connection.phase = .closed then 0 else 1) ≤
              budget requests caller.connection.written
          rw [if_neg hlive]
          omega
      · obtain ⟨hclosed, -⟩ := receive_blocked (hblocks hincoming) hreceive
        exact absurd hclosed hlive
  | raised front request hrequests hwaiting hdone hphase hquiet hsent hwritten hcount hmoves =>
      obtain ⟨-, -, hfailed, rfl⟩ := receive_blocked (recv_nothing hquiet.2) hreceive
      refine .raised front request hrequests hwaiting hdone hphase hquiet hsent hwritten hcount ?_
      rw [hfailed, if_neg Bool.false_ne_true] at hmoves
      show _ + (if true = true then 0 else 1) ≤ budget requests caller.connection.written
      rw [if_pos rfl]
      omega

variable {σ : Type} {server : AsyncRedisServer σ} {world world' : σ} {item : Option Item}

/-- A connection that goes on behind its last reply waits for the next command. -/
theorem wake_draining {connection : Connection} (hphase : connection.phase = .draining)
    (hbuffer : connection.buffer = []) :
    connection.wake server world = (none, { connection with phase := .reading }, world) := by
  obtain ⟨pending, buffer, phase, written⟩ := connection
  obtain rfl : phase = .draining := hphase
  obtain rfl : buffer = [] := hbuffer
  rfl

theorem drains_draining {connection : Connection} (hphase : connection.phase = .draining) :
    connection.drains = 1 := by
  simp [Connection.drains, hphase]

theorem drains_reading {connection : Connection} (hphase : connection.phase = .reading) :
    connection.drains = 0 := by
  simp [Connection.drains, hphase]

/-- The connection of such a client never answers a malformed request. -/
theorem Paired.phase_cases (h : Paired requests moves done caller) :
    caller.connection.phase = .reading ∨ caller.connection.phase = .draining ∨
      caller.connection.phase = .closed := by
  cases h with
  | idle front hrequests hwaiting hfailed hdone hphase =>
      exact hphase.imp_right fun hother => hother.imp_right And.left
  | asked front request hrequests hwaiting hfailed hdone hphase =>
      exact hphase.imp_right fun hother => .inl hother.1
  | answered front request response reply hrequests hwaiting hfailed hdone hphase =>
      exact hphase.imp_right .inl
  | raised front request hrequests hwaiting hdone hphase => exact .inr (.inr hphase)

/-- `handle_client` goes on behind the last reply. -/
theorem Paired.drained (h : Paired requests moves done caller)
    (hdraining : caller.connection.phase = .draining) :
    caller.connection.buffer = [] ∧ Paired requests (moves + 1) done { caller with
      connection := { caller.connection with phase := .reading } } := by
  have hopen : caller.connection.phase ≠ .closed := by
    rw [hdraining]
    exact Phase.noConfusion
  have hreading : caller.connection.phase ≠ .reading := by
    rw [hdraining]
    exact Phase.noConfusion
  cases h with
  | idle front hrequests hwaiting hfailed hdone hphase hsent hquiet hwritten hcount hmoves =>
      refine ⟨hsent.2.2, .idle front hrequests hwaiting hfailed hdone (.inl rfl) hsent hquiet
        hwritten hcount ?_⟩
      rw [if_neg hopen, drains_draining hdraining] at hmoves
      show _ + 3 * caller.todo.length + 2 * Request.size caller.todo + 0 + 1 ≤
        budget requests caller.connection.written
      omega
  | asked front request hrequests hwaiting hfailed hdone hphase hsent hmissing hquiet hwritten
      hcount hmoves =>
      have hbuffer := (hphase.resolve_left hreading).2
      refine ⟨hbuffer, .asked front request hrequests hwaiting hfailed hdone (.inl rfl) hsent
        hmissing hquiet hwritten hcount ?_⟩
      rw [drains_draining hdraining] at hmoves
      show _ + 3 * caller.todo.length + 2 * Request.size caller.todo +
        2 * caller.outgoing.length + caller.connection.pending.length + 0 + 3 ≤
          budget requests caller.connection.written
      omega
  | answered front request response reply hrequests hwaiting hfailed hdone hphase hsent hreply
      harrives hwritten hcount hmoves =>
      refine ⟨hsent.2.2, .answered front request response reply hrequests hwaiting hfailed hdone
        (.inl rfl) hsent hreply harrives hwritten hcount ?_⟩
      rw [drains_draining hdraining] at hmoves
      show _ + 3 * caller.todo.length + 2 * Request.size caller.todo +
        caller.incoming.length + 0 + 2 ≤ budget requests caller.connection.written
      omega
  | raised front request hrequests hwaiting hdone hphase => exact absurd hphase hopen

/-- `handle_client` is at the end of the stream. -/
theorem Paired.ended (h : Paired requests moves done caller) (hend : caller.Done)
    (hreading : caller.connection.phase = .reading) :
    Paired requests (moves + 1) done { caller with
      connection := caller.connection.close } := by
  have hopen : caller.connection.phase ≠ .closed := by
    rw [hreading]
    exact Phase.noConfusion
  cases h with
  | idle front hrequests hwaiting hfailed hdone hphase hsent hquiet hwritten hcount hmoves =>
      refine .idle front hrequests hwaiting hfailed hdone (.inr (.inr ⟨rfl, hend.1⟩)) hsent hquiet
        hwritten hcount ?_
      rw [if_neg hopen, drains_reading hreading] at hmoves
      show _ + 3 * caller.todo.length + 2 * Request.size caller.todo +
        caller.connection.close.drains + (if Phase.closed = .closed then 0 else 1) ≤
          budget requests caller.connection.written
      rw [if_pos rfl, show caller.connection.close.drains = 0 from rfl]
      omega
  | asked front request hrequests hwaiting =>
      rw [hend.2] at hwaiting
      cases hwaiting
  | answered front request response reply hrequests hwaiting =>
      rw [hend.2] at hwaiting
      cases hwaiting
  | raised front request hrequests hwaiting =>
      rw [hend.2] at hwaiting
      cases hwaiting

/-- `handle_client` reads the next chunk of a request, which may be the last one. -/
theorem Paired.chunk (h : Paired requests moves done caller)
    (hreading : caller.connection.phase = .reading) {chunk : {chunk : Bytes // chunk ≠ []}}
    {rest : List {chunk : Bytes // chunk ≠ []}}
    (hpending : caller.connection.pending = chunk :: rest) {connection : Connection}
    (hturn : Connection.turn server { caller.connection with
      pending := rest
      buffer := caller.connection.buffer ++ chunk } world = (item, connection, world')) :
    Paired requests (moves + 1) (done ++ item.toList) { caller with
      incoming := caller.incoming ++
        (connection.written.drop caller.connection.written.length).flatten
      connection := connection } := by
  have hnonempty : caller.connection.pending ≠ [] := by
    rw [hpending]
    exact List.cons_ne_nil _ _
  cases h with
  | idle front hrequests hwaiting hfailed hdone hphase hsent => exact absurd hsent.2.1 hnonempty
  | answered front request response reply hrequests hwaiting hfailed hdone hphase hsent =>
      exact absurd hsent.2.1 hnonempty
  | raised front request hrequests hwaiting hdone hphase =>
      rw [hreading] at hphase
      cases hphase
  | asked front request hrequests hwaiting hfailed hdone hphase hsent hmissing hquiet hwritten
      hcount hmoves =>
      rw [drains_reading hreading, hpending, List.length_cons] at hmoves
      have hfront : caller.connection.buffer ++ chunk ++
          ((rest.map Subtype.val).flatten ++ caller.outgoing) = request.encoding := by
        rw [hpending] at hsent
        simpa using hsent
      by_cases hmore : (rest.map Subtype.val).flatten ++ caller.outgoing = []
      · -- the request is complete
        rw [hmore, List.append_nil] at hfront
        obtain ⟨hchunks, houtgoing⟩ := List.append_eq_nil_iff.mp hmore
        obtain rfl : rest = [] := by
          cases rest with
          | nil => rfl
          | cons chunk others => exact absurd (List.append_eq_nil_iff.mp hchunks).1 chunk.2
        obtain ⟨response, reply, between, hreply, hrun⟩ | ⟨between, hrun⟩ :=
          Connection.turn_request server request { caller.connection with
            pending := []
            buffer := caller.connection.buffer ++ chunk } world hfront
        · rw [hrun] at hturn
          cases hturn
          refine .answered front request response reply hrequests hwaiting hfailed ?_
            (.inr rfl) ⟨houtgoing, rfl, rfl⟩ hreply ?_ (congrArg (· ++ [reply]) hwritten)
            hcount ?_
          · rw [hdone, List.map_append]
            rfl
          · simp [hquiet.1, hquiet.2]
          · rw [houtgoing, List.length_nil, List.length_nil] at hmoves
            simp only [hquiet.1, List.nil_append, List.drop_left, List.flatten_singleton,
              Connection.drains, budget, List.flatten_append, List.length_append] at hmoves ⊢
            simp only [if_true, true_or]
            omega
        · rw [hrun] at hturn
          cases hturn
          refine .raised front request hrequests hwaiting ?_ rfl ?_ houtgoing hwritten hcount ?_
          · rw [hdone, List.map_append]
            rfl
          · simpa [Connection.close] using hquiet
          · rw [hfailed, if_neg Bool.false_ne_true]
            show _ ≤ budget requests caller.connection.written
            omega
      · rw [Connection.turn_part server request { caller.connection with
          pending := rest
          buffer := caller.connection.buffer ++ chunk } world hfront hmore] at hturn
        cases hturn
        rw [Option.toList_none, List.append_nil]
        refine .asked front request hrequests hwaiting hfailed hdone (.inl rfl) hfront hmore
          ?_ hwritten hcount ?_
        · simpa using hquiet
        · show _ + 3 * caller.todo.length + 2 * Request.size caller.todo +
            2 * caller.outgoing.length + rest.length + 0 + 3 ≤
              budget requests caller.connection.written
          omega

/-- When `handle_client` goes on, and what it does. -/
theorem resume_cases (hresume : caller.resume server world = some (item, after, world')) :
    caller.connection.phase ≠ .closed ∧
      (caller.connection.phase = .reading → caller.connection.pending = [] → caller.Done) ∧
      ∃ connection, caller.connection.wake server world = (item, connection, world') ∧
        after = { caller with
          incoming := caller.incoming ++
            (connection.written.drop caller.connection.written.length).flatten
          connection := connection } := by
  unfold Caller.resume at hresume
  dsimp only at hresume
  split at hresume
  · cases hresume
  · next hready =>
      obtain ⟨hopen, hread⟩ := not_or.mp hready
      refine ⟨hopen, fun hreading hpending => ?_, ?_⟩
      · by_contra hmore
        exact hread ⟨hreading, hpending, hmore⟩
      · cases hresume
        exact ⟨_, rfl, rfl⟩

theorem Paired.resume (h : Paired requests moves done caller)
    (hresume : caller.resume server world = some (item, after, world')) :
    Paired requests (moves + 1) (done ++ item.toList) after := by
  obtain ⟨hopen, hready, connection, hwake, rfl⟩ := resume_cases hresume
  obtain hphase | hphase | hclosed := h.phase_cases
  · cases hpending : caller.connection.pending with
    | nil =>
        have hended := h.ended (hready hphase hpending) hphase
        have hend : caller.connection.wake server world =
            (none, caller.connection.close, world) := by
          simp [Connection.wake, hphase, hpending]
        rw [hend] at hwake
        cases hwake
        simpa [Connection.close] using hended
    | cons chunk rest =>
        have hturn : caller.connection.wake server world = Connection.turn server
            { caller.connection with
              pending := rest
              buffer := caller.connection.buffer ++ chunk } world := by
          simp [Connection.wake, hphase, hpending]
        exact h.chunk hphase hpending (hturn.symm.trans hwake)
  · obtain ⟨hbuffer, hdrained⟩ := h.drained hphase
    rw [wake_draining hphase hbuffer] at hwake
    cases hwake
    simpa using hdrained
  · exact absurd hclosed hopen

theorem Paired.move (h : Paired requests moves done caller) {move : Move}
    (hmove : caller.move server world move = some (item, after, world')) :
    Paired requests (moves + 1) (done ++ item.toList) after := by
  cases move with
  | send =>
      obtain ⟨next, hnext, hdone⟩ := Option.map_eq_some_iff.mp hmove
      cases hdone
      rw [Option.toList_none, List.append_nil]
      exact h.send hnext
  | carry size =>
      obtain ⟨next, hnext, hdone⟩ := Option.map_eq_some_iff.mp hmove
      cases hdone
      rw [Option.toList_none, List.append_nil]
      exact h.carry hnext
  | resume => exact h.resume hmove
  | arrive size =>
      obtain ⟨next, hnext, hdone⟩ := Option.map_eq_some_iff.mp hmove
      cases hdone
      rw [Option.toList_none, List.append_nil]
      exact h.arrive hnext
  | receive =>
      obtain ⟨next, hnext, hdone⟩ := Option.map_eq_some_iff.mp hmove
      cases hdone
      rw [Option.toList_none, List.append_nil]
      exact h.receive hnext

/-- A client that is not done and has not failed can make a move. -/
theorem Paired.progress (h : Paired requests moves done caller) (server : AsyncRedisServer σ)
    (world : σ) :
    caller.Done ∨ caller.failed = true ∨ ∃ move, (caller.move server world move).isSome := by
  have hready : ∀ {connection : Connection}, caller.connection = connection →
      ¬ (connection.phase = .closed ∨
        connection.phase = .reading ∧ connection.pending = [] ∧ ¬ caller.Done) →
      ∃ move, (caller.move server world move).isSome := by
    intro connection hconnection hgoes
    subst hconnection
    refine ⟨.resume, ?_⟩
    show (caller.resume server world).isSome
    unfold Caller.resume
    dsimp only
    rw [if_neg hgoes]
    rfl
  cases h with
  | idle front hrequests hwaiting hfailed =>
      cases htodo : caller.todo with
      | nil => exact .inl ⟨htodo, hwaiting⟩
      | cons request rest =>
          refine .inr (.inr ⟨.send, ?_⟩)
          simp [Caller.move, Caller.send, hwaiting, htodo]
  | asked front request hrequests hwaiting hfailed hdone hphase hsent hmissing =>
      refine .inr (.inr ?_)
      obtain hreading | ⟨hdraining, -⟩ := hphase
      · cases hpending : caller.connection.pending with
        | nil =>
            -- there is something on its way
            rw [hpending] at hmissing
            have hone : caller.outgoing.take 1 ≠ [] := by
              cases houtgoing : caller.outgoing with
              | nil => simp [houtgoing] at hmissing
              | cons byte rest => simp
            exact ⟨.carry 1, by simp [Caller.move, Caller.carry, hone]⟩
        | cons chunk rest => exact hready rfl (by simp [hreading, hpending])
      · exact hready rfl (by simp [hdraining])
  | answered front request response reply hrequests hwaiting hfailed hdone hphase hsent hreply
      harrives =>
      refine .inr (.inr ?_)
      cases hincoming : caller.incoming with
      | nil =>
          obtain ⟨rest, hrun, -⟩ := (Benchmark.recv_resp_waits hreply harrives).2 hincoming
          exact ⟨.receive, by simp [Caller.move, Caller.receive, hwaiting, hfailed, hrun]⟩
      | cons byte rest => exact ⟨.arrive 1, by simp [Caller.move, Caller.arrive, hincoming]⟩
  | raised front request hrequests hwaiting hdone hphase hquiet =>
      cases hfailed : caller.failed with
      | true => exact .inr (.inl rfl)
      | false =>
          refine .inr (.inr ⟨.receive, ?_⟩)
          have hblocks := recv_nothing hquiet.2
          simp only [Caller.move, Caller.receive, hwaiting, hfailed, and_self, if_true]
          generalize Benchmark.recvResp caller.inbox = result at hblocks
          obtain ⟨result, rest⟩ := result
          obtain rfl : result = .error .osError := hblocks
          simp [hphase, hquiet.1]

/-- What a client can rely on, when some items of it have been served with some replies. -/
structure Trusts (requests : List Request) (items : List Item) (replies : List Bytes)
    (caller : Caller) : Prop where
  asked : ∃ asked, requests = asked ++ caller.todo ∧ items <+: asked.map Request.item ∧
    (caller.waiting = true → caller.responses.length + 1 = asked.length) ∧
    (caller.waiting = false → caller.responses.length = asked.length ∧
      items = asked.map Request.item)
  responses : caller.responses <+: replies
  complete : caller.waiting = false → caller.responses = replies
  failed : caller.failed = true → replies.length + 1 = items.length

theorem Paired.trusts (h : Paired requests moves done caller) :
    Trusts requests done caller.connection.written caller := by
  cases h with
  | idle front hrequests hwaiting hfailed hdone hphase hsent hquiet hwritten hcount =>
      refine ⟨⟨front, hrequests, hdone ▸ List.prefix_rfl, fun hbusy => ?_,
        fun _ => ⟨hcount, hdone⟩⟩, hwritten ▸ List.prefix_rfl, fun _ => hwritten.symm,
        fun hfails => ?_⟩
      · rw [hwaiting] at hbusy
        cases hbusy
      · rw [hfailed] at hfails
        cases hfails
  | asked front request hrequests hwaiting hfailed hdone hphase hsent hmissing hquiet hwritten
      hcount =>
      refine ⟨⟨front ++ [request], by simpa using hrequests, ?_, fun _ => ?_, fun hidle => ?_⟩,
        hwritten ▸ List.prefix_rfl, fun _ => hwritten.symm, fun hfails => ?_⟩
      · rw [hdone, List.map_append]
        exact List.prefix_append _ _
      · rw [hcount, List.length_append]
        rfl
      · rw [hwaiting] at hidle
        cases hidle
      · rw [hfailed] at hfails
        cases hfails
  | answered front request response reply hrequests hwaiting hfailed hdone hphase hsent hreply
      harrives hwritten hcount =>
      refine ⟨⟨front ++ [request], by simpa using hrequests, hdone ▸ List.prefix_rfl, fun _ => ?_,
        fun hidle => ?_⟩, ?_, fun hidle => ?_, fun hfails => ?_⟩
      · rw [hcount, List.length_append]
        rfl
      · rw [hwaiting] at hidle
        cases hidle
      · rw [hwritten]
        exact List.prefix_append _ _
      · rw [hwaiting] at hidle
        cases hidle
      · rw [hfailed] at hfails
        cases hfails
  | raised front request hrequests hwaiting hdone hphase hquiet hsent hwritten hcount =>
      refine ⟨⟨front ++ [request], by simpa using hrequests, hdone ▸ List.prefix_rfl, fun _ => ?_,
        fun hidle => ?_⟩, hwritten ▸ List.prefix_rfl, fun _ => hwritten.symm, fun _ => ?_⟩
      · rw [hcount, List.length_append]
        rfl
      · rw [hwaiting] at hidle
        cases hidle
      · rw [hwritten, hcount, hdone, List.length_map, List.length_append]
        rfl

/-- Until a command raises, each item that has been served has been answered. -/
theorem Paired.level (h : Paired requests moves done caller)
    (hopen : caller.connection.phase ≠ .closed) :
    caller.connection.written.length = done.length := by
  cases h with
  | idle front hrequests hwaiting hfailed hdone hphase hsent hquiet hwritten hcount =>
      rw [hwritten, hcount, hdone, List.length_map]
  | asked front request hrequests hwaiting hfailed hdone hphase hsent hmissing hquiet hwritten
      hcount =>
      rw [hwritten, hcount, hdone, List.length_map]
  | answered front request response reply hrequests hwaiting hfailed hdone hphase hsent hreply
      harrives hwritten hcount =>
      rw [hwritten, List.length_append, hcount, hdone, List.length_map, List.length_append]
      rfl
  | raised front request hrequests hwaiting hdone hphase => exact absurd hphase hopen

theorem Paired.moves_le (h : Paired requests moves done caller) :
    moves ≤ budget requests caller.connection.written := by
  cases h <;> omega

/-- Either `handle_client` goes on, or a move serves nothing and writes nothing. -/
theorem move_cases {move : Move}
    (hmove : caller.move server world move = some (item, after, world')) :
    caller.resume server world = some (item, after, world') ∨
      item = none ∧ world' = world ∧ after.connection.written = caller.connection.written := by
  have hquiet : ∀ {next : Option Caller},
      (∀ other, next = some other → other.connection.written = caller.connection.written) →
      (next.map fun other => ((none : Option Item), other, world)) = some (item, after, world') →
      item = none ∧ world' = world ∧ after.connection.written = caller.connection.written := by
    intro next hwritten hmapped
    obtain ⟨other, hother, hsame⟩ := Option.map_eq_some_iff.mp hmapped
    cases hsame
    exact ⟨rfl, rfl, hwritten _ hother⟩
  cases move with
  | send =>
      refine .inr (hquiet (fun other hsend => ?_) hmove)
      unfold Caller.send at hsend
      split at hsend
      · cases hsend
        rfl
      · cases hsend
  | carry size =>
      refine .inr (hquiet (fun other hcarry => ?_) hmove)
      unfold Caller.carry at hcarry
      split at hcarry
      · cases hcarry
        rfl
      · cases hcarry
  | resume => exact .inl hmove
  | arrive size =>
      refine .inr (hquiet (fun other harrive => ?_) hmove)
      unfold Caller.arrive at harrive
      split at harrive
      · cases harrive
        rfl
      · cases harrive
  | receive =>
      refine .inr (hquiet (fun other hreceive => ?_) hmove)
      unfold Caller.receive at hreceive
      split at hreceive
      · split at hreceive
        · cases hreceive
          rfl
        · split at hreceive
          · cases hreceive
            rfl
          · cases hreceive
        · cases hreceive
          rfl
      · cases hreceive

/-- What a move does to the store and the replies is what its item does on its own. -/
theorem move_alone {ι θ : Type} (server : θ → AsyncRedisServer σ) (client : ι) (now : θ)
    {move : Move} (hmove : caller.move (server now) world move = some (item, after, world')) :
    ∃ replies, after.connection.written = caller.connection.written ++ replies ∧
      Event.aloneAll server ((item.map (Event.served client)).toList.map (Prod.mk now)) world =
        (replies.map fun reply => (client, reply), world') := by
  rcases move_cases hmove with hresume | ⟨rfl, rfl, hwritten⟩
  · obtain ⟨-, -, connection, hwake, rfl⟩ := resume_cases hresume
    have halone := Connection.wake_alone server client now caller.connection world
    rw [hwake] at halone
    exact halone
  · exact ⟨[], by rw [hwritten, List.append_nil], rfl⟩

/-- An item is served when `handle_client` goes on, which is not at an end. -/
theorem open_of_item {move : Move} {served : Item}
    (hmove : caller.move server world move = some (some served, after, world')) :
    caller.connection.phase ≠ .closed := by
  rcases move_cases hmove with hresume | ⟨hnothing, -⟩
  · exact (resume_cases hresume).1
  · cases hnothing

end Caller

end MiniRedis
