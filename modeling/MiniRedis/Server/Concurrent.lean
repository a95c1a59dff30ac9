import Mathlib.Logic.Function.Basic
import MiniRedis.Persistence.JsonText
import MiniRedis.Server.Connection
import MiniRedis.Server.Dispatcher

/-!
# Concurrent clients

Any number of connections and the periodic snapshot over one dispatcher. A task runs until it
awaits: a connection reads a chunk and works on its buffer up to the first reply it has to
wait for, or goes on behind a reply that was sent. `concurrent_clients_linearizable` says that
what the tasks do is what some sequence of requests and snapshots does on the one store.
-/

namespace MiniRedis

/-- What a client sends: a command, or something malformed. -/
inductive Item where
  | command (command : Command)
  | malformed (message : String)
deriving DecidableEq

/-- Where a connection awaits: the next chunk, or the sending of a reply, or nothing any more. -/
inductive Phase where
  | reading
  | draining
  | errorDraining
  | closed
deriving DecidableEq

/-- A connection: the chunks to come, the buffer, and what was written so far. -/
structure Connection where
  pending : List {chunk : Bytes // chunk ≠ []}
  buffer : Bytes
  phase : Phase
  written : List Bytes

/-- What the connections share: the dispatcher and the snapshot callback. -/
structure AsyncRedisServer (σ : Type) where
  dispatch : Command → Py σ Response
  snapshotCallback : Py σ Unit

namespace Connection

variable {σ : Type} (server : AsyncRedisServer σ)

/-- The inner loop of `handle_client` up to the next await: the items it takes off the buffer, the
connection and the shared state. `none` if something raises. -/
def proceed (connection : Connection) (world : σ) : Option (List Item × Connection × σ) :=
  if connection.buffer = [] then some ([], { connection with phase := .reading }, world)
  else
    match RespParser.parseOne connection.buffer with
    | .error (.incomplete _) => some ([], { connection with phase := .reading }, world)
    | .error (.protocol message) =>
        match RespEncoder.encode (Response.ofError message) with
        | .error _ => none
        | .ok reply =>
            some ([.malformed message], { connection with
              phase := .errorDraining
              written := connection.written ++ [reply] }, world)
    | .ok (command, consumed) =>
        match Service.answer server.dispatch command world with
        | (.error _, _) => none
        | (.ok reply, world) =>
            some ([.command command], { connection with
              buffer := connection.buffer.drop consumed
              phase := .draining
              written := connection.written ++ [reply] }, world)

/-- What a connection does when it is resumed. -/
def resume (connection : Connection) (world : σ) : Option (List Item × Connection × σ) :=
  match connection.phase, connection.pending with
  | .reading, [] => some ([], { connection with phase := .closed }, world)
  | .reading, chunk :: rest =>
      proceed server { connection with
        pending := rest
        buffer := connection.buffer ++ chunk } world
  | .draining, _ => proceed server connection world
  | .errorDraining, _ => some ([], { connection with buffer := [], phase := .reading }, world)
  | .closed, _ => none

end Connection

/-- The connections and the shared state. -/
structure Concurrent (ι σ : Type) where
  connections : ι → Connection
  world : σ

/-- What happens to the shared state: an item of a client is served, or a snapshot is taken. -/
inductive Event (ι : Type) where
  | served (client : ι) (item : Item)
  | snapshot

namespace Concurrent

variable {ι σ : Type} [DecidableEq ι] (server : AsyncRedisServer σ)

/-- Connections that were just opened. -/
def start (inputs : ι → List {chunk : Bytes // chunk ≠ []}) (world : σ) : Concurrent ι σ :=
  ⟨fun client => ⟨inputs client, [], .reading, []⟩, world⟩

/-- One task runs until it awaits: a connection, or the periodic snapshot. `none` if the task is
done or raises. -/
def step (state : Concurrent ι σ) : Option ι → Option (List (Event ι) × Concurrent ι σ)
  | some client =>
      match (state.connections client).resume server state.world with
      | none => none
      | some (items, connection, world) =>
          some (items.map (Event.served client),
            ⟨Function.update state.connections client connection, world⟩)
  | none =>
      match server.snapshotCallback state.world with
      | (.error _, _) => none
      | (.ok _, world) => some ([.snapshot], { state with world })

/-- Tasks run in some order. -/
def run (state : Concurrent ι σ) : List (Option ι) → Option (List (Event ι) × Concurrent ι σ)
  | [] => some ([], state)
  | task :: rest => do
      let (events, middle) ← state.step server task
      let (others, after) ← middle.run rest
      return (events ++ others, after)

end Concurrent

namespace Event

variable {ι σ : Type} (server : AsyncRedisServer σ)

/-- An event on its own: the reply, and whom it goes to. -/
def perform : Event ι → Py σ (List (ι × Bytes))
  | .served client (.command command) => do
      let reply ← Service.answer server.dispatch command
      return [(client, reply)]
  | .served client (.malformed message) => do
      let reply ← Py.ofExcept (RespEncoder.encode (Response.ofError message))
      return [(client, reply)]
  | .snapshot => do
      server.snapshotCallback
      return []

/-- Events one after the other, on the one store. -/
def serial : List (Event ι) → Py σ (List (ι × Bytes))
  | [] => return []
  | event :: rest => do
      let replies ← perform server event
      let others ← serial rest
      return replies ++ others

variable [DecidableEq ι]

/-- The items of a client. -/
def itemsOf (client : ι) (events : List (Event ι)) : List Item :=
  events.filterMap fun
    | .served other item => if other = client then some item else none
    | .snapshot => none

/-- The replies that go to a client. -/
def repliesTo (client : ι) (replies : List (ι × Bytes)) : List Bytes :=
  replies.filterMap fun reply => if reply.1 = client then some reply.2 else none

end Event

/-- What a buffer brings, and what is left of it: behind something malformed nothing is. -/
def unread (buffer : Bytes) : List Item × Bytes :=
  let stream := respParser.split buffer
  (stream.items.map .command ++ stream.error.toList.map .malformed,
    if stream.error.isSome then [] else stream.rest)

/-- What a client sends in some chunks, behind what is in the buffer. -/
def sent : Bytes → List {chunk : Bytes // chunk ≠ []} → List Item × Bytes
  | buffer, [] => ([], buffer)
  | buffer, chunk :: rest =>
      let first := unread (buffer ++ chunk)
      let others := sent first.2 rest
      (first.1 ++ others.1, others.2)

/-- One more chunk is read behind what the others left. -/
theorem sent_snoc (buffer : Bytes) (consumed : List {chunk : Bytes // chunk ≠ []})
    (chunk : {chunk : Bytes // chunk ≠ []}) :
    sent buffer (consumed ++ [chunk]) =
      ((sent buffer consumed).1 ++ (unread ((sent buffer consumed).2 ++ chunk)).1,
        (unread ((sent buffer consumed).2 ++ chunk)).2) := by
  induction consumed generalizing buffer with
  | nil => simp [sent]
  | cons first rest ih =>
      rw [List.cons_append, sent, ih]
      simp [sent, List.append_assoc]

theorem unread_wait {buffer : Bytes} (h : respVerdict buffer = .wait) :
    unread buffer = ([], buffer) := by
  have hsplit : respParser.split buffer = ⟨[], buffer, none⟩ :=
    Incremental.StableParser.split_wait h
  simp [unread, hsplit]

theorem unread_fail {buffer : Bytes} {message : String} (h : respVerdict buffer = .fail message) :
    unread buffer = ([.malformed message], []) := by
  have hsplit : respParser.split buffer = ⟨[], buffer, some message⟩ :=
    Incremental.StableParser.split_fail h
  simp [unread, hsplit]

theorem unread_item {buffer : Bytes} {command : Command} {consumed : Nat}
    (h : respVerdict buffer = .item command consumed) :
    unread buffer = (.command command :: (unread (buffer.drop consumed)).1,
      (unread (buffer.drop consumed)).2) := by
  have hsplit : respParser.split buffer =
      ⟨command :: (respParser.split (buffer.drop consumed)).items,
        (respParser.split (buffer.drop consumed)).rest,
        (respParser.split (buffer.drop consumed)).error⟩ :=
    Incremental.StableParser.split_item h
  simp [unread, hsplit]

namespace Event

variable {ι σ : Type} {server : AsyncRedisServer σ}

/-- Events go on where the ones before them have left the store. -/
theorem serial_append {first second : List (Event ι)} {world middle after : σ}
    {replies others : List (ι × Bytes)} (h : serial server first world = (.ok replies, middle))
    (h' : serial server second middle = (.ok others, after)) :
    serial server (first ++ second) world = (.ok (replies ++ others), after) := by
  induction first generalizing world replies with
  | nil =>
      cases h
      exact h'
  | cons event rest ih =>
      rw [serial] at h
      rw [List.cons_append, serial]
      simp only [Py.bind_apply] at h ⊢
      split at h
      · next front between hevent =>
          split at h
          · next back last hrest =>
              cases h
              rw [ih hrest]
              simp [List.append_assoc]
          · cases h
      · cases h

variable [DecidableEq ι]

theorem replies_to_append (client : ι) (first second : List (ι × Bytes)) :
    repliesTo client (first ++ second) = repliesTo client first ++ repliesTo client second :=
  List.filterMap_append

theorem items_of_append (client : ι) (first second : List (Event ι)) :
    itemsOf client (first ++ second) = itemsOf client first ++ itemsOf client second :=
  List.filterMap_append

end Event

namespace Connection

variable {σ : Type} {server : AsyncRedisServer σ}

/-- What the connection has still to take off its buffer, and what is left then. -/
def left (connection : Connection) : List Item × Bytes :=
  if connection.phase = .errorDraining then ([], []) else unread connection.buffer

/-- The items `done` of what a client sent have been served, and what it sent in the chunks that
were read is these items and those that are left in the buffer. -/
structure Progress (input : List {chunk : Bytes // chunk ≠ []}) (connection : Connection)
    (done : List Item) : Prop where
  consumed : ∃ consumed, input = consumed ++ connection.pending ∧
    sent [] consumed = (done ++ connection.left.1, connection.left.2)
  idle : connection.phase = .reading ∨ connection.phase = .closed →
    unread connection.buffer = ([], connection.buffer)
  finished : connection.phase = .closed → connection.pending = []

/-- A connection has taken some items off its buffer and answered each of them. -/
structure Answers {ι : Type} (server : AsyncRedisServer σ) (client : ι)
    (connection after : Connection) (world world' : σ) (items : List Item) : Prop where
  pending : after.pending = connection.pending
  buffer : unread connection.buffer = (items ++ after.left.1, after.left.2)
  idle : after.phase = .reading ∨ after.phase = .closed → unread after.buffer = ([], after.buffer)
  stays : after.phase ≠ .closed
  replies : ∃ replies, Event.serial server (items.map (Event.served client)) world =
      (.ok (replies.map fun reply => (client, reply)), world') ∧
    after.written = connection.written ++ replies

/-- A connection that waits for more bytes has nothing to answer. -/
theorem Answers.wait {ι : Type} (client : ι) {connection : Connection} (world : σ)
    (h : respVerdict connection.buffer = .wait) :
    Answers server client connection { connection with phase := .reading } world world [] := by
  have hbuffer := unread_wait h
  refine ⟨rfl, ?_, fun _ => hbuffer, by simp, [], rfl, by simp⟩
  simp [left, hbuffer]

/-- The inner loop takes items off the buffer and answers each of them. -/
theorem proceed_spec {ι : Type} (client : ι) {connection after : Connection} {world world' : σ}
    {items : List Item} (h : connection.proceed server world = some (items, after, world')) :
    Answers server client connection after world world' items := by
  unfold proceed at h
  split at h
  · next hempty =>
      cases h
      refine .wait client world ?_
      rw [hempty]
      exact verdict_wait_iff.mpr ⟨"empty buffer", by simp [RespParser.parseOne]⟩
  · split at h
    · next message hparse =>
        cases h
        exact .wait client world (verdict_wait_iff.mpr ⟨message, hparse⟩)
    · next message hparse =>
        split at h
        · cases h
        · next reply hreply =>
            cases h
            refine ⟨rfl, ?_, by simp, by simp, [reply], ?_, rfl⟩
            · rw [unread_fail (verdict_fail_iff.mpr hparse)]
              simp [left]
            · simp [Event.serial, Event.perform, hreply]
    · next command consumed hparse =>
        split at h
        · cases h
        · next reply between hanswer =>
            cases h
            refine ⟨rfl, ?_, by simp, by simp, [reply], ?_, rfl⟩
            · rw [unread_item (verdict_item_iff.mpr hparse)]
              simp [left]
            · simp [Event.serial, Event.perform, hanswer]

/-- A connection that is resumed goes on where it was, and answers what it takes off its buffer. -/
theorem resume_spec {ι : Type} (client : ι) {connection after : Connection} {world world' : σ}
    {items : List Item} (h : connection.resume server world = some (items, after, world'))
    {input : List {chunk : Bytes // chunk ≠ []}} {done : List Item}
    (hprogress : connection.Progress input done) :
    after.Progress input (done ++ items) ∧
      ∃ replies, Event.serial server (items.map (Event.served client)) world =
          (.ok (replies.map fun reply => (client, reply)), world') ∧
        after.written = connection.written ++ replies := by
  obtain ⟨⟨consumed, hinput, hsent⟩, hidle, hfinished⟩ := hprogress
  obtain ⟨pending, buffer, phase, written⟩ := connection
  -- by where the task was suspended: in `read`, or in one of the two calls of `drain`
  cases phase with
  | reading =>
      have hbuffer : unread buffer = ([], buffer) := hidle (.inl rfl)
      have hleft : sent [] consumed = (done, buffer) := by
        rw [hsent]
        simp [left, hbuffer]
      cases pending with
      | nil =>
          cases h
          refine ⟨⟨⟨consumed, hinput, ?_⟩, fun _ => hbuffer, fun _ => rfl⟩, [], rfl, by simp⟩
          rw [hleft]
          simp [left, hbuffer]
      | cons chunk rest =>
          obtain ⟨hpending, hunread, hidle', hopen, hserial⟩ := proceed_spec client h
          refine ⟨⟨⟨consumed ++ [chunk], ?_, ?_⟩, hidle', fun hclosed => absurd hclosed hopen⟩,
            hserial⟩
          · rw [hinput, hpending, List.append_assoc]
            rfl
          · rw [sent_snoc, hleft, hunread, List.append_assoc]
  | draining =>
      obtain ⟨hpending, hunread, hidle', hopen, hserial⟩ := proceed_spec client h
      refine ⟨⟨⟨consumed, by rw [hinput, hpending], ?_⟩, hidle',
        fun hclosed => absurd hclosed hopen⟩, hserial⟩
      have hleft : left ⟨pending, buffer, .draining, written⟩ = unread buffer := by simp [left]
      have hunread' : unread buffer = (items ++ after.left.1, after.left.2) := hunread
      rw [hsent, hleft, hunread', List.append_assoc]
  | errorDraining =>
      cases h
      have hempty : unread [] = ([], []) :=
        unread_wait (verdict_wait_iff.mpr ⟨"empty buffer", by simp [RespParser.parseOne]⟩)
      refine ⟨⟨⟨consumed, hinput, ?_⟩, fun _ => hempty, by simp⟩, [], rfl, by simp⟩
      rw [hsent]
      simp [left, hempty]
  | closed => cases h

end Connection

namespace Event

variable {ι : Type} [DecidableEq ι]

theorem items_of_served (client other : ι) (items : List Item) :
    itemsOf other (items.map (Event.served client)) = if client = other then items else [] := by
  rw [itemsOf, List.filterMap_map]
  split
  · next hsame => simp [hsame]
  · next hother => simp [hother]

theorem replies_to_served (client other : ι) (replies : List Bytes) :
    repliesTo other (replies.map fun reply => (client, reply)) =
      if client = other then replies else [] := by
  rw [repliesTo, List.filterMap_map]
  split
  · next hsame => simp [hsame]
  · next hother => simp [hother]

/-- How often a snapshot is taken. -/
def snapshots (events : List (Event ι)) : Nat :=
  events.countP fun
    | .snapshot => true
    | .served .. => false

end Event

namespace Concurrent

variable {ι σ : Type} [DecidableEq ι] {server : AsyncRedisServer σ}

/-- A connection that runs leaves the others as they are. -/
theorem step_frame {state after : Concurrent ι σ} {client : ι} {events : List (Event ι)}
    (h : state.step server (some client) = some (events, after)) {other : ι}
    (hother : other ≠ client) : after.connections other = state.connections other := by
  rw [step] at h
  split at h
  · cases h
  · cases h
    exact Function.update_of_ne hother _ _

/-- What the events have in common with what the tasks have done: run one after the other they do
the same to the store, and give each client the replies that were written to it; and what each
client sent is served up to what is in its buffer. -/
structure Accounts (server : AsyncRedisServer σ) (inputs : ι → List {chunk : Bytes // chunk ≠ []})
    (first : σ) (events : List (Event ι)) (state : Concurrent ι σ) : Prop where
  serial : ∃ replies, Event.serial server events first = (.ok replies, state.world) ∧
    ∀ client, (state.connections client).written = Event.repliesTo client replies
  progress : ∀ client, (state.connections client).Progress (inputs client)
    (Event.itemsOf client events)

/-- One task adds its events. -/
theorem accounts_step {inputs : ι → List {chunk : Bytes // chunk ≠ []}} {first : σ}
    {events more : List (Event ι)} {state after : Concurrent ι σ} {task : Option ι}
    (h : Accounts server inputs first events state)
    (hstep : state.step server task = some (more, after)) :
    Accounts server inputs first (events ++ more) after ∧
      Event.snapshots more = if task = none then 1 else 0 := by
  obtain ⟨⟨replies, hserial, hwritten⟩, hprogress⟩ := h
  cases task with
  | some client =>
      rw [step] at hstep
      split at hstep
      · cases hstep
      · next items connection world hresume =>
          cases hstep
          obtain ⟨hafter, others, hothers, hreplies⟩ :=
            Connection.resume_spec client hresume (hprogress client)
          refine ⟨⟨⟨replies ++ others.map fun reply => (client, reply),
            Event.serial_append hserial hothers, ?_⟩, ?_⟩, ?_⟩
          · intro other
            show (Function.update state.connections client connection other).written = _
            rw [Event.replies_to_append, Event.replies_to_served, ← hwritten other]
            -- a task changes no connection but its own
            by_cases hother : client = other
            · subst hother
              rw [if_pos rfl, Function.update_self, hreplies]
            · rw [if_neg hother, Function.update_of_ne (Ne.symm hother), List.append_nil]
          · intro other
            show (Function.update state.connections client connection other).Progress _ _
            rw [Event.items_of_append, Event.items_of_served]
            by_cases hother : client = other
            · subst hother
              rw [if_pos rfl, Function.update_self]
              exact hafter
            · rw [if_neg hother, Function.update_of_ne (Ne.symm hother), List.append_nil]
              exact hprogress other
          · rw [if_neg (by simp), Event.snapshots, List.countP_map]
            exact List.countP_eq_zero.mpr (by simp)
  | none =>
      rw [step] at hstep
      split at hstep
      · cases hstep
      · next world hsnapshot =>
          cases hstep
          have hevent : Event.serial server [(Event.snapshot : Event ι)] state.world =
              (.ok [], world) := by
            simp [Event.serial, Event.perform, hsnapshot]
          refine ⟨⟨⟨replies ++ [], Event.serial_append hserial hevent, ?_⟩, ?_⟩, rfl⟩
          · intro client
            rw [List.append_nil]
            exact hwritten client
          · intro client
            rw [Event.items_of_append]
            show (state.connections client).Progress (inputs client)
              (Event.itemsOf client events ++ [])
            rw [List.append_nil]
            exact hprogress client

/-- Tasks that run add their events. -/
theorem accounts_run {inputs : ι → List {chunk : Bytes // chunk ≠ []}} {first : σ}
    {schedule : List (Option ι)} {events more : List (Event ι)} {state after : Concurrent ι σ}
    (h : Accounts server inputs first events state)
    (hrun : state.run server schedule = some (more, after)) :
    Accounts server inputs first (events ++ more) after ∧
      Event.snapshots more = schedule.count none := by
  induction schedule generalizing events more state with
  | nil =>
      cases hrun
      rw [List.append_nil]
      exact ⟨h, rfl⟩
  | cons task rest ih =>
      obtain ⟨⟨front, middle⟩, hstep, hrest⟩ := Option.bind_eq_some_iff.mp hrun
      obtain ⟨⟨back, last⟩, hlast, hdone⟩ := Option.bind_eq_some_iff.mp hrest
      cases hdone
      obtain ⟨hmiddle, hone⟩ := accounts_step h hstep
      obtain ⟨hafter, hcount⟩ := ih hmiddle hlast
      refine ⟨by rwa [← List.append_assoc], ?_⟩
      rw [Event.snapshots, List.countP_append]
      show Event.snapshots front + Event.snapshots back = _
      rw [hone, hcount, List.count_cons, Nat.add_comm]
      simp

/-- New connections have nothing to account for. -/
theorem accounts_start (inputs : ι → List {chunk : Bytes // chunk ≠ []}) (world : σ) :
    Accounts server inputs world [] (start inputs world) := by
  have hempty : unread [] = ([], []) :=
    unread_wait (verdict_wait_iff.mpr ⟨"empty buffer", by simp [RespParser.parseOne]⟩)
  refine ⟨⟨[], rfl, fun client => rfl⟩, ?_⟩
  intro client
  refine ⟨⟨[], rfl, ?_⟩, fun _ => hempty, fun hclosed => ?_⟩
  · simp [sent, start, Connection.left, hempty, Event.itemsOf]
  · cases hclosed

/-- Whatever the schedule, as long as no task raises: the requests and snapshots in the order of
`events`, run one after the other on the one store, do to the store what the tasks did, and give
each client the replies that were written to it. The items of a client in this order are those that
it sent, in the order in which it sent them, and all of them once its connection waits for data or
is closed. A connection that goes on from here, be it for a protocol error, leaves the others as
they are. -/
theorem concurrent_clients_linearizable (server : AsyncRedisServer σ)
    (inputs : ι → List {chunk : Bytes // chunk ≠ []}) (world : σ) (schedule : List (Option ι))
    {events : List (Event ι)} {state : Concurrent ι σ}
    (h : (start inputs world).run server schedule = some (events, state)) :
    (∃ replies, Event.serial server events world = (.ok replies, state.world) ∧
      ∀ client, (state.connections client).written = Event.repliesTo client replies) ∧
    Event.snapshots events = schedule.count none ∧
    (∀ client, ∃ consumed, inputs client = consumed ++ (state.connections client).pending ∧
      Event.itemsOf client events <+: (sent [] consumed).1 ∧
      ((state.connections client).phase = .reading ∨ (state.connections client).phase = .closed →
        Event.itemsOf client events = (sent [] consumed).1) ∧
      ((state.connections client).phase = .closed → (state.connections client).pending = [])) ∧
    ∀ client more after, state.step server (some client) = some (more, after) →
      ∀ other, other ≠ client → after.connections other = state.connections other := by
  obtain ⟨haccounts, hcount⟩ := accounts_run (accounts_start inputs world) h
  rw [List.nil_append] at haccounts
  refine ⟨haccounts.serial, hcount, ?_, ?_⟩
  · intro client
    obtain ⟨⟨consumed, hinput, hsent⟩, hidle, hfinished⟩ := haccounts.progress client
    refine ⟨consumed, hinput, ?_, ?_, hfinished⟩
    · rw [hsent]
      exact List.prefix_append _ _
    · intro hphase
      have hleft : (state.connections client).left.1 = [] := by
        rw [Connection.left]
        split
        · rfl
        · rw [hidle hphase]
      rw [hsent, hleft, List.append_nil]
  · intro client more after hstep other hother
    exact step_frame hstep hother

/-- Two clients of a server with persistence, and a snapshot: between two pipelined commands of one
client the other one sets the same key, and then sends something malformed. -/
theorem clients_interleaved :
    let _ : PyHash String := ⟨fun key => key.length⟩
    let server : AsyncRedisServer (World String) :=
      ⟨(⟨some ⟨JsonText.codec⟩, none⟩ : Dispatcher).dispatch,
        PersistenceManager.snapshot ⟨JsonText.codec⟩⟩
    let first : {chunk : Bytes // chunk ≠ []} := ⟨Bytes.ofText
      "*3\r\n$3\r\nSET\r\n$1\r\nk\r\n$1\r\nv\r\n*2\r\n$3\r\nGET\r\n$1\r\nk\r\n", by decide⟩
    let second : {chunk : Bytes // chunk ≠ []} :=
      ⟨Bytes.ofText "*3\r\n$3\r\nSET\r\n$1\r\nk\r\n$1\r\nw\r\nx", by decide⟩
    let inputs := fun client : Bool => if client then [first] else [second]
    let world : World String := ⟨InMemoryStore.init fun n => Reading.atSecond (Fin.ofNat _ n),
      Disk.reliable Files.empty⟩
    ∃ events state replies,
      (start inputs world).run server
        [some true, some false, none, some true, some false] = some (events, state) ∧
      Event.serial server events world = (.ok replies, state.world) ∧
      Event.repliesTo true replies = [Bytes.ofText "+OK\r\n", Bytes.ofText "$1\r\nw\r\n"] ∧
      Event.repliesTo false replies =
        [Bytes.ofText "+OK\r\n", Bytes.ofText "-ERR expected RESP array\r\n"] := by
  intro _ server first second inputs world
  have hrun : ((start inputs world).run server
      [some true, some false, none, some true, some false]).map
        (fun result => ((result.2.connections true).written,
          (result.2.connections false).written)) =
      some ([Bytes.ofText "+OK\r\n", Bytes.ofText "$1\r\nw\r\n"],
        [Bytes.ofText "+OK\r\n", Bytes.ofText "-ERR expected RESP array\r\n"]) := by
    decide +kernel
  obtain ⟨⟨events, state⟩, hstate, hwritten⟩ := Option.map_eq_some_iff.mp hrun
  rw [Prod.mk.injEq] at hwritten
  obtain ⟨⟨replies, hserial, hreplies⟩, -⟩ :=
    concurrent_clients_linearizable server inputs world
      [some true, some false, none, some true, some false] hstate
  exact ⟨events, state, replies, hstate, hserial, (hreplies true).symm.trans hwritten.1,
    (hreplies false).symm.trans hwritten.2⟩

end Concurrent

end MiniRedis
