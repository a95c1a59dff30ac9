import MiniRedis.Server.Concurrent

/-!
# Failures stay where they are

An exception in `handle_client` closes the connection it belongs to, whether a command raises, its
reply cannot be encoded or the peer is gone; `_run_snapshot_once` swallows the exception of a
snapshot. So the event loop always goes on, and `failures_isolated` needs no hypothesis:
whatever raises, the tasks do what some sequence of requests and snapshots does, each on its own.
`clients_served_whole` says that a client that is resumed often enough gets all its replies, up to
the first of its items that raises.
-/

namespace MiniRedis

/-- What the event loop does next: the await of a connection returns, or it raises as the peer is
gone; or the periodic snapshot is due. -/
inductive Wake (ι : Type) where
  | resume (client : ι)
  | lose (client : ι)
  | snapshot
deriving DecidableEq

namespace Connection

variable {σ : Type} (server : AsyncRedisServer σ)

/-- The connection behind the `finally` of `handle_client`. -/
def close (connection : Connection) : Connection := { connection with phase := .closed }

/-- The inner loop of `handle_client` up to the next await, where an exception closes the
connection: the item it takes off the buffer, the connection and the shared state. -/
def turn (connection : Connection) (world : σ) : Option Item × Connection × σ :=
  if connection.buffer = [] then (none, { connection with phase := .reading }, world)
  else
    match RespParser.parseOne connection.buffer with
    | .error (.incomplete _) => (none, { connection with phase := .reading }, world)
    | .error (.protocol message) =>
        match RespEncoder.encode (Response.ofError message) with
        | .error _ => (some (.malformed message), connection.close, world)
        | .ok reply =>
            (some (.malformed message), { connection with
              phase := .errorDraining
              written := connection.written ++ [reply] }, world)
    | .ok (command, consumed) =>
        let connection := { connection with buffer := connection.buffer.drop consumed }
        match Service.answer server.dispatch command world with
        | (.error _, world) => (some (.command command), connection.close, world)
        | (.ok reply, world) =>
            (some (.command command), { connection with
              phase := .draining
              written := connection.written ++ [reply] }, world)

/-- What a connection does when its await returns. -/
def wake (connection : Connection) (world : σ) : Option Item × Connection × σ :=
  match connection.phase, connection.pending with
  | .reading, [] => (none, connection.close, world)
  | .reading, chunk :: rest =>
      turn server { connection with
        pending := rest
        buffer := connection.buffer ++ chunk } world
  | .draining, _ => turn server connection world
  | .errorDraining, _ => (none, { connection with buffer := [], phase := .reading }, world)
  | .closed, _ => (none, connection, world)

end Connection

namespace Concurrent

variable {ι σ θ : Type} [DecidableEq ι]

/-- The event loop goes on with a task until it awaits or ends. -/
def wake (server : AsyncRedisServer σ) (state : Concurrent ι σ) :
    Wake ι → Option (Event ι) × Concurrent ι σ
  | .resume client =>
      let turn := (state.connections client).wake server state.world
      (turn.1.map (Event.served client),
        ⟨Function.update state.connections client turn.2.1, turn.2.2⟩)
  | .lose client =>
      (none, ⟨Function.update state.connections client (state.connections client).close,
        state.world⟩)
  | .snapshot => (some .snapshot, { state with world := (server.snapshotCallback state.world).2 })

/-- The event loop, where what the dispatcher does may depend on the time. -/
def live (server : θ → AsyncRedisServer σ) (state : Concurrent ι σ) :
    List (θ × Wake ι) → List (θ × Event ι) × Concurrent ι σ
  | [] => ([], state)
  | (now, task) :: rest =>
      let first := state.wake (server now) task
      let others := first.2.live server rest
      (first.1.toList.map (Prod.mk now) ++ others.1, others.2)

end Concurrent

/-- An item on its own: the reply, unless it raises. -/
def Item.answer {σ : Type} (server : AsyncRedisServer σ) : Item → Py σ Bytes
  | .command request => Service.answer server.dispatch request
  | .malformed message => Py.ofExcept (RespEncoder.encode (Response.ofError message))

/-- An item that a client sent, and what became of it: a reply, or an exception. -/
abbrev Fate := Item × Except PyError Bytes

namespace Fate

/-- The replies among what became of some items. -/
def replies (fates : List Fate) : List Bytes := fates.filterMap fun fate => fate.2.toOption

/-- Each of the items has a reply. -/
def Answered (fates : List Fate) : Prop := ∀ fate ∈ fates, ∃ reply, fate.2 = .ok reply

/-- The last item has raised, and each one before it has a reply. -/
def Raised (fates : List Fate) : Prop :=
  ∃ front item error, fates = front ++ [(item, .error error)] ∧ Answered front

theorem replies_append (front back : List Fate) :
    replies (front ++ back) = replies front ++ replies back := List.filterMap_append

theorem Answered.append {front back : List Fate} (hfront : Answered front)
    (hback : Answered back) : Answered (front ++ back) := by
  intro fate hfate
  rcases List.mem_append.mp hfate with h | h
  · exact hfront fate h
  · exact hback fate h

theorem answered_single (item : Item) (reply : Bytes) : Answered [(item, .ok reply)] := by
  intro fate hfate
  rw [List.mem_singleton.mp hfate]
  exact ⟨reply, rfl⟩

end Fate

namespace Event

variable {ι σ θ : Type}

/-- An event on its own. There is no reply if it raises, and what it has done until then stays. -/
def alone (server : AsyncRedisServer σ) (event : Event ι) (world : σ) : List (ι × Bytes) × σ :=
  match perform server event world with
  | (.ok replies, after) => (replies, after)
  | (.error _, after) => ([], after)

/-- Events one after the other, each on its own. -/
def aloneAll (server : θ → AsyncRedisServer σ) : List (θ × Event ι) → σ → List (ι × Bytes) × σ
  | [], world => ([], world)
  | (now, event) :: rest, world =>
      let first := alone (server now) event world
      let others := aloneAll server rest first.2
      (first.1 ++ others.1, others.2)

/-- What became of the items of a client in some events, each on its own. -/
def fatesOf [DecidableEq ι] (server : θ → AsyncRedisServer σ) (client : ι) :
    List (θ × Event ι) → σ → List Fate
  | [], _ => []
  | (now, event) :: rest, world =>
      let others := fatesOf server client rest (alone (server now) event world).2
      match event with
      | .served other item =>
          if other = client then (item, (item.answer (server now) world).1) :: others else others
      | .snapshot => others

theorem alone_all_append (server : θ → AsyncRedisServer σ) (first second : List (θ × Event ι))
    (world : σ) :
    aloneAll server (first ++ second) world =
      ((aloneAll server first world).1 ++
          (aloneAll server second (aloneAll server first world).2).1,
        (aloneAll server second (aloneAll server first world).2).2) := by
  induction first generalizing world with
  | nil => rfl
  | cons event rest ih =>
      rw [List.cons_append, aloneAll, aloneAll, ih]
      simp only [List.append_assoc]

theorem fates_of_append [DecidableEq ι] (server : θ → AsyncRedisServer σ) (client : ι)
    (first second : List (θ × Event ι)) (world : σ) :
    fatesOf server client (first ++ second) world = fatesOf server client first world ++
      fatesOf server client second (aloneAll server first world).2 := by
  induction first generalizing world with
  | nil => rfl
  | cons event rest ih =>
      obtain ⟨now, event⟩ := event
      cases event with
      | snapshot => exact ih _
      | served other item =>
          simp only [List.cons_append, fatesOf, aloneAll, ih]
          split <;> rfl

/-- A snapshot on its own, whether it is taken or not. -/
theorem alone_snapshot (server : θ → AsyncRedisServer σ) (now : θ) (world : σ) :
    aloneAll server [(now, (Event.snapshot : Event ι))] world =
      ([], ((server now).snapshotCallback world).2) := by
  cases hrun : (server now).snapshotCallback world with
  | mk result after => cases result <;> simp [aloneAll, alone, perform, hrun]

end Event

/-- What a client sends in some chunks and then in others. -/
theorem sent_append (buffer : Bytes) (first second : List {chunk : Bytes // chunk ≠ []}) :
    sent buffer (first ++ second) =
      ((sent buffer first).1 ++ (sent (sent buffer first).2 second).1,
        (sent (sent buffer first).2 second).2) := by
  induction first generalizing buffer with
  | nil => simp [sent]
  | cons chunk rest ih =>
      rw [List.cons_append, sent, ih]
      simp [sent, List.append_assoc]

namespace Connection

variable {σ : Type} {server : AsyncRedisServer σ}

/-- Where nothing raises, a turn is what it is for `proceed`. -/
theorem turn_eq_proceed {connection after : Connection} {world world' : σ} {items : List Item}
    (h : connection.proceed server world = some (items, after, world')) :
    ∃ item, items = Option.toList item ∧ turn server connection world = (item, after, world') := by
  by_cases hempty : connection.buffer = []
  · rw [proceed, if_pos hempty] at h
    cases h
    exact ⟨none, rfl, if_pos hempty⟩
  rw [proceed, if_neg hempty] at h
  rw [turn, if_neg hempty]
  cases hparse : RespParser.parseOne connection.buffer with
  | error error =>
      rw [hparse] at h
      cases error with
      | incomplete message =>
          cases h
          exact ⟨none, rfl, rfl⟩
      | protocol message =>
          dsimp only at h ⊢
          cases hreply : RespEncoder.encode (Response.ofError message) with
          | error error =>
              rw [hreply] at h
              cases h
          | ok reply =>
              rw [hreply] at h
              cases h
              exact ⟨some (.malformed message), rfl, rfl⟩
  | ok parsed =>
      obtain ⟨command, consumed⟩ := parsed
      rw [hparse] at h
      dsimp only at h ⊢
      cases hanswer : Service.answer server.dispatch command world with
      | mk result between =>
          rw [hanswer] at h
          cases result with
          | error error => cases h
          | ok reply =>
              cases h
              exact ⟨some (.command command), rfl, rfl⟩

theorem wake_eq_resume {connection after : Connection} {world world' : σ} {items : List Item}
    (h : connection.resume server world = some (items, after, world')) :
    ∃ item, items = Option.toList item ∧ wake server connection world = (item, after, world') := by
  obtain ⟨pending, buffer, phase, written⟩ := connection
  cases phase with
  | reading =>
      cases pending with
      | nil =>
          cases h
          exact ⟨none, rfl, rfl⟩
      | cons chunk rest => exact turn_eq_proceed h
  | draining => exact turn_eq_proceed h
  | errorDraining =>
      cases h
      exact ⟨none, rfl, rfl⟩
  | closed => cases h

/-- What a turn can do. -/
inductive Turned (server : AsyncRedisServer σ) (connection : Connection) (world : σ) :
    Option Item × Connection × σ → Prop where
  | waits (hunread : unread connection.buffer = ([], connection.buffer)) :
      Turned server connection world (none, { connection with phase := .reading }, world)
  | refuses {message : String} {reply : Bytes}
      (hunread : unread connection.buffer = ([.malformed message], []))
      (hreply : RespEncoder.encode (Response.ofError message) = .ok reply) :
      Turned server connection world (some (.malformed message), { connection with
        phase := .errorDraining
        written := connection.written ++ [reply] }, world)
  | answers {command : Command} {rest reply : Bytes} {after : σ}
      (hunread : unread connection.buffer = (.command command :: (unread rest).1, (unread rest).2))
      (hanswer : Service.answer server.dispatch command world = (.ok reply, after)) :
      Turned server connection world (some (.command command), { connection with
        buffer := rest
        phase := .draining
        written := connection.written ++ [reply] }, after)
  | raises {command : Command} {rest : Bytes} {error : PyError} {after : σ}
      (hunread : unread connection.buffer = (.command command :: (unread rest).1, (unread rest).2))
      (hanswer : Service.answer server.dispatch command world = (.error error, after)) :
      Turned server connection world (some (.command command),
        close { connection with buffer := rest }, after)

theorem turn_spec (connection : Connection) (world : σ) :
    Turned server connection world (turn server connection world) := by
  unfold turn
  split
  · next hempty =>
      refine .waits (unread_wait ?_)
      rw [hempty]
      exact verdict_wait_iff.mpr ⟨"empty buffer", by simp [RespParser.parseOne]⟩
  · split
    · next message hparse => exact .waits (unread_wait (verdict_wait_iff.mpr ⟨message, hparse⟩))
    · next message hparse =>
        -- the reply to a malformed request can always be encoded
        have hreply := RespParser.encode_protocol_message (RespParser.parse_one_message hparse)
        simp only [hreply]
        exact .refuses (unread_fail (verdict_fail_iff.mpr hparse)) hreply
    · next command consumed hparse =>
        have hunread := unread_item (verdict_item_iff.mpr hparse)
        dsimp only
        split
        · next error after hanswer => exact .raises hunread hanswer
        · next reply after hanswer => exact .answers hunread hanswer

/-- How many replies a connection waits for. -/
def drains (connection : Connection) : Nat :=
  if connection.phase = .draining ∨ connection.phase = .errorDraining then 1 else 0

/-- Where the conversation with a client is after some turns, with what has become of its items. -/
inductive Conversation (input : List {chunk : Bytes // chunk ≠ []}) (lost : Prop) (turns : Nat)
    (done : List Fate) (connection : Connection) : Prop where
  | goesOn (consumed : List {chunk : Bytes // chunk ≠ []}) (hphase : connection.phase ≠ .closed)
      (hinput : input = consumed ++ connection.pending)
      (hsent : sent [] consumed =
        (done.map Prod.fst ++ connection.left.1, connection.left.2))
      (hidle : connection.phase = .reading →
        unread connection.buffer = ([], connection.buffer))
      (hturns : turns + connection.drains = consumed.length + done.length)
      (hanswered : Fate.Answered done)
  | finished (hphase : connection.phase = .closed) (hpending : connection.pending = [])
      (hdone : done.map Prod.fst = (sent [] input).1) (hanswered : Fate.Answered done)
  | lost (consumed : List {chunk : Bytes // chunk ≠ []}) (hphase : connection.phase = .closed)
      (hinput : input = consumed ++ connection.pending) (hlost : lost)
      (hdone : done.map Prod.fst <+: (sent [] consumed).1) (hanswered : Fate.Answered done)
  | raised (consumed : List {chunk : Bytes // chunk ≠ []}) (hphase : connection.phase = .closed)
      (hinput : input = consumed ++ connection.pending)
      (hdone : done.map Prod.fst <+: (sent [] consumed).1) (hraised : Fate.Raised done)

/-- An item that has just been taken off the buffer, if there is one, and what became of it. -/
def fates (server : AsyncRedisServer σ) (item : Option Item) (world : σ) : List Fate :=
  item.toList.map fun item => (item, (item.answer server world).1)

section

variable {input : List {chunk : Bytes // chunk ≠ []}} {lost : Prop} {turns : Nat}
  {done : List Fate} {connection : Connection}

/-- A turn at the front of a buffer that holds what follows the items that are done. -/
theorem Turned.conversation {world : σ} {result : Option Item × Connection × σ}
    (h : Turned server connection world result) (consumed : List {chunk : Bytes // chunk ≠ []})
    (hinput : input = consumed ++ connection.pending)
    (hsent : sent [] consumed =
      (done.map Prod.fst ++ (unread connection.buffer).1, (unread connection.buffer).2))
    (hturns : turns = consumed.length + done.length) (hanswered : Fate.Answered done) :
    Conversation input lost turns (done ++ fates server result.1 world) result.2.1 := by
  cases h with
  | waits hunread =>
      refine .goesOn consumed (by simp) hinput ?_ (fun _ => hunread) ?_ ?_
      · rw [hsent]
        simp [left, fates]
      · simpa [drains, fates] using hturns
      · simpa [fates] using hanswered
  | @refuses message reply hunread hreply =>
      have hfate : fates server (some (.malformed message)) world =
          [(.malformed message, .ok reply)] := by
        simp [fates, Item.answer, hreply]
      rw [hfate]
      refine .goesOn consumed (by simp) hinput ?_ (by simp) ?_
        (hanswered.append (Fate.answered_single _ reply))
      · rw [hsent, hunread]
        simp [left]
      · simp [drains, hturns, Nat.add_assoc]
  | @answers command rest reply after hunread hanswer =>
      have hfate : fates server (some (.command command)) world =
          [(.command command, .ok reply)] := by
        simp [fates, Item.answer, hanswer]
      rw [hfate]
      refine .goesOn consumed (by simp) hinput ?_ (by simp) ?_
        (hanswered.append (Fate.answered_single _ reply))
      · rw [hsent, hunread]
        simp [left]
      · simp [drains, hturns, Nat.add_assoc]
  | @raises command rest error after hunread hanswer =>
      have hfate : fates server (some (.command command)) world =
          [(.command command, .error error)] := by
        simp [fates, Item.answer, hanswer]
      rw [hfate]
      refine .raised consumed rfl hinput ?_ ⟨done, .command command, error, rfl, hanswered⟩
      rw [hsent, hunread, List.map_append]
      exact (List.prefix_append_right_inj _).mpr (List.prefix_append [_] _)

/-- A connection whose await returns goes on with the conversation. -/
theorem wake_conversation (world : σ) (h : Conversation input lost turns done connection) :
    Conversation input lost (turns + 1)
      (done ++ fates server (wake server connection world).1 world)
      (wake server connection world).2.1 := by
  -- a connection that is closed stays as it is
  have hclosed : connection.phase = .closed →
      wake server connection world = (none, connection, world) ∧
        done ++ fates server (none : Option Item) world = done := by
    intro hphase
    exact ⟨by simp [wake, hphase], List.append_nil done⟩
  cases h with
  | goesOn consumed hphase hinput hsent hidle hturns hanswered =>
      obtain ⟨pending, buffer, phase, written⟩ := connection
      cases phase with
      | reading =>
          have hbuffer : unread buffer = ([], buffer) := hidle rfl
          have hleft : sent [] consumed = (done.map Prod.fst, buffer) := by
            rw [hsent]
            simp [left, hbuffer]
          have hcount : turns = consumed.length + done.length := by simpa [drains] using hturns
          cases pending with
          | nil =>
              refine .finished rfl rfl ?_ ?_
              · rw [hinput]
                show (done ++ []).map Prod.fst = (sent [] (consumed ++ [])).1
                rw [List.append_nil, List.append_nil, hleft]
              · show Fate.Answered (done ++ [])
                rw [List.append_nil]
                exact hanswered
          | cons chunk rest =>
              refine (turn_spec _ world).conversation (consumed ++ [chunk]) ?_ ?_ ?_ hanswered
              · rw [hinput, List.append_assoc]
                rfl
              · rw [sent_snoc, hleft]
              · rw [List.length_append, List.length_singleton]
                omega
      | draining =>
          refine (turn_spec _ world).conversation consumed hinput ?_ ?_ hanswered
          · rw [hsent]
            simp [left]
          · simpa [drains] using hturns
      | errorDraining =>
          have hempty : unread [] = ([], []) :=
            unread_wait (verdict_wait_iff.mpr ⟨"empty buffer", by simp [RespParser.parseOne]⟩)
          have hcount : turns + 1 = consumed.length + done.length := by
            simpa [drains] using hturns
          refine .goesOn consumed (by simp [wake]) hinput ?_ (fun _ => hempty) ?_ ?_
          · rw [hsent]
            simp [wake, left, hempty, fates]
          · simpa [wake, drains, fates] using hcount
          · simpa [wake, fates] using hanswered
      | closed => exact absurd rfl hphase
  | finished hphase hpending hdone hanswered =>
      obtain ⟨hstays, hnothing⟩ := hclosed hphase
      rw [hstays, hnothing]
      exact .finished hphase hpending hdone hanswered
  | lost consumed hphase hinput hlost hdone hanswered =>
      obtain ⟨hstays, hnothing⟩ := hclosed hphase
      rw [hstays, hnothing]
      exact .lost consumed hphase hinput hlost hdone hanswered
  | raised consumed hphase hinput hdone hraised =>
      obtain ⟨hstays, hnothing⟩ := hclosed hphase
      rw [hstays, hnothing]
      exact .raised consumed hphase hinput hdone hraised

/-- A connection whose peer is gone is closed, and what was served stays served. -/
theorem Conversation.close (h : Conversation input lost turns done connection) (hlost : lost) :
    Conversation input lost turns done connection.close := by
  cases h with
  | goesOn consumed hphase hinput hsent hidle hturns hanswered =>
      refine .lost consumed rfl hinput hlost ?_ hanswered
      rw [hsent]
      exact List.prefix_append _ _
  | finished hphase hpending hdone hanswered => exact .finished rfl hpending hdone hanswered
  | lost consumed hphase hinput hlost hdone hanswered =>
      exact .lost consumed rfl hinput hlost hdone hanswered
  | raised consumed hphase hinput hdone hraised =>
      exact .raised consumed rfl hinput hdone hraised

theorem Conversation.mono {lost' : Prop} (h : Conversation input lost turns done connection)
    (hmono : lost → lost') : Conversation input lost' turns done connection := by
  cases h with
  | goesOn consumed hphase hinput hsent hidle hturns hanswered =>
      exact .goesOn consumed hphase hinput hsent hidle hturns hanswered
  | finished hphase hpending hdone hanswered => exact .finished hphase hpending hdone hanswered
  | lost consumed hphase hinput hlost hdone hanswered =>
      exact .lost consumed hphase hinput (hmono hlost) hdone hanswered
  | raised consumed hphase hinput hdone hraised =>
      exact .raised consumed hphase hinput hdone hraised

/-- A connection has sent the reply to the item that it took off the buffer. -/
theorem Turned.written {world : σ} {result : Option Item × Connection × σ}
    (h : Turned server connection world result) :
    result.2.1.written = connection.written ++ Fate.replies (fates server result.1 world) := by
  cases h with
  | waits hunread => exact (List.append_nil _).symm
  | refuses hunread hreply => simp [fates, Fate.replies, Item.answer, hreply, Except.toOption]
  | answers hunread hanswer => simp [fates, Fate.replies, Item.answer, hanswer, Except.toOption]
  | raises hunread hanswer =>
      simp [fates, Fate.replies, Item.answer, hanswer, close, Except.toOption]

theorem wake_written (connection : Connection) (world : σ) :
    (wake server connection world).2.1.written = connection.written ++
      Fate.replies (fates server (wake server connection world).1 world) := by
  obtain ⟨pending, buffer, phase, written⟩ := connection
  cases phase with
  | reading =>
      cases pending with
      | nil => exact (List.append_nil _).symm
      | cons chunk rest => exact (turn_spec _ world).written
  | draining => exact (turn_spec _ world).written
  | errorDraining => exact (List.append_nil _).symm
  | closed => exact (List.append_nil _).symm

/-- How a client has been treated, by what has become of the items that were served. -/
structure Treated (input : List {chunk : Bytes // chunk ≠ []}) (lost : Prop) (done : List Fate)
    (connection : Connection) : Prop where
  written : connection.written = Fate.replies done
  ordered : ∃ consumed, input = consumed ++ connection.pending ∧
    done.map Prod.fst <+: (sent [] consumed).1 ∧
    (connection.phase = .reading → done.map Prod.fst = (sent [] consumed).1)
  answered : connection.phase ≠ .closed → Fate.Answered done
  closed : connection.phase = .closed →
    Fate.Answered done ∧
        (connection.pending = [] ∧ done.map Prod.fst = (sent [] input).1 ∨ lost) ∨
      Fate.Raised done

/-- There are no more turns than chunks and items, until the connection is closed. -/
theorem Conversation.ends (h : Conversation input lost turns done connection)
    (hturns : input.length + (sent [] input).1.length < turns) : connection.phase = .closed := by
  cases h with
  | goesOn consumed hphase hinput hsent hidle hcount hanswered =>
      -- what has been read and served is no more than there is
      have hchunks := congrArg List.length hinput
      have hitems : (sent [] input).1 = done.map Prod.fst ++
          (connection.left.1 ++ (sent connection.left.2 connection.pending).1) := by
        rw [hinput, sent_append, hsent, List.append_assoc]
      rw [hitems, List.length_append, List.length_map] at hturns
      rw [List.length_append] at hchunks
      omega
  | finished hphase hpending hdone hanswered => exact hphase
  | lost consumed hphase hinput hlost hdone hanswered => exact hphase
  | raised consumed hphase hinput hdone hraised => exact hphase

theorem Conversation.treated (h : Conversation input lost turns done connection)
    (hwritten : connection.written = Fate.replies done) :
    Treated input lost done connection := by
  cases h with
  | goesOn consumed hphase hinput hsent hidle hturns hanswered =>
      refine ⟨hwritten, ⟨consumed, hinput, ?_, fun hreading => ?_⟩, fun _ => hanswered,
        fun hclosed => absurd hclosed hphase⟩
      · rw [hsent]
        exact List.prefix_append _ _
      · have hleft : connection.left.1 = [] := by
          rw [left, hreading, if_neg (by simp), hidle hreading]
        rw [hsent, hleft, List.append_nil]
  | finished hphase hpending hdone hanswered =>
      refine ⟨hwritten, ⟨input, by rw [hpending, List.append_nil], ?_, fun _ => hdone⟩,
        fun hopen => absurd hphase hopen, fun _ => .inl ⟨hanswered, .inl ⟨hpending, hdone⟩⟩⟩
      exact hdone ▸ List.prefix_rfl
  | lost consumed hphase hinput hlost hdone hanswered =>
      refine ⟨hwritten, ⟨consumed, hinput, hdone, fun hreading => ?_⟩,
        fun hopen => absurd hphase hopen, fun _ => .inl ⟨hanswered, .inr hlost⟩⟩
      rw [hphase] at hreading
      cases hreading
  | raised consumed hphase hinput hdone hraised =>
      refine ⟨hwritten, ⟨consumed, hinput, hdone, fun hreading => ?_⟩,
        fun hopen => absurd hphase hopen, fun _ => .inr hraised⟩
      rw [hphase] at hreading
      cases hreading

end

variable {ι θ : Type} (server : θ → AsyncRedisServer σ) (client : ι) (now : θ)

/-- The item that a turn takes off the buffer, on its own, is answered the same. -/
theorem Turned.alone {connection : Connection} {world : σ}
    {result : Option Item × Connection × σ}
    (h : Turned (server now) connection world result) :
    ∃ replies, result.2.1.written = connection.written ++ replies ∧
      Event.aloneAll server ((result.1.map (Event.served client)).toList.map (Prod.mk now)) world =
        (replies.map fun reply => (client, reply), result.2.2) := by
  cases h with
  | waits hunread => exact ⟨[], (List.append_nil _).symm, rfl⟩
  | @refuses message reply hunread hreply =>
      refine ⟨[reply], rfl, ?_⟩
      simp [Event.aloneAll, Event.alone, Event.perform, hreply]
  | @answers command rest reply after hunread hanswer =>
      refine ⟨[reply], rfl, ?_⟩
      simp [Event.aloneAll, Event.alone, Event.perform, hanswer]
  | @raises command rest error after hunread hanswer =>
      refine ⟨[], (List.append_nil _).symm, ?_⟩
      simp [Event.aloneAll, Event.alone, Event.perform, hanswer]

/-- What a connection does when its await returns is what its item does on its own. -/
theorem wake_alone (connection : Connection) (world : σ) :
    ∃ replies, (wake (server now) connection world).2.1.written = connection.written ++ replies ∧
      Event.aloneAll server (((wake (server now) connection world).1.map
          (Event.served client)).toList.map (Prod.mk now)) world =
        (replies.map fun reply => (client, reply), (wake (server now) connection world).2.2) := by
  obtain ⟨pending, buffer, phase, written⟩ := connection
  cases phase with
  | reading =>
      cases pending with
      | nil => exact ⟨[], (List.append_nil _).symm, rfl⟩
      | cons chunk rest => exact (turn_spec _ world).alone server client now
  | draining => exact (turn_spec _ world).alone server client now
  | errorDraining => exact ⟨[], (List.append_nil _).symm, rfl⟩
  | closed => exact ⟨[], (List.append_nil _).symm, rfl⟩

end Connection

theorem Event.items_of_option {ι : Type} [DecidableEq ι] (client other : ι) (item : Option Item) :
    itemsOf other (item.map (Event.served client)).toList =
      if client = other then item.toList else [] := by
  cases item with
  | none => simp [itemsOf]
  | some item => exact items_of_served client other [item]

/-- What becomes of one item. -/
theorem Event.fates_of_served {ι σ θ : Type} [DecidableEq ι] (server : θ → AsyncRedisServer σ)
    (client other : ι) (now : θ) (item : Option Item) (world : σ) :
    fatesOf server other ((item.map (Event.served client)).toList.map (Prod.mk now)) world =
      if client = other then Connection.fates (server now) item world else [] := by
  cases item with
  | none => simp [fatesOf, Connection.fates]
  | some item => simp [fatesOf, Connection.fates]

namespace Concurrent

variable {ι σ θ : Type} [DecidableEq ι] {server : θ → AsyncRedisServer σ}

/-- A schedule in which no task raises goes as it does for `run`. -/
theorem live_eq_run {server : AsyncRedisServer σ} {schedule : List (Option ι)}
    {state after : Concurrent ι σ} {events : List (Event ι)}
    (h : state.run server schedule = some (events, after)) :
    state.live (fun _ => server)
        (schedule.map fun task => ((), task.elim Wake.snapshot Wake.resume)) =
      (events.map (Prod.mk ()), after) := by
  induction schedule generalizing state events with
  | nil =>
      cases h
      rfl
  | cons task rest ih =>
      obtain ⟨⟨front, middle⟩, hstep, hrest⟩ := Option.bind_eq_some_iff.mp h
      obtain ⟨⟨back, last⟩, hlast, hdone⟩ := Option.bind_eq_some_iff.mp hrest
      cases hdone
      have hfirst : ∃ event, front = Option.toList event ∧
          state.wake server (task.elim Wake.snapshot Wake.resume) = (event, middle) := by
        cases task with
        | some client =>
            rw [step] at hstep
            split at hstep
            · cases hstep
            · next items connection world hresume =>
                cases hstep
                obtain ⟨item, rfl, hwake⟩ := Connection.wake_eq_resume hresume
                refine ⟨item.map (Event.served client), Option.toList_map.symm, ?_⟩
                simp [Concurrent.wake, hwake]
        | none =>
            rw [step] at hstep
            split at hstep
            · cases hstep
            · next world hsnapshot =>
                cases hstep
                exact ⟨some .snapshot, rfl, by simp [Concurrent.wake, hsnapshot]⟩
      obtain ⟨event, rfl, hwake⟩ := hfirst
      rw [List.map_cons, live, hwake, ih hlast, List.map_append]

/-- What the events have in common with what the tasks have done in a schedule: on their own they
do the same to the store and give each client the replies that were written to it, and the
conversation with each client has come as far as its turns go. -/
structure Reckons (server : θ → AsyncRedisServer σ)
    (inputs : ι → List {chunk : Bytes // chunk ≠ []}) (first : σ) (schedule : List (θ × Wake ι))
    (events : List (θ × Event ι)) (state : Concurrent ι σ) : Prop where
  world : (Event.aloneAll server events first).2 = state.world
  written : ∀ client, (state.connections client).written =
    Fate.replies (Event.fatesOf server client events first)
  conversation : ∀ client, (state.connections client).Conversation (inputs client)
    (.lose client ∈ schedule.map Prod.snd) ((schedule.map Prod.snd).count (.resume client))
    (Event.fatesOf server client events first)
  snapshots : Event.snapshots (events.map Prod.snd) = (schedule.map Prod.snd).count .snapshot

/-- New connections have nothing to reckon with. -/
theorem reckons_start (inputs : ι → List {chunk : Bytes // chunk ≠ []}) (world : σ) :
    Reckons server inputs world [] [] (start inputs world) := by
  have hempty : unread [] = ([], []) :=
    unread_wait (verdict_wait_iff.mpr ⟨"empty buffer", by simp [RespParser.parseOne]⟩)
  refine ⟨rfl, fun client => rfl, fun client => ?_, rfl⟩
  refine .goesOn [] (by simp [start]) rfl ?_ (fun _ => hempty) rfl fun fate h => by cases h
  simp [sent, start, Connection.left, hempty, Event.fatesOf]

theorem count_more (schedule : List (θ × Wake ι)) (now : θ) (task other : Wake ι) :
    ((schedule ++ [(now, task)]).map Prod.snd).count other =
      (schedule.map Prod.snd).count other + if task = other then 1 else 0 := by
  rw [List.map_append, List.count_append, List.map_cons, List.map_nil, List.count_singleton]
  simp

theorem items_of_more (client : ι) (events : List (θ × Event ι)) (now : θ)
    (event : Option (Event ι)) :
    Event.itemsOf client ((events ++ event.toList.map (Prod.mk now)).map Prod.snd) =
      Event.itemsOf client (events.map Prod.snd) ++ Event.itemsOf client event.toList := by
  rw [List.map_append, List.map_map, Event.items_of_append]
  exact congrArg (_ ++ Event.itemsOf client ·) (List.map_id _)

omit [DecidableEq ι] in
theorem snapshots_more (events : List (θ × Event ι)) (now : θ) (event : Option (Event ι)) :
    Event.snapshots ((events ++ event.toList.map (Prod.mk now)).map Prod.snd) =
      Event.snapshots (events.map Prod.snd) + Event.snapshots event.toList := by
  rw [List.map_append, List.map_map, Event.snapshots, List.countP_append]
  exact congrArg (_ + Event.snapshots ·) (List.map_id _)

/-- One task adds its event. -/
theorem Reckons.wake {inputs : ι → List {chunk : Bytes // chunk ≠ []}} {first : σ}
    {schedule : List (θ × Wake ι)} {events : List (θ × Event ι)} {state : Concurrent ι σ}
    (h : Reckons server inputs first schedule events state) (now : θ) (task : Wake ι) :
    Reckons server inputs first (schedule ++ [(now, task)])
      (events ++ (state.wake (server now) task).1.toList.map (Prod.mk now))
      (state.wake (server now) task).2 := by
  obtain ⟨hworld, hwritten, hconversation, hsnapshots⟩ := h
  have hlost : ∀ {other : ι}, task ≠ .lose other →
      (.lose other ∈ (schedule ++ [(now, task)]).map Prod.snd) =
        (.lose other ∈ schedule.map Prod.snd) := by
    intro other hother
    simp [List.map_append, Ne.symm hother]
  -- what has become of the items of a client, with that of the new event
  have hfates : ∀ other, Event.fatesOf server other
      (events ++ (state.wake (server now) task).1.toList.map (Prod.mk now)) first =
        Event.fatesOf server other events first ++ Event.fatesOf server other
          ((state.wake (server now) task).1.toList.map (Prod.mk now)) state.world := by
    intro other
    rw [Event.fates_of_append, hworld]
  cases task with
  | resume client =>
      obtain ⟨replies, hreplies, halone⟩ :=
        Connection.wake_alone server client now (state.connections client) state.world
      refine ⟨?_, fun other => ?_, fun other => ?_, ?_⟩
      · rw [Event.alone_all_append, hworld]
        exact congrArg Prod.snd halone
      · rw [hfates]
        show (Function.update state.connections client _ other).written = _
        rw [Concurrent.wake, Event.fates_of_served]
        by_cases hother : client = other
        · subst hother
          rw [if_pos rfl, Function.update_self, Fate.replies_append, ← hwritten client]
          exact Connection.wake_written _ _
        · rw [if_neg hother, Function.update_of_ne (Ne.symm hother), List.append_nil]
          exact hwritten other
      · rw [hfates]
        show (Function.update state.connections client _ other).Conversation _ _ _ _
        rw [count_more, hlost (by simp), Concurrent.wake, Event.fates_of_served]
        by_cases hother : client = other
        · subst hother
          rw [if_pos rfl, if_pos rfl, Function.update_self]
          exact Connection.wake_conversation state.world (hconversation client)
        · rw [if_neg (by simp [hother]), if_neg hother, Function.update_of_ne (Ne.symm hother),
            List.append_nil]
          exact hconversation other
      · rw [count_more, if_neg (by simp), ← hsnapshots, snapshots_more, Concurrent.wake]
        cases ((state.connections client).wake (server now) state.world).1 <;> rfl
  | lose client =>
      refine ⟨?_, fun other => ?_, fun other => ?_, ?_⟩
      · rw [Event.alone_all_append]
        exact hworld
      · rw [hfates]
        show (Function.update state.connections client _ other).written =
          Fate.replies (_ ++ [])
        rw [List.append_nil, ← hwritten other]
        by_cases hother : client = other
        · subst hother
          rw [Function.update_self]
          rfl
        · rw [Function.update_of_ne (Ne.symm hother)]
      · rw [hfates]
        show (Function.update state.connections client _ other).Conversation _ _ _ (_ ++ [])
        rw [count_more, if_neg (by simp), List.append_nil]
        by_cases hother : client = other
        · subst hother
          rw [Function.update_self]
          exact ((hconversation client).mono fun hlost => by simp [hlost]).close (by simp)
        · rw [Function.update_of_ne (Ne.symm hother), hlost (by simp [hother])]
          exact hconversation other
      · rw [count_more, if_neg (by simp), ← hsnapshots, snapshots_more]
        rfl
  | snapshot =>
      refine ⟨?_, fun client => ?_, fun client => ?_, ?_⟩
      · rw [Event.alone_all_append, hworld]
        exact congrArg Prod.snd (Event.alone_snapshot server now state.world)
      · rw [hfates]
        show _ = Fate.replies (_ ++ [])
        rw [List.append_nil]
        exact hwritten client
      · rw [hfates, count_more, if_neg (by simp), hlost (by simp)]
        show Connection.Conversation _ _ _ (_ ++ []) _
        rw [List.append_nil]
        exact hconversation client
      · rw [count_more, if_pos rfl, ← hsnapshots, snapshots_more]
        rfl

/-- Tasks that run add their events. -/
theorem Reckons.live {inputs : ι → List {chunk : Bytes // chunk ≠ []}} {first : σ}
    {schedule : List (θ × Wake ι)} {events : List (θ × Event ι)} {state : Concurrent ι σ}
    (h : Reckons server inputs first schedule events state) (rest : List (θ × Wake ι)) :
    Reckons server inputs first (schedule ++ rest) (events ++ (state.live server rest).1)
      (state.live server rest).2 := by
  induction rest generalizing schedule events state with
  | nil => simpa [Concurrent.live] using h
  | cons task rest ih =>
      have hafter := ih (h.wake task.1 task.2)
      rw [List.append_assoc, List.append_assoc] at hafter
      exact hafter

theorem reckons_live (server : θ → AsyncRedisServer σ)
    (inputs : ι → List {chunk : Bytes // chunk ≠ []}) (world : σ) (schedule : List (θ × Wake ι)) :
    Reckons server inputs world schedule ((start inputs world).live server schedule).1
      ((start inputs world).live server schedule).2 :=
  (reckons_start inputs world).live schedule

/-- Whatever raises, and however the tasks are interleaved: the requests and snapshots in the order
of `events`, each on its own, do to the store what the tasks did, and give each client the replies
that were written to it. A client's items are served in its own order, and each has a reply unless
it is the last one and has raised, which closes the connection; otherwise the connection is closed
only at the end of what its client sends, or when its peer is gone. -/
theorem failures_isolated (server : θ → AsyncRedisServer σ)
    (inputs : ι → List {chunk : Bytes // chunk ≠ []}) (world : σ) (schedule : List (θ × Wake ι)) :
    let events := ((start inputs world).live server schedule).1
    let state := ((start inputs world).live server schedule).2
    state.world = (Event.aloneAll server events world).2 ∧
    Event.snapshots (events.map Prod.snd) = (schedule.map Prod.snd).count .snapshot ∧
    ∀ client, (state.connections client).Treated (inputs client)
      (.lose client ∈ schedule.map Prod.snd) (Event.fatesOf server client events world) := by
  intro events state
  obtain ⟨hworld, hwritten, hconversation, hsnapshots⟩ := reckons_live server inputs world schedule
  exact ⟨hworld.symm, hsnapshots, fun client => (hconversation client).treated (hwritten client)⟩

/-- A client that stays, and whose connection is resumed once for each chunk and each item it sends
and once more, has all of its items served and answered, or those up to the first one that raises;
the failures of other clients and of snapshots do not matter. -/
theorem clients_served_whole (server : θ → AsyncRedisServer σ)
    (inputs : ι → List {chunk : Bytes // chunk ≠ []}) (world : σ) (schedule : List (θ × Wake ι))
    (client : ι) (hstays : .lose client ∉ schedule.map Prod.snd)
    (hturns : (inputs client).length + (sent [] (inputs client)).1.length <
      (schedule.map Prod.snd).count (.resume client)) :
    let events := ((start inputs world).live server schedule).1
    let connection := ((start inputs world).live server schedule).2.connections client
    let fates := Event.fatesOf server client events world
    connection.phase = .closed ∧ connection.written = Fate.replies fates ∧
      (Fate.Answered fates ∧ fates.map Prod.fst = (sent [] (inputs client)).1 ∨
        Fate.Raised fates ∧ fates.map Prod.fst <+: (sent [] (inputs client)).1) := by
  intro events connection fates
  have hreckons := reckons_live server inputs world schedule
  have htalk := hreckons.conversation client
  have htreated := htalk.treated (hreckons.written client)
  have hclosed := htalk.ends hturns
  refine ⟨hclosed, htreated.written, ?_⟩
  obtain ⟨hanswered, ⟨-, hdone⟩ | hlost⟩ | hraised := htreated.closed hclosed
  · exact .inl ⟨hanswered, hdone⟩
  · exact absurd hlost hstays
  · obtain ⟨consumed, hinput, hdone, -⟩ := htreated.ordered
    refine .inr ⟨hraised, hdone.trans ?_⟩
    rw [hinput, sent_append]
    exact List.prefix_append _ _

/-- The name of a command is a line break, so the error reply to it raises, and the client that
sends it loses its connection; a snapshot cannot be written. The other client, whose second command
comes after that, is served. -/
theorem clients_served_beside_failure :
    let _ : PyHash String := ⟨fun key => key.length⟩
    let server : Unit → AsyncRedisServer (World String) := fun _ =>
      ⟨(⟨some ⟨JsonText.codec⟩, none⟩ : Dispatcher).dispatch,
        PersistenceManager.snapshot ⟨JsonText.codec⟩⟩
    let first : {chunk : Bytes // chunk ≠ []} := ⟨Bytes.ofText
      "*3\r\n$3\r\nSET\r\n$1\r\nk\r\n$1\r\nv\r\n*2\r\n$3\r\nGET\r\n$1\r\nk\r\n", by decide⟩
    let second : {chunk : Bytes // chunk ≠ []} :=
      ⟨Bytes.ofText "*1\r\n$1\r\n\n\r\n*1\r\n$4\r\nPING\r\n", by decide⟩
    let inputs := fun client : Bool => if client then [first] else [second]
    let world : World String := ⟨InMemoryStore.init fun n => Reading.atSecond (Fin.ofNat _ n),
      ⟨Files.empty, [], Stream'.cons true (Stream'.const false)⟩⟩
    let schedule : List (Unit × Wake Bool) :=
      [.snapshot, .resume true, .resume false, .resume true, .resume true, .resume true].map
        (Prod.mk ())
    let events := ((start inputs world).live server schedule).1
    let connection := ((start inputs world).live server schedule).2.connections true
    let fates := Event.fatesOf server true events world
    connection.phase = .closed ∧ connection.written = Fate.replies fates ∧
      (Fate.Answered fates ∧ fates.map Prod.fst = (sent [] (inputs true)).1 ∨
        Fate.Raised fates ∧ fates.map Prod.fst <+: (sent [] (inputs true)).1) := by
  intro _ server first second inputs world schedule
  have hitems : (sent [] (inputs true)).1.length = 2 := by decide +kernel
  refine clients_served_whole server inputs world schedule true (by simp [schedule]) ?_
  rw [hitems]
  decide

end Concurrent

end MiniRedis
