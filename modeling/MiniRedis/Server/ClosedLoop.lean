import MiniRedis.Server.Callers

/-!
# Clients that wait for their replies

All clients of this kind and the server that they share. `callers_answered` says that no client ever
gets anything but its own replies, and that a client which is not done can always go on; and
`callers_finish` says for how long.
-/

namespace MiniRedis

/-- The clients and the shared state of the server. -/
structure ClosedLoop (ι σ : Type) where
  callers : ι → Caller
  world : σ

namespace ClosedLoop

variable {ι σ θ : Type} [DecidableEq ι]

/-- Every client has connected. -/
def start (requests : ι → List Request) (world : σ) : ClosedLoop ι σ :=
  ⟨fun client => Caller.start (requests client), world⟩

/-- A move of a client, or a snapshot, and the event if the server has served something. -/
def step (server : AsyncRedisServer σ) (loop : ClosedLoop ι σ) :
    Option (ι × Move) → Option (Option (Event ι) × ClosedLoop ι σ)
  | some (client, move) =>
      ((loop.callers client).move server loop.world move).map fun turn =>
        (turn.1.map (Event.served client),
          ⟨Function.update loop.callers client turn.2.1, turn.2.2⟩)
  | none => some (some .snapshot, { loop with world := (server.snapshotCallback loop.world).2 })

/-- Moves one after the other. -/
def run (server : θ → AsyncRedisServer σ) (loop : ClosedLoop ι σ) :
    List (θ × Option (ι × Move)) → Option (List (θ × Event ι) × ClosedLoop ι σ)
  | [] => some ([], loop)
  | (now, move) :: rest =>
      (loop.step (server now) move).bind fun first =>
        (first.2.run server rest).map fun others =>
          (first.1.toList.map (Prod.mk now) ++ others.1, others.2)

end ClosedLoop

/-- A reply is what an item is answered with, at some time and in some state of the store. -/
def Item.Answered {σ θ : Type} (server : θ → AsyncRedisServer σ) : Item → Bytes → Prop
  | .command request, reply => ∃ now world after,
      Service.answer (server now).dispatch request world = (.ok reply, after)
  | .malformed message, reply => RespEncoder.encode (Response.ofError message) = .ok reply

/-- On its own, an item is answered with one reply or raises. -/
theorem Event.alone_answered {ι σ θ : Type} (server : θ → AsyncRedisServer σ) (client : ι) (now : θ)
    (item : Item) (world : σ) {replies : List Bytes}
    (h : (Event.alone (server now) (.served client item) world).1 =
      replies.map fun reply => (client, reply)) :
    replies = [] ∨ ∃ reply, replies = [reply] ∧ item.Answered server reply := by
  have hone : ∀ reply : Bytes, [(client, reply)] = (replies.map fun reply => (client, reply)) →
      replies = [reply] := by
    intro reply hsame
    have hseconds := congrArg (List.map Prod.snd) hsame
    simpa using hseconds.symm
  cases item with
  | command command =>
      cases hanswer : Service.answer (server now).dispatch command world with
      | mk result after =>
          cases result with
          | error error =>
              simp only [alone, perform, Py.bind_apply, hanswer] at h
              exact .inl (List.map_eq_nil_iff.mp h.symm)
          | ok reply =>
              simp only [alone, perform, Py.bind_apply, hanswer, Py.pure_apply] at h
              exact .inr ⟨reply, hone reply h, now, world, after, hanswer⟩
  | malformed message =>
      cases hencode : RespEncoder.encode (Response.ofError message) with
      | error error =>
          simp only [alone, perform, Py.bind_apply, Py.of_except_apply, hencode] at h
          exact .inl (List.map_eq_nil_iff.mp h.symm)
      | ok reply =>
          simp only [alone, perform, Py.bind_apply, Py.of_except_apply, hencode,
            Py.pure_apply] at h
          exact .inr ⟨reply, hone reply h, hencode⟩

namespace ClosedLoop

variable {ι σ θ : Type} [DecidableEq ι] {server : θ → AsyncRedisServer σ}

/-- How often it has been a client's turn. -/
def movesOf (client : ι) (moves : List (θ × Option (ι × Move))) : Nat :=
  moves.countP fun move => move.2.any (·.1 = client)

/-- What the events have in common with the moves: on their own they do the same to the store and
give each client the replies that were written to it, and each client is where it should be. -/
structure Keeps (server : θ → AsyncRedisServer σ) (requests : ι → List Request) (first : σ)
    (moves : List (θ × Option (ι × Move))) (events : List (θ × Event ι))
    (loop : ClosedLoop ι σ) : Prop where
  world : (Event.aloneAll server events first).2 = loop.world
  written : ∀ client, (loop.callers client).connection.written =
    Event.repliesTo client (Event.aloneAll server events first).1
  paired : ∀ client, (loop.callers client).Paired (requests client) (movesOf client moves)
    (Event.itemsOf client (events.map Prod.snd))
  answered : ∀ client, ∃ front, front <+: Event.itemsOf client (events.map Prod.snd) ∧
    List.Forall₂ (Item.Answered server) front (loop.callers client).connection.written

theorem keeps_start (requests : ι → List Request) (world : σ) :
    Keeps server requests world [] [] (start requests world) :=
  ⟨rfl, fun _ => rfl, fun client => Caller.paired_start (requests client),
    fun _ => ⟨[], List.nil_prefix, .nil⟩⟩

theorem moves_more (client : ι) (moves : List (θ × Option (ι × Move))) (now : θ)
    (move : Option (ι × Move)) :
    movesOf client (moves ++ [(now, move)]) =
      movesOf client moves + if move.any (·.1 = client) then 1 else 0 := by
  rw [movesOf, List.countP_append, List.countP_singleton]
  rfl

/-- One move adds its event. -/
theorem Keeps.step {requests : ι → List Request} {first : σ}
    {moves : List (θ × Option (ι × Move))} {events : List (θ × Event ι)} {loop : ClosedLoop ι σ}
    (h : Keeps server requests first moves events loop) {now : θ} {move : Option (ι × Move)}
    {event : Option (Event ι)} {after : ClosedLoop ι σ}
    (hstep : loop.step (server now) move = some (event, after)) :
    Keeps server requests first (moves ++ [(now, move)])
      (events ++ event.toList.map (Prod.mk now)) after := by
  obtain ⟨hworld, hwritten, hpaired, hanswered⟩ := h
  cases move with
  | none =>
      cases hstep
      have halone := @Event.alone_snapshot ι σ θ server now loop.world
      refine ⟨?_, fun client => ?_, fun client => ?_, fun client => ?_⟩
      · rw [Event.alone_all_append, hworld]
        exact congrArg Prod.snd halone
      · rw [Event.alone_all_append, hworld, Event.replies_to_append, ← hwritten client]
        show _ = _ ++ Event.repliesTo client (Event.aloneAll server [(now, .snapshot)] _).1
        rw [halone]
        exact (List.append_nil _).symm
      · rw [Concurrent.items_of_more, moves_more, if_neg (by simp)]
        show Caller.Paired _ _ (_ ++ []) _
        rw [List.append_nil]
        exact hpaired client
      · obtain ⟨front, hfront, hreplies⟩ := hanswered client
        rw [Concurrent.items_of_more]
        exact ⟨front, hfront.trans (List.prefix_append _ _), hreplies⟩
  | some turn =>
      obtain ⟨client, move⟩ := turn
      obtain ⟨⟨item, caller, world⟩, hmove, hdone⟩ := Option.map_eq_some_iff.mp hstep
      cases hdone
      obtain ⟨replies, hreplies, halone⟩ := Caller.move_alone server client now hmove
      refine ⟨?_, fun other => ?_, fun other => ?_, fun other => ?_⟩
      · rw [Event.alone_all_append, hworld]
        exact congrArg Prod.snd halone
      · rw [Event.alone_all_append, hworld, Event.replies_to_append, ← hwritten other, halone,
          Event.replies_to_served]
        show (Function.update loop.callers client caller other).connection.written = _
        by_cases hother : client = other
        · subst hother
          rw [if_pos rfl, Function.update_self, hreplies]
        · rw [if_neg hother, Function.update_of_ne (Ne.symm hother), List.append_nil]
      · show (Function.update loop.callers client caller other).Paired _ _ _
        rw [Concurrent.items_of_more, moves_more, Event.items_of_option]
        by_cases hother : client = other
        · subst hother
          rw [if_pos rfl, if_pos (by simp), Function.update_self]
          exact (hpaired client).move hmove
        · rw [if_neg hother, if_neg (by simpa using hother),
            Function.update_of_ne (Ne.symm hother), List.append_nil]
          exact hpaired other
      · show ∃ front, front <+: _ ∧ List.Forall₂ _ front
          (Function.update loop.callers client caller other).connection.written
        rw [Concurrent.items_of_more, Event.items_of_option]
        obtain ⟨front, hfront, hbefore⟩ := hanswered other
        by_cases hother : client = other
        · subst hother
          rw [if_pos rfl, Function.update_self, hreplies]
          cases item with
          | none =>
              obtain rfl : replies = [] := List.map_eq_nil_iff.mp (Prod.mk.inj halone).1.symm
              rw [Option.toList_none, List.append_nil, List.append_nil]
              exact ⟨front, hfront, hbefore⟩
          | some item =>
              -- all items before this one have been answered
              have hlevel := (hpaired client).level (Caller.open_of_item hmove)
              have hall := hfront.eq_of_length (hbefore.length_eq.trans hlevel)
              have hone : (Event.alone (server now) (.served client item) loop.world).1 =
                  replies.map fun reply => (client, reply) := by
                have hreply := (Prod.mk.inj halone).1
                simpa [Event.aloneAll] using hreply
              obtain rfl | ⟨reply, rfl, hreply⟩ :=
                Event.alone_answered server client now item loop.world hone
              · rw [List.append_nil]
                exact ⟨front, hfront.trans (List.prefix_append _ _), hbefore⟩
              · refine ⟨front ++ [item], ?_, List.rel_append hbefore (.cons hreply .nil)⟩
                rw [← hall]
                exact List.prefix_rfl
        · rw [if_neg hother, Function.update_of_ne (Ne.symm hother), List.append_nil]
          exact ⟨front, hfront, hbefore⟩

theorem Keeps.run {requests : ι → List Request} {first : σ}
    {moves rest : List (θ × Option (ι × Move))} {events more : List (θ × Event ι)}
    {loop after : ClosedLoop ι σ} (h : Keeps server requests first moves events loop)
    (hrun : loop.run server rest = some (more, after)) :
    Keeps server requests first (moves ++ rest) (events ++ more) after := by
  induction rest generalizing moves events more loop with
  | nil =>
      cases hrun
      rw [List.append_nil, List.append_nil]
      exact h
  | cons move rest ih =>
      obtain ⟨⟨event, middle⟩, hstep, hrest⟩ := Option.bind_eq_some_iff.mp hrun
      obtain ⟨⟨others, last⟩, hlast, hdone⟩ := Option.map_eq_some_iff.mp hrest
      cases hdone
      have hafter := ih (h.step hstep) hlast
      rw [List.append_assoc, List.append_assoc] at hafter
      exact hafter

/-- Clients that wait for their replies, whatever the others do and whatever raises: the requests
and snapshots in the order of `events`, each on its own, do to the store what the moves did; each
client has received nothing but the replies to its own commands, one for each and in order, and has
all of them when it does not wait; it fails only if its own last command has raised; and as long as
it is neither done nor failed it can go on, so that nobody waits for ever. -/
theorem callers_answered (server : θ → AsyncRedisServer σ) (requests : ι → List Request)
    (world : σ) (moves : List (θ × Option (ι × Move))) {events : List (θ × Event ι)}
    {loop : ClosedLoop ι σ} (hrun : (start requests world).run server moves = some (events, loop)) :
    let alone := Event.aloneAll server events world
    alone.2 = loop.world ∧
    ∀ client, (loop.callers client).Trusts (requests client)
        (Event.itemsOf client (events.map Prod.snd)) (Event.repliesTo client alone.1) ∧
      (∃ front, front <+: Event.itemsOf client (events.map Prod.snd) ∧
        List.Forall₂ (Item.Answered server) front (Event.repliesTo client alone.1)) ∧
      ((loop.callers client).Done ∨ (loop.callers client).failed = true ∨
        ∀ now, ∃ move, (loop.step (server now) (some (client, move))).isSome) := by
  intro alone
  obtain ⟨hworld, hwritten, hpaired, hanswered⟩ := (keeps_start requests world).run hrun
  refine ⟨hworld, fun client => ⟨?_, ?_, ?_⟩⟩
  · have htrusts := (hpaired client).trusts
    rw [hwritten client] at htrusts
    exact htrusts
  · have hreplies := hanswered client
    rw [hwritten client] at hreplies
    exact hreplies
  · by_cases hdone : (loop.callers client).Done
    · exact .inl hdone
    · by_cases hfailed : (loop.callers client).failed = true
      · exact .inr (.inl hfailed)
      · refine .inr (.inr fun now => ?_)
        obtain hends | hends | ⟨move, hmove⟩ :=
          (hpaired client).progress (server now) loop.world
        · exact absurd hends hdone
        · exact absurd hends hfailed
        · exact ⟨move, by simpa [step] using hmove⟩

/-- Two clients of a server with persistence use one key, and a snapshot is taken: one of them is
done, and the other one waits for its reply, which has been sent. -/
theorem callers_answered_session :
    let _ : PyHash String := ⟨fun key => key.length⟩
    let server : Unit → AsyncRedisServer (World String) := fun _ =>
      ⟨(⟨some ⟨JsonText.codec⟩, none⟩ : Dispatcher).dispatch,
        PersistenceManager.snapshot ⟨JsonText.codec⟩⟩
    let world : World String := ⟨InMemoryStore.init fun n => Reading.atSecond (Fin.ofNat _ n),
      Disk.reliable Files.empty⟩
    let set : Request := ⟨⟨"SET", ["k", "v"]⟩,
      Bytes.ofText "*3\r\n$3\r\nSET\r\n$1\r\nk\r\n$1\r\nv\r\n", by decide +kernel⟩
    let get : Request := ⟨⟨"GET", ["k"]⟩,
      Bytes.ofText "*2\r\n$3\r\nGET\r\n$1\r\nk\r\n", by decide +kernel⟩
    let requests : Bool → List Request := fun first => if first then [set, get] else [get]
    let moves : List (Unit × Option (Bool × Move)) :=
      [some (true, .send), some (false, .send), some (true, .carry 4096), some (true, .resume),
        some (false, .carry 5), some (false, .resume), none, some (false, .carry 4096),
        some (false, .resume), some (true, .arrive 5), some (true, .receive), some (true, .resume),
        some (true, .send), some (true, .carry 4096), some (true, .resume), some (true, .arrive 3),
        some (true, .arrive 4096), some (true, .receive)].map (Prod.mk ())
    ∃ events loop, (start requests world).run server moves = some (events, loop) ∧
      (Event.aloneAll server events world).2 = loop.world ∧
      ∀ client, (loop.callers client).Trusts (requests client)
          (Event.itemsOf client (events.map Prod.snd))
          (Event.repliesTo client (Event.aloneAll server events world).1) ∧
        (∃ front, front <+: Event.itemsOf client (events.map Prod.snd) ∧
          List.Forall₂ (Item.Answered server) front
            (Event.repliesTo client (Event.aloneAll server events world).1)) ∧
        ((loop.callers client).Done ∨ (loop.callers client).failed = true ∨
          ∀ now, ∃ move, (loop.step (server now) (some (client, move))).isSome) := by
  intro _ server world set get requests moves
  have hruns : ((start requests world).run server moves).isSome := by decide +kernel
  obtain ⟨⟨events, loop⟩, hrun⟩ := Option.isSome_iff_exists.mp hruns
  exact ⟨events, loop, hrun, callers_answered server requests world moves hrun⟩

/-- No client makes more moves than three for each of its commands, two for each byte that it sends,
one for each byte of the replies to it, and one in the end. -/
theorem callers_finish (server : θ → AsyncRedisServer σ) (requests : ι → List Request)
    (world : σ) (moves : List (θ × Option (ι × Move))) {events : List (θ × Event ι)}
    {loop : ClosedLoop ι σ} (hrun : (start requests world).run server moves = some (events, loop))
    (client : ι) :
    movesOf client moves ≤ 3 * (requests client).length + 2 * Request.size (requests client) +
      (Event.repliesTo client (Event.aloneAll server events world).1).flatten.length + 1 := by
  obtain ⟨-, hwritten, hpaired, -⟩ := (keeps_start requests world).run hrun
  have hmoves := (hpaired client).moves_le
  rw [hwritten client] at hmoves
  exact hmoves

/-- The moves of a client for two commands, 27 and 20 bytes, and the replies to them, 5 and 7 bytes,
beside another client. -/
theorem callers_finish_session :
    let _ : PyHash String := ⟨fun key => key.length⟩
    let server : Unit → AsyncRedisServer (World String) := fun _ =>
      ⟨(⟨some ⟨JsonText.codec⟩, none⟩ : Dispatcher).dispatch,
        PersistenceManager.snapshot ⟨JsonText.codec⟩⟩
    let world : World String := ⟨InMemoryStore.init fun n => Reading.atSecond (Fin.ofNat _ n),
      Disk.reliable Files.empty⟩
    let set : Request := ⟨⟨"SET", ["k", "v"]⟩,
      Bytes.ofText "*3\r\n$3\r\nSET\r\n$1\r\nk\r\n$1\r\nv\r\n", by decide +kernel⟩
    let get : Request := ⟨⟨"GET", ["k"]⟩,
      Bytes.ofText "*2\r\n$3\r\nGET\r\n$1\r\nk\r\n", by decide +kernel⟩
    let requests : Bool → List Request := fun first => if first then [set, get] else [.ping]
    let moves : List (Unit × Option (Bool × Move)) :=
      [some (true, .send), some (true, .carry 13), some (true, .resume), some (false, .send),
        some (true, .carry 4096), some (true, .resume), some (true, .resume),
        some (true, .arrive 1), some (true, .arrive 4), some (true, .receive),
        some (false, .carry 4096), some (false, .resume), some (true, .send),
        some (true, .carry 4096), some (true, .resume), some (true, .resume),
        some (true, .arrive 4096), some (true, .receive), some (true, .resume)].map (Prod.mk ())
    ∃ events loop, (start requests world).run server moves = some (events, loop) ∧
      movesOf true moves ≤ 3 * (requests true).length + 2 * Request.size (requests true) +
        (Event.repliesTo true (Event.aloneAll server events world).1).flatten.length + 1 := by
  intro _ server world set get requests moves
  have hruns : ((start requests world).run server moves).isSome := by decide +kernel
  obtain ⟨⟨events, loop⟩, hrun⟩ := Option.isSome_iff_exists.mp hruns
  exact ⟨events, loop, hrun, callers_finish server requests world moves hrun true⟩

end ClosedLoop

end MiniRedis
