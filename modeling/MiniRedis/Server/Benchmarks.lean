import MiniRedis.Server.ClosedLoop
import MiniRedis.Server.Lifetimes

/-!
# What the benchmark checks

`main` of `scripts/benchmark.py` as the list of its requests, each with what it checks of the
response. `benchmark_never_fails` says that on a server of one node no check ever fails, whatever
other clients of this kind ask for and whatever file operations fail.
-/

namespace MiniRedis

namespace Caller

variable {σ τ : Type} {R : σ → τ → Prop} {left : AsyncRedisServer σ} {right : AsyncRedisServer τ}

/-- A move is the same for both servers. -/
theorem move_mirrors (hmirrors : left.Mirrors R right) {caller after : Caller} {s s' : σ} {t : τ}
    (h : R s t) {move : Move} {item : Option Item}
    (hmove : caller.move left s move = some (item, after, s')) :
    ∃ t', caller.move right t move = some (item, after, t') ∧ R s' t' := by
  cases move with
  | resume =>
      have hresume : caller.resume left s = some (item, after, s') := hmove
      show ∃ t', caller.resume right t = some (item, after, t') ∧ R s' t'
      unfold Caller.resume at hresume ⊢
      dsimp only at hresume ⊢
      split at hresume
      · cases hresume
      · next hready =>
          obtain ⟨hitem, hconnection, hworld⟩ :=
            Connection.wake_mirrors hmirrors caller.connection h
          cases hresume
          rw [if_neg hready, hitem, hconnection]
          exact ⟨_, rfl, hworld⟩
  | send =>
      obtain ⟨next, hnext, hdone⟩ := Option.map_eq_some_iff.mp hmove
      cases hdone
      exact ⟨t, Option.map_eq_some_iff.mpr ⟨after, hnext, rfl⟩, h⟩
  | carry size =>
      obtain ⟨next, hnext, hdone⟩ := Option.map_eq_some_iff.mp hmove
      cases hdone
      exact ⟨t, Option.map_eq_some_iff.mpr ⟨after, hnext, rfl⟩, h⟩
  | arrive size =>
      obtain ⟨next, hnext, hdone⟩ := Option.map_eq_some_iff.mp hmove
      cases hdone
      exact ⟨t, Option.map_eq_some_iff.mpr ⟨after, hnext, rfl⟩, h⟩
  | receive =>
      obtain ⟨next, hnext, hdone⟩ := Option.map_eq_some_iff.mp hmove
      cases hdone
      exact ⟨t, Option.map_eq_some_iff.mpr ⟨after, hnext, rfl⟩, h⟩

end Caller

namespace ClosedLoop

variable {ι σ τ : Type} [DecidableEq ι] {R : Reading → σ → τ → Prop} {left : Backend σ}
  {right : Backend τ}

/-- The clients see the same on both backends. -/
theorem run_mirrors (hmirrors : left.Mirrors R right) (moves : List (Reading × Option (ι × Move)))
    {first last : Reading} (hclock : (first :: moves.map Prod.fst ++ [last]).Pairwise (· ≤ ·))
    {callers : ι → Caller} {s : σ} {t : τ} (h : R first s t) {events : List (Reading × Event ι)}
    {after : ClosedLoop ι σ}
    (hrun : (⟨callers, s⟩ : ClosedLoop ι σ).run left.server moves = some (events, after)) :
    ∃ world, (⟨callers, t⟩ : ClosedLoop ι τ).run right.server moves =
        some (events, ⟨after.callers, world⟩) ∧ R last after.world world := by
  induction moves generalizing first callers s t events with
  | nil =>
      cases hrun
      have hle : first ≤ last := (List.pairwise_cons.mp hclock).1 last (by simp)
      exact ⟨t, rfl, hmirrors.later hle h⟩
  | cons turn rest ih =>
      obtain ⟨now, move⟩ := turn
      obtain ⟨hfirst, hrest⟩ := List.pairwise_cons.mp hclock
      have hnow := hmirrors.later (hfirst now (by simp)) h
      obtain ⟨⟨event, middle⟩, hstep, hmore⟩ := Option.bind_eq_some_iff.mp hrun
      obtain ⟨⟨others, final⟩, hlast, hdone⟩ := Option.map_eq_some_iff.mp hmore
      cases hdone
      obtain ⟨world, hstep', hworld⟩ : ∃ world,
          (⟨callers, t⟩ : ClosedLoop ι τ).step (right.server now) move =
            some (event, ⟨middle.callers, world⟩) ∧ R now middle.world world := by
        cases move with
        | none =>
            cases hstep
            exact ⟨_, rfl, (hmirrors.server now).snapshot.after hnow⟩
        | some turn =>
            obtain ⟨⟨item, caller, s'⟩, hmove, hturn⟩ := Option.map_eq_some_iff.mp hstep
            cases hturn
            obtain ⟨t', hmove', hworld⟩ := Caller.move_mirrors (hmirrors.server now) hnow hmove
            refine ⟨t', ?_, hworld⟩
            simp [step, hmove']
      obtain ⟨final', hlast', hfinal⟩ := ih hrest hworld hlast
      refine ⟨final', ?_, hfinal⟩
      simp [run, hstep', hlast']

end ClosedLoop

namespace Benchmark

/-- A request of the benchmark, and what it checks of the response. -/
structure Exchange where
  parts : List String
  check : Bytes → Bool

/-- `warm_up`. -/
def warmUp (count : Nat) : List Exchange := List.replicate count ⟨["PING"], fun _ => true⟩

/-- `benchmark_scenario`. -/
def benchmarkScenario (count : Nat) (commandFactory : Nat → List String)
    (expected : Bytes) : List Exchange :=
  (List.range count).map fun index => ⟨commandFactory index, expected.isPrefixOf⟩

/-- `prepare_get_dataset`. -/
def prepareGetDataset (count : Nat) (value keys : String) : List Exchange :=
  (List.range count).map fun index =>
    ⟨["SET", s!"{keys}{index}", value], fun response => response = Bytes.ofText "+OK\r\n"⟩

/-- `--scenario`. -/
inductive Scenario where
  | ping
  | set
  | get
  | all
deriving DecidableEq

/-- `main`. -/
def main (scenario : Scenario) (count warmup valueSize : Nat) (keys : String) : List Exchange :=
  let value := String.ofList (List.replicate valueSize 'v')
  warmUp warmup ++
    (if scenario = .ping ∨ scenario = .all then
      benchmarkScenario count (fun _ => ["PING"]) (Bytes.ofText "+PONG") else []) ++
    (if scenario = .set ∨ scenario = .all then
      benchmarkScenario count (fun index => ["SET", s!"{keys}set:{index}", value])
        (Bytes.ofText "+OK") else []) ++
    (if scenario = .get ∨ scenario = .all then
      prepareGetDataset count value s!"{keys}get:" ++
        benchmarkScenario count (fun index => ["GET", s!"{keys}get:{index}"])
          (Bytes.ofText "$") else [])

end Benchmark

/-- The coordinator of `build_server` where no nodes are given: the node is alone in its cluster. -/
def ClusterCoordinator.alone (node : Node) (router : ClusterRouter) : ClusterCoordinator :=
  ⟨node, [node], router⟩

theorem ClusterCoordinator.moved_alone (node : Node) (router : ClusterRouter) (key : String) :
    (alone node router).movedError key = .ok none := by
  have howner : (alone node router).ownerForKey key = .ok node := by
    simp [ownerForKey, alone, ClusterRouter.route]
  rw [movedError, howner]
  exact if_pos rfl

/-- A node that is alone in its cluster executes every command. -/
theorem Journal.dispatch_single (node : Node) (router : ClusterRouter) (logging : Bool)
    (now : Reading) (command : Command) :
    dispatch logging now (some (.alone node router)) command =
      answer logging now (Query.ofCommand command) := by
  refine dispatch_local logging now ?_
  simp only [Dispatcher.routeError]
  cases command.key with
  | none => rfl
  | some key => exact ClusterCoordinator.moved_alone node router key

namespace Benchmark

open Py

variable {node : Node} {router : ClusterRouter} {reply : Bytes}

/-- What a command is answered with encodes a response of its query. -/
theorem answered_query {command : Command} (Q : Response → Prop)
    (hquery : ∀ now, (Journal.answer true now (Query.ofCommand command)).ReturnsOnly Q)
    (h : (Item.command command).Answered (Journal.backend (some (.alone node router))).server
      reply) :
    ∃ response, Q response ∧ RespEncoder.encode response = .ok reply := by
  obtain ⟨now, journal, after, hanswer⟩ := h
  have hdispatch : Service.answer (Journal.dispatch true now (some (.alone node router))) command
      journal = (.ok reply, after) := hanswer
  rw [Service.answer, Journal.dispatch_single, bind_apply] at hdispatch
  split at hdispatch
  · next response between hrun =>
      refine ⟨response, hquery now journal response ?_, (Prod.mk.inj hdispatch).1⟩
      rw [hrun]
  · cases hdispatch

theorem answered_ping
    (h : (Item.command ⟨"PING", []⟩).Answered (Journal.backend (some (.alone node router))).server
      reply) : reply = Bytes.ofText "+PONG\r\n" := by
  obtain ⟨response, rfl, hencode⟩ := answered_query (· = .simpleString "PONG") (fun now => by
    rw [Query.of_command_ping]
    exact .pure rfl) h
  have hpong : RespEncoder.encode (.simpleString "PONG") = .ok (Bytes.ofText "+PONG\r\n") := by
    decide +kernel
  exact Except.ok.inj (hencode.symm.trans hpong)

theorem answered_set {key value : String}
    (h : (Item.command ⟨"SET", [key, value]⟩).Answered
      (Journal.backend (some (.alone node router))).server reply) :
    reply = Bytes.ofText "+OK\r\n" := by
  obtain ⟨response, rfl, hencode⟩ := answered_query (· = .simpleString "OK") (fun now => by
    rw [Query.of_command_set]
    exact .bind fun _ => .bind fun _ => .pure rfl) h
  have hok : RespEncoder.encode (.simpleString "OK") = .ok (Bytes.ofText "+OK\r\n") := by
    decide +kernel
  exact Except.ok.inj (hencode.symm.trans hok)

theorem answered_get {key : String}
    (h : (Item.command ⟨"GET", [key]⟩).Answered
      (Journal.backend (some (.alone node router))).server reply) :
    Bytes.ofText "$" <+: reply := by
  obtain ⟨response, ⟨value, rfl⟩, hencode⟩ :=
    answered_query (fun response => ∃ value, response = Response.ofBulkString value) (fun now => by
      rw [Query.of_command_get]
      exact .bind fun found => .pure ⟨_, rfl⟩) h
  obtain ⟨line, body, -, rfl⟩ := encode_frame hencode
  have hmark : mark (Response.ofBulkString value) = "$" := by
    cases value <;> rfl
  rw [hmark, RequestGrammar.header]
  exact List.prefix_append _ _

/-- Every response passes the check of its request. -/
theorem checks_pass {scenario : Scenario} {count warmup valueSize : Nat} {keys : String}
    {exchange : Exchange} (hmem : exchange ∈ main scenario count warmup valueSize keys)
    {command : Command} (hparts : command.name :: command.args = exchange.parts)
    (h : (Item.command command).Answered (Journal.backend (some (.alone node router))).server
      reply) : exchange.check reply = true := by
  obtain ⟨name, args⟩ := command
  have hif : ∀ {p : Prop} [Decidable p] {exchanges : List Exchange},
      exchange ∈ (if p then exchanges else []) → exchange ∈ exchanges := by
    intro p _ exchanges hexchange
    split at hexchange
    · exact hexchange
    · cases hexchange
  rw [main, List.mem_append, List.mem_append, List.mem_append] at hmem
  obtain ((hwarm | hping) | hset) | hget := hmem
  · obtain rfl := (List.mem_replicate.mp hwarm).2
    rfl
  · obtain ⟨index, -, rfl⟩ := List.mem_map.mp (hif hping)
    obtain ⟨rfl, rfl⟩ := List.cons.inj hparts
    rw [answered_ping h]
    show (Bytes.ofText "+PONG").isPrefixOf (Bytes.ofText "+PONG\r\n") = true
    decide
  · obtain ⟨index, -, rfl⟩ := List.mem_map.mp (hif hset)
    obtain ⟨rfl, rfl⟩ := List.cons.inj hparts
    rw [answered_set h]
    show (Bytes.ofText "+OK").isPrefixOf (Bytes.ofText "+OK\r\n") = true
    decide
  · obtain hprepare | hscenario := List.mem_append.mp (hif hget)
    · obtain ⟨index, -, rfl⟩ := List.mem_map.mp hprepare
      obtain ⟨rfl, rfl⟩ := List.cons.inj hparts
      rw [answered_set h]
      show decide (Bytes.ofText "+OK\r\n" = Bytes.ofText "+OK\r\n") = true
      exact decide_eq_true rfl
    · obtain ⟨index, -, rfl⟩ := List.mem_map.mp hscenario
      obtain ⟨rfl, rfl⟩ := List.cons.inj hparts
      exact List.isPrefixOf_iff_prefix.mpr (answered_get h)

/-- The parts that are sent for a request. -/
def parts (request : Request) : List String := request.command.name :: request.command.args

/-- Responses pass the checks one after the other. -/
theorem all_checks_pass {scenario : Scenario} {count warmup valueSize : Nat} {keys : String}
    {exchanges : List Exchange}
    (hmem : ∀ exchange ∈ exchanges, exchange ∈ main scenario count warmup valueSize keys)
    {requests : List Request} (hparts : requests.map parts = exchanges.map Exchange.parts)
    {replies : List Bytes}
    (h : List.Forall₂ (Item.Answered (Journal.backend (some (.alone node router))).server)
      (requests.map Request.item) replies) :
    List.Forall₂ (fun exchange response => exchange.check response = true) exchanges replies := by
  induction exchanges generalizing requests replies with
  | nil =>
      obtain rfl := List.map_eq_nil_iff.mp hparts
      cases h
      exact .nil
  | cons exchange rest ih =>
      cases requests with
      | nil => cases hparts
      | cons request others =>
          obtain ⟨hfirst, hrest⟩ := List.cons.inj hparts
          cases h with
          | cons hanswer hmore =>
              refine .cons (checks_pass (hmem exchange List.mem_cons_self) hfirst hanswer) ?_
              exact ih (fun other hother => hmem other (List.mem_cons_of_mem _ hother)) hrest hmore

variable [PyHash String] {codec : JsonCodec String}

/-- On the server of one node that `build_server` puts together on an empty directory, a client that
runs the benchmark never finds a response that it does not expect, be it in a scenario or while it
prepares one, whatever the other clients ask for, each waiting for its replies, however the replies
are cut and whatever file operations fail. -/
theorem benchmark_never_fails {ι : Type} [DecidableEq ι] (hlawful : codec.Lawful)
    (nowFn : Stream' Reading) (faults : Stream' Bool) (requests : ι → List Request) (client : ι)
    (scenario : Scenario) (count warmup valueSize : Nat) (keys : String)
    (hrequests : (requests client).map parts =
      (main scenario count warmup valueSize keys).map Exchange.parts)
    (moves : List (Reading × Option (ι × Move))) {first last : Reading}
    (hclock : (first :: moves.map Prod.fst ++ [last]).Pairwise (· ≤ ·))
    {events : List (Reading × Event ι)} {loop : ClosedLoop ι (World String)}
    (hrun : (ClosedLoop.start requests (World.start nowFn faults)).run
      (World.backend codec (some (.alone node router))).server moves = some (events, loop)) :
    let responses := (loop.callers client).responses
    List.Forall₂ (fun exchange response => exchange.check response = true)
      ((main scenario count warmup valueSize keys).take responses.length) responses := by
  intro responses
  obtain ⟨world, hjournal, -⟩ := ClosedLoop.run_mirrors
    (World.backend_mirrors hlawful (some (.alone node router))) moves hclock
    (World.follows_start nowFn faults first) hrun
  have hkeeps := (ClosedLoop.keeps_start requests (Journal.start faults)).run hjournal
  obtain ⟨⟨asked, hasked, hitems, -⟩, hresponses, -⟩ := (hkeeps.paired client).trusts
  obtain ⟨front, hfront, hanswered⟩ := hkeeps.answered client
  -- the items that have been answered are those of the first requests
  have hlength : responses.length ≤ front.length := by
    rw [hanswered.length_eq]
    exact hresponses.length_le
  have hprefix : front <+: (requests client).map Request.item := by
    rw [hasked, List.map_append]
    exact (hfront.trans hitems).trans (List.prefix_append _ _)
  have hfirst : front.take responses.length =
      ((requests client).take responses.length).map Request.item := by
    rw [List.map_take, List.prefix_iff_eq_take.mp hprefix, List.take_take, Nat.min_eq_left hlength]
  have hreplies := List.forall₂_take responses.length hanswered
  rw [hfirst, ← List.prefix_iff_eq_take.mp hresponses] at hreplies
  refine all_checks_pass (fun exchange h => List.mem_of_mem_take h) ?_ hreplies
  rw [List.map_take, List.map_take, hrequests]

omit [PyHash String] in
/-- A client that pings, while every file operation fails. -/
theorem benchmark_never_fails_ping :
    let _ : PyHash String := ⟨fun key => key.length⟩
    let node : Node := ⟨"node-1", "127.0.0.1", 6379, by decide⟩
    let router : ClusterRouter := ⟨fun raw => raw.length⟩
    let start : ClosedLoop Unit (World String) := ClosedLoop.start (fun _ => [Request.ping])
      (World.start (Stream'.const (Reading.atSecond 0)) (Stream'.const true))
    let moves : List (Reading × Option (Unit × Move)) :=
      [some ((), .send), some ((), .carry 4096), some ((), .resume), none, some ((), .arrive 7),
        some ((), .receive)].map (Prod.mk (Reading.atSecond 1))
    ∃ events loop,
      start.run (World.backend JsonText.codec (some (.alone node router))).server moves =
        some (events, loop) ∧
      List.Forall₂ (fun exchange response => exchange.check response = true)
        ((main .ping 1 0 0 "").take (loop.callers ()).responses.length)
        (loop.callers ()).responses := by
  intro _ node router start moves
  have hruns : (start.run (World.backend JsonText.codec (some (.alone node router))).server
      moves).isSome := by decide +kernel
  obtain ⟨⟨events, loop⟩, hrun⟩ := Option.isSome_iff_exists.mp hruns
  have hle : ∀ first second : Fin (2 ^ 34), first ≤ second →
      Reading.atSecond first ≤ Reading.atSecond second := fun _ _ h => Reading.at_second_le h
  have hclock : (Reading.atSecond 0 :: moves.map Prod.fst ++ [Reading.atSecond 2]).Pairwise
      (· ≤ ·) := by
    simp [moves, hle]
  exact ⟨events, loop, hrun, benchmark_never_fails JsonText.lawful _ _
    (fun _ => [Request.ping]) () .ping 1 0 0 "" rfl moves hclock hrun⟩

end Benchmark

end MiniRedis
