import MiniRedis.Cluster.Simulation
import MiniRedis.Server.Interference

/-!
# A cluster of servers that are restarted

Every node of a cluster has a store and files of its own, takes snapshots when it likes, and may
stop in the middle of an event and be started again while the others go on. As long as the files
can be written and no deadline in them has passed when a node is back, the cluster is one server
that never stops (`cluster_lives_as_one`): a node answers a command on a key that it owns, or on
none, as that server does, and sends every other command to the owner of its key.
-/

namespace MiniRedis

namespace Query

theorem key_with_arity {name : String} {args : List String} {expected : Nat} {query : Query}
    {key : String} (h : (withArity name args expected query).key? = some key) :
    args.length = expected ∧ query.key? = some key := by
  unfold withArity at h
  split at h
  · next hlength => exact ⟨hlength, h⟩
  · cases h

theorem key_expire_after {key seconds other : String}
    (h : (expireAfter key seconds).key? = some other) : key = other := by
  unfold expireAfter at h
  split at h
  · cases h
  · split at h
    · cases h
    · exact Option.some.inj h

/-- The key of a query is that of its command. -/
theorem key_of_command {command : Command} {key : String}
    (h : (ofCommand command).key? = some key) : command.key = some key := by
  obtain ⟨name, args⟩ := command
  -- a command with an argument has its first one for its key
  have hfirst : ∀ {expected : Nat}, args.length = expected + 1 →
      ¬ (Command.normalizedName ⟨name, args⟩ = "PING" ∨
        Command.normalizedName ⟨name, args⟩ = "SAVE") → args.getD 0 "" = key →
      Command.key ⟨name, args⟩ = some key := by
    intro expected hlength hname hkey
    cases args with
    | nil => cases hlength
    | cons first rest =>
        simp only [Command.key, if_neg hname]
        exact congrArg some hkey
  simp only [ofCommand] at h
  generalize hname : Command.normalizedName ⟨name, args⟩ = normalized at h hfirst
  split_ifs at h with hping hset hget hdel hexists hexpire httl hsave
  · cases (key_with_arity h).2
  · obtain ⟨hlength, hkey⟩ := key_with_arity h
    exact hfirst hlength (by rw [hset]; decide) (Option.some.inj hkey)
  · obtain ⟨hlength, hkey⟩ := key_with_arity h
    exact hfirst hlength (by rw [hget]; decide) (Option.some.inj hkey)
  · obtain ⟨hlength, hkey⟩ := key_with_arity h
    exact hfirst hlength (by rw [hdel]; decide) (Option.some.inj hkey)
  · obtain ⟨hlength, hkey⟩ := key_with_arity h
    exact hfirst hlength (by rw [hexists]; decide) (Option.some.inj hkey)
  · obtain ⟨hlength, hkey⟩ := key_with_arity h
    exact hfirst hlength (by rw [hexpire]; decide) (key_expire_after hkey)
  · obtain ⟨hlength, hkey⟩ := key_with_arity h
    exact hfirst hlength (by rw [httl]; decide) (Option.some.inj hkey)
  · cases (key_with_arity h).2
  · cases h

end Query

/-- A command that a node of a cluster does not refuse is served as without a cluster. -/
theorem Journal.serve_accepted {coordinator : ClusterCoordinator} {command : Command}
    (h : (⟨none, some coordinator⟩ : Dispatcher).routeError command = .ok none) (now : Reading) :
    serve (some coordinator) now (.command command) = serve none now (.command command) := by
  have hlocal : dispatch true now (some coordinator) command = dispatch true now none command :=
    (dispatch_local true now h).trans (dispatch_local true now rfl).symm
  simp only [serve, hlocal]
  rfl

/-- A command that a node refuses changes nothing. -/
theorem Journal.serve_refused {coordinator : ClusterCoordinator} {command : Command}
    {message : String}
    (h : (⟨none, some coordinator⟩ : Dispatcher).routeError command = .ok (some message))
    (now : Reading) (journal : Journal) :
    serve (some coordinator) now (.command command) journal =
      (.ok (some (Response.ofError message)), journal) := by
  have hrefused : dispatch true now (some coordinator) command journal =
      (.ok (Response.ofError message), journal) := by
    rw [dispatch, h]
    rfl
  simp only [serve, hrefused]
  rfl

namespace Cluster

variable (cluster : Cluster)

/-- The coordinator of a node. -/
def coordinator (node : Node) : ClusterCoordinator := ⟨node, cluster.nodes, cluster.router⟩

/-- A node refuses the commands on keys that it does not own. -/
theorem route_cases [PyHash String] (node : Node) (command : Command) :
    ((⟨none, some (cluster.coordinator node)⟩ : Dispatcher).routeError command = .ok none ∧
        ∀ key, command.key = some key → cluster.owner key = node) ∨
      ∃ message, (⟨none, some (cluster.coordinator node)⟩ : Dispatcher).routeError command =
        .ok (some message) := by
  cases hkey : command.key with
  | none =>
      refine .inl ⟨?_, fun key h => by cases h⟩
      simp only [Dispatcher.routeError, hkey]
  | some key =>
      obtain ⟨message, hmoved, -⟩ := cluster.moved_error node key
      by_cases howner : cluster.owner key = node
      · rw [if_pos howner] at hmoved
        refine .inl ⟨?_, fun other h => Option.some.inj h ▸ howner⟩
        simp only [Dispatcher.routeError, hkey, coordinator, hmoved]
      · rw [if_neg howner] at hmoved
        refine .inr ⟨message, ?_⟩
        simp only [Dispatcher.routeError, hkey, coordinator, hmoved]

/-! ## The cluster and the one server -/

/-- What happens at a node. -/
def act [PyHash String] (codec : JsonCodec String) (step : Node × Action) :
    Py (Node → World String) (Option Response) :=
  Py.zoom (fun servers => servers step.1)
    (fun servers world => Function.update servers step.1 world)
    (World.act codec (some (cluster.coordinator step.1)) step.2)

/-- What an event at a node is to the one server: a command that the node refuses and a snapshot of
the node are nothing to it, and it serves any other command. -/
def served [PyHash String] {σ : Type} (one : Recovery.Event → Py σ (Option Response))
    (node : Node) : Recovery.Event → Py σ (Option Response)
  | .command command => do
      match ← Py.ofExcept
          ((⟨none, some (cluster.coordinator node)⟩ : Dispatcher).routeError command) with
      | some message => return some (Response.ofError message)
      | none => one (.command command)
  | .snapshot => return none

/-- What a step of the cluster is to the one server. It does not stop, so an event that was
interrupted when a node stopped has taken place without a reply, or it has not. -/
def refer [PyHash String] (codec : JsonCodec String) :
    (Node × Action) × Bool → Py (World String) (Option Response)
  | ((node, .serve now event), _) => cluster.served (World.serve codec none now) node event
  | ((node, .restart now event _ _ _), took) => fun world =>
      (.ok none,
        if took then (cluster.served (World.serve codec none now) node event world).2 else world)

/-- The node has stopped in time: no deadline in its files has passed when it is started again, and
its files can be written in its new life. -/
def StoppedInTime [PyHash String] (codec : JsonCodec String) (coordinator : ClusterCoordinator)
    (world : World String) : Action → Prop
  | .serve _ _ => True
  | .restart now event count again faults => faults = Stream'.const false ∧
      ∀ state, PersistenceManager.recover ⟨codec⟩ (world.disk.initial.applyAll
        (World.interrupt codec (some coordinator) now event count world)) = .ok state →
        PersistenceManager.NoneExpired state again

/-- Every node stops in time. -/
def InTime [PyHash String] (codec : JsonCodec String) :
    List (Node × Action) → (Node → World String) → Prop
  | [], _ => True
  | step :: rest, servers =>
      StoppedInTime codec (cluster.coordinator step.1) (servers step.1) step.2 ∧
        InTime codec rest (cluster.act codec step servers).2

/-- The steps begin one after the other, and those of one node do not overlap: a node that has
stopped may be down while others go on. `clock` is when the last step of each node ended. -/
def Ordered : List (Node × Action) → (Node → Reading) → Reading → Reading → Prop
  | [], clock, now, last => now ≤ last ∧ ∀ node, clock node ≤ last
  | step :: rest, clock, now, last =>
      now ≤ step.2.span.1 ∧ clock step.1 ≤ step.2.span.1 ∧ step.2.span.1 ≤ step.2.span.2 ∧
        Ordered rest (Function.update clock step.1 step.2.span.2) step.2.span.1 last

/-- The keys of a node. -/
def owns (node : Node) (key : String) : Bool := decide (cluster.owner key = node)

variable {cluster} [PyHash String] {node other : Node} {now since : Reading}
  {event : Recovery.Event}

/-- An event at a node is a command that the node serves, on a key of its own or on none, or it is
nothing to the one server and does not use the memory of the node. -/
theorem event_cases (cluster : Cluster) (node : Node) (event : Recovery.Event) :
    (∃ command, event = .command command ∧
        (⟨none, some (cluster.coordinator node)⟩ : Dispatcher).routeError command = .ok none ∧
        ∀ key, Recovery.key? event = some key → cluster.owns node key = true) ∨
      (∃ command message, event = .command command ∧
        (⟨none, some (cluster.coordinator node)⟩ : Dispatcher).routeError command =
          .ok (some message)) ∨
      event = .snapshot := by
  cases event with
  | snapshot => exact .inr (.inr rfl)
  | command command =>
      rcases cluster.route_cases node command with ⟨hroute, howner⟩ | ⟨message, hroute⟩
      · refine .inl ⟨command, rfl, hroute, fun key hkey => ?_⟩
        exact decide_eq_true (howner key (Query.key_of_command hkey))
      · exact .inr (.inl ⟨command, message, rfl, hroute⟩)

/-- A command that is served goes to the one server. -/
theorem served_accepted {σ : Type} {one : Recovery.Event → Py σ (Option Response)}
    {command : Command}
    (h : (⟨none, some (cluster.coordinator node)⟩ : Dispatcher).routeError command = .ok none) :
    cluster.served one node (.command command) = one (.command command) := by
  rw [served, h]
  generalize one (.command command) = action
  rfl

/-- A command that is refused does not reach the one server. -/
theorem served_refused {σ : Type} {one : Recovery.Event → Py σ (Option Response)}
    {command : Command} {message : String}
    (h : (⟨none, some (cluster.coordinator node)⟩ : Dispatcher).routeError command =
      .ok (some message)) (state : σ) :
    cluster.served one node (.command command) state =
      (.ok (some (Response.ofError message)), state) := by
  rw [served, h]
  rfl

/-- An event at a node, and what it is to the one server. -/
theorem serve_owned {journal reference : Journal}
    (h : journal.AlikeOn (cluster.owns node) now reference) (event : Recovery.Event) :
    (Journal.serve (some (cluster.coordinator node)) now event journal).1 =
        (cluster.served (Journal.serve none now) node event reference).1 ∧
      (Journal.serve (some (cluster.coordinator node)) now event journal).2.AlikeOn
        (cluster.owns node) now
        (cluster.served (Journal.serve none now) node event reference).2 := by
  rcases cluster.event_cases node event with ⟨command, rfl, hroute, hkeys⟩ |
    ⟨command, message, rfl, hroute⟩ | rfl
  · rw [Journal.serve_accepted hroute, served_accepted hroute]
    exact Journal.alike_on_serve none hkeys h
  · rw [Journal.serve_refused hroute, served_refused hroute]
    exact ⟨rfl, h⟩
  · exact ⟨rfl, Journal.alike_on_skip _ now (fun key hkey => by cases hkey) h⟩

/-- An event at a node does not use the keys of other nodes. -/
theorem serve_foreign {journal reference : Journal}
    (h : journal.AlikeOn (fun key => !cluster.owns node key) since reference) (now : Reading)
    (event : Recovery.Event) :
    (Journal.serve (some (cluster.coordinator node)) now event journal).2.AlikeOn
      (fun key => !cluster.owns node key) since reference := by
  rcases cluster.event_cases node event with ⟨command, rfl, hroute, hkeys⟩ |
    ⟨command, message, rfl, hroute⟩ | rfl
  · exact Journal.alike_on_skip _ now (fun key hkey => by rw [hkeys key hkey]; rfl) h
  · rw [Journal.serve_refused hroute]
    exact h
  · exact Journal.alike_on_skip _ now (fun key hkey => by cases hkey) h

/-- What the one server does for a node does not use the keys of the others. -/
theorem served_elsewhere (hother : other ≠ node) {journal reference : Journal}
    (h : journal.AlikeOn (cluster.owns other) since reference) (now : Reading)
    (event : Recovery.Event) :
    journal.AlikeOn (cluster.owns other) since
      (cluster.served (Journal.serve none now) node event reference).2 := by
  rcases cluster.event_cases node event with ⟨command, rfl, hroute, hkeys⟩ |
    ⟨command, message, rfl, hroute⟩ | rfl
  · rw [served_accepted hroute]
    refine (Journal.alike_on_skip none now (fun key hkey => ?_) h.symm).symm
    have howner : cluster.owner key = node := of_decide_eq_true (hkeys key hkey)
    exact decide_eq_false fun hsame => hother (hsame.symm.trans howner)
  · rw [served_refused hroute]
    exact h
  · exact h

variable {codec : JsonCodec String}

/-- The one server keeps its journal. -/
theorem served_simulates {one : World String} {reference : Journal}
    (h : one.Follows codec now reference) (node : Node) (event : Recovery.Event) :
    (cluster.served (World.serve codec none now) node event one).1 =
        (cluster.served (Journal.serve none now) node event reference).1 ∧
      (cluster.served (World.serve codec none now) node event one).2.Follows codec now
        (cluster.served (Journal.serve none now) node event reference).2 := by
  rcases cluster.event_cases node event with ⟨command, rfl, hroute, hkeys⟩ |
    ⟨command, message, rfl, hroute⟩ | rfl
  · rw [served_accepted hroute, served_accepted hroute]
    exact World.serve_simulates none _ h
  · rw [served_refused hroute, served_refused hroute]
    exact ⟨rfl, h⟩
  · exact ⟨rfl, h⟩

/-- From a time on, a node holds what the one server does under its keys and nothing under others,
and its files say so. -/
structure Carries (cluster : Cluster) (codec : JsonCodec String) (node : Node) (since : Reading)
    (world : World String) (journal reference : Journal) : Prop where
  follows : world.Follows codec since journal
  durable : journal.Durable since
  owned : journal.AlikeOn (cluster.owns node) since reference
  foreign : journal.AlikeOn (fun key => !cluster.owns node key) since
    (Journal.start (Stream'.const false))

namespace Carries

variable {world : World String} {journal reference : Journal}

theorem later (h : cluster.Carries codec node since world journal reference)
    (hle : since ≤ now) : cluster.Carries codec node now world journal reference :=
  ⟨h.follows.later hle, h.durable.later hle, h.owned.later hle, h.foreign.later hle⟩

/-- An event at the node. -/
theorem serve (hlawful : codec.Lawful)
    (h : cluster.Carries codec node now world journal reference) (event : Recovery.Event) :
    (World.serve codec (some (cluster.coordinator node)) now event world).1 =
        (cluster.served (Journal.serve none now) node event reference).1 ∧
      cluster.Carries codec node now
        (World.serve codec (some (cluster.coordinator node)) now event world).2
        (Journal.serve (some (cluster.coordinator node)) now event journal).2
        (cluster.served (Journal.serve none now) node event reference).2 := by
  obtain ⟨hreply, hfollows⟩ :=
    World.serve_simulates (some (cluster.coordinator node)) event h.follows
  obtain ⟨hsame, howned⟩ := serve_owned h.owned event
  exact ⟨hreply.trans hsame, hfollows,
    Journal.durable_serve _ hlawful event h.owned.reliable h.durable, howned,
    serve_foreign h.foreign now event⟩

/-- The node stops in the middle of an event and is started again. -/
theorem restart (hlawful : codec.Lawful)
    (h : cluster.Carries codec node now world journal reference) {again : Reading}
    (hle : now ≤ again) {count : Nat} {faults : Stream' Bool}
    (hintime : StoppedInTime codec (cluster.coordinator node) world
      (.restart now event count again faults)) :
    ∃ took : Bool,
      (World.act codec (some (cluster.coordinator node)) (.restart now event count again faults)
        world).1 = .ok none ∧
      cluster.Carries codec node again
        (World.act codec (some (cluster.coordinator node))
          (.restart now event count again faults) world).2
        (Journal.act (some (cluster.coordinator node))
          (.restart now event count again faults) journal).2
        (if took then (cluster.served (Journal.serve none now) node event reference).2
          else reference) := by
  obtain ⟨rfl, hexpired⟩ := hintime
  obtain ⟨hresult, hfollows⟩ := World.act_simulates hlawful (some (cluster.coordinator node))
    (.restart now event count again (Stream'.const false)) h.follows
  have hself : journal.Alike now journal := ⟨fun _ _ _ => rfl, h.owned.reliable, h.owned.reliable⟩
  obtain ⟨took, halike, hdurable⟩ := Journal.restart_continues (some (cluster.coordinator node))
    hlawful event count hle hself h.durable
    (Restarts.contents_in_time hlawful h.follows hexpired)
  refine ⟨took, hresult, hfollows, hdurable, ?_, ?_⟩
  · refine .of_alike halike ?_
    cases took with
    | true => exact (serve_owned h.owned event).2.later hle
    | false => exact h.owned.later hle
  · refine .of_alike halike ?_
    cases took with
    | true => exact (serve_foreign h.foreign now event).later hle
    | false => exact h.foreign.later hle

/-- What happens at another node. -/
theorem elsewhere (h : cluster.Carries codec other since world journal reference)
    (hother : other ≠ node) (now : Reading) (event : Recovery.Event) :
    cluster.Carries codec other since world journal
      (cluster.served (Journal.serve none now) node event reference).2 :=
  ⟨h.follows, h.durable, served_elsewhere hother h.owned now event, h.foreign⟩

end Carries

/-- The cluster is the one server. -/
structure IsOne (cluster : Cluster) (codec : JsonCodec String) (clock : Node → Reading)
    (now : Reading) (servers : Node → World String) (one : World String)
    (journals : Node → Journal) (reference : Journal) : Prop where
  nodes : ∀ node, cluster.Carries codec node (clock node) (servers node) (journals node) reference
  one : one.Follows codec now reference

/-- What a step does to its own node. -/
theorem act_same (cluster : Cluster) (codec : JsonCodec String) (node : Node) (action : Action)
    (servers : Node → World String) :
    (cluster.act codec (node, action) servers).2 node =
      (World.act codec (some (cluster.coordinator node)) action (servers node)).2 := by
  show Function.update servers node _ node = _
  exact Function.update_self node _ servers

/-- One node has changed. -/
theorem carries_update {clock : Node → Reading} {servers : Node → World String}
    (journals : Node → Journal) {reference : Journal} {world : World String} {journal : Journal}
    (hnode : cluster.Carries codec node now world journal reference)
    (hothers : ∀ other, other ≠ node →
      cluster.Carries codec other (clock other) (servers other) (journals other) reference)
    (other : Node) :
    cluster.Carries codec other (Function.update clock node now other)
      (Function.update servers node world other) (Function.update journals node journal other)
      reference := by
  by_cases hother : other = node
  · rw [hother, Function.update_self, Function.update_self, Function.update_self]
    exact hnode
  · rw [Function.update_of_ne hother, Function.update_of_ne hother, Function.update_of_ne hother]
    exact hothers other hother

/-- A step at a node is what it is to the one server. -/
theorem IsOne.step (hlawful : codec.Lawful) {clock : Node → Reading} {servers : Node → World String}
    {one : World String} {journals : Node → Journal} {reference : Journal}
    (h : cluster.IsOne codec clock now servers one journals reference) {step : Node × Action}
    (hnow : now ≤ step.2.span.1) (hclock : clock step.1 ≤ step.2.span.1)
    (hspan : step.2.span.1 ≤ step.2.span.2)
    (hintime : StoppedInTime codec (cluster.coordinator step.1) (servers step.1) step.2) :
    ∃ took journals reference,
      (cluster.act codec step servers).1 = (cluster.refer codec (step, took) one).1 ∧
      cluster.IsOne codec (Function.update clock step.1 step.2.span.2) step.2.span.1
        (cluster.act codec step servers).2 (cluster.refer codec (step, took) one).2 journals
        reference := by
  obtain ⟨node, action⟩ := step
  cases action with
  | serve begin event =>
      obtain ⟨hreply, hone⟩ := served_simulates (h.one.later hnow) node event
      obtain ⟨hsame, hnode⟩ := ((h.nodes node).later hclock).serve hlawful event
      refine ⟨true, _, _, hsame.trans hreply.symm, carries_update journals hnode
        fun other hother => ?_, hone⟩
      exact (h.nodes other).elsewhere hother begin event
  | restart begin event count again faults =>
      obtain ⟨hreply, hone⟩ := served_simulates (h.one.later hnow) node event
      obtain ⟨took, hresult, hnode⟩ := ((h.nodes node).later hclock).restart hlawful hspan hintime
      refine ⟨took, _, _, hresult, carries_update journals hnode fun other hother => ?_, ?_⟩
      · cases took with
        | true => exact (h.nodes other).elsewhere hother begin event
        | false => exact h.nodes other
      · cases took with
        | true => exact hone
        | false => exact h.one.later hnow

/-- Over any steps, the cluster is the one server. -/
theorem IsOne.run (hlawful : codec.Lawful) (steps : List (Node × Action)) {clock : Node → Reading}
    {last : Reading} {servers : Node → World String} {one : World String}
    {journals : Node → Journal} {reference : Journal} (hordered : Ordered steps clock now last)
    (hintime : cluster.InTime codec steps servers)
    (h : cluster.IsOne codec clock now servers one journals reference) :
    ∃ took : List Bool, took.length = steps.length ∧
      (Py.session (steps.map (cluster.act codec)) servers).1 =
        (Py.session ((steps.zip took).map (cluster.refer codec)) one).1 ∧
      ∃ journals reference, cluster.IsOne codec (fun _ => last) last
        (Py.session (steps.map (cluster.act codec)) servers).2
        (Py.session ((steps.zip took).map (cluster.refer codec)) one).2 journals reference := by
  induction steps generalizing clock now servers one journals reference with
  | nil =>
      obtain ⟨hnow, hclock⟩ := hordered
      exact ⟨[], rfl, rfl, journals, reference, fun node => (h.nodes node).later (hclock node),
        h.one.later hnow⟩
  | cons step rest ih =>
      obtain ⟨hnow, hclock, hspan, hrest⟩ := hordered
      obtain ⟨hstop, hlater⟩ := hintime
      obtain ⟨took, journals', reference', hresult, hafter⟩ :=
        h.step hlawful hnow hclock hspan hstop
      obtain ⟨others, hlength, hresults, hlast⟩ := ih hrest hlater hafter
      exact ⟨took :: others, congrArg (· + 1) hlength, congrArg₂ List.cons hresult hresults, hlast⟩

/-- As long as the files can be written and no deadline in them has passed when a node is back: over
any commands of any clients at any nodes, snapshots, and nodes that stop between two file operations
of an event and come back while others go on, the replies are those of one server without a cluster
that never stops. It is sent the commands that are not refused, and each interrupted one has reached
it or has not. In the end every key is held, as that server has it, by its owner, and by no other
node. The clock stands still within an event. -/
theorem cluster_lives_as_one (cluster : Cluster) (hlawful : codec.Lawful)
    (nowFn : Stream' Reading) (steps : List (Node × Action)) {first last : Reading}
    (hordered : Ordered steps (fun _ => first) first last)
    (hintime : cluster.InTime codec steps fun _ => World.start nowFn (Stream'.const false)) :
    ∃ took : List Bool, took.length = steps.length ∧
      let servers := Py.session (steps.map (cluster.act codec))
        fun _ => World.start nowFn (Stream'.const false)
      let one := Py.session ((steps.zip took).map (cluster.refer codec))
        (World.start nowFn (Stream'.const false))
      servers.1 = one.1 ∧ ∀ node key later, last ≤ later →
        (servers.2 node).storage.live later key =
          if cluster.owner key = node then one.2.storage.live later key else none := by
  have hstart : ∀ node, cluster.Carries codec node first (World.start nowFn (Stream'.const false))
      (Journal.start (Stream'.const false)) (Journal.start (Stream'.const false)) := fun _ =>
    ⟨World.follows_start nowFn _ first, fun _ _ _ => rfl, ⟨fun _ _ _ _ => rfl, rfl, rfl⟩,
      ⟨fun _ _ _ _ => rfl, rfl, rfl⟩⟩
  obtain ⟨took, hlength, hresults, journals, reference, hlast⟩ := IsOne.run hlawful steps hordered
    hintime ⟨hstart, World.follows_start nowFn _ first⟩
  refine ⟨took, hlength, hresults, fun node key later hle => ?_⟩
  have hnode := hlast.nodes node
  have hheld := (hnode.follows.storage key).agree later hle
  have hone := (hlast.one.storage key).agree later hle
  by_cases howner : cluster.owner key = node
  · rw [if_pos howner]
    exact hheld.trans ((hnode.owned.memory key (decide_eq_true howner) later hle).trans hone.symm)
  · rw [if_neg howner]
    have hforeign : (!cluster.owns node key) = true := by
      rw [owns, decide_eq_false howner]
      rfl
    exact hheld.trans (hnode.foreign.memory key hforeign later hle)

omit [PyHash String] in
/-- A session is opened at its owner, which then stops before a command has had an effect; another
node sends the client back to it, and it still has the session. -/
theorem cluster_lives_as_one_session :
    let _ : PyHash String := ⟨fun key => key.length⟩
    let first : Node := ⟨"node-1", "127.0.0.1", 6379, by decide⟩
    let second : Node := ⟨"node-2", "127.0.0.1", 6380, by decide⟩
    let cluster : Cluster := ⟨⟨fun raw => raw.length⟩, [first, second], by simp, by decide⟩
    let steps : List (Node × Action) :=
      [(second, .serve (Reading.atSecond 1) (.command ⟨"SET", ["session", "open"]⟩)),
        (second, .restart (Reading.atSecond 2) (.command ⟨"DEL", ["session"]⟩) 0
          (Reading.atSecond 5) (Stream'.const false)),
        (first, .serve (Reading.atSecond 3) (.command ⟨"GET", ["session"]⟩)),
        (second, .serve (Reading.atSecond 6) (.command ⟨"GET", ["session"]⟩))]
    let nowFn := Stream'.const (Reading.atSecond 0)
    ∃ took : List Bool, took.length = steps.length ∧
      let servers := Py.session (steps.map (cluster.act JsonText.codec))
        fun _ => World.start nowFn (Stream'.const false)
      let one := Py.session ((steps.zip took).map (cluster.refer JsonText.codec))
        (World.start nowFn (Stream'.const false))
      servers.1 = one.1 ∧ ∀ node key later, Reading.atSecond 7 ≤ later →
        (servers.2 node).storage.live later key =
          if cluster.owner key = node then one.2.storage.live later key else none := by
  intro _ first second cluster steps nowFn
  have hle : ∀ first second : Fin (2 ^ 34), first ≤ second →
      Reading.atSecond first ≤ Reading.atSecond second := fun _ _ h => Reading.at_second_le h
  have hordered : Ordered steps (fun _ => Reading.atSecond 0) (Reading.atSecond 0)
      (Reading.atSecond 7) := by
    have hne : first ≠ second := by decide
    simp only [steps, Ordered, Action.span, Function.update_self, Function.update_of_ne hne]
    refine ⟨hle 0 1 (by decide), hle 0 1 (by decide), Reading.le_refl _, hle 1 2 (by decide),
      hle 1 2 (by decide), hle 2 5 (by decide), hle 2 3 (by decide), hle 0 3 (by decide),
      Reading.le_refl _, hle 3 6 (by decide), ?_, Reading.le_refl _, hle 6 7 (by decide), ?_⟩
    · rw [Function.update_of_ne hne.symm, Function.update_self]
      exact hle 5 6 (by decide)
    · intro node
      simp only [Function.update_apply]
      split_ifs
      · exact hle 6 7 (by decide)
      · exact hle 3 7 (by decide)
      · exact hle 0 7 (by decide)
  refine cluster_lives_as_one cluster JsonText.lawful nowFn steps hordered
    ⟨trivial, ?_, trivial, trivial, trivial⟩
  -- the node that stops has the record of the session in its files
  have hroute : (⟨none, some (cluster.coordinator second)⟩ : Dispatcher).routeError
      ⟨"SET", ["session", "open"]⟩ = .ok none := by
    have hkey : Command.key ⟨"SET", ["session", "open"]⟩ = some "session" := by decide
    obtain ⟨message, hmoved, -⟩ := cluster.moved_error second "session"
    rw [if_pos (by decide)] at hmoved
    simp only [Dispatcher.routeError, hkey]
    exact hmoved
  have hstart : (World.start nowFn (Stream'.const false)).Follows JsonText.codec
      (Reading.atSecond 1) (Journal.start (Stream'.const false)) := World.follows_start _ _ _
  have hafter := (World.serve_simulates (some (cluster.coordinator second))
    (.command ⟨"SET", ["session", "open"]⟩) hstart).2.later (hle 1 2 (by decide))
  have hchanges : (Journal.serve (some (cluster.coordinator second)) (Reading.atSecond 1)
      (.command ⟨"SET", ["session", "open"]⟩) (Journal.start (Stream'.const false))).2.changes =
      [.append (.set "session" "open")] := by
    rw [Journal.serve_accepted hroute, Journal.serve_set (Journal.start (Stream'.const false)) rfl]
    rfl
  show StoppedInTime _ _ ((cluster.act JsonText.codec _ _).2 second) _
  rw [act_same]
  exact ⟨rfl, Restarts.none_expired_set JsonText.lawful hafter hchanges _⟩

end Cluster

end MiniRedis
