import MiniRedis.Foundation.Digits
import MiniRedis.Server.Handlers
import MiniRedis.Storage.Operations

/-!
# A cluster behaves like one server

Several dispatchers with one node list, a client that goes where a `MOVED` reply sends it,
and one dispatcher without a cluster that is fed the same commands. `Agrees` says that the
server that owns a key holds what the one server holds under it, and that no other server
holds anything; each command keeps it (`agrees_request`), whichever server it is sent to first.
-/

namespace MiniRedis

namespace Node

/-- `f"{host}:{port}"`. -/
def address (node : Node) : Option String :=
  match PyText.intText node.port with
  | .ok portText => some s!"{node.host}:{portText}"
  | .error _ => none

/-- A node has an address, which ends with the text of its port. -/
theorem address_spec (node : Node) :
    ∃ portText, PyText.intText node.port = .ok portText ∧
      node.address = some s!"{node.host}:{portText}" := by
  obtain ⟨portText, hport⟩ := PyText.int_text_ok_iff.mpr node.printable
  exact ⟨portText, hport, by rw [address, hport]⟩

/-- What stands behind the last colon of a text, and before it. -/
theorem last_colon {first second : List Char} {tail tail' : List Char}
    (h : first ++ ':' :: tail = second ++ ':' :: tail') (htail : ':' ∉ tail)
    (htail' : ':' ∉ tail') : first = second ∧ tail = tail' := by
  rcases List.append_eq_append_iff.mp h with ⟨middle, hsecond, hrest⟩ | ⟨middle, hfirst, hrest⟩
  · cases middle with
    | nil =>
        rw [List.nil_append, List.cons.injEq] at hrest
        exact ⟨by rw [hsecond, List.append_nil], hrest.2⟩
    | cons c middle =>
        rw [List.cons_append, List.cons.injEq] at hrest
        exact absurd (hrest.2 ▸ List.mem_append_right middle List.mem_cons_self) htail
  · cases middle with
    | nil =>
        rw [List.nil_append, List.cons.injEq] at hrest
        exact ⟨by rw [hfirst, List.append_nil], hrest.2.symm⟩
    | cons c middle =>
        rw [List.cons_append, List.cons.injEq] at hrest
        exact absurd (hrest.2 ▸ List.mem_append_right middle List.mem_cons_self) htail'

/-- An address names one host and one port. -/
theorem address_injective {first second : Node} (h : first.address = second.address) :
    first.host = second.host ∧ first.port = second.port := by
  obtain ⟨portText, hport, haddress⟩ := first.address_spec
  obtain ⟨portText', hport', haddress'⟩ := second.address_spec
  have hcolon : ∀ {n : Int} {text : String}, PyText.intText n = .ok text → ':' ∉ text.toList :=
    fun htext => PyText.not_mem_int_text htext (by decide) (by decide)
  rw [haddress, haddress', Option.some.injEq] at h
  have hlist := congrArg String.toList h
  simp only [String.toList_append, List.append_assoc] at hlist
  have hparts : first.host.toList ++ ':' :: portText.toList =
      second.host.toList ++ ':' :: portText'.toList := hlist
  obtain ⟨hhost, htext⟩ := last_colon hparts (hcolon hport) (hcolon hport')
  have hsame : portText = portText' := String.toList_inj.mp htext
  exact ⟨String.toList_inj.mp hhost, PyText.int_text_injective hport (hsame ▸ hport')⟩

end Node

variable [PyHash String]

/-- A nonempty list of nodes with distinct addresses, and their router. -/
structure Cluster where
  router : ClusterRouter
  nodes : List Node
  nonempty : nodes ≠ []
  distinct : (nodes.map fun node => (node.host, node.port)).Nodup

/-- The servers of a cluster and the clock they share. -/
structure Servers where
  world : Node → World String
  clock : Stream' Reading

namespace Cluster

variable (cluster : Cluster)

/-- The dispatcher of a node. -/
def dispatcher (node : Node) : Dispatcher :=
  ⟨none, some ⟨node, cluster.nodes, cluster.router⟩⟩

/-- The world with the clock at its coming readings. -/
def atClock (clock : Stream' Reading) (world : World String) : World String :=
  { world with storage := { world.storage with expiration :=
      { world.storage.expiration with nowFn := clock } } }

/-- Send a command to a node. -/
def contact (node : Node) (command : Command) : Py Servers Response := fun servers =>
  let run := (cluster.dispatcher node).dispatch command (atClock servers.clock (servers.world node))
  (run.1, ⟨Function.update servers.world node run.2, run.2.storage.expiration.nowFn⟩)

/-- The `host:port` that a `MOVED` reply names. -/
def movedTo (message : String) : Option String :=
  if Response.startsWith message "MOVED " then
    some (String.ofList (((message.toList.drop 6).dropWhile (· ≠ ' ')).drop 1))
  else none

/-- The node that a reply sends the client to. -/
def redirection : Response → Option Node
  | .error message =>
      (movedTo message).bind fun address =>
        cluster.nodes.find? fun node => node.address = some address
  | _ => none

/-- Send a command to a node, and again to the node that a `MOVED` reply names. -/
def request (first : Node) (command : Command) : Py Servers Response := do
  let response ← cluster.contact first command
  match cluster.redirection response with
  | none => return response
  | some node => cluster.contact node command

/-- Servers with empty stores. -/
def start (disk : Disk) (clock : Stream' Reading) : Servers :=
  ⟨fun _ => ⟨InMemoryStore.init clock, disk⟩, clock⟩

/-- Every key is held by the server of its owner only. -/
def Placed (servers : Servers) : Prop :=
  ∀ node ∈ cluster.nodes, ∀ key,
    (servers.world node).storage.slot key ≠ Slot.absent →
      ClusterCoordinator.ownerForKey ⟨node, cluster.nodes, cluster.router⟩ key = .ok node

/-- The owner of a key. -/
def owner (key : String) : Node :=
  cluster.nodes.get ⟨cluster.router.hashSlot key % cluster.nodes.length,
    Nat.mod_lt _ (List.length_pos_iff.mpr cluster.nonempty)⟩

omit [PyHash String] in
theorem owner_mem (key : String) : cluster.owner key ∈ cluster.nodes := List.get_mem _ _

omit [PyHash String] in
theorem route_eq (key : String) :
    cluster.router.route key cluster.nodes = .ok (cluster.owner key) := by
  rw [ClusterRouter.route, dif_neg cluster.nonempty]
  rfl

omit [PyHash String] in
/-- A node has its address for itself. -/
theorem find_address {node : Node} (h : node ∈ cluster.nodes) :
    cluster.nodes.find? (fun other => other.address = node.address) = some node := by
  have hunique : ∀ other ∈ cluster.nodes, other.address = node.address → other = node := by
    intro other hother haddress
    obtain ⟨hhost, hport⟩ := Node.address_injective haddress
    exact List.inj_on_of_nodup_map cluster.distinct hother h (by rw [hhost, hport])
  cases hfound : cluster.nodes.find? (fun other => other.address = node.address) with
  | none =>
      rw [List.find?_eq_none] at hfound
      exact absurd (decide_eq_true rfl) (hfound node h)
  | some other =>
      have haddress := List.find?_some hfound
      rw [hunique other (List.mem_of_find?_eq_some hfound) (of_decide_eq_true haddress)]

/-- The server that owns a key holds what the one server holds under it, no other server holds
anything under it, and the clocks agree. -/
structure Agrees (servers : Servers) (single : World String) : Prop where
  clock : single.storage.expiration.nowFn = servers.clock
  owned : ∀ key, (servers.world (cluster.owner key)).storage.slot key = single.storage.slot key
  foreign : ∀ key, ∀ node ∈ cluster.nodes, node ≠ cluster.owner key →
    (servers.world node).storage.slot key = Slot.absent

omit [PyHash String] in
/-- A `MOVED` message is a redirection to its last part. -/
theorem moved_to_message {slotText address : String} (hslot : ' ' ∉ slotText.toList)
    {message : String}
    (h : message.toList = "MOVED ".toList ++ (slotText.toList ++ ' ' :: address.toList)) :
    Response.ofError message = .error message ∧ movedTo message = some address := by
  have hmoved : Response.startsWith message "MOVED " = true := by
    rw [Response.startsWith, h, List.isPrefixOf_iff_prefix]
    exact List.prefix_append _ _
  have hskip : (slotText.toList ++ ' ' :: address.toList).dropWhile (fun c => decide (c ≠ ' ')) =
      ' ' :: address.toList := by
    rw [List.dropWhile_append_of_pos]
    · rw [List.dropWhile_cons_of_neg (by decide)]
    · intro c hc
      exact decide_eq_true fun hspace => hslot (hspace ▸ hc)
  have hdrop : message.toList.drop 6 = slotText.toList ++ ' ' :: address.toList := by
    have hletters : "MOVED ".toList = ['M', 'O', 'V', 'E', 'D', ' '] := by decide
    rw [h, hletters]
    rfl
  refine ⟨?_, ?_⟩
  · rw [Response.ofError, hmoved, Bool.or_true, if_pos rfl]
  · rw [movedTo, if_pos hmoved, hdrop, hskip, List.drop_one, List.tail_cons, String.ofList_toList]

omit [PyHash String] in
/-- A server that does not own a key names the owner. -/
theorem moved_error (node : Node) (key : String) :
    ∃ message, ClusterCoordinator.movedError ⟨node, cluster.nodes, cluster.router⟩ key =
        .ok (if cluster.owner key = node then none else some message) ∧
      cluster.redirection (Response.ofError message) = some (cluster.owner key) := by
  obtain ⟨slotText, hslotText⟩ := cluster.router.slot_text key
  obtain ⟨portText, hport, haddress⟩ := (cluster.owner key).address_spec
  refine ⟨s!"MOVED {slotText} {(cluster.owner key).host}:{portText}", ?_, ?_⟩
  · simp only [ClusterCoordinator.movedError, ClusterCoordinator.ownerForKey, route_eq]
    by_cases howner : cluster.owner key = node
    · rw [if_pos howner]
      show (if cluster.owner key = node then _ else _) = _
      rw [if_pos howner]
      rfl
    · rw [if_neg howner]
      show (if cluster.owner key = node then _ else _) = _
      rw [if_neg howner]
      simp only [hslotText, hport]
      rfl
  · have hspace : ' ' ∉ slotText.toList :=
      PyText.not_mem_int_text hslotText (by decide) (by decide)
    have hparts : (s!"MOVED {slotText} {(cluster.owner key).host}:{portText}").toList =
        "MOVED ".toList ++ (slotText.toList ++
          ' ' :: (s!"{(cluster.owner key).host}:{portText}").toList) := by
      simp only [String.toList_append, List.append_assoc]
      rfl
    obtain ⟨herror, hmoved⟩ := moved_to_message hspace hparts
    rw [herror]
    show (movedTo _).bind _ = _
    rw [hmoved, Option.bind_some, ← haddress]
    exact cluster.find_address (cluster.owner_mem key)

/-- One dispatcher without persistence and without a cluster. -/
def solo : Dispatcher := ⟨none, none⟩

omit [PyHash String] in
/-- The one dispatcher routes nothing. -/
theorem solo_local (command : Command) : solo.routeError command = .ok none := rfl

/-- The nodes execute commands as the one dispatcher does. -/
theorem execute_node (node : Node) (command : Command) :
    (cluster.dispatcher node).execute command = solo.execute command :=
  Dispatcher.execute_cluster _ command

/-- Without a key, every node answers as the one server does, and nothing changes. -/
theorem dispatch_keyless {command : Command} (h : command.key = none) :
    ∃ result, (∀ world, solo.dispatch command world = (result, world)) ∧
      ∀ node world, (cluster.dispatcher node).dispatch command world = (result, world) := by
  obtain ⟨result, hresult⟩ := Dispatcher.untouched_execute none h
  refine ⟨result, ?_, ?_⟩
  · intro world
    rw [Dispatcher.dispatch_local (solo_local command)]
    exact hresult world
  · intro node world
    have hroute : (cluster.dispatcher node).routeError command = .ok none := by
      simp only [Dispatcher.routeError, dispatcher, h]
    rw [Dispatcher.dispatch_local hroute, execute_node]
    exact hresult world

/-- The owner of its key answers a command as the one server does. -/
theorem dispatch_owner {command : Command} {key : String} (h : command.key = some key) :
    (cluster.dispatcher (cluster.owner key)).dispatch command = solo.dispatch command := by
  obtain ⟨message, hmoved, -⟩ := cluster.moved_error (cluster.owner key) key
  rw [if_pos rfl] at hmoved
  have hroute : (cluster.dispatcher (cluster.owner key)).routeError command = .ok none := by
    simp only [Dispatcher.routeError, dispatcher, h, hmoved]
  rw [Dispatcher.dispatch_local hroute, Dispatcher.dispatch_local (solo_local command),
    execute_node]

/-- Every other node sends the client to the owner. -/
theorem dispatch_other {command : Command} {key : String} (h : command.key = some key)
    {node : Node} (hnode : node ≠ cluster.owner key) :
    ∃ message, cluster.redirection (Response.ofError message) = some (cluster.owner key) ∧
      ∀ world, (cluster.dispatcher node).dispatch command world =
        (.ok (Response.ofError message), world) := by
  obtain ⟨message, hmoved, hredirection⟩ := cluster.moved_error node key
  rw [if_neg hnode.symm] at hmoved
  have hroute : (cluster.dispatcher node).routeError command = .ok (some message) := by
    simp only [Dispatcher.routeError, dispatcher, h, hmoved]
  exact ⟨message, hredirection, Dispatcher.dispatch_refused hroute⟩

variable {cluster}

/-- A node that changes nothing leaves the servers as they were. -/
theorem Agrees.unchanged {servers : Servers} {single : World String}
    (h : cluster.Agrees servers single) {node : Node} {command : Command}
    {result : Except PyError Response}
    (hresult : ∀ world, (cluster.dispatcher node).dispatch command world = (result, world)) :
    (cluster.contact node command servers).1 = result ∧
      cluster.Agrees (cluster.contact node command servers).2 single := by
  rw [contact, hresult]
  have hslot : ∀ other key,
      ((Function.update servers.world node (atClock servers.clock (servers.world node))) other
        ).storage.slot key = (servers.world other).storage.slot key := by
    intro other key
    by_cases hother : other = node
    · subst hother
      rw [Function.update_self]
      rfl
    · rw [Function.update_of_ne hother]
  refine ⟨rfl, ⟨h.clock, ?_, ?_⟩⟩
  · intro key
    exact (hslot _ key).trans (h.owned key)
  · intro key other hmem hother
    exact (hslot other key).trans (h.foreign key other hmem hother)

/-- An action on a key does at its owner what it does at the one server. -/
theorem Agrees.confined {servers : Servers} {single : World String}
    (h : cluster.Agrees servers single) {key : String} {action : Py (World String) Response}
    (hconfined : World.Confined key action) :
    let run := action (atClock servers.clock (servers.world (cluster.owner key)))
    run.1 = (action single).1 ∧
      cluster.Agrees ⟨Function.update servers.world (cluster.owner key) run.2,
        run.2.storage.expiration.nowFn⟩ (action single).2 := by
  intro run
  obtain ⟨view, hview⟩ := hconfined
  -- the owner and the one server hold the same under the key, and share the clock
  have hcell : (atClock servers.clock (servers.world (cluster.owner key))).storage.cell key =
      single.storage.cell key := by
    show Cell.mk ((servers.world (cluster.owner key)).storage.slot key) servers.clock =
      Cell.mk (single.storage.slot key) single.storage.expiration.nowFn
    rw [h.owned key, h.clock]
  obtain ⟨hrun, hframe⟩ := hview (atClock servers.clock (servers.world (cluster.owner key)))
  obtain ⟨hrun', hframe'⟩ := hview single
  rw [hcell, hrun', Prod.mk.injEq] at hrun
  have hsame := hrun.2
  refine ⟨hrun.1.symm, ⟨congrArg Cell.nowFn hsame, ?_, ?_⟩⟩
  · intro other
    show (Function.update servers.world (cluster.owner key) run.2 (cluster.owner other)
      ).storage.slot other = _
    by_cases howner : cluster.owner other = cluster.owner key
    · rw [howner, Function.update_self]
      by_cases hother : other = key
      · subst hother
        exact (congrArg Cell.toSlot hsame).symm
      · rw [hframe' other hother]
        exact (hframe other hother).trans (howner ▸ h.owned other)
    · have hother : other ≠ key := fun hother => howner (by rw [hother])
      rw [Function.update_of_ne howner, hframe' other hother]
      exact h.owned other
  · intro other node hmem hnode
    show (Function.update servers.world (cluster.owner key) run.2 node).storage.slot other = _
    by_cases howner : node = cluster.owner key
    · have hother : other ≠ key := by
        intro hother
        exact hnode (by rw [hother, howner])
      rw [howner, Function.update_self]
      exact (hframe other hother).trans (h.foreign other _ (howner ▸ hmem) (howner ▸ hnode))
    · rw [Function.update_of_ne howner]
      exact h.foreign other node hmem hnode

/-- The owner of its key does with a command what the one server does. -/
theorem Agrees.contact_owner {servers : Servers} {single : World String}
    (h : cluster.Agrees servers single) {command : Command} {key : String}
    (hkey : command.key = some key) :
    (cluster.contact (cluster.owner key) command servers).1 = (solo.dispatch command single).1 ∧
      cluster.Agrees (cluster.contact (cluster.owner key) command servers).2
        (solo.dispatch command single).2 := by
  have hconfined : World.Confined key (solo.dispatch command) := by
    rw [Dispatcher.dispatch_local (solo_local command)]
    exact Dispatcher.confined_execute none hkey
  rw [contact, cluster.dispatch_owner hkey]
  generalize solo.dispatch command = action at hconfined
  exact h.confined hconfined

omit [PyHash String] in
/-- A response that is no redirection sends the client nowhere. -/
theorem redirection_final {response : Response} (h : Dispatcher.Final response) :
    cluster.redirection response = none := by
  cases response with
  | error message =>
      have hmessage : Response.startsWith message "MOVED " = false := h message rfl
      show (movedTo message).bind _ = none
      rw [movedTo, hmessage]
      rfl
  | _ => rfl

/-- The one server never sends a client elsewhere. -/
theorem final_solo (command : Command) :
    (solo.dispatch command).ReturnsOnly Dispatcher.Final := by
  rw [Dispatcher.dispatch_local (solo_local command)]
  exact Dispatcher.final_execute none command

/-- A client that is not sent elsewhere is done. -/
theorem request_final {servers : Servers} {node : Node} {command : Command}
    (h : ∀ response, (cluster.contact node command servers).1 = .ok response →
      Dispatcher.Final response) :
    cluster.request node command servers = cluster.contact node command servers := by
  cases hrun : cluster.contact node command servers with
  | mk result after =>
      cases result with
      | error error => exact Py.bind_error hrun
      | ok response =>
          have hfinal : Dispatcher.Final response := h response (by rw [hrun])
          rw [request, Py.bind_ok hrun, redirection_final hfinal]
          rfl

/-- Each command is answered as by the one server, and keeps the data where it belongs. -/
theorem agrees_request {servers : Servers} {single : World String}
    (h : cluster.Agrees servers single) (first : Node) (command : Command) :
    (cluster.request first command servers).1 = (solo.dispatch command single).1 ∧
      cluster.Agrees (cluster.request first command servers).2
        (solo.dispatch command single).2 := by
  cases hkey : command.key with
  | none =>
      obtain ⟨result, hsolo, hnode⟩ := cluster.dispatch_keyless hkey
      obtain ⟨hresult, hagrees⟩ := h.unchanged (hnode first)
      rw [request_final, hsolo]
      · exact ⟨hresult, hagrees⟩
      · intro response hresponse
        refine final_solo command single response ?_
        rw [hsolo, ← hresult, hresponse]
  | some key =>
      by_cases hfirst : first = cluster.owner key
      · obtain ⟨hresult, hagrees⟩ := h.contact_owner hkey
        rw [hfirst, request_final]
        · exact ⟨hresult, hagrees⟩
        · intro response hresponse
          exact final_solo command single response (hresult ▸ hresponse)
      · -- the first node changes nothing and names the owner
        obtain ⟨message, hredirection, hrefused⟩ := cluster.dispatch_other hkey hfirst
        obtain ⟨hresult, hagrees⟩ := h.unchanged hrefused
        have hrun : cluster.contact first command servers =
            (.ok (Response.ofError message), (cluster.contact first command servers).2) :=
          Prod.ext hresult rfl
        rw [request, Py.bind_ok hrun, hredirection]
        exact hagrees.contact_owner hkey

/-- Whatever node is contacted, the data stays where it belongs. -/
theorem agrees_contact {servers : Servers} {single : World String}
    (h : cluster.Agrees servers single) (node : Node) (command : Command) :
    ∃ after, cluster.Agrees (cluster.contact node command servers).2 after := by
  cases hkey : command.key with
  | none =>
      obtain ⟨result, -, hnode⟩ := cluster.dispatch_keyless hkey
      exact ⟨single, (h.unchanged (hnode node)).2⟩
  | some key =>
      by_cases hnode : node = cluster.owner key
      · rw [hnode]
        exact ⟨_, (h.contact_owner hkey).2⟩
      · obtain ⟨message, -, hrefused⟩ := cluster.dispatch_other hkey hnode
        exact ⟨single, (h.unchanged hrefused).2⟩

/-- Empty stores agree. -/
theorem agrees_start (disk : Disk) (clock : Stream' Reading) :
    cluster.Agrees (start disk clock) ⟨InMemoryStore.init clock, disk⟩ := by
  refine ⟨rfl, fun key => rfl, ?_⟩
  intro key node hmem hnode
  simp [start, InMemoryStore.init, InMemoryStore.slot, Slot.absent]

/-- Servers that agree with one server hold every key at its owner only. -/
theorem Agrees.placed {servers : Servers} {single : World String}
    (h : cluster.Agrees servers single) : cluster.Placed servers := by
  intro node hmem key hslot
  by_cases hnode : node = cluster.owner key
  · rw [hnode]
    exact cluster.route_eq key
  · exact absurd (h.foreign key node hmem hnode) hslot

variable (cluster)

/-- A client that follows one redirection gets from a cluster the replies of one server, whichever
node it contacts first, and no reply is another redirection; at every moment each key is held by
the server of its owner only. -/
theorem cluster_behaves_like_one (disk : Disk) (clock : Stream' Reading)
    (requests : List ({node // node ∈ cluster.nodes} × Command)) :
    let routed := Py.session (requests.map fun sent => cluster.request sent.1 sent.2)
      (start disk clock)
    let single := Py.session (requests.map fun sent => solo.dispatch sent.2)
      ⟨InMemoryStore.init clock, disk⟩
    routed.1 = single.1 ∧
      (∀ response, .ok response ∈ routed.1 → Dispatcher.Final response) ∧
      cluster.Placed routed.2 ∧
      ∀ node ∈ cluster.nodes, ∀ command,
        cluster.Placed (cluster.contact node command routed.2).2 := by
  intro routed single
  obtain ⟨hreplies, hagrees⟩ := Py.session_simulation cluster.Agrees
    (fun (sent : {node // node ∈ cluster.nodes} × Command) servers world h =>
      agrees_request h sent.1 sent.2) requests (cluster.agrees_start disk clock)
  refine ⟨hreplies, ?_, hagrees.placed, ?_⟩
  · intro response hresponse
    have hsingle : .ok response ∈ single.1 := hreplies ▸ hresponse
    refine Py.session_returns ?_ _ hsingle
    intro action haction
    obtain ⟨sent, -, rfl⟩ := List.mem_map.mp haction
    exact final_solo sent.2
  · intro node hmem command
    obtain ⟨after, hafter⟩ := agrees_contact hagrees node command
    exact hafter.placed

end Cluster

end MiniRedis
