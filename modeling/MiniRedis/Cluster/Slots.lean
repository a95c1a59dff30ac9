import MiniRedis.Cluster.Lives
import MiniRedis.Foundation.Residues

/-!
# Where the slots are

The slots are dealt to the nodes of a cluster in turn. A node that joins the cluster changes the
turn, and with it the owner of most slots; nothing moves the keys. `slots_placed` says how many
slots each node has, and `slots_kept` which slots, and how many, a node that joins leaves with
their owners, and what is found under a key afterwards.
-/

namespace MiniRedis

namespace Cluster

variable (cluster : Cluster)

/-- The owner of a slot. -/
def slotOwner (slot : Nat) : Node :=
  cluster.nodes.get ⟨slot % cluster.nodes.length,
    Nat.mod_lt _ (List.length_pos_iff.mpr cluster.nonempty)⟩

/-- The slots of a node. -/
def slotsOf (node : Node) : Finset Nat :=
  (Finset.range totalHashSlots).filter fun slot => cluster.slotOwner slot = node

/-- The slots that have one owner in both clusters. -/
def keptSlots (larger : Cluster) : Finset Nat :=
  (Finset.range totalHashSlots).filter fun slot =>
    larger.slotOwner slot = cluster.slotOwner slot

theorem nodes_positive : 0 < cluster.nodes.length := List.length_pos_iff.mpr cluster.nonempty

theorem nodes_nodup : cluster.nodes.Nodup := cluster.distinct.of_map _

/-- A key belongs to the owner of its slot. -/
theorem owner_eq (key : String) :
    cluster.owner key = cluster.slotOwner (cluster.router.hashSlot key) := rfl

/-- Every node routes a key to the owner of its slot. -/
theorem owner_for_key (node : Node) (key : String) :
    ClusterCoordinator.ownerForKey (cluster.coordinator node) key =
      .ok (cluster.slotOwner (cluster.router.hashSlot key)) :=
  cluster.route_eq key

/-- A slot belongs to the node whose turn it is. -/
theorem slot_owner_iff {index : Nat} (h : index < cluster.nodes.length) (slot : Nat) :
    cluster.slotOwner slot = cluster.nodes[index] ↔ slot % cluster.nodes.length = index := by
  rw [slotOwner, List.get_eq_getElem]
  exact cluster.nodes_nodup.getElem_inj_iff

/-- A node has a key to itself exactly if it refuses no command on it. -/
theorem local_iff (node : Node) (key : String) :
    (cluster.coordinator node).isLocalKey key = .ok (decide (cluster.owner key = node)) ∧
      ((cluster.coordinator node).movedError key = .ok none ↔ cluster.owner key = node) := by
  obtain ⟨message, hmoved, -⟩ := cluster.moved_error node key
  constructor
  · show (ClusterCoordinator.ownerForKey (cluster.coordinator node) key).bind _ = _
    rw [cluster.owner_for_key node key]
    rfl
  · show ClusterCoordinator.movedError ⟨node, cluster.nodes, cluster.router⟩ key = .ok none ↔
      cluster.owner key = node
    rw [hmoved]
    split
    · exact iff_of_true rfl ‹_›
    · exact iff_of_false (by simp) ‹_›

/-- Every node routes a key to the owner of its slot, which is one node of the cluster: the key is
local to this node, and no other node answers a command on it. No two nodes differ by more than one
slot: the first ones have the slots that are left over. -/
theorem slots_placed :
    (∀ key, cluster.slotOwner (cluster.router.hashSlot key) ∈ cluster.nodes ∧ ∀ node,
      ClusterCoordinator.ownerForKey (cluster.coordinator node) key =
          .ok (cluster.slotOwner (cluster.router.hashSlot key)) ∧
        (cluster.coordinator node).isLocalKey key =
          .ok (decide (cluster.slotOwner (cluster.router.hashSlot key) = node)) ∧
        ((cluster.coordinator node).movedError key = .ok none ↔
          cluster.slotOwner (cluster.router.hashSlot key) = node)) ∧
      ∀ (index : Nat) (h : index < cluster.nodes.length),
        (cluster.slotsOf cluster.nodes[index]).card =
          totalHashSlots / cluster.nodes.length +
            if index < totalHashSlots % cluster.nodes.length then 1 else 0 := by
  constructor
  · intro key
    rw [← cluster.owner_eq key]
    exact ⟨cluster.owner_mem key,
      fun node => ⟨cluster.owner_for_key node key, cluster.local_iff node key⟩⟩
  · intro index h
    rw [slotsOf, Finset.filter_congr fun slot _ => cluster.slot_owner_iff h slot]
    exact Nat.card_mod_eq h totalHashSlots

variable {cluster} {larger : Cluster} {added : Node}

/-- With a node more at the end of the list, a slot keeps its owner where both turns agree. -/
theorem slot_kept_iff (h : larger.nodes = cluster.nodes ++ [added]) (slot : Nat) :
    larger.slotOwner slot = cluster.slotOwner slot ↔
      slot % (cluster.nodes.length * (cluster.nodes.length + 1)) < cluster.nodes.length := by
  have hlength : larger.nodes.length = cluster.nodes.length + 1 := by
    rw [h, List.length_append, List.length_singleton]
  have hturn : slot % cluster.nodes.length < cluster.nodes.length :=
    Nat.mod_lt _ cluster.nodes_positive
  have hindex : slot % cluster.nodes.length < larger.nodes.length := by omega
  have hsame : cluster.slotOwner slot = larger.nodes[slot % cluster.nodes.length] := by
    simp only [slotOwner, List.get_eq_getElem, h, List.getElem_append_left hturn]
  rw [hsame, larger.slot_owner_iff hindex, hlength, eq_comm,
    Nat.mod_eq_mod_succ_iff cluster.nodes_positive]

/-- A request touches no server outside the cluster. -/
theorem request_outside [PyHash String] {first : Node} (hfirst : first ∈ cluster.nodes)
    (hadded : added ∉ cluster.nodes) (command : Command) (servers : Servers) :
    (cluster.request first command servers).2.world added = servers.world added := by
  have hcontact : ∀ node ∈ cluster.nodes, ∀ before : Servers,
      (cluster.contact node command before).2.world added = before.world added := by
    intro node hnode before
    have hne : added ≠ node := fun heq => hadded (heq.symm ▸ hnode)
    exact Function.update_of_ne hne _ _
  cases hrun : cluster.contact first command servers with
  | mk result after =>
      have hafter : after.world added = servers.world added := by
        rw [← hcontact first hfirst servers, hrun]
      cases result with
      | error error => rw [request, Py.bind_error hrun, hafter]
      | ok response =>
          rw [request, Py.bind_ok hrun]
          cases hnode : cluster.redirection response with
          | none => exact hafter
          | some node =>
              have hmem : node ∈ cluster.nodes := by
                cases response with
                | error message =>
                    obtain ⟨address, -, hfound⟩ := Option.bind_eq_some_iff.mp hnode
                    exact List.mem_of_find?_eq_some hfound
                | _ => exact absurd hnode (by simp [redirection])
              exact (hcontact node hmem after).trans hafter

/-- What the nodes of a cluster hold, as the enlarged cluster sees it: under a key whose slot has
kept its owner what the one server holds, and nothing under the others. -/
theorem Agrees.seen [PyHash String] (h : larger.nodes = cluster.nodes ++ [added])
    (hrouter : larger.router = cluster.router) {servers : Servers} {single : World String}
    (hagrees : cluster.Agrees servers single)
    (hempty : ∀ key, (servers.world added).storage.slot key = Slot.absent) (key : String) :
    (servers.world (larger.owner key)).storage.slot key =
      if cluster.router.hashSlot key ∈ cluster.keptSlots larger
      then single.storage.slot key else Slot.absent := by
  have hslot : cluster.router.hashSlot key < totalHashSlots := Nat.mod_lt _ (by decide)
  have howner : larger.owner key = larger.slotOwner (cluster.router.hashSlot key) := by
    rw [← hrouter, larger.owner_eq]
  have hmem : cluster.router.hashSlot key ∈ cluster.keptSlots larger ↔
      larger.owner key = cluster.owner key := by
    rw [keptSlots, Finset.mem_filter, Finset.mem_range, howner]
    exact and_iff_right hslot
  by_cases hkept : larger.owner key = cluster.owner key
  · rw [if_pos (hmem.mpr hkept), hkept, hagrees.owned]
  · rw [if_neg (hkept ∘ hmem.mp)]
    -- the new owner is an old node without the key, or the node that has joined
    have hnode := larger.owner_mem key
    rw [h, List.mem_append, List.mem_singleton] at hnode
    rcases hnode with hold | hnew
    · exact hagrees.foreign key _ hold hkept
    · rw [hnew, hempty]

/-- A node that joins a cluster after any requests takes all slots from their owners but this
many. What the cluster held under a key is found there by the owner it has afterwards if its slot
is one of these, and nothing is found if it is not. -/
theorem slots_kept [PyHash String] (h : larger.nodes = cluster.nodes ++ [added])
    (hrouter : larger.router = cluster.router) (disk : Disk) (clock : Stream' Reading)
    (requests : List ({node // node ∈ cluster.nodes} × Command)) :
    let servers := (Py.session (requests.map fun sent => cluster.request sent.1 sent.2)
      (start disk clock)).2
    let single := (Py.session (requests.map fun sent => solo.dispatch sent.2)
      ⟨InMemoryStore.init clock, disk⟩).2
    let turns := cluster.nodes.length * (cluster.nodes.length + 1)
    (cluster.keptSlots larger).card =
        totalHashSlots / turns * cluster.nodes.length +
          min cluster.nodes.length (totalHashSlots % turns) ∧
      ∀ key, (servers.world (larger.owner key)).storage.slot key =
        if cluster.router.hashSlot key ∈ cluster.keptSlots larger
        then single.storage.slot key else Slot.absent := by
  intro servers single turns
  have hadded : added ∉ cluster.nodes := by
    have hnodup := larger.nodes_nodup
    rw [h, List.nodup_append] at hnodup
    exact fun hmem => hnodup.2.2 added hmem added (List.mem_singleton_self added) rfl
  constructor
  · rw [keptSlots, Finset.filter_congr fun slot _ => slot_kept_iff h slot]
    exact Nat.card_mod_lt (Nat.le_mul_of_pos_right _ (Nat.succ_pos _)) totalHashSlots
  · obtain ⟨-, hagrees, hworld⟩ := Py.session_simulation
      (fun servers single => cluster.Agrees servers single ∧
        servers.world added = (start disk clock).world added)
      (fun (sent : {node // node ∈ cluster.nodes} × Command) servers world hbefore => by
        obtain ⟨hresult, hafter⟩ := agrees_request hbefore.1 sent.1 sent.2
        exact ⟨hresult, hafter,
          (request_outside sent.1.2 hadded sent.2 servers).trans hbefore.2⟩)
      requests ⟨cluster.agrees_start disk clock, rfl⟩
    refine hagrees.seen h hrouter fun key => ?_
    rw [hworld]
    simp [start, InMemoryStore.init, InMemoryStore.slot, Slot.absent]

/-- A key of slot five is lost where a second node joins, a key of slot four is not. -/
theorem slots_kept_session :
    let _ : PyHash String := ⟨fun key => key.length⟩
    let first : Node := ⟨"node-1", "127.0.0.1", 6379, by decide⟩
    let second : Node := ⟨"node-2", "127.0.0.1", 6380, by decide⟩
    let router : ClusterRouter := ⟨fun raw => raw.length⟩
    let cluster : Cluster := ⟨router, [first], by simp, by decide⟩
    let larger : Cluster := ⟨router, [first, second], by simp, by decide⟩
    let requests : List ({node // node ∈ cluster.nodes} × Command) :=
      [(⟨first, by decide⟩, ⟨"SET", ["alpha", "1"]⟩),
        (⟨first, by decide⟩, ⟨"SET", ["beta", "2"]⟩)]
    let clock := Stream'.const (Reading.atSecond 0)
    let disk := (World.start clock (Stream'.const false)).disk
    let servers := (Py.session (requests.map fun sent => cluster.request sent.1 sent.2)
      (start disk clock)).2
    let single := (Py.session (requests.map fun sent => solo.dispatch sent.2)
      ⟨InMemoryStore.init clock, disk⟩).2
    (cluster.keptSlots larger).card = 8192 ∧
      (servers.world (larger.owner "alpha")).storage.slot "alpha" = Slot.absent ∧
      (servers.world (larger.owner "beta")).storage.slot "beta" = single.storage.slot "beta" := by
  intro _ first second router cluster larger requests clock disk servers single
  have hkept : ∀ slot, slot ∈ cluster.keptSlots larger ↔ slot < 16384 ∧ slot % 2 < 1 := by
    intro slot
    have hiff : larger.slotOwner slot = cluster.slotOwner slot ↔ slot % 2 < 1 :=
      slot_kept_iff rfl slot
    rw [keptSlots, Finset.mem_filter, Finset.mem_range, hiff]
    rfl
  have hjoined : larger.nodes = cluster.nodes ++ [second] := rfl
  have hrouter : larger.router = cluster.router := rfl
  obtain ⟨hcard, hheld⟩ := slots_kept hjoined hrouter disk clock requests
  have hservers : servers = (Py.session
      (requests.map fun sent => cluster.request sent.1 sent.2) (start disk clock)).2 := rfl
  have hsingle : single = (Py.session (requests.map fun sent => solo.dispatch sent.2)
      ⟨InMemoryStore.init clock, disk⟩).2 := rfl
  clear_value servers single
  rw [← hservers, ← hsingle] at hheld
  refine ⟨hcard.trans (by decide), ?_, ?_⟩
  · have hslot : router.hashSlot "alpha" = 5 := by decide
    have hlost : ¬cluster.router.hashSlot "alpha" ∈ cluster.keptSlots larger := by
      rw [hkept, show cluster.router.hashSlot "alpha" = 5 from hslot]
      decide
    rw [hheld, if_neg hlost]
  · have hslot : router.hashSlot "beta" = 4 := by decide
    have hstays : cluster.router.hashSlot "beta" ∈ cluster.keptSlots larger := by
      rw [hkept, show cluster.router.hashSlot "beta" = 4 from hslot]
      decide
    rw [hheld, if_pos hstays]

end Cluster

end MiniRedis
