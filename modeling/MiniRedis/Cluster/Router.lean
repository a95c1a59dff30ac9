import MiniRedis.Foundation.Digits

/-!
# Routing of keys

`ClusterRouter` and `ClusterCoordinator` after `cluster/router.py`. The router is given the
SHA-256 digest as a number; any function of the bytes of a key does.
-/

namespace MiniRedis

/-- A logical cluster node. The decimal text of its port exists. -/
structure Node where
  name : String
  host : String
  port : Int
  printable : (Nat.toDigits 10 port.natAbs).length ≤ PyText.maxStrDigits
deriving DecidableEq

/-- `TOTAL_HASH_SLOTS`. -/
def totalHashSlots : Nat := 16384

/-- A router: `int(hashlib.sha256(...).hexdigest(), 16)`. -/
structure ClusterRouter where
  sha256 : Bytes → Nat

namespace ClusterRouter

/-- `hash_slot`. -/
def hashSlot (router : ClusterRouter) (key : String) : Nat :=
  router.sha256 (Bytes.ofText key) % totalHashSlots

/-- A slot has a text. -/
theorem slot_text (router : ClusterRouter) (key : String) :
    ∃ text, PyText.intText (router.hashSlot key) = .ok text := by
  have hlt : router.hashSlot key < totalHashSlots := Nat.mod_lt _ (by decide)
  exact PyText.int_text_of_small (Nat.lt_of_lt_of_le hlt (by decide))

/-- `route`. -/
def route (router : ClusterRouter) (key : String) (nodes : List Node) : Except PyError Node :=
  if h : nodes = [] then .error (.valueError "At least one node is required for routing")
  else
    .ok (nodes.get ⟨router.hashSlot key % nodes.length,
      Nat.mod_lt _ (List.length_pos_iff.mpr h)⟩)

end ClusterRouter

/-- A coordinator: it decides whether the current node owns a key. -/
structure ClusterCoordinator where
  currentNode : Node
  nodes : List Node
  router : ClusterRouter

namespace ClusterCoordinator

/-- `owner_for_key`. -/
def ownerForKey (coordinator : ClusterCoordinator) (key : String) : Except PyError Node :=
  coordinator.router.route key coordinator.nodes

/-- `is_local_key`. -/
def isLocalKey (coordinator : ClusterCoordinator) (key : String) : Except PyError Bool := do
  let owner ← coordinator.ownerForKey key
  return decide (owner = coordinator.currentNode)

/-- `moved_error`. -/
def movedError (coordinator : ClusterCoordinator) (key : String) :
    Except PyError (Option String) := do
  let owner ← coordinator.ownerForKey key
  if owner = coordinator.currentNode then
    return none
  let slot := coordinator.router.hashSlot key
  let slotText ← PyText.intText slot
  let portText ← PyText.intText owner.port
  return some s!"MOVED {slotText} {owner.host}:{portText}"

end ClusterCoordinator

end MiniRedis
