import MiniRedis.Storage.InMemory

/-!
# The operations of the store as data

A run of the store is a list of operations. `KeyOp` lists the methods that take a key, and
`StoreOp` adds `snapshot`. The two dictionaries that `snapshot` returns are given by their
lookups, as Python compares dictionaries without regard to the order of their items.
-/

namespace MiniRedis

/-- The methods of the store that take a key. -/
inductive KeyOp (V : Type) where
  | set (value : V) (ex : Option Int)
  | get
  | delete
  | exists
  | expire (seconds : Int)
  | ttl
  | invalidate
  | getExpireAt

/-- What a method that takes a key returns. -/
inductive KeyReply (V : Type) where
  | done
  | value (found : Option V)
  | number (n : Int)
  | time (expiresAt : Option PyFloat)
deriving DecidableEq

/-- The operations of the store, `load` aside. -/
inductive StoreOp (K V : Type) where
  | key (key : K) (op : KeyOp V)
  | snapshot

/-- What an operation returns. -/
inductive StoreReply (K V : Type) where
  | key (reply : KeyReply V)
  | snapshot (data : K → Option V) (expiresAt : K → Option PyFloat)

namespace InMemoryStore

variable {K V : Type} [PyHash K] [DecidableEq K]

/-- `InMemoryStore()`, with the clock of the run. -/
def init (nowFn : Stream' Reading) : InMemoryStore K V := ⟨Table.new, ⟨Dict.empty, nowFn⟩⟩

/-- The store at a time at which the clock stands still. -/
def atTime (now : Reading) (store : InMemoryStore K V) : InMemoryStore K V :=
  { store with expiration := { store.expiration with nowFn := Stream'.const now } }

/-- Call a method on a key. -/
def performKey (key : K) : KeyOp V → Py (InMemoryStore K V) (KeyReply V)
  | .set value ex => do
      set key value ex
      return .done
  | .get => return .value (← get key)
  | .delete => return .number (← delete key)
  | .exists => return .number (← «exists» key)
  | .expire seconds => return .number (← expire key seconds)
  | .ttl => return .number (← ttl key)
  | .invalidate => return .number (← invalidate key)
  | .getExpireAt => return .time (← getExpireAt key)

/-- Call an operation. -/
def perform : StoreOp K V → Py (InMemoryStore K V) (StoreReply K V)
  | .key key op => return .key (← performKey key op)
  | .snapshot => do
      let (data, expiresAt) ← snapshot
      return .snapshot data.get? expiresAt.get?

end InMemoryStore

end MiniRedis
