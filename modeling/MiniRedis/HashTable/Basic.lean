import Mathlib.Data.Rat.Defs
import Mathlib.Algebra.Order.Field.Rat
import MiniRedis.Foundation.Assoc
import MiniRedis.Foundation.Effect

/-!
# The chained hash table

`HashTable` after `asd.py`: a list of buckets, each a list of pairs, and a counter of
pairs. An assignment that pushes the load factor over `0.75` rebuilds the table with
twice the buckets, which assigns every pair again. The mutual recursion of
`__setitem__` and `_resize` runs on a stack of given depth: when the stack is used up
the interpreter raises `RecursionError`.
-/

namespace MiniRedis

/-- The `hash` of the interpreter on keys: some integer, possibly negative. -/
class PyHash (K : Type) where
  hash : K → Int

/-- `HashTable._buckets` and `HashTable._size`. -/
structure HashTable (K V : Type) where
  buckets : List (List (K × V))
  size : Int

namespace HashTable

variable {K V : Type}

/-- `_MAX_LOAD_FACTOR`. -/
def maxLoadFactor : ℚ := 3 / 4

/-- `_MIN_CAPACITY`. -/
def minCapacity : Nat := 8

/-- The default recursion limit of the interpreter. -/
def recursionLimit : Nat := 1000

/-- A table of empty buckets. -/
def withBuckets (count : Nat) : HashTable K V := ⟨List.replicate count [], 0⟩

/-- The index `hash(key) % n`, with the sign convention of Python's `%`. -/
def bucketIndex [PyHash K] (count : Nat) (key : K) : Nat :=
  (PyHash.hash key % (count : Int)).toNat

/-- `_find_bucket`. -/
def findBucket [PyHash K] (table : HashTable K V) (key : K) : List (K × V) :=
  table.buckets.getD (bucketIndex table.buckets.length key) []

/-- The table after a change of the bucket that `_find_bucket` returned. -/
def setBucket [PyHash K] (table : HashTable K V) (key : K) (bucket : List (K × V)) :
    HashTable K V :=
  { table with buckets := table.buckets.set (bucketIndex table.buckets.length key) bucket }

/-- `load_factor`: an exact quotient, as no rounding of the division of two lengths below
`2 ^ 52` moves it across `0.75`. -/
def loadFactor (table : HashTable K V) : ℚ := table.size / table.buckets.length

/-- `items()`: bucket by bucket. -/
def items (table : HashTable K V) : List (K × V) := table.buckets.flatten

/-- `keys()`, the iteration order of `__iter__`. -/
def keys (table : HashTable K V) : List K := table.items.map Prod.fst

/-- `__len__`. -/
def len (table : HashTable K V) : Int := table.size

/-- `clear`. -/
def clear (_table : HashTable K V) : HashTable K V := withBuckets minCapacity

variable [DecidableEq K] [PyHash K]

/-- `__getitem__`. -/
def getItem (table : HashTable K V) (key : K) : Except PyError V :=
  match (table.findBucket key).lookup key with
  | some value => .ok value
  | none => .error .keyError

/-- `__contains__`. -/
def contains (table : HashTable K V) (key : K) : Bool :=
  match table.getItem key with
  | .ok _ => true
  | .error _ => false

/-- `get`. -/
def get (table : HashTable K V) (key : K) (default : Option V) : Option V :=
  match table.getItem key with
  | .ok value => some value
  | .error _ => default

/-- `_resize`, which assigns every old pair to the new buckets by `assign`. -/
def resizeWith (assign : HashTable K V → K → V → Except PyError (HashTable K V))
    (table : HashTable K V) (newCapacity : Nat) : Except PyError (HashTable K V) :=
  table.items.foldlM (fun table item => assign table item.1 item.2)
    (withBuckets (max minCapacity newCapacity))

/-- `__setitem__` on a stack with room for `depth` nested calls. -/
def setItem : Nat → HashTable K V → K → V → Except PyError (HashTable K V)
  | 0, _, _, _ => .error .recursionError
  | depth + 1, table, key, value =>
      match Assoc.replace key value (table.findBucket key) with
      | some bucket => .ok (table.setBucket key bucket)
      | none =>
          let grown : HashTable K V :=
            { table.setBucket key (table.findBucket key ++ [(key, value)]) with
              size := table.size + 1 }
          if maxLoadFactor < grown.loadFactor then
            resizeWith (setItem depth) grown (grown.buckets.length * 2)
          else .ok grown

/-- `table[key] = value`. -/
def assign (table : HashTable K V) (key : K) (value : V) : Except PyError (HashTable K V) :=
  setItem recursionLimit table key value

/-- `update` with a list of pairs. -/
def update (table : HashTable K V) (source : List (K × V)) : Except PyError (HashTable K V) :=
  source.foldlM (fun table item => table.assign item.1 item.2) table

/-- `__init__`. -/
def init (initial : Option (List (K × V))) (capacity : Int) : Except PyError (HashTable K V) :=
  let table := withBuckets (max (minCapacity : Int) capacity).toNat
  match initial with
  | none => .ok table
  | some source => table.update source

/-- `__delitem__`. -/
def delItem (table : HashTable K V) (key : K) : Except PyError (HashTable K V) :=
  match (table.findBucket key).lookup key with
  | some _ =>
      .ok { table.setBucket key (Assoc.erase key (table.findBucket key)) with
        size := table.size - 1 }
  | none => .error .keyError

/-- `pop`: a default of `None` counts as no default. -/
def pop (table : HashTable K V) (key : K) (default : Option V) :
    Except PyError (V × HashTable K V) :=
  match (table.findBucket key).lookup key with
  | some value =>
      .ok (value, { table.setBucket key (Assoc.erase key (table.findBucket key)) with
        size := table.size - 1 })
  | none =>
      match default with
      | some value => .ok (value, table)
      | none => .error .keyError

/-- `setdefault`. -/
def setdefault (table : HashTable K V) (key : K) (default : V) :
    Except PyError (V × HashTable K V) :=
  if !table.contains key then do
    let table ← table.assign key default
    return (default, table)
  else do
    let value ← table.getItem key
    return (value, table)

end HashTable

end MiniRedis
