import MiniRedis.HashTable.Invariant

/-!
# Well formed tables

A `Table` is a hash table with its representation invariant, as every owner of a
`HashTable` holds one: it starts from the constructor and changes it through the methods
only. No operation of a `Table` can run out of stack, and its effect is given by `lookup`.
-/

namespace MiniRedis

/-- A hash table that satisfies the representation invariant. -/
structure Table (K V : Type) [PyHash K] where
  raw : HashTable K V
  inv : raw.Inv

namespace Table

variable {K V : Type} [PyHash K]

/-- `HashTable()`. -/
def new : Table K V := ⟨HashTable.withBuckets HashTable.minCapacity,
  HashTable.inv_with_buckets (Nat.le_refl _)⟩

/-- `clear`. -/
def clear (table : Table K V) : Table K V :=
  ⟨table.raw.clear, HashTable.inv_with_buckets (Nat.le_refl _)⟩

/-- `keys`. -/
def keys (table : Table K V) : List K := table.raw.keys

/-- `items`. -/
def items (table : Table K V) : List (K × V) := table.raw.items

variable [DecidableEq K]

/-- What `__getitem__` finds under a key. -/
def lookup (table : Table K V) (key : K) : Option V := table.raw.lookup key

/-- `get(key)`. -/
def get (table : Table K V) (key : K) : Option V := table.raw.get key none

/-- `key in table`. -/
def contains (table : Table K V) (key : K) : Bool := table.raw.contains key

/-- `table[key] = value`. The assignment cannot fail. -/
def set (table : Table K V) (key : K) (value : V) : Table K V :=
  match h : table.raw.assign key value with
  | .ok after => ⟨after, by
      obtain ⟨updated, hassign, hinv, _⟩ := HashTable.assign_spec table.inv key value
      rw [h] at hassign
      cases hassign
      exact hinv⟩
  | .error _ => table

/-- `update(source)`. The assignments cannot fail. -/
def update (table : Table K V) (source : List (K × V)) : Table K V :=
  match h : table.raw.update source with
  | .ok after => ⟨after, by
      obtain ⟨updated, hupdate, hinv, _⟩ := HashTable.update_spec source table.inv
      rw [h] at hupdate
      cases hupdate
      exact hinv⟩
  | .error _ => table

/-- `del table[key]`. -/
def delItem (table : Table K V) (key : K) : Except PyError (Table K V) :=
  match h : table.raw.delItem key with
  | .ok after => .ok ⟨after, table.inv.del_item h⟩
  | .error error => .error error

/-- `pop(key, default)`. -/
def pop (table : Table K V) (key : K) (default : Option V) : Except PyError (V × Table K V) :=
  match h : table.raw.pop key default with
  | .ok (value, after) => .ok (value, ⟨after, table.inv.pop h⟩)
  | .error error => .error error

@[simp] theorem lookup_new (key : K) : (new : Table K V).lookup key = none :=
  HashTable.lookup_with_buckets _ _

@[simp] theorem lookup_clear (table : Table K V) (key : K) : table.clear.lookup key = none :=
  HashTable.lookup_with_buckets _ _

@[simp] theorem get_eq (table : Table K V) (key : K) : table.get key = table.lookup key := by
  simp [get, lookup]

@[simp] theorem contains_eq (table : Table K V) (key : K) :
    table.contains key = (table.lookup key).isSome :=
  HashTable.contains_eq _ _

/-- The keys that an iteration yields are those with a value. -/
theorem mem_keys_iff (table : Table K V) (key : K) :
    key ∈ table.keys ↔ (table.lookup key).isSome :=
  HashTable.mem_keys_iff table.inv

@[simp] theorem lookup_items (table : Table K V) (key : K) :
    table.items.lookup key = table.lookup key :=
  HashTable.lookup_items table.inv key

omit [DecidableEq K] in
/-- No key is in two pairs. -/
theorem nodup_items (table : Table K V) : (Assoc.keys table.items).Nodup := table.inv.nodup

omit [DecidableEq K] in
/-- No key is iterated twice. -/
theorem nodup_keys (table : Table K V) : table.keys.Nodup := table.inv.nodup

@[simp] theorem lookup_set (table : Table K V) (key : K) (value : V) (other : K) :
    (table.set key value).lookup other =
      if other = key then some value else table.lookup other := by
  obtain ⟨after, hassign, -, hupdated⟩ := HashTable.assign_spec table.inv key value
  unfold set
  split
  · next updated h =>
      rw [hassign] at h
      cases h
      exact hupdated other
  · next error h =>
      rw [hassign] at h
      cases h

/-- An update with distinct keys answers with the new values first. -/
theorem lookup_update (table : Table K V) {source : List (K × V)}
    (hnodup : (Assoc.keys source).Nodup) (key : K) :
    (table.update source).lookup key = (source.lookup key).or (table.lookup key) := by
  obtain ⟨after, hupdate, -, hlookup⟩ := HashTable.update_spec source table.inv
  have hafter : (table.update source).lookup key = after.lookup key := by
    unfold update
    split
    · next updated h =>
        rw [hupdate] at h
        cases h
        rfl
    · next error h =>
        rw [hupdate] at h
        cases h
  rw [hafter, hlookup]
  exact Assoc.foldl_assign hnodup key (table.lookup key)

/-- Deleting a present key takes away its lookup only. -/
theorem del_item_present {table : Table K V} {key : K} {value : V}
    (h : table.lookup key = some value) :
    ∃ after, table.delItem key = .ok after ∧
      ∀ other, after.lookup other = if other = key then none else table.lookup other := by
  have hraw : table.raw.delItem key = .ok (table.raw.shrink key) := by
    rw [HashTable.del_item_eq, show table.raw.lookup key = some value from h]
  refine ⟨⟨table.raw.shrink key, table.inv.shrink h⟩, ?_,
    fun other => HashTable.lookup_shrink table.inv key other⟩
  unfold delItem
  split
  · next after hrun =>
      rw [hraw] at hrun
      cases hrun
      rfl
  · next error hrun =>
      rw [hraw] at hrun
      cases hrun

/-- Deleting an absent key raises. -/
theorem del_item_absent {table : Table K V} {key : K} (h : table.lookup key = none) :
    table.delItem key = .error .keyError := by
  have hraw : table.raw.delItem key = .error .keyError := by
    rw [HashTable.del_item_eq, show table.raw.lookup key = none from h]
  unfold delItem
  split
  · next after hrun =>
      rw [hraw] at hrun
      cases hrun
  · next error hrun =>
      rw [hraw] at hrun
      cases hrun
      rfl

/-- Popping a present key returns its value and takes away its lookup only. -/
theorem pop_present {table : Table K V} {key : K} {value : V}
    (h : table.lookup key = some value) (default : Option V) :
    ∃ after, table.pop key default = .ok (value, after) ∧
      ∀ other, after.lookup other = if other = key then none else table.lookup other := by
  have hraw : table.raw.pop key default = .ok (value, table.raw.shrink key) := by
    rw [HashTable.pop_eq, show table.raw.lookup key = some value from h]
  refine ⟨⟨table.raw.shrink key, table.inv.shrink h⟩, ?_,
    fun other => HashTable.lookup_shrink table.inv key other⟩
  unfold pop
  split
  · next popped after hrun =>
      rw [hraw] at hrun
      cases hrun
      rfl
  · next error hrun =>
      rw [hraw] at hrun
      cases hrun

/-- Popping an absent key with a default of `None` raises, unlike `dict.pop`. -/
theorem pop_absent {table : Table K V} {key : K} (h : table.lookup key = none) :
    table.pop key none = .error .keyError := by
  have hraw : table.raw.pop key none = .error .keyError := by
    rw [HashTable.pop_eq, show table.raw.lookup key = none from h]
  unfold pop
  split
  · next popped after hrun =>
      rw [hraw] at hrun
      cases hrun
  · next error hrun =>
      rw [hraw] at hrun
      cases hrun
      rfl

end Table

end MiniRedis
