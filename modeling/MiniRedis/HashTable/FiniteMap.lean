import Mathlib.Data.Finmap
import MiniRedis.HashTable.Invariant

/-!
# The hash table is a finite map

The meaning of the table operations is given by finite maps, and
`hash_table_refines_finite_map` runs any list of operations on both: the answers are the
same, and the representation invariant holds after every operation. Iterations are
compared as multisets of keys or pairs, as the iteration order of a table depends on the
hash function.
-/

namespace MiniRedis

variable {K V : Type}

/-- The operations of a table after its construction. -/
inductive TableOp (K V : Type) where
  | set (key : K) (value : V)
  | getItem (key : K)
  | delete (key : K)
  | pop (key : K) (default : Option V)
  | setdefault (key : K) (default : V)
  | update (source : List (K × V))
  | clear
  | get (key : K) (default : Option V)
  | contains (key : K)
  | len
  | keys
  | items

/-- What a caller of one operation observes. -/
inductive TableReply (K V : Type) where
  | done
  | value (value : V)
  | found (value : Option V)
  | flag (present : Bool)
  | count (size : Int)
  | keys (keys : Multiset K)
  | items (items : Multiset (K × V))
  | raised (error : PyError)

namespace HashTable

variable [DecidableEq K] [PyHash K]

/-- The reply and the table after an operation that may raise; a raise changes nothing. -/
def settle (table : HashTable K V)
    (result : Except PyError (TableReply K V × HashTable K V)) :
    TableReply K V × HashTable K V :=
  match result with
  | .ok outcome => outcome
  | .error error => (.raised error, table)

/-- One operation on the table. -/
def perform (table : HashTable K V) : TableOp K V → TableReply K V × HashTable K V
  | .set key value => settle table ((table.assign key value).map (.done, ·))
  | .getItem key => settle table ((table.getItem key).map (.value ·, table))
  | .delete key => settle table ((table.delItem key).map (.done, ·))
  | .pop key default =>
      settle table ((table.pop key default).map fun (value, after) => (.value value, after))
  | .setdefault key default =>
      settle table ((table.setdefault key default).map fun (value, after) => (.value value, after))
  | .update source => settle table ((table.update source).map (.done, ·))
  | .clear => (.done, table.clear)
  | .get key default => (.found (table.get key default), table)
  | .contains key => (.flag (table.contains key), table)
  | .len => (.count table.len, table)
  | .keys => (.keys table.keys, table)
  | .items => (.items table.items, table)

/-- The replies to a list of operations, and the table after them. -/
def performAll (table : HashTable K V) : List (TableOp K V) →
    List (TableReply K V) × HashTable K V
  | [] => ([], table)
  | op :: rest =>
      let (reply, middle) := table.perform op
      let (replies, after) := middle.performAll rest
      (reply :: replies, after)

end HashTable

/-- A finite map from keys to values. -/
abbrev FiniteMap (K V : Type) : Type := Finmap (fun _ : K => V)

namespace FiniteMap

/-- The pairs of the map. -/
def pairs (map : FiniteMap K V) : Multiset (K × V) :=
  map.entries.map (fun entry => (entry.1, entry.2))

variable [DecidableEq K]

/-- The map with a list of pairs added in order. -/
def insertAll (map : FiniteMap K V) (source : List (K × V)) : FiniteMap K V :=
  source.foldl (fun map item => map.insert item.1 item.2) map

/-- The value of a key the map has, and `KeyError` for any other. -/
def getItem (map : FiniteMap K V) (key : K) : Except PyError V :=
  match map.lookup key with
  | some value => .ok value
  | none => .error .keyError

/-- The meaning of one operation. -/
def perform (map : FiniteMap K V) : TableOp K V → TableReply K V × FiniteMap K V
  | .set key value => (.done, map.insert key value)
  | .getItem key =>
      match map.getItem key with
      | .ok value => (.value value, map)
      | .error error => (.raised error, map)
  | .delete key =>
      match map.lookup key with
      | some _ => (.done, map.erase key)
      | none => (.raised .keyError, map)
  | .pop key default =>
      match map.lookup key, default with
      | some value, _ => (.value value, map.erase key)
      | none, some value => (.value value, map)
      | none, none => (.raised .keyError, map)
  | .setdefault key default =>
      match map.lookup key with
      | some value => (.value value, map)
      | none => (.value default, map.insert key default)
  | .update source => (.done, map.insertAll source)
  | .clear => (.done, ∅)
  | .get key default => (.found ((map.lookup key).or default), map)
  | .contains key => (.flag (decide (key ∈ map)), map)
  | .len => (.count map.keys.card, map)
  | .keys => (.keys map.keys.val, map)
  | .items => (.items map.pairs, map)

/-- The meaning of a list of operations. -/
def performAll (map : FiniteMap K V) : List (TableOp K V) →
    List (TableReply K V) × FiniteMap K V
  | [] => ([], map)
  | op :: rest =>
      let (reply, middle) := map.perform op
      let (replies, after) := middle.performAll rest
      (reply :: replies, after)

/-- A lookup after an insertion. -/
theorem lookup_insert_eq (map : FiniteMap K V) (key other : K) (value : V) :
    (map.insert key value).lookup other = if other = key then some value else map.lookup other := by
  split
  · next h => rw [h, Finmap.lookup_insert]
  · next h => rw [Finmap.lookup_insert_of_ne map h]

/-- A lookup after an erasure. -/
theorem lookup_erase_eq (map : FiniteMap K V) (key other : K) :
    (map.erase key).lookup other = if other = key then none else map.lookup other := by
  split
  · next h => rw [h, Finmap.lookup_erase]
  · next h => rw [Finmap.lookup_erase_ne h]

/-- A lookup after a list of insertions. -/
theorem lookup_insert_all (source : List (K × V)) (map : FiniteMap K V) (key : K) :
    (map.insertAll source).lookup key =
      source.foldl (fun found item => if key = item.1 then some item.2 else found)
        (map.lookup key) := by
  induction source generalizing map with
  | nil => rfl
  | cons item rest ih =>
      change (insertAll (map.insert item.1 item.2) rest).lookup key = _
      rw [ih, lookup_insert_eq, List.foldl_cons]

/-- A key is in the map exactly when its lookup succeeds. -/
theorem is_some_lookup (map : FiniteMap K V) (key : K) :
    (map.lookup key).isSome = decide (key ∈ map) := by
  rw [Bool.eq_iff_iff, decide_eq_true_eq]
  exact Finmap.lookup_isSome

/-- The pairs of a map are what its lookups find. -/
theorem mem_pairs_iff {map : FiniteMap K V} {key : K} {value : V} :
    (key, value) ∈ map.pairs ↔ map.lookup key = some value := by
  simp only [pairs, Multiset.mem_map, Prod.mk.injEq, Sigma.exists, Finmap.lookup_eq_some_iff]
  constructor
  · rintro ⟨first, second, hmem, rfl, rfl⟩
    exact hmem
  · intro hmem
    exact ⟨key, value, hmem, rfl, rfl⟩

omit [DecidableEq K] in
/-- No pair occurs twice. -/
theorem nodup_pairs (map : FiniteMap K V) : map.pairs.Nodup := by
  refine map.nodup_entries.map ?_
  rintro ⟨first, second⟩ ⟨third, fourth⟩ h
  simp only [Prod.mk.injEq] at h
  obtain ⟨rfl, rfl⟩ := h
  rfl

end FiniteMap

namespace HashTable

variable [DecidableEq K] [PyHash K]

/-- A well formed table that answers every lookup like the map. -/
structure Represents (table : HashTable K V) (map : FiniteMap K V) : Prop where
  inv : table.Inv
  lookup : ∀ key, table.lookup key = map.lookup key

variable {table : HashTable K V} {map : FiniteMap K V}

/-- The items of the table are the pairs of the map. -/
theorem Represents.items_eq (h : table.Represents map) :
    (table.items : Multiset (K × V)) = map.pairs := by
  have hnodup : table.items.Nodup := h.inv.nodup.of_map Prod.fst
  refine (Multiset.Nodup.ext (Multiset.coe_nodup.mpr hnodup) map.nodup_pairs).mpr ?_
  rintro ⟨key, value⟩
  rw [Multiset.mem_coe, mem_items_iff h.inv, h.lookup, FiniteMap.mem_pairs_iff]

/-- The keys of the table are the keys of the map. -/
theorem Represents.keys_eq (h : table.Represents map) :
    (table.keys : Multiset K) = map.keys.val := by
  refine (Multiset.Nodup.ext (Multiset.coe_nodup.mpr h.inv.nodup) map.keys.nodup).mpr ?_
  intro key
  rw [Multiset.mem_coe, mem_keys_iff h.inv, h.lookup, Finset.mem_val, Finmap.mem_keys,
    Finmap.lookup_isSome]

/-- The length of the table is the size of the map. -/
theorem Represents.len_eq (h : table.Represents map) : table.len = map.keys.card := by
  have hcard := congrArg Multiset.card h.keys_eq
  simp only [Multiset.coe_card, keys, List.length_map] at hcard
  rw [len, h.inv.size, hcard]
  rfl

/-- An updated table represents the map with the pair inserted. -/
theorem Represents.updated (h : table.Represents map) {key : K} {value : V}
    {after : HashTable K V} (hinv : after.Inv) (hupdated : table.Updated key value after) :
    after.Represents (map.insert key value) :=
  ⟨hinv, fun other => by rw [hupdated, FiniteMap.lookup_insert_eq, h.lookup]⟩

/-- Taking out a found pair represents the map without the key. -/
theorem Represents.shrink (h : table.Represents map) {key : K} {value : V}
    (hfound : map.lookup key = some value) : (table.shrink key).Represents (map.erase key) :=
  ⟨h.inv.shrink ((h.lookup key).trans hfound),
    fun other => by rw [lookup_shrink h.inv, FiniteMap.lookup_erase_eq, h.lookup]⟩

/-- Reading an item answers as on the map. -/
theorem Represents.get_item_eq (h : table.Represents map) (key : K) :
    table.getItem key = map.getItem key := by
  have hlookup := h.lookup key
  cases hfound : map.lookup key with
  | some value => simp only [HashTable.get_item_eq, FiniteMap.getItem, hlookup, hfound]
  | none => simp only [HashTable.get_item_eq, FiniteMap.getItem, hlookup, hfound]

/-- One operation answers alike on a table and on the map it represents, and the results
correspond again. -/
theorem Represents.perform (h : table.Represents map) (op : TableOp K V) :
    (table.perform op).1 = (map.perform op).1 ∧
      (table.perform op).2.Represents (map.perform op).2 := by
  cases op with
  | set key value =>
      obtain ⟨after, hassign, hinv, hupdated⟩ := assign_spec h.inv key value
      simp only [HashTable.perform, hassign, FiniteMap.perform, settle, Except.map]
      exact ⟨trivial, h.updated hinv hupdated⟩
  | getItem key =>
      simp only [HashTable.perform, h.get_item_eq, FiniteMap.perform]
      cases map.getItem key with
      | ok value => exact ⟨rfl, h⟩
      | error error => exact ⟨rfl, h⟩
  | delete key =>
      simp only [HashTable.perform, del_item_eq, h.lookup, FiniteMap.perform]
      cases hfound : map.lookup key with
      | some value => exact ⟨rfl, h.shrink hfound⟩
      | none => exact ⟨rfl, h⟩
  | pop key default =>
      simp only [HashTable.perform, pop_eq, h.lookup, FiniteMap.perform]
      cases hfound : map.lookup key with
      | some value => exact ⟨rfl, h.shrink hfound⟩
      | none =>
          cases default with
          | some value => exact ⟨rfl, h⟩
          | none => exact ⟨rfl, h⟩
  | setdefault key default =>
      simp only [HashTable.perform, setdefault, contains_eq, h.lookup, FiniteMap.perform]
      cases hfound : map.lookup key with
      | some value =>
          rw [HashTable.get_item_eq, h.lookup, hfound]
          exact ⟨rfl, h⟩
      | none =>
          obtain ⟨after, hassign, hinv, hupdated⟩ := assign_spec h.inv key default
          rw [hassign]
          exact ⟨rfl, h.updated hinv hupdated⟩
  | update source =>
      obtain ⟨after, hupdate, hinv, hlookup⟩ := update_spec source h.inv
      simp only [HashTable.perform, hupdate, FiniteMap.perform, settle, Except.map]
      refine ⟨trivial, hinv, fun key => ?_⟩
      rw [hlookup, FiniteMap.lookup_insert_all, h.lookup]
  | clear =>
      refine ⟨rfl, inv_with_buckets (le_refl _), fun key => ?_⟩
      rw [FiniteMap.perform, Finmap.lookup_empty]
      exact lookup_with_buckets _ _
  | get key default =>
      simp only [HashTable.perform, get_eq, h.lookup, FiniteMap.perform]
      exact ⟨trivial, h⟩
  | contains key =>
      simp only [HashTable.perform, contains_eq, h.lookup, FiniteMap.is_some_lookup,
        FiniteMap.perform]
      exact ⟨trivial, h⟩
  | len =>
      simp only [HashTable.perform, h.len_eq, FiniteMap.perform]
      exact ⟨trivial, h⟩
  | keys =>
      simp only [HashTable.perform, h.keys_eq, FiniteMap.perform]
      exact ⟨trivial, h⟩
  | items =>
      simp only [HashTable.perform, h.items_eq, FiniteMap.perform]
      exact ⟨trivial, h⟩

/-- Any list of operations answers alike on a table and on the map it represents. -/
theorem Represents.perform_all (ops : List (TableOp K V)) {table : HashTable K V}
    {map : FiniteMap K V} (h : table.Represents map) :
    (table.performAll ops).1 = (map.performAll ops).1 ∧
      (table.performAll ops).2.Represents (map.performAll ops).2 := by
  induction ops generalizing table map with
  | nil => exact ⟨rfl, h⟩
  | cons op rest ih =>
      obtain ⟨hreply, hmiddle⟩ := h.perform op
      obtain ⟨hreplies, hafter⟩ := ih hmiddle
      exact ⟨congrArg₂ List.cons hreply hreplies, hafter⟩

/-- The constructor represents the map of the initial items. -/
theorem init_represents (initial : Option (List (K × V))) (capacity : Int) :
    ∃ table, init initial capacity = .ok table ∧
      table.Represents (FiniteMap.insertAll ∅ (initial.getD [])) := by
  obtain ⟨table, hinit, hinv, hlookup⟩ := init_spec initial capacity
  refine ⟨table, hinit, hinv, fun key => ?_⟩
  rw [hlookup, FiniteMap.lookup_insert_all, Finmap.lookup_empty]

omit [DecidableEq K] in
/-- The load factor of a well formed table is at most `0.75`. -/
theorem Inv.load_factor_le (h : table.Inv) : table.loadFactor ≤ maxLoadFactor := by
  rw [← not_lt, max_load_factor_lt_iff h.pos]
  have := h.load
  omega

/-- From any constructor call, any list of operations replies like the finite map under the
same operations, and leaves a well formed table with the lookups and pairs of that map. -/
theorem hash_table_refines_finite_map (initial : Option (List (K × V))) (capacity : Int)
    (ops : List (TableOp K V)) :
    ∃ table, init initial capacity = .ok table ∧
      let (replies, after) := table.performAll ops
      let (meanings, map) := FiniteMap.performAll (FiniteMap.insertAll ∅ (initial.getD [])) ops
      replies = meanings ∧ after.Inv ∧ after.loadFactor ≤ maxLoadFactor ∧
        (∀ key, after.getItem key = map.getItem key) ∧ (∀ key, after.contains key = decide (key ∈ map)) ∧
        after.len = map.keys.card ∧ (after.items : Multiset (K × V)) = map.pairs := by
  obtain ⟨table, hinit, hrepresents⟩ := init_represents initial capacity
  obtain ⟨hreplies, hafter⟩ := hrepresents.perform_all ops
  refine ⟨table, hinit, hreplies, hafter.inv, hafter.inv.load_factor_le, hafter.get_item_eq,
    fun key => ?_, hafter.len_eq, hafter.items_eq⟩
  rw [contains_eq, hafter.lookup, FiniteMap.is_some_lookup]

end HashTable

end MiniRedis
