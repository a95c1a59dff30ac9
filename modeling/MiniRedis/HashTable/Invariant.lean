import Mathlib.Tactic.Linarith
import Mathlib.Tactic.Positivity
import Mathlib.Tactic.FieldSimp
import Mathlib.Tactic.NormNum
import Mathlib.Data.Rat.Cast.Order
import MiniRedis.HashTable.Basic

/-!
# The representation invariant of the hash table

`HashTable.Inv` says that a table has at least eight buckets, that every pair is in the
bucket of its key, that no key occurs twice, that `_size` counts the pairs, and that the
load factor is at most `0.75`. The main results are `set_item_spec`, `del_item_spec` and
`pop_spec`: an assignment or a removal keeps the invariant and changes the lookup of its
own key only. An assignment needs a stack of depth two, because the assignments of a
rebuild find the new buckets too roomy to rebuild again.
-/

namespace MiniRedis.HashTable

variable {K V : Type}

/-- Writing one bucket exchanges its pairs for the new ones. -/
theorem flatten_set_perm {α : Type} (buckets : List (List α)) (index : Nat) (bucket : List α)
    (h : index < buckets.length) :
    ((buckets.set index bucket).flatten ++ buckets.getD index []).Perm
      (buckets.flatten ++ bucket) := by
  induction buckets generalizing index with
  | nil => simp at h
  | cons first rest ih =>
      cases index with
      | zero =>
          simp only [List.set_cons_zero, List.flatten_cons, List.getD_cons_zero]
          have hswap : (bucket ++ (rest.flatten ++ first)).Perm
              (rest.flatten ++ first ++ bucket) := List.perm_append_comm
          refine (List.append_assoc bucket rest.flatten first ▸ hswap).trans ?_
          exact List.Perm.append_right bucket List.perm_append_comm
      | succ index =>
          simp only [List.set_cons_succ, List.flatten_cons, List.getD_cons_succ,
            List.append_assoc]
          exact List.Perm.append_left first (ih index (by simpa using h))

/-- The largest allowed load factor, in whole numbers. -/
theorem max_load_factor_lt_iff {table : HashTable K V} (h : 0 < table.buckets.length) :
    maxLoadFactor < table.loadFactor ↔ 3 * (table.buckets.length : Int) < 4 * table.size := by
  have hpos : (0 : ℚ) < table.buckets.length := by exact_mod_cast h
  rw [maxLoadFactor, loadFactor, div_lt_div_iff₀ (by norm_num) hpos, ← @Int.cast_lt ℚ]
  push_cast
  constructor <;> intro hlt <;> linarith

variable [PyHash K]

/-- A key is sent to an existing bucket. -/
theorem bucket_index_lt {count : Nat} (h : 0 < count) (key : K) :
    bucketIndex count key < count := by
  have hpos : (0 : Int) < count := by exact_mod_cast h
  have hnonneg := Int.emod_nonneg (PyHash.hash key) (ne_of_gt hpos)
  have hlt := Int.emod_lt_of_pos (PyHash.hash key) hpos
  unfold bucketIndex
  omega

/-- After a bucket is written, the keys of its index find it and all others find what they
found before. -/
theorem find_bucket_set_bucket {table : HashTable K V} (h : 0 < table.buckets.length)
    (key other : K) (bucket : List (K × V)) :
    (table.setBucket key bucket).findBucket other =
      if bucketIndex table.buckets.length other = bucketIndex table.buckets.length key then bucket
      else table.findBucket other := by
  have hlt := bucket_index_lt h other
  simp only [findBucket, setBucket, List.length_set, List.getD_eq_getElem?_getD,
    List.getElem?_set]
  by_cases heq : bucketIndex table.buckets.length other = bucketIndex table.buckets.length key
  · simp [heq, bucket_index_lt h key]
  · simp [heq, Ne.symm heq]

/-- Writing one bucket exchanges its pairs among the items. -/
theorem items_set_bucket {table : HashTable K V} (h : 0 < table.buckets.length) (key : K)
    (bucket : List (K × V)) :
    ((table.setBucket key bucket).items ++ table.findBucket key).Perm (table.items ++ bucket) :=
  flatten_set_perm _ _ _ (bucket_index_lt h key)

/-- Every pair is in the bucket of its key. -/
def Placed (table : HashTable K V) : Prop :=
  ∀ index bucket, table.buckets[index]? = some bucket →
    ∀ entry ∈ bucket, bucketIndex table.buckets.length entry.1 = index

/-- The representation invariant. -/
structure Inv (table : HashTable K V) : Prop where
  capacity : minCapacity ≤ table.buckets.length
  placed : table.Placed
  nodup : table.keys.Nodup
  size : table.size = table.items.length
  load : 4 * table.size ≤ 3 * table.buckets.length

/-- A table under the invariant has a bucket. -/
theorem Inv.pos {table : HashTable K V} (h : table.Inv) : 0 < table.buckets.length :=
  Nat.lt_of_lt_of_le (by decide) h.capacity

/-- Fresh buckets satisfy the invariant. -/
theorem inv_with_buckets {count : Nat} (h : minCapacity ≤ count) :
    (withBuckets count : HashTable K V).Inv where
  capacity := by simpa [withBuckets] using h
  placed := by
    intro index bucket hbucket entry hentry
    simp only [withBuckets, List.getElem?_replicate] at hbucket
    split at hbucket
    · cases hbucket
      simp at hentry
    · cases hbucket
  nodup := by simp [keys, items, withBuckets]
  size := by simp [items, withBuckets]
  load := by simp [withBuckets]

/-- A pair of the bucket of any key is a pair of the table. -/
theorem mem_items_of_mem_find_bucket {table : HashTable K V} (key : K) {entry : K × V}
    (h : entry ∈ table.findBucket key) : entry ∈ table.items := by
  unfold findBucket at h
  rw [List.getD_eq_getElem?_getD] at h
  cases hbucket : table.buckets[bucketIndex table.buckets.length key]? with
  | none => simp [hbucket] at h
  | some bucket =>
      rw [hbucket] at h
      exact List.mem_flatten.mpr ⟨bucket, List.mem_of_getElem? hbucket, h⟩

/-- A well placed pair is found through its key. -/
theorem mem_find_bucket {table : HashTable K V} (h : table.Placed) {entry : K × V}
    (hentry : entry ∈ table.items) : entry ∈ table.findBucket entry.1 := by
  obtain ⟨bucket, hbucket, hmem⟩ := List.mem_flatten.mp hentry
  obtain ⟨index, hindex⟩ := List.mem_iff_getElem?.mp hbucket
  rw [findBucket, h index bucket hindex entry hmem, List.getD_eq_getElem?_getD, hindex]
  exact hmem

/-- Writing a bucket whose keys all belong there keeps every pair in its place. -/
theorem Placed.set_bucket {table : HashTable K V} (h : table.Placed) (key : K)
    {bucket : List (K × V)}
    (hbucket : ∀ entry ∈ bucket, bucketIndex table.buckets.length entry.1 =
      bucketIndex table.buckets.length key) :
    (table.setBucket key bucket).Placed := by
  intro index written hindex entry hentry
  simp only [setBucket, List.length_set, List.getElem?_set] at hindex ⊢
  split at hindex
  · next heq =>
      split at hindex
      · cases hindex
        rw [hbucket entry hentry, heq]
      · cases hindex
  · exact h index written hindex entry hentry

/-- The pairs of one bucket all have keys of its index. -/
theorem Placed.find_bucket {table : HashTable K V} (h : table.Placed) {key : K}
    {entry : K × V} (hentry : entry ∈ table.findBucket key) :
    bucketIndex table.buckets.length entry.1 = bucketIndex table.buckets.length key := by
  unfold findBucket at hentry
  rw [List.getD_eq_getElem?_getD] at hentry
  cases hbucket : table.buckets[bucketIndex table.buckets.length key]? with
  | none => simp [hbucket] at hentry
  | some bucket =>
      rw [hbucket] at hentry
      exact h _ bucket hbucket entry hentry

/-- The keys of one bucket are distinct when those of the table are. -/
theorem nodup_find_bucket {table : HashTable K V} (h : table.keys.Nodup) (key : K) :
    (Assoc.keys (table.findBucket key)).Nodup := by
  unfold findBucket
  rw [List.getD_eq_getElem?_getD]
  cases hbucket : table.buckets[bucketIndex table.buckets.length key]? with
  | none => simp
  | some bucket =>
      have hsub : bucket.Sublist table.items :=
        List.sublist_flatten_of_mem (List.mem_of_getElem? hbucket)
      exact h.sublist (hsub.map Prod.fst)

variable [DecidableEq K]

/-- What a search for the key through its bucket finds. -/
def lookup (table : HashTable K V) (key : K) : Option V := (table.findBucket key).lookup key

/-- The items are exactly what lookups find. -/
theorem mem_items_iff {table : HashTable K V} (h : table.Inv) {key : K} {value : V} :
    (key, value) ∈ table.items ↔ table.lookup key = some value :=
  ⟨fun hmem => (Assoc.mem_iff_lookup (nodup_find_bucket h.nodup key)).mp
      (mem_find_bucket h.placed hmem),
    fun hlookup => mem_items_of_mem_find_bucket key (Assoc.mem_of_lookup hlookup)⟩

/-- The keys of the table are those a search finds. -/
theorem mem_keys_iff {table : HashTable K V} (h : table.Inv) {key : K} :
    key ∈ table.keys ↔ (table.lookup key).isSome := by
  simp [keys, mem_items_iff h, Option.isSome_iff_exists]

/-- Searching the buckets is searching the items. -/
theorem lookup_items {table : HashTable K V} (h : table.Inv) (key : K) :
    table.items.lookup key = table.lookup key := by
  apply Option.ext
  intro value
  rw [← mem_items_iff h]
  exact (Assoc.mem_iff_lookup h.nodup).symm

/-- A table of empty buckets holds no key. -/
@[simp] theorem lookup_with_buckets (count : Nat) (key : K) :
    (withBuckets count : HashTable K V).lookup key = none := by
  simp only [lookup, findBucket, withBuckets, List.getD_eq_getElem?_getD, List.getElem?_replicate]
  split <;> rfl

/-! ## Overwriting and appending -/

/-- Overwriting a present key in its bucket keeps the invariant. -/
theorem Inv.overwrite {table : HashTable K V} (h : table.Inv) {key : K} {value : V}
    {bucket : List (K × V)}
    (hreplace : Assoc.replace key value (table.findBucket key) = some bucket) :
    (table.setBucket key bucket).Inv := by
  have hkeys := Assoc.keys_replace hreplace
  have hperm := items_set_bucket h.pos key bucket
  have hlength : bucket.length = (table.findBucket key).length := by
    simpa [Assoc.keys] using congrArg List.length hkeys
  have hkeysPerm : (table.setBucket key bucket).keys.Perm table.keys := by
    have hmap := hperm.map Prod.fst
    simp only [List.map_append] at hmap
    rw [show bucket.map Prod.fst = (table.findBucket key).map Prod.fst from hkeys] at hmap
    exact (List.perm_append_right_iff _).mp hmap
  constructor
  · simpa [setBucket] using h.capacity
  · refine h.placed.set_bucket key (fun entry hentry => ?_)
    have hmem : entry.1 ∈ Assoc.keys (table.findBucket key) :=
      hkeys ▸ List.mem_map.mpr ⟨entry, hentry, rfl⟩
    obtain ⟨original, horiginal, heq⟩ := List.mem_map.mp hmem
    rw [← heq]
    exact h.placed.find_bucket horiginal
  · exact hkeysPerm.nodup_iff.mpr h.nodup
  · have hcount := hperm.length_eq
    simp only [List.length_append] at hcount
    have hsize : (table.setBucket key bucket).size = table.size := rfl
    have := h.size
    omega
  · simpa [setBucket] using h.load

/-- Overwriting changes the lookup of its own key only. -/
theorem lookup_overwrite {table : HashTable K V} (h : table.Inv) {key : K} {value : V}
    {bucket : List (K × V)}
    (hreplace : Assoc.replace key value (table.findBucket key) = some bucket) (other : K) :
    (table.setBucket key bucket).lookup other =
      if other = key then some value else table.lookup other := by
  unfold lookup
  rw [find_bucket_set_bucket h.pos]
  split
  · next hindex =>
      have hsame : table.findBucket other = table.findBucket key := by
        simp [findBucket, hindex]
      rw [Assoc.lookup_replace hreplace, hsame]
  · next hindex =>
      rw [if_neg (by rintro rfl; exact hindex rfl)]

/-- The table of `__setitem__` after the pair is appended and counted. -/
def grow (table : HashTable K V) (key : K) (value : V) : HashTable K V :=
  { table.setBucket key (table.findBucket key ++ [(key, value)]) with size := table.size + 1 }

omit [DecidableEq K] in
/-- Appending a pair adds it to the items. -/
theorem items_grow {table : HashTable K V} (h : table.Inv) (key : K) (value : V) :
    (table.grow key value).items.Perm ((key, value) :: table.items) := by
  have hperm := items_set_bucket h.pos key (table.findBucket key ++ [(key, value)])
  have hswap : (table.items ++ (table.findBucket key ++ [(key, value)])).Perm
      ((table.items ++ [(key, value)]) ++ table.findBucket key) := by
    rw [List.append_assoc]
    exact List.Perm.append_left _ List.perm_append_comm
  have hcancel := (List.perm_append_right_iff _).mp (hperm.trans hswap)
  exact hcancel.trans List.perm_append_comm

/-- Appending changes the lookup of its own key only. -/
theorem lookup_grow {table : HashTable K V} (h : table.Inv) {key : K}
    (hfresh : key ∉ Assoc.keys (table.findBucket key)) (value : V) (other : K) :
    (table.grow key value).lookup other =
      if other = key then some value else table.lookup other := by
  have hbucket : (table.grow key value).findBucket other =
      if bucketIndex table.buckets.length other = bucketIndex table.buckets.length key
      then table.findBucket key ++ [(key, value)] else table.findBucket other :=
    find_bucket_set_bucket h.pos key other _
  unfold lookup
  rw [hbucket]
  split
  · next hindex =>
      have hsame : table.findBucket other = table.findBucket key := by
        simp [findBucket, hindex]
      rw [Assoc.lookup_append_fresh hfresh, hsame]
  · next hindex =>
      rw [if_neg (by rintro rfl; exact hindex rfl)]

/-- A key whose bucket does not hold it is no key of the table. -/
theorem fresh_of_not_mem_bucket {table : HashTable K V} (h : table.Inv) {key : K}
    (hfresh : key ∉ Assoc.keys (table.findBucket key)) : key ∉ table.keys := by
  rw [mem_keys_iff h, lookup, Assoc.lookup_eq_none_iff.mpr hfresh]
  simp

/-- Appending a fresh key keeps the invariant up to the load factor. -/
theorem Inv.grow {table : HashTable K V} (h : table.Inv) {key : K}
    (hfresh : key ∉ Assoc.keys (table.findBucket key)) (value : V)
    (hload : 4 * (table.size + 1) ≤ 3 * (table.buckets.length : Int)) :
    (table.grow key value).Inv := by
  have hperm := items_grow h key value
  constructor
  · simpa [HashTable.grow, setBucket] using h.capacity
  · refine h.placed.set_bucket key (fun entry hentry => ?_)
    rcases List.mem_append.mp hentry with hold | hnew
    · exact h.placed.find_bucket hold
    · rw [List.mem_singleton.mp hnew]
  · refine (hperm.map Prod.fst).nodup_iff.mpr ?_
    rw [List.map_cons, List.nodup_cons]
    exact ⟨fresh_of_not_mem_bucket h hfresh, h.nodup⟩
  · have hcount := hperm.length_eq
    have hsize : (table.grow key value).size = table.size + 1 := rfl
    have := h.size
    simp only [List.length_cons] at hcount
    omega
  · simpa [HashTable.grow, setBucket] using hload

/-! ## Assignment and rebuilding -/

/-- The tables that answer every lookup like `table`, but with `value` under `key`. -/
def Updated (table : HashTable K V) (key : K) (value : V) (after : HashTable K V) : Prop :=
  ∀ other, after.lookup other = if other = key then some value else table.lookup other

/-- Assigning to a present key overwrites it. -/
theorem set_item_present (depth : Nat) {table : HashTable K V} {key : K} {value : V}
    {bucket : List (K × V)}
    (hreplace : Assoc.replace key value (table.findBucket key) = some bucket) :
    setItem (depth + 1) table key value = .ok (table.setBucket key bucket) := by
  rw [setItem, hreplace]

/-- Assigning a fresh key appends it, and rebuilds the table if it is now too full. -/
theorem set_item_fresh (depth : Nat) {table : HashTable K V} (h : table.Inv) {key : K}
    (hfresh : key ∉ Assoc.keys (table.findBucket key)) (value : V) :
    setItem (depth + 1) table key value =
      if 3 * (table.buckets.length : Int) < 4 * (table.size + 1) then
        resizeWith (setItem depth) (table.grow key value) (table.buckets.length * 2)
      else .ok (table.grow key value) := by
  have hlength : (table.grow key value).buckets.length = table.buckets.length := by
    simp [HashTable.grow, setBucket]
  have hpos : 0 < (table.grow key value).buckets.length := by
    rw [hlength]
    exact h.pos
  have hload := max_load_factor_lt_iff hpos
  rw [hlength] at hload
  rw [setItem, Assoc.replace_eq_none_iff.mpr hfresh]
  change (if maxLoadFactor < (table.grow key value).loadFactor then
    resizeWith (setItem depth) (table.grow key value) ((table.grow key value).buckets.length * 2)
    else .ok (table.grow key value)) = _
  rw [hlength]
  exact if_congr hload rfl rfl

/-- Fresh pairs that fit under the load factor are assigned one by one with no rebuild. -/
theorem fold_fresh (depth : Nat) (entries : List (K × V)) (table : HashTable K V)
    (h : table.Inv) (hnodup : (Assoc.keys entries).Nodup)
    (hfresh : ∀ entry ∈ entries, table.lookup entry.1 = none)
    (hload : 4 * (table.size + entries.length) ≤ 3 * (table.buckets.length : Int)) :
    ∃ after, entries.foldlM (fun table item => setItem (depth + 1) table item.1 item.2) table =
        .ok after ∧ after.Inv ∧ after.buckets.length = table.buckets.length ∧
      ∀ key, after.lookup key = (entries.lookup key).or (table.lookup key) := by
  induction entries generalizing table with
  | nil => exact ⟨table, rfl, h, rfl, by simp⟩
  | cons entry rest ih =>
      simp only [Assoc.keys, List.map_cons, List.nodup_cons] at hnodup
      simp only [List.length_cons] at hload
      have hbucket : entry.1 ∉ Assoc.keys (table.findBucket entry.1) :=
        Assoc.lookup_eq_none_iff.mp (hfresh entry (by simp))
      have hgrown : (table.grow entry.1 entry.2).Inv := h.grow hbucket entry.2 (by omega)
      have hlookup := lookup_grow h hbucket entry.2
      have hlength : (table.grow entry.1 entry.2).buckets.length = table.buckets.length := by
        simp [HashTable.grow, setBucket]
      have hsize : (table.grow entry.1 entry.2).size = table.size + 1 := rfl
      have hstep : setItem (depth + 1) table entry.1 entry.2 =
          .ok (table.grow entry.1 entry.2) := by
        rw [set_item_fresh depth h hbucket, if_neg (by omega)]
      -- the other keys are still fresh, as no key comes twice
      obtain ⟨after, hrun, hinv, hafterLength, hafter⟩ := ih (table.grow entry.1 entry.2) hgrown
        hnodup.2
        (fun other hother => by
          rw [hlookup, if_neg, hfresh other (by simp [hother])]
          intro heq
          exact hnodup.1 (heq ▸ List.mem_map.mpr ⟨other, hother, rfl⟩))
        (by omega)
      refine ⟨after, ?_, hinv, hafterLength.trans hlength, fun key => ?_⟩
      · rw [List.foldlM_cons, hstep]
        exact hrun
      · rw [hafter, hlookup, Assoc.lookup_cons]
        by_cases hkey : key = entry.1
        · have hnone : rest.lookup entry.1 = none := Assoc.lookup_eq_none_iff.mpr hnodup.1
          simp [hkey, hnone]
        · simp [hkey]

/-- `__setitem__` on a stack of depth two keeps the invariant and assigns its own key only. -/
theorem set_item_spec (depth : Nat) {table : HashTable K V} (h : table.Inv) (key : K) (value : V) :
    ∃ after, setItem (depth + 2) table key value = .ok after ∧ after.Inv ∧
      table.Updated key value after := by
  cases hreplace : Assoc.replace key value (table.findBucket key) with
  | some bucket =>
      exact ⟨_, set_item_present (depth + 1) hreplace, h.overwrite hreplace,
        lookup_overwrite h hreplace⟩
  | none =>
      have hfresh := Assoc.replace_eq_none_iff.mp hreplace
      rw [set_item_fresh (depth + 1) h hfresh]
      split
      · -- the rebuild: twice the buckets hold the old pairs and the new one without crowding
        have hperm := items_grow h key value
        have hnodup : (Assoc.keys (table.grow key value).items).Nodup := by
          refine (hperm.map Prod.fst).nodup_iff.mpr ?_
          rw [List.map_cons, List.nodup_cons]
          exact ⟨fresh_of_not_mem_bucket h hfresh, h.nodup⟩
        have hcapacity := h.capacity
        have hcount := hperm.length_eq
        have hsize := h.size
        have hload := h.load
        simp only [List.length_cons, minCapacity] at hcount hcapacity
        have hmax : max minCapacity (table.buckets.length * 2) = table.buckets.length * 2 := by
          simp only [minCapacity]
          omega
        obtain ⟨after, hrun, hinv, _, hafter⟩ := fold_fresh depth (table.grow key value).items
          (withBuckets (max minCapacity (table.buckets.length * 2)))
          (inv_with_buckets (le_max_left _ _)) hnodup (by simp) (by
            rw [hmax, hcount]
            simp only [withBuckets, List.length_replicate]
            push_cast
            omega)
        refine ⟨after, hrun, hinv, fun other => ?_⟩
        rw [hafter, lookup_with_buckets, Option.or_none, Assoc.lookup_perm hperm hnodup,
          Assoc.lookup_cons, lookup_items h]
      · exact ⟨_, rfl, h.grow hfresh value (by omega), lookup_grow h hfresh value⟩

/-! ## Removal -/

/-- The table after the pair of a present key is taken out of its bucket. -/
def shrink (table : HashTable K V) (key : K) : HashTable K V :=
  { table.setBucket key (Assoc.erase key (table.findBucket key)) with size := table.size - 1 }

/-- Removal takes one pair out of the items. -/
theorem items_shrink {table : HashTable K V} (h : table.Inv) {key : K} {value : V}
    (hfound : table.lookup key = some value) :
    table.items.Perm ((key, value) :: (table.shrink key).items) := by
  have hperm := items_set_bucket h.pos key (Assoc.erase key (table.findBucket key))
  have hbucket := Assoc.perm_erase hfound
  have hright : ((table.shrink key).items ++ ((key, value) ::
      Assoc.erase key (table.findBucket key))).Perm
      (table.items ++ Assoc.erase key (table.findBucket key)) :=
    (List.Perm.append_left _ hbucket.symm).trans hperm
  have hmiddle : ((key, value) :: ((table.shrink key).items ++
      Assoc.erase key (table.findBucket key))).Perm
      (table.items ++ Assoc.erase key (table.findBucket key)) :=
    List.perm_middle.symm.trans hright
  rw [← List.cons_append] at hmiddle
  exact ((List.perm_append_right_iff _).mp hmiddle).symm

/-- Removal keeps the invariant. -/
theorem Inv.shrink {table : HashTable K V} (h : table.Inv) {key : K} {value : V}
    (hfound : table.lookup key = some value) : (table.shrink key).Inv := by
  have hperm := items_shrink h hfound
  constructor
  · simpa [HashTable.shrink, setBucket] using h.capacity
  · refine h.placed.set_bucket key (fun entry hentry => ?_)
    exact h.placed.find_bucket (List.eraseP_subset hentry)
  · have hcons := (hperm.map Prod.fst).nodup_iff.mp h.nodup
    rw [List.map_cons, List.nodup_cons] at hcons
    exact hcons.2
  · have hcount := hperm.length_eq
    have hsize : (table.shrink key).size = table.size - 1 := rfl
    have := h.size
    simp only [List.length_cons] at hcount
    omega
  · have hload := h.load
    simp only [HashTable.shrink, setBucket, List.length_set]
    omega

/-- Removal takes away the lookup of its own key only. -/
theorem lookup_shrink {table : HashTable K V} (h : table.Inv) (key other : K) :
    (table.shrink key).lookup other = if other = key then none else table.lookup other := by
  have hbucket : (table.shrink key).findBucket other =
      if bucketIndex table.buckets.length other = bucketIndex table.buckets.length key
      then Assoc.erase key (table.findBucket key) else table.findBucket other :=
    find_bucket_set_bucket h.pos key other _
  unfold lookup
  rw [hbucket]
  split
  · next hindex =>
      have hsame : table.findBucket other = table.findBucket key := by
        simp [findBucket, hindex]
      rw [Assoc.lookup_erase (nodup_find_bucket h.nodup key), hsame]
  · next hindex =>
      rw [if_neg (by rintro rfl; exact hindex rfl)]

/-! ## Every operation through `lookup` -/

/-- `__getitem__` returns what a search finds and raises `KeyError` otherwise. -/
theorem get_item_eq (table : HashTable K V) (key : K) :
    table.getItem key = match table.lookup key with
      | some value => .ok value
      | none => .error .keyError := rfl

@[simp] theorem contains_eq (table : HashTable K V) (key : K) :
    table.contains key = (table.lookup key).isSome := by
  unfold contains
  rw [get_item_eq]
  cases table.lookup key <;> rfl

@[simp] theorem get_eq (table : HashTable K V) (key : K) (default : Option V) :
    table.get key default = (table.lookup key).or default := by
  unfold get
  rw [get_item_eq]
  cases table.lookup key <;> rfl

/-- `table[key] = value` succeeds, keeps the invariant and assigns its own key only. -/
theorem assign_spec {table : HashTable K V} (h : table.Inv) (key : K) (value : V) :
    ∃ after, table.assign key value = .ok after ∧ after.Inv ∧ table.Updated key value after :=
  set_item_spec 998 h key value

/-- `__delitem__` removes a present key and raises `KeyError` for an absent one. -/
theorem del_item_eq (table : HashTable K V) (key : K) :
    table.delItem key = match table.lookup key with
      | some _ => .ok (table.shrink key)
      | none => .error .keyError := rfl

/-- `pop` returns and removes a present key; an absent one gives the default, if any. -/
theorem pop_eq (table : HashTable K V) (key : K) (default : Option V) :
    table.pop key default = match table.lookup key with
      | some value => .ok (value, table.shrink key)
      | none => match default with
        | some value => .ok (value, table)
        | none => .error .keyError := rfl

/-- `__delitem__` keeps the invariant. -/
theorem Inv.del_item {table after : HashTable K V} (h : table.Inv) {key : K}
    (hrun : table.delItem key = .ok after) : after.Inv := by
  rw [del_item_eq] at hrun
  split at hrun
  · next hfound =>
      cases hrun
      exact h.shrink hfound
  · cases hrun

/-- `pop` keeps the invariant. -/
theorem Inv.pop {table after : HashTable K V} (h : table.Inv) {key : K} {default : Option V}
    {value : V} (hrun : table.pop key default = .ok (value, after)) : after.Inv := by
  rw [pop_eq] at hrun
  split at hrun
  · next hfound =>
      cases hrun
      exact h.shrink hfound
  · split at hrun
    · cases hrun
      exact h
    · cases hrun

/-- `update` assigns the pairs in order. -/
theorem update_spec (source : List (K × V)) {table : HashTable K V} (h : table.Inv) :
    ∃ after, table.update source = .ok after ∧ after.Inv ∧
      ∀ key, after.lookup key =
        source.foldl (fun found item => if key = item.1 then some item.2 else found)
          (table.lookup key) := by
  induction source generalizing table with
  | nil => exact ⟨table, rfl, h, fun _ => rfl⟩
  | cons item rest ih =>
      obtain ⟨middle, hassign, hmiddle, hupdated⟩ := assign_spec h item.1 item.2
      obtain ⟨after, hrest, hafter, hlookup⟩ := ih hmiddle
      refine ⟨after, ?_, hafter, fun key => ?_⟩
      · rw [update, List.foldlM_cons, hassign]
        exact hrest
      · rw [hlookup, hupdated, List.foldl_cons]

/-- The constructor succeeds and establishes the invariant. -/
theorem init_spec (initial : Option (List (K × V))) (capacity : Int) :
    ∃ table, init initial capacity = .ok table ∧ table.Inv ∧
      ∀ key, table.lookup key = (initial.getD []).foldl
        (fun found item => if key = item.1 then some item.2 else found) none := by
  have hcapacity : minCapacity ≤ (max (minCapacity : Int) capacity).toNat := by
    simp only [minCapacity]
    omega
  cases initial with
  | none => exact ⟨_, rfl, inv_with_buckets hcapacity, by simp⟩
  | some source =>
      obtain ⟨after, hrun, hinv, hlookup⟩ :=
        update_spec source (inv_with_buckets (K := K) (V := V) hcapacity)
      exact ⟨after, hrun, hinv, by simpa using hlookup⟩

end MiniRedis.HashTable
