import MiniRedis.HashTable.FiniteMap

/-!
# Assignments that rebuild the table

`__setitem__` and `_resize` call each other. `Sets` and `Inserts` are their runs on a stack without
end, and count the calls of `_resize`, those within another one too. A run from a reachable table
has at most one of them (`resize_never_nests`), since the pairs of a table whose buckets were just
doubled fit into them without crowding.
-/

namespace MiniRedis.HashTable

variable {K V : Type} [DecidableEq K] [PyHash K]

mutual

/-- A run of `__setitem__` from one table to another, with a number of calls of `_resize`. -/
inductive Sets : HashTable K V → K → V → HashTable K V → Nat → Prop where
  | overwrite {table key value bucket}
      (hbucket : Assoc.replace key value (table.findBucket key) = some bucket) :
      Sets table key value (table.setBucket key bucket) 0
  | append {table key value} (hfresh : Assoc.replace key value (table.findBucket key) = none)
      (hload : ¬ maxLoadFactor < (table.grow key value).loadFactor) :
      Sets table key value (table.grow key value) 0
  | rebuild {table key value after resizes}
      (hfresh : Assoc.replace key value (table.findBucket key) = none)
      (hload : maxLoadFactor < (table.grow key value).loadFactor)
      (hinserts : Inserts (table.grow key value).items
        (withBuckets (max minCapacity ((table.grow key value).buckets.length * 2))) after resizes) :
      Sets table key value after (resizes + 1)

/-- A run of the loop of `_resize` over the pairs that are left. -/
inductive Inserts : List (K × V) → HashTable K V → HashTable K V → Nat → Prop where
  | done {table} : Inserts [] table table 0
  | step {item rest table middle after resizes more}
      (hset : Sets table item.1 item.2 middle resizes)
      (hrest : Inserts rest middle after more) :
      Inserts (item :: rest) table after (resizes + more)

end

/-- One call of `__setitem__`, in terms of the table with the pair appended. -/
theorem set_item_eq (depth : Nat) (table : HashTable K V) (key : K) (value : V) :
    setItem (depth + 1) table key value =
      match Assoc.replace key value (table.findBucket key) with
      | some bucket => .ok (table.setBucket key bucket)
      | none =>
          if maxLoadFactor < (table.grow key value).loadFactor then
            resizeWith (setItem depth) (table.grow key value)
              ((table.grow key value).buckets.length * 2)
          else .ok (table.grow key value) := rfl

/-! ## The runs are those of the functions -/

/-- What `__setitem__` returns on a stack of some depth is the end of a run. -/
theorem sets_of_set_item (depth : Nat) {table after : HashTable K V} {key : K} {value : V}
    (h : setItem depth table key value = .ok after) :
    ∃ resizes, Sets table key value after resizes := by
  induction depth generalizing table after key value with
  | zero => cases h
  | succ depth ih =>
      -- a rebuild assigns the pairs one frame deeper, by the outer induction
      have hinserts : ∀ (items : List (K × V)) (table : HashTable K V),
          items.foldlM (fun table item => setItem depth table item.1 item.2) table = .ok after →
          ∃ resizes, Inserts items table after resizes := by
        intro items
        induction items with
        | nil =>
            intro table h
            cases h
            exact ⟨0, .done⟩
        | cons item rest ihrest =>
            intro table h
            obtain ⟨middle, hset, hrest⟩ := Except.exists_of_bind_ok h
            obtain ⟨resizes, hsets⟩ := ih hset
            obtain ⟨more, hinserts⟩ := ihrest middle hrest
            exact ⟨resizes + more, .step hsets hinserts⟩
      rw [set_item_eq] at h
      split at h
      · next bucket hbucket =>
          cases h
          exact ⟨0, .overwrite hbucket⟩
      · next hfresh =>
          split at h
          · next hload =>
              obtain ⟨resizes, hrun⟩ := hinserts _ _ h
              exact ⟨resizes + 1, .rebuild hfresh hload hrun⟩
          · next hload =>
              cases h
              exact ⟨0, .append hfresh hload⟩

/-- A run without a rebuild needs one frame of the stack. -/
theorem Sets.set_item {table after : HashTable K V} {key : K} {value : V}
    (h : Sets table key value after 0) (depth : Nat) :
    setItem (depth + 1) table key value = .ok after := by
  cases h with
  | overwrite hbucket => rw [set_item_eq, hbucket]
  | append hfresh hload =>
      rw [set_item_eq, hfresh]
      exact if_neg hload

/-- A loop without a rebuild needs one frame of the stack for each pair in turn. -/
theorem Inserts.fold {items : List (K × V)} {table after : HashTable K V}
    (h : Inserts items table after 0) (depth : Nat) :
    items.foldlM (fun table item => setItem (depth + 1) table item.1 item.2) table =
      .ok after := by
  induction items generalizing table with
  | nil =>
      cases h
      rfl
  | cons item rest ih =>
      generalize hnone : 0 = resizes at h
      cases h with
      | step hset hrest =>
          obtain ⟨rfl, rfl⟩ := Nat.add_eq_zero_iff.mp hnone.symm
          rw [List.foldlM_cons, hset.set_item]
          exact ih hrest

/-- A run with a rebuild that has none within it needs two frames of the stack. -/
theorem Sets.set_item_two {table after : HashTable K V} {key : K} {value : V} {resizes : Nat}
    (h : Sets table key value after resizes) (hresizes : resizes ≤ 1) (depth : Nat) :
    setItem (depth + 2) table key value = .ok after := by
  cases h with
  | overwrite hbucket => exact (Sets.overwrite hbucket).set_item (depth + 1)
  | append hfresh hload => exact (Sets.append hfresh hload).set_item (depth + 1)
  | @rebuild _ _ _ _ within hfresh hload hinserts =>
      obtain rfl : within = 0 := by omega
      rw [set_item_eq, hfresh]
      exact (if_pos hload).trans (hinserts.fold depth)

/-! ## A rebuild has none within it -/

omit [DecidableEq K] in
theorem length_grow (table : HashTable K V) (key : K) (value : V) :
    (table.grow key value).buckets.length = table.buckets.length := by
  simp [HashTable.grow, setBucket]

/-- Where there is room for another pair, an assignment does not rebuild the table. -/
theorem Sets.within {table after : HashTable K V} {key : K} {value : V} {resizes : Nat}
    (h : Sets table key value after resizes) (hpos : 0 < table.buckets.length)
    (hroom : 4 * (table.size + 1) ≤ 3 * (table.buckets.length : Int)) :
    resizes = 0 ∧ after.buckets.length = table.buckets.length ∧ after.size ≤ table.size + 1 := by
  have hsize : (table.grow key value).size = table.size + 1 := rfl
  cases h with
  | overwrite hbucket =>
      refine ⟨rfl, by simp [setBucket], ?_⟩
      show table.size ≤ table.size + 1
      omega
  | append hfresh hload => exact ⟨rfl, length_grow table key value, Int.le_of_eq hsize⟩
  | rebuild hfresh hload hinserts =>
      rw [max_load_factor_lt_iff (by rw [length_grow]; exact hpos), length_grow, hsize] at hload
      omega

/-- Where there is room for all pairs, the loop does not rebuild the table. -/
theorem Inserts.within {items : List (K × V)} {table after : HashTable K V} {resizes : Nat}
    (h : Inserts items table after resizes) (hpos : 0 < table.buckets.length)
    (hroom : 4 * (table.size + items.length) ≤ 3 * (table.buckets.length : Int)) : resizes = 0 := by
  induction items generalizing table resizes with
  | nil =>
      cases h
      rfl
  | cons item rest ih =>
      cases h with
      | step hset hrest =>
          rw [List.length_cons] at hroom
          obtain ⟨rfl, hlength, hsize⟩ := hset.within hpos (by omega)
          exact (Nat.zero_add _).trans (ih hrest (by omega) (by omega))

/-- A table that is rebuilt has room for its pairs in twice the buckets. -/
theorem Sets.at_most_one {table after : HashTable K V} {key : K} {value : V} {resizes : Nat}
    (h : Sets table key value after resizes) (hinv : table.Inv) : resizes ≤ 1 := by
  cases h with
  | overwrite hbucket => exact Nat.zero_le 1
  | append hfresh hload => exact Nat.zero_le 1
  | rebuild hfresh hload hinserts =>
      have hcount := (items_grow hinv key value).length_eq
      have hsize := hinv.size
      have hfull := hinv.load
      have hcapacity := hinv.capacity
      simp only [List.length_cons, minCapacity] at hcount hcapacity
      have hmax : max minCapacity ((table.grow key value).buckets.length * 2) =
          table.buckets.length * 2 := by
        rw [length_grow]
        simp only [minCapacity]
        omega
      rw [hmax] at hinserts
      have hbuckets : (withBuckets (table.buckets.length * 2) : HashTable K V).buckets.length =
          table.buckets.length * 2 := List.length_replicate
      have hempty : (withBuckets (table.buckets.length * 2) : HashTable K V).size = 0 := rfl
      obtain rfl := hinserts.within (by omega) (by rw [hbuckets, hempty, hcount]; omega)
      exact Nat.le_refl 1

/-- From any table that a constructor call and operations lead to, an assignment comes to an end
however deep the stack is from two frames on. In each of its runs at most one rebuild takes place,
so none within another, and the load factor is at most `0.75` in the end. -/
theorem resize_never_nests (initial : Option (List (K × V))) (capacity : Int)
    (ops : List (TableOp K V)) (key : K) (value : V) :
    ∃ table, init initial capacity = .ok table ∧
      let reached := (table.performAll ops).2
      (∃ after resizes, Sets reached key value after resizes) ∧
      ∀ after resizes, Sets reached key value after resizes →
        resizes ≤ 1 ∧ after.loadFactor ≤ maxLoadFactor ∧
          ∀ depth, setItem (depth + 2) reached key value = .ok after := by
  obtain ⟨table, hinit, hrepresents⟩ := init_represents initial capacity
  obtain ⟨-, hreached⟩ := hrepresents.perform_all ops
  refine ⟨table, hinit, ?_, fun after resizes h => ?_⟩
  · obtain ⟨after, hset, -, -⟩ := set_item_spec 0 hreached.inv key value
    exact ⟨after, sets_of_set_item 2 hset⟩
  · have hresizes := h.at_most_one hreached.inv
    have hset := h.set_item_two hresizes 0
    obtain ⟨last, hlast, hinv, -⟩ := set_item_spec 0 hreached.inv key value
    obtain rfl := Except.ok.inj (hset.symm.trans hlast)
    exact ⟨hresizes, hinv.load_factor_le, h.set_item_two hresizes⟩

end MiniRedis.HashTable
