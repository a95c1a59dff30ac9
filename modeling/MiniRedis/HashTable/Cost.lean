import MiniRedis.Foundation.Amortized
import MiniRedis.HashTable.Resize

/-!
# What the rebuilds of the table cost

The functions of `asd.py` that assign, with a count of the calls of `__setitem__`: those the
caller asks for and those of the loop of `_resize`. The potential of a table grows with its pairs
and falls with its buckets, so that a rebuild is paid by the assignments since the last one. In
`assignments_amortized` that bounds the calls by a multiple of the assignments asked for, over
any operations, removals and `clear` among them.
-/

namespace MiniRedis.HashTable

variable {K V : Type} [DecidableEq K] [PyHash K]

/-! ## The counted functions -/

/-- `__setitem__`, with its calls counted. -/
def setItemCounted : Nat → HashTable K V → K → V → Py Nat (HashTable K V)
  | 0, _, _, _ => Py.raise .recursionError
  | depth + 1, table, key, value => do
      Py.modify (· + 1)
      match Assoc.replace key value (table.findBucket key) with
      | some bucket => pure (table.setBucket key bucket)
      | none =>
          if maxLoadFactor < (table.grow key value).loadFactor then
            (table.grow key value).items.foldlM
              (fun table item => setItemCounted depth table item.1 item.2)
              (withBuckets (max minCapacity ((table.grow key value).buckets.length * 2)))
          else pure (table.grow key value)

/-- `table[key] = value`, counted. -/
def assignCounted (table : HashTable K V) (key : K) (value : V) : Py Nat (HashTable K V) :=
  setItemCounted recursionLimit table key value

/-- `update` with a list of pairs, counted. -/
def updateCounted (table : HashTable K V) (source : List (K × V)) : Py Nat (HashTable K V) :=
  source.foldlM (fun table item => table.assignCounted item.1 item.2) table

/-- `__init__`, counted. -/
def initCounted (initial : Option (List (K × V))) (capacity : Int) : Py Nat (HashTable K V) :=
  let table := withBuckets (max (minCapacity : Int) capacity).toNat
  match initial with
  | none => pure table
  | some source => table.updateCounted source

/-- `setdefault`, counted. -/
def setdefaultCounted (table : HashTable K V) (key : K) (default : V) :
    Py Nat (V × HashTable K V) :=
  if !table.contains key then do
    let table ← table.assignCounted key default
    return (default, table)
  else do
    let value ← Py.ofExcept (table.getItem key)
    return (value, table)

/-- `settle` with the count of the run. -/
def settleCounted (table : HashTable K V) (run : Py Nat (TableReply K V × HashTable K V))
    (count : Nat) : (TableReply K V × HashTable K V) × Nat :=
  (settle table (run count).1, (run count).2)

/-- One operation on the table, counted. Those not listed assign nothing. -/
def performCounted (table : HashTable K V) (count : Nat) :
    TableOp K V → (TableReply K V × HashTable K V) × Nat
  | .set key value =>
      settleCounted table (do return (.done, ← table.assignCounted key value)) count
  | .setdefault key default =>
      settleCounted table (do
        let outcome ← table.setdefaultCounted key default
        return (.value outcome.1, outcome.2)) count
  | .update source => settleCounted table (do return (.done, ← table.updateCounted source)) count
  | op => (table.perform op, count)

/-- A list of operations, counted. -/
def performAllCounted (table : HashTable K V) (count : Nat) :
    List (TableOp K V) → (List (TableReply K V) × HashTable K V) × Nat
  | [] => (([], table), count)
  | op :: rest =>
      let first := table.performCounted count op
      let others := first.1.2.performAllCounted first.2 rest
      ((first.1.1 :: others.1.1, others.1.2), others.2)

/-! ## Without the count -/

theorem set_item_counted_erases (depth : Nat) (table : HashTable K V) (key : K) (value : V) :
    Py.Erases (setItemCounted depth table key value) (setItem depth table key value) := by
  induction depth generalizing table key value with
  | zero => exact .raise _
  | succ depth ih =>
      rw [set_item_eq]
      refine Py.Erases.modify ?_ _
      cases hreplace : Assoc.replace key value (table.findBucket key) with
      | some bucket => exact .pure _
      | none =>
          by_cases hload : maxLoadFactor < (table.grow key value).loadFactor
          · simp only [if_pos hload]
            exact Py.Erases.fold (fun table (item : K × V) => ih table item.1 item.2) _ _
          · simp only [if_neg hload]
            exact .pure _

theorem assign_counted_erases (table : HashTable K V) (key : K) (value : V) :
    Py.Erases (table.assignCounted key value) (table.assign key value) :=
  set_item_counted_erases _ _ _ _

theorem update_counted_erases (table : HashTable K V) (source : List (K × V)) :
    Py.Erases (table.updateCounted source) (table.update source) :=
  Py.Erases.fold (fun table item => table.assign_counted_erases item.1 item.2) source table

theorem init_counted_erases (initial : Option (List (K × V))) (capacity : Int) :
    Py.Erases (initCounted initial capacity) (init initial capacity) := by
  cases initial with
  | none => exact .pure _
  | some source => exact update_counted_erases _ source

theorem setdefault_counted_erases (table : HashTable K V) (key : K) (default : V) :
    Py.Erases (table.setdefaultCounted key default) (table.setdefault key default) := by
  unfold setdefaultCounted setdefault
  split
  · exact (table.assign_counted_erases key default).bind fun after => .pure _
  · exact Py.Erases.bind (fun count => rfl) fun value => .pure _

/-- An operation replies and leaves a table as it does without the count. -/
theorem perform_counted_erases (table : HashTable K V) (count : Nat) (op : TableOp K V) :
    (table.performCounted count op).1 = table.perform op := by
  cases op with
  | set key value =>
      exact congrArg (settle table) ((table.assign_counted_erases key value).map _ count)
  | setdefault key default =>
      exact congrArg (settle table) ((table.setdefault_counted_erases key default).map _ count)
  | update source =>
      exact congrArg (settle table) ((table.update_counted_erases source).map _ count)
  | _ => rfl

theorem perform_all_counted_erases (table : HashTable K V) (count : Nat)
    (ops : List (TableOp K V)) :
    (table.performAllCounted count ops).1 = table.performAll ops := by
  induction ops generalizing table count with
  | nil => rfl
  | cons op rest ih =>
      simp only [performAllCounted, performAll, perform_counted_erases, ih]

/-! ## What a rebuild counts -/

/-- One call of `__setitem__`, from a given count. -/
theorem set_item_counted_eq (depth : Nat) (table : HashTable K V) (key : K) (value : V)
    (count : Nat) :
    setItemCounted (depth + 1) table key value count =
      match Assoc.replace key value (table.findBucket key) with
      | some bucket => (.ok (table.setBucket key bucket), count + 1)
      | none =>
          if maxLoadFactor < (table.grow key value).loadFactor then
            (table.grow key value).items.foldlM
              (fun table item => setItemCounted depth table item.1 item.2)
              (withBuckets (max minCapacity ((table.grow key value).buckets.length * 2)))
              (count + 1)
          else (.ok (table.grow key value), count + 1) := by
  rw [setItemCounted, Py.bind_ok (Py.modify_apply _ count)]
  cases Assoc.replace key value (table.findBucket key) with
  | some bucket => rfl
  | none =>
      by_cases hload : maxLoadFactor < (table.grow key value).loadFactor
      · simp only [if_pos hload]
      · simp only [if_neg hload, Py.pure_apply]

/-- Where there is room for another pair, an assignment is one call. -/
theorem set_item_counted_within (depth : Nat) {table : HashTable K V} (key : K) (value : V)
    (count : Nat) (hpos : 0 < table.buckets.length)
    (hroom : 4 * (table.size + 1) ≤ 3 * (table.buckets.length : Int)) :
    ∃ after, setItemCounted (depth + 1) table key value count = (.ok after, count + 1) ∧
      after.buckets.length = table.buckets.length ∧ after.size ≤ table.size + 1 := by
  have hgrown : (table.grow key value).size = table.size + 1 := rfl
  have hlength := length_grow table key value
  cases hreplace : Assoc.replace key value (table.findBucket key) with
  | some bucket =>
      refine ⟨table.setBucket key bucket, ?_, by simp [setBucket], ?_⟩
      · rw [set_item_counted_eq, hreplace]
      · show table.size ≤ table.size + 1
        omega
  | none =>
      have hload : ¬ maxLoadFactor < (table.grow key value).loadFactor := by
        rw [max_load_factor_lt_iff (by omega), hlength, hgrown]
        omega
      refine ⟨table.grow key value, ?_, hlength, Int.le_of_eq hgrown⟩
      rw [set_item_counted_eq, hreplace]
      exact if_neg hload

/-- Where there is room for all pairs, the loop makes one call for each. -/
theorem fold_counted_within (depth : Nat) (items : List (K × V)) (table : HashTable K V)
    (count : Nat) (hpos : 0 < table.buckets.length)
    (hroom : 4 * (table.size + items.length) ≤ 3 * (table.buckets.length : Int)) :
    ∃ after, items.foldlM (fun table item => setItemCounted (depth + 1) table item.1 item.2)
        table count = (.ok after, count + items.length) ∧
      after.buckets.length = table.buckets.length ∧ after.size ≤ table.size + items.length := by
  induction items generalizing table count with
  | nil => exact ⟨table, rfl, rfl, by simp⟩
  | cons item rest ih =>
      rw [List.length_cons] at hroom
      obtain ⟨middle, hstep, hlength, hsize⟩ :=
        set_item_counted_within depth item.1 item.2 count hpos (by omega)
      obtain ⟨after, hrest, hafter, hmore⟩ := ih middle (count + 1) (by omega) (by omega)
      refine ⟨after, ?_, hafter.trans hlength, ?_⟩
      · rw [List.foldlM_cons, Py.bind_ok hstep, hrest, List.length_cons, Nat.add_right_comm,
          Nat.add_assoc]
      · rw [List.length_cons]
        omega

/-- An assignment to a table without room for it calls `__setitem__` once more for each pair,
and leaves twice the buckets. -/
theorem set_item_counted_rebuild (depth : Nat) {table : HashTable K V} (h : table.Inv) (key : K)
    (value : V) (count : Nat)
    (hfresh : Assoc.replace key value (table.findBucket key) = none)
    (hload : maxLoadFactor < (table.grow key value).loadFactor) :
    ∃ after, setItemCounted (depth + 2) table key value count =
        (.ok after, count + 1 + (table.items.length + 1)) ∧
      after.buckets.length = table.buckets.length * 2 ∧ after.size ≤ table.size + 1 := by
  have hcount := (items_grow h key value).length_eq
  have hsize := h.size
  have hfull := h.load
  have hcapacity := h.capacity
  simp only [List.length_cons, minCapacity] at hcount hcapacity
  have hmax : max minCapacity ((table.grow key value).buckets.length * 2) =
      table.buckets.length * 2 := by
    rw [length_grow]
    simp only [minCapacity]
    omega
  have hbuckets : (withBuckets (table.buckets.length * 2) : HashTable K V).buckets.length =
      table.buckets.length * 2 := List.length_replicate
  have hempty : (withBuckets (table.buckets.length * 2) : HashTable K V).size = 0 := rfl
  obtain ⟨after, hrun, hlength, hafter⟩ := fold_counted_within depth
    (table.grow key value).items (withBuckets (table.buckets.length * 2)) (count + 1)
    (by omega) (by rw [hbuckets, hempty, hcount]; omega)
  refine ⟨after, ?_, hlength.trans hbuckets, ?_⟩
  · rw [set_item_counted_eq, hfresh, ← hcount, ← hrun, ← hmax]
    exact if_pos hload
  · rw [hempty, hcount] at hafter
    omega

/-- An assignment is one call, or finds the table full and calls once more for each pair to fill
twice the buckets. -/
theorem assign_counted_spec {table : HashTable K V} (h : table.Inv) (key : K) (value : V)
    (count : Nat) :
    ∃ after total, table.assignCounted key value count = (.ok after, total) ∧ after.Inv ∧
      after.size ≤ table.size + 1 ∧
      (total = count + 1 ∧ after.buckets.length = table.buckets.length ∨
        total = count + 1 + (table.items.length + 1) ∧
          after.buckets.length = table.buckets.length * 2 ∧
          3 * (table.buckets.length : Int) < 4 * (table.size + 1)) := by
  obtain ⟨after, hassign, hinv, -⟩ := assign_spec h key value
  have herases := table.assign_counted_erases key value count
  rw [hassign] at herases
  -- the run without the count has said what the table is
  have hsame : ∀ {other total}, table.assignCounted key value count = (.ok other, total) →
      other = after := by
    intro other total hrun
    rw [hrun] at herases
    exact Except.ok.inj herases
  cases hreplace : Assoc.replace key value (table.findBucket key) with
  | some bucket =>
      have hrun : table.assignCounted key value count = (.ok (table.setBucket key bucket),
          count + 1) := by
        rw [assignCounted, recursionLimit, set_item_counted_eq, hreplace]
      obtain rfl := hsame hrun
      refine ⟨_, _, hrun, hinv, ?_, .inl ⟨rfl, by simp [setBucket]⟩⟩
      show table.size ≤ table.size + 1
      omega
  | none =>
      by_cases hload : maxLoadFactor < (table.grow key value).loadFactor
      · obtain ⟨other, hrun, hlength, hsize⟩ :=
          set_item_counted_rebuild 998 h key value count hreplace hload
        obtain rfl := hsame hrun
        rw [max_load_factor_lt_iff (by rw [length_grow]; exact h.pos), length_grow] at hload
        exact ⟨_, _, hrun, hinv, hsize, .inr ⟨rfl, hlength, hload⟩⟩
      · have hrun : table.assignCounted key value count = (.ok (table.grow key value),
            count + 1) := by
          rw [assignCounted, recursionLimit, set_item_counted_eq, hreplace]
          exact if_neg hload
        obtain rfl := hsame hrun
        exact ⟨_, _, hrun, hinv, Int.le_refl _, .inl ⟨rfl, length_grow table key value⟩⟩

/-! ## What the assignments pay -/

/-- A call costs 20. A pair of a table is worth 48 and a bucket is 21 of debt, so that a full
table has saved what its rebuild costs and the rebuilt one starts from nothing. -/
def account : Py.Account (HashTable K V) where
  inv := Inv
  potential table := 48 * table.size.toNat - 21 * table.buckets.length
  price := 20

/-- An assignment is paid by 68, which is 20 for its own call and 48 for the new pair. -/
theorem assign_pays (key : K) (value : V) :
    (account (K := K) (V := V)).Pays 68 fun table => table.assignCounted key value := by
  intro table count h
  have hinv : table.Inv := h
  have hfull := hinv.load
  have hcapacity := hinv.capacity
  have hsize := hinv.size
  obtain ⟨after, total, hrun, hafter, hmore, hcase⟩ := assign_counted_spec h key value count
  refine ⟨after, total, hrun, hafter, ?_⟩
  simp only [account, minCapacity] at hcapacity ⊢
  rcases hcase with ⟨htotal, hlength⟩ | ⟨htotal, hlength, hcrowded⟩
  · omega
  · omega

/-- The assignments an operation asks for at most. -/
def assignments : TableOp K V → Nat
  | .set _ _ => 1
  | .setdefault _ _ => 1
  | .update source => source.length
  | _ => 0

/-- The assignments the operations of a list ask for at most. -/
def assignmentsAll : List (TableOp K V) → Nat
  | [] => 0
  | op :: rest => assignments op + assignmentsAll rest

/-- The pairs of an `update` are each paid for. -/
theorem update_pays (source : List (K × V)) :
    (account (K := K) (V := V)).Pays (68 * source.length) fun table =>
      table.updateCounted source := by
  rw [← Py.Account.allow_const]
  exact Py.Account.Pays.fold (fun item => assign_pays item.1 item.2) source

/-- A removal does not raise the potential. -/
theorem potential_shrink_le (table : HashTable K V) (key : K) :
    account.potential (table.shrink key) ≤ account.potential table := by
  simp only [account, shrink, setBucket, List.length_set]
  omega

/-- What an operation counts is paid by the assignments it asks for. -/
structure Paid (table : HashTable K V) (count allowance : Nat)
    (result : (TableReply K V × HashTable K V) × Nat) : Prop where
  inv : result.1.2.Inv
  paid : 20 * result.2 + account.potential result.1.2 ≤
    20 * count + allowance + account.potential table

omit [DecidableEq K] in
/-- A counted run that returns what the account pays for settles so. -/
theorem Paid.settle_counted {table : HashTable K V} {count allowance : Nat}
    {run : Py Nat (TableReply K V × HashTable K V)}
    (h : ∃ reply after total, run count = (.ok (reply, after), total) ∧ after.Inv ∧
      20 * total + account.potential after ≤ 20 * count + allowance + account.potential table) :
    Paid table count allowance (settleCounted table run count) := by
  obtain ⟨reply, after, total, hrun, hinv, hpaid⟩ := h
  unfold settleCounted
  rw [hrun]
  exact ⟨hinv, hpaid⟩

omit [DecidableEq K] in
/-- A table that an operation leaves alone. -/
theorem Paid.same {table : HashTable K V} (h : table.Inv) (reply : TableReply K V) (count : Nat) :
    Paid table count 0 ((reply, table), count) :=
  ⟨h, Nat.le_refl _⟩

/-- Every operation is paid by the assignments it asks for. -/
theorem perform_paid {table : HashTable K V} (h : table.Inv) (count : Nat) (op : TableOp K V) :
    Paid table count (68 * assignments op) (table.performCounted count op) := by
  have hshrunk : ∀ {key : K} {value : V} (reply : TableReply K V),
      table.lookup key = some value → Paid table count 0 ((reply, table.shrink key), count) :=
    fun {key} _ reply hfound => ⟨h.shrink hfound,
      Nat.add_le_add_left (potential_shrink_le table key) (20 * count)⟩
  cases op with
  | set key value =>
      refine Paid.settle_counted ?_
      obtain ⟨after, total, hrun, hinv, hpaid⟩ := assign_pays key value table count h
      exact ⟨_, after, total, by rw [Py.bind_ok hrun]; rfl, hinv, hpaid⟩
  | setdefault key default =>
      refine Paid.settle_counted ?_
      cases hfound : table.lookup key with
      | none =>
          obtain ⟨after, total, hrun, hinv, hpaid⟩ := assign_pays key default table count h
          have hset : table.setdefaultCounted key default count =
              (.ok (default, after), total) := by
            simp only [setdefaultCounted, contains_eq, hfound, Option.isSome_none, Bool.not_false,
              if_true]
            rw [Py.bind_ok hrun]
            rfl
          exact ⟨_, after, total, by rw [Py.bind_ok hset]; rfl, hinv, hpaid⟩
      | some value =>
          have hset : table.setdefaultCounted key default count = (.ok (value, table), count) := by
            simp only [setdefaultCounted, contains_eq, hfound, Option.isSome_some, Bool.not_true,
              Bool.false_eq_true, if_false, get_item_eq]
            rfl
          exact ⟨_, table, count, by rw [Py.bind_ok hset]; rfl, h, Nat.add_le_add_right
            (Nat.le_add_right _ _) _⟩
  | update source =>
      refine Paid.settle_counted ?_
      obtain ⟨after, total, hrun, hinv, hpaid⟩ := update_pays source table count h
      exact ⟨_, after, total, by rw [Py.bind_ok hrun]; rfl, hinv, hpaid⟩
  | delete key =>
      simp only [performCounted, perform, del_item_eq]
      cases hfound : table.lookup key with
      | some value => exact hshrunk _ hfound
      | none => exact Paid.same h _ count
  | pop key default =>
      simp only [performCounted, perform, pop_eq]
      cases hfound : table.lookup key with
      | some value => exact hshrunk _ hfound
      | none =>
          cases default with
          | some value => exact Paid.same h _ count
          | none => exact Paid.same h _ count
  | clear =>
      refine ⟨inv_with_buckets (Nat.le_refl _), ?_⟩
      -- eight buckets without a pair are worth nothing
      have hempty : account.potential table.clear = 0 := by
        simp [account, HashTable.clear, withBuckets]
      show 20 * count + account.potential table.clear ≤ 20 * count + 0 + account.potential table
      omega
  | getItem key =>
      simp only [performCounted, perform]
      cases table.getItem key with
      | ok value => exact Paid.same h _ count
      | error error => exact Paid.same h _ count
  | get key default => exact Paid.same h _ count
  | contains key => exact Paid.same h _ count
  | len => exact Paid.same h _ count
  | keys => exact Paid.same h _ count
  | items => exact Paid.same h _ count

/-- A list of operations is paid by the assignments it asks for. -/
theorem perform_all_paid (ops : List (TableOp K V)) {table : HashTable K V} (h : table.Inv)
    (count : Nat) :
    20 * (table.performAllCounted count ops).2 ≤
      20 * count + 68 * assignmentsAll ops + account.potential table := by
  induction ops generalizing table count with
  | nil =>
      show 20 * count ≤ 20 * count + 0 + account.potential table
      omega
  | cons op rest ih =>
      have hfirst := perform_paid h count op
      have hpaid := hfirst.paid
      have hrest := ih hfirst.inv (table.performCounted count op).2
      simp only [performAllCounted, assignmentsAll]
      omega

/-- Whatever the keys and their hashes, and whatever the constructor and the operations after it,
all rebuilds together are cheap: with those of the rebuilds, there are at most 17 calls of
`__setitem__` for every 5 assignments asked for. The count changes no reply and no table. -/
theorem assignments_amortized (initial : Option (List (K × V))) (capacity : Int)
    (ops : List (TableOp K V)) :
    ∃ table calls, initCounted initial capacity 0 = (.ok table, calls) ∧
      init initial capacity = .ok table ∧
      (table.performAllCounted calls ops).1 = table.performAll ops ∧
      5 * (table.performAllCounted calls ops).2 ≤
        17 * ((initial.getD []).length + assignmentsAll ops) := by
  have hcapacity : minCapacity ≤ (max (minCapacity : Int) capacity).toNat := by
    simp only [minCapacity]
    omega
  have hinv : (withBuckets (max (minCapacity : Int) capacity).toNat : HashTable K V).Inv :=
    inv_with_buckets hcapacity
  have hempty : account.potential
      (withBuckets (max (minCapacity : Int) capacity).toNat : HashTable K V) = 0 := by
    simp [account, withBuckets]
  obtain ⟨table, calls, hrun, htable, hpaid⟩ : ∃ table calls,
      initCounted initial capacity 0 = (.ok table, calls) ∧ table.Inv ∧
        20 * calls + account.potential table ≤ 68 * (initial.getD []).length := by
    cases initial with
    | none => exact ⟨_, 0, rfl, hinv, by simp [hempty]⟩
    | some source =>
        obtain ⟨table, calls, hrun, htable, hpaid⟩ := update_pays source _ 0 hinv
        refine ⟨table, calls, hrun, htable, ?_⟩
        rw [hempty] at hpaid
        simpa [account] using hpaid
  have hall := perform_all_paid ops htable calls
  have herases := init_counted_erases initial capacity 0
  rw [hrun] at herases
  refine ⟨table, calls, hrun, herases.symm, table.perform_all_counted_erases calls ops, ?_⟩
  omega

end MiniRedis.HashTable
