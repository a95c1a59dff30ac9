import MiniRedis.Storage.Eviction

/-!
# Two readings of the clock in one operation

`ttl` and `get_expire_at` read the clock in the eviction check and again in the expiration
manager. When the deadline falls between the two readings, the manager drops the deadline
and the value stays, so that an expiring key becomes a permanent one. `expiring_stays_expiring`
says that this is the only way: in a run without such a straddle a deadline lasts as long
as its value, and a key reported absent stays absent until it is set.
-/

namespace MiniRedis

/-- What a method replies about a key that is not in the store. -/
def KeyOp.absentReply {V : Type} : KeyOp V → KeyReply V
  | .set _ _ => .done
  | .get => .value none
  | .delete => .number 0
  | .exists => .number 0
  | .expire _ => .number 0
  | .ttl => .number (-2)
  | .invalidate => .number 0
  | .getExpireAt => .time none

/-- The method gives the key a value, a deadline or takes it out of the store. -/
def KeyOp.Rewrites {V : Type} : KeyOp V → Prop
  | .set _ _ | .expire _ | .delete | .invalidate => True
  | _ => False

/-- The method reports the key as absent. -/
def KeyOp.ReportsAbsent {V : Type} : KeyOp V → KeyReply V → Prop
  | .get, reply => reply = .value none
  | .exists, reply => reply = .number 0
  | .ttl, reply => reply = .number (-2)
  | _, _ => False

namespace Cell

variable {V : Type}

/-- The deadline of a value falls between the two readings of a method. -/
def Straddles (cell : Cell V) : KeyOp V → Prop
  | .ttl => ∃ value expiresAt left, cell.toSlot = ⟨some value, some expiresAt⟩ ∧
      expiresAt.gt (cell.nowFn.get 0).time = true ∧
      (expiresAt.sub (cell.nowFn.get 1).time).toInt = .ok left ∧ left < 0
  | .getExpireAt => ∃ value expiresAt, cell.toSlot = ⟨some value, some expiresAt⟩ ∧
      expiresAt.gt (cell.nowFn.get 0).time = true ∧ expiresAt.gt (cell.nowFn.get 1).time = false
  | _ => False

/-- Without a key, every method but `set` says so and changes nothing. -/
theorem perform_absent (nowFn : Stream' Reading) (op : KeyOp V)
    (hset : ∀ value ex, op ≠ .set value ex) :
    perform op (⟨Slot.absent, nowFn⟩ : Cell V) = (.ok op.absentReply, ⟨Slot.absent, nowFn⟩) := by
  cases op with
  | set value ex => exact absurd rfl (hset value ex)
  | get => rfl
  | delete => rfl
  | «exists» => rfl
  | expire seconds => rfl
  | ttl => rfl
  | invalidate => rfl
  | getExpireAt => rfl

/-- A straddle takes the deadline away and leaves the value. -/
theorem perform_straddle {cell : Cell V} {op : KeyOp V} (h : cell.Straddles op) :
    ¬ op.Rewrites ∧ ∃ value expiresAt, cell.toSlot = ⟨some value, some expiresAt⟩ ∧
      (perform op cell).2.toSlot = ⟨some value, none⟩ := by
  obtain ⟨slot, nowFn⟩ := cell
  cases op with
  | ttl =>
      obtain ⟨value, expiresAt, left, hslot, hgt, hleft, hsign⟩ := h
      simp only at hslot hgt hleft
      subst hslot
      have hnot : ¬ 0 ≤ left := by omega
      exact ⟨id, value, expiresAt, rfl, by simp [perform, ttl, evictIfExpired, isExpired, now,
        inData, secondsLeft, dropDeadline, hgt, hleft, hnot]⟩
  | getExpireAt =>
      obtain ⟨value, expiresAt, hslot, hgt, hle⟩ := h
      simp only at hslot hgt hle
      subst hslot
      refine ⟨id, value, expiresAt, rfl, ?_⟩
      simp [perform, getExpireAt, evictIfExpired, isExpired, now, currentDeadline, dropDeadline,
        hgt, hle]
  | _ => exact h.elim

/-- After an eviction check that found the key alive, `ttl` keeps the slot or straddles. -/
theorem ttl_kept {value : V} {deadline : Option PyFloat} {nowFn : Stream' Reading}
    (hstraddle : ¬ (⟨⟨some value, deadline⟩, nowFn⟩ : Cell V).Straddles .ttl)
    (hexpired : (Slot.mk (some value) deadline).expired nowFn.head = false) :
    (perform .ttl (⟨⟨some value, deadline⟩, nowFn⟩ : Cell V)).2.toSlot =
        ⟨some value, deadline⟩ ∧
      (perform .ttl (⟨⟨some value, deadline⟩, nowFn⟩ : Cell V)).1 ≠ .ok (.number (-2)) := by
  cases deadline with
  | none => simp [perform, ttl, evictIfExpired, isExpired, inData, secondsLeft]
  | some expiresAt =>
      have hgt : expiresAt.gt nowFn.head.time = true := by simpa [Slot.expired] using hexpired
      cases hleft : (expiresAt.sub (nowFn.get 1).time).toInt with
      | error error =>
          simp [perform, ttl, evictIfExpired, isExpired, now, inData, secondsLeft, hgt, hleft]
      | ok left =>
          have hsign : 0 ≤ left := by
            refine Int.not_lt.mp fun hneg => hstraddle ?_
            exact ⟨value, expiresAt, left, rfl, hgt, hleft, hneg⟩
          simp [perform, ttl, evictIfExpired, isExpired, now, inData, secondsLeft, hgt, hleft,
            hsign]
          omega

/-- After an eviction check that found the key alive, `get_expire_at` keeps the slot or
straddles. -/
theorem get_expire_at_kept {value : V} {deadline : Option PyFloat} {nowFn : Stream' Reading}
    (hstraddle : ¬ (⟨⟨some value, deadline⟩, nowFn⟩ : Cell V).Straddles .getExpireAt)
    (hexpired : (Slot.mk (some value) deadline).expired nowFn.head = false) :
    (perform .getExpireAt (⟨⟨some value, deadline⟩, nowFn⟩ : Cell V)).2.toSlot =
      ⟨some value, deadline⟩ := by
  cases deadline with
  | none => simp [perform, getExpireAt, evictIfExpired, isExpired, currentDeadline]
  | some expiresAt =>
      have hgt : expiresAt.gt nowFn.head.time = true := by simpa [Slot.expired] using hexpired
      have hgt' : expiresAt.gt (nowFn.get 1).time = true := by
        rw [← Bool.not_eq_false]
        exact fun hle => hstraddle ⟨value, expiresAt, rfl, hgt, hle⟩
      simp [perform, getExpireAt, evictIfExpired, isExpired, now, currentDeadline, hgt, hgt']

/-- A method that only reads, without a straddle, leaves the slot as it is or empties it if it has
expired, and empties it if it reports the key absent. -/
theorem perform_reading {cell : Cell V} (hconsistent : cell.toSlot.Consistent) {op : KeyOp V}
    (hop : ¬ op.Rewrites) (hstraddle : ¬ cell.Straddles op) :
    ((perform op cell).2.toSlot = cell.toSlot ∨
        cell.expired cell.nowFn.head = true ∧ (perform op cell).2.toSlot = Slot.absent) ∧
      ∀ reply, (perform op cell).1 = .ok reply → op.ReportsAbsent reply →
        (perform op cell).2.toSlot = Slot.absent := by
  obtain ⟨⟨value, deadline⟩, nowFn⟩ := cell
  have hset : ∀ value ex, op ≠ .set value ex := by
    rintro value ex rfl
    exact hop trivial
  cases value with
  | none =>
      have hnone : deadline = none := hconsistent rfl
      subst hnone
      have habsent := perform_absent nowFn op hset
      rw [Slot.absent] at habsent
      rw [habsent]
      exact ⟨.inl rfl, fun reply _ _ => rfl⟩
  | some value =>
      have hevict := evict_eq ⟨⟨some value, deadline⟩, nowFn⟩ hconsistent
      cases hexpired : (Slot.mk (some value) deadline).expired nowFn.head with
      | true =>
          -- the first reading evicts the key, and what follows finds nothing
          simp only [Slot.purge, hexpired, if_true, Slot.absent] at hevict
          cases op with
          | get => simp [perform, get, hevict, Slot.absent]
          | «exists» => simp [perform, «exists», hevict, inData, Slot.absent]
          | ttl => simp [perform, ttl, hevict, Slot.absent]
          | getExpireAt =>
              simp [perform, getExpireAt, hevict, currentDeadline, isExpired, Slot.absent]
          | _ => exact absurd trivial hop
      | false =>
          simp only [Slot.purge, hexpired, Bool.false_eq_true, if_false] at hevict
          cases op with
          | get => simp [perform, get, hevict, KeyOp.ReportsAbsent]
          | «exists» => simp [perform, «exists», hevict, inData, KeyOp.ReportsAbsent]
          | ttl =>
              obtain ⟨hslot, hreply⟩ := ttl_kept hstraddle hexpired
              refine ⟨.inl hslot, fun reply hrun hreports => ?_⟩
              rw [show reply = .number (-2) from hreports] at hrun
              exact absurd hrun hreply
          | getExpireAt =>
              exact ⟨.inl (get_expire_at_kept hstraddle hexpired), fun _ _ h => h.elim⟩
          | _ => exact absurd trivial hop

/-- A slot with a value is consistent. -/
theorem consistent_of_value {cell : Cell V} (value : V) (h : cell.value = some value) :
    cell.toSlot.Consistent := by
  intro hnone
  rw [h] at hnone
  cases hnone

/-- Setting a deadline, or failing to, keeps the value. -/
theorem set_expire_value (seconds : Int) (cell : Cell V) :
    (setExpire seconds cell).2.value = cell.value := by
  by_cases hsign : seconds ≤ 0
  · simp [setExpire, hsign]
  · cases hsum : cell.nowFn.head.time.addInt seconds <;> simp [setExpire, now, hsign, hsum]

theorem set_consistent (value : V) (ex : Option Int) (cell : Cell V) :
    (perform (.set value ex) cell).2.toSlot.Consistent := by
  cases ex with
  | none =>
      refine consistent_of_value value ?_
      simp [perform, set, persist, dropDeadline]
  | some ex =>
      by_cases hsign : ex ≤ 0
      · have habsent : (perform (.set value (some ex)) cell).2.toSlot = Slot.absent := by
          simp [perform, set, persist, dropDeadline, dropValue, hsign, Slot.absent]
        rw [habsent]
        exact Slot.consistent_absent
      · refine consistent_of_value value ?_
        have hkept := set_expire_value ex (⟨⟨some value, none⟩, cell.nowFn⟩ : Cell V)
        generalize hrun : setExpire ex (⟨⟨some value, none⟩, cell.nowFn⟩ : Cell V) = run at hkept
        obtain ⟨_ | _, after⟩ := run <;>
          simpa [perform, set, persist, dropDeadline, hsign, hrun] using hkept

theorem delete_consistent {cell : Cell V} (hconsistent : cell.toSlot.Consistent) :
    (perform .delete cell).2.toSlot.Consistent := by
  have habsent : (perform .delete cell).2.toSlot = Slot.absent := by
    have hevict := evict_eq cell hconsistent
    generalize cell.expired cell.nowFn.head = expired at hevict
    generalize cell.purge cell.nowFn.head = purged at hevict
    obtain ⟨_ | value, deadline⟩ := purged <;>
      simp [perform, delete, hevict, inData, dropDeadline, dropValue, Slot.absent]
  rw [habsent]
  exact Slot.consistent_absent

theorem expire_consistent {cell : Cell V} (hconsistent : cell.toSlot.Consistent) (seconds : Int) :
    (perform (.expire seconds) cell).2.toSlot.Consistent := by
  have hevict := evict_eq cell hconsistent
  have hpurge := hconsistent.purge cell.nowFn.head
  generalize cell.expired cell.nowFn.head = expired at hevict
  generalize cell.purge cell.nowFn.head = purged at hevict hpurge
  generalize (if cell.deadline.isSome = true then cell.nowFn.tail else cell.nowFn) = nowFn at hevict
  obtain ⟨_ | value, deadline⟩ := purged
  · have hslot : (perform (.expire seconds) cell).2.toSlot = ⟨none, deadline⟩ := by
      simp [perform, expire, hevict, inData]
    rw [hslot]
    exact hpurge
  · refine consistent_of_value value ?_
    have hkept := set_expire_value seconds (⟨⟨some value, deadline⟩, nowFn⟩ : Cell V)
    generalize hrun : setExpire seconds (⟨⟨some value, deadline⟩, nowFn⟩ : Cell V) = run at hkept
    obtain ⟨_ | _, after⟩ := run <;> simpa [perform, expire, hevict, inData, hrun] using hkept

/-- No method leaves a deadline without a value. -/
theorem perform_consistent {cell : Cell V} (hconsistent : cell.toSlot.Consistent) (op : KeyOp V) :
    (perform op cell).2.toSlot.Consistent := by
  by_cases hop : op.Rewrites
  · cases op with
    | set value ex => exact set_consistent value ex cell
    | expire seconds => exact expire_consistent hconsistent seconds
    | delete => exact delete_consistent hconsistent
    | invalidate => exact delete_consistent hconsistent
    | _ => exact hop.elim
  · by_cases hstraddle : cell.Straddles op
    · obtain ⟨-, value, expiresAt, -, hafter⟩ := perform_straddle hstraddle
      rw [hafter]
      exact fun h => absurd h (by simp)
    · rcases (perform_reading hconsistent hop hstraddle).1 with hsame | ⟨-, habsent⟩
      · rw [hsame]
        exact hconsistent
      · rw [habsent]
        exact Slot.consistent_absent

end Cell

/-- The operations of the store, with `load`. -/
inductive Call (K V : Type) where
  | op (op : StoreOp K V)
  | load (data : Dict K V) (expiresAt : Dict K PyFloat)

namespace Call

variable {K V : Type} [DecidableEq K]

/-- The call gives the key a value, a deadline or takes it out of the store. -/
def Rewrites (key : K) : Call K V → Prop
  | .op (.key other method) => other = key ∧ method.Rewrites
  | .op .snapshot => False
  | .load _ _ => True

/-- The call gives the key a value. -/
def Sets (key : K) : Call K V → Prop
  | .op (.key other (.set _ _)) => other = key
  | .load data _ => data.get? key ≠ none
  | _ => False

/-- A `load` gives a deadline only to keys that it gives a value. -/
def OrphanFree : Call K V → Prop
  | .load data expiresAt => ∀ key, data.get? key = none → expiresAt.get? key = none
  | .op _ => True

/-- The call replies that the key is absent. -/
def ReportsAbsent (key : K) (result : Except PyError (Option (StoreReply K V))) :
    Call K V → Prop
  | .op (.key other method) =>
      other = key ∧ ∃ reply, result = .ok (some (.key reply)) ∧ method.ReportsAbsent reply
  | _ => False

/-- Whatever the call replies about the key is what it replies about an absent key. -/
def Denies (key : K) (result : Except PyError (Option (StoreReply K V))) : Call K V → Prop
  | .op (.key other method) => other = key → result = .ok (some (.key method.absentReply))
  | .op .snapshot => ∃ data expiresAt,
      result = .ok (some (.snapshot data expiresAt)) ∧ data key = none ∧ expiresAt key = none
  | .load _ _ => True

end Call

namespace InMemoryStore

variable {K V : Type} [PyHash K] [DecidableEq K]

/-- Make a call. -/
def call : Call K V → Py (InMemoryStore K V) (Option (StoreReply K V))
  | .op op => return some (← perform op)
  | .load data expiresAt => do
      load data expiresAt
      return none

/-- Some deadline falls between the two readings of a call. -/
def Straddles (store : InMemoryStore K V) : Call K V → Prop
  | .op (.key key op) => (store.cell key).Straddles op
  | _ => False

/-- No call of a run straddles. -/
def NoStraddle (store : InMemoryStore K V) : List (Call K V) → Prop
  | [] => True
  | call :: rest => ¬ store.Straddles call ∧ NoStraddle (store.call call).2 rest

/-- Along a run, a call that does not rewrite a key keeps the deadline of its value or takes the
value away. -/
def KeepsDeadlines (store : InMemoryStore K V) : List (Call K V) → Prop
  | [] => True
  | call :: rest =>
      (∀ key value expiresAt, store.slot key = ⟨some value, some expiresAt⟩ →
        ¬ call.Rewrites key →
        ((store.call call).2.slot key).deadline = some expiresAt ∨
          ((store.call call).2.slot key).value = none) ∧
      KeepsDeadlines (store.call call).2 rest

/-- Along a run, every call denies the key until one sets it. -/
def DeniesUntilSet (store : InMemoryStore K V) (key : K) : List (Call K V) → Prop
  | [] => True
  | call :: rest => call.Sets key ∨
      call.Denies key (store.call call).1 ∧ DeniesUntilSet (store.call call).2 key rest

/-- Along a run, a key that a call reports absent is denied until a call sets it. -/
def StaysAbsent (store : InMemoryStore K V) : List (Call K V) → Prop
  | [] => True
  | call :: rest =>
      (∀ key, call.ReportsAbsent key (store.call call).1 →
        DeniesUntilSet (store.call call).2 key rest) ∧
      StaysAbsent (store.call call).2 rest

/-- A call on a key does on its cell what the method does on cells. -/
theorem call_key (store : InMemoryStore K V) (key : K) (op : KeyOp V) :
    (store.call (.op (.key key op))).1 =
        (Cell.perform op (store.cell key)).1.map (fun reply => some (.key reply)) ∧
      (store.call (.op (.key key op))).2.slot key = (Cell.perform op (store.cell key)).2.toSlot ∧
      ∀ other, other ≠ key → (store.call (.op (.key key op))).2.slot other = store.slot other := by
  obtain ⟨after, hrun, hcell, hframe⟩ :=
    (local_perform key op).run (Prod.eta (Cell.perform op (store.cell key))).symm
  have hslot : after.slot key = _ := congrArg Cell.toSlot hcell
  simp only [call, InMemoryStore.perform, Py.bind_apply, hrun]
  cases (Cell.perform op (store.cell key)).1 <;> exact ⟨rfl, hslot, hframe⟩

/-- A snapshot leaves each slot as it is or empties it, and has only values that it leaves. -/
theorem call_snapshot (store : InMemoryStore K V) :
    ∃ data expiresAt, (store.call (.op .snapshot)).1 = .ok (some (.snapshot data expiresAt)) ∧
      ∀ key, ((store.call (.op .snapshot)).2.slot key = store.slot key ∨
          (store.call (.op .snapshot)).2.slot key = Slot.absent) ∧
        (store.slot key = Slot.absent → data key = none ∧ expiresAt key = none) := by
  obtain ⟨evicted, hrun, -, hslots⟩ := evict_all_spec store
  have hkept : ∀ key, evicted.slot key = store.slot key ∨ evicted.slot key = Slot.absent := by
    intro key
    have hkey := hslots key
    split at hkey
    · exact .inl hkey
    · obtain ⟨index, hindex⟩ := hkey
      rw [hindex, Slot.purge]
      split
      · exact .inr rfl
      · exact .inl rfl
  have hsnapshot : store.call (.op .snapshot) = (.ok (some (.snapshot
      (Dict.ofList evicted.data.items).get?
      (evicted.expiration.expiresAt.filter
        (fun _ expiresAt => expiresAt.gt evicted.expiration.nowFn.head.time)).get?)),
      { evicted with expiration :=
        { evicted.expiration with nowFn := evicted.expiration.nowFn.tail } }) := by
    simp [call, perform, snapshot, hrun, onExpiration, ExpirationManager.snapshot,
      ExpirationManager.now]
  rw [hsnapshot]
  refine ⟨_, _, rfl, fun key => ⟨hkept key, fun habsent => ?_⟩⟩
  have hslot : evicted.slot key = Slot.absent := by
    rcases hkept key with hsame | hempty
    · rw [hsame, habsent]
    · exact hempty
  rw [Dict.get?_ofList evicted.data.nodup_items, Table.lookup_items, Dict.get?_filter]
  rw [show evicted.data.lookup key = (evicted.slot key).value from rfl,
    show evicted.expiration.expiresAt.get? key = (evicted.slot key).deadline from rfl, hslot]
  exact ⟨rfl, rfl⟩

/-- A call without a straddle keeps a deadline with its value. -/
theorem call_keeps {store : InMemoryStore K V} (hconsistent : store.Consistent) {call : Call K V}
    (hstraddle : ¬ store.Straddles call) {key : K} (hrewrites : ¬ call.Rewrites key) :
    (store.call call).2.slot key = store.slot key ∨
      (store.call call).2.slot key = Slot.absent := by
  rcases call with (⟨other, op⟩ | _) | ⟨data, expiresAt⟩
  · obtain ⟨-, hslot, hframe⟩ := call_key store other op
    by_cases hother : key = other
    · subst hother
      rw [hslot]
      exact (Cell.perform_reading (hconsistent key) (fun h => hrewrites ⟨rfl, h⟩)
        hstraddle).1.imp_right And.right
    · exact .inl (hframe key hother)
  · obtain ⟨data, expiresAt, -, hslots⟩ := call_snapshot store
    exact (hslots key).1
  · exact absurd trivial hrewrites

/-- A straddle takes the deadline of a value away. -/
theorem call_straddle {store : InMemoryStore K V} {call : Call K V}
    (hstraddle : store.Straddles call) :
    ∃ key value expiresAt, ¬ call.Rewrites key ∧
      store.slot key = ⟨some value, some expiresAt⟩ ∧
      (store.call call).2.slot key = ⟨some value, none⟩ := by
  rcases call with (⟨key, op⟩ | _) | ⟨data, expiresAt⟩
  · obtain ⟨hop, value, expiresAt, hbefore, hafter⟩ := Cell.perform_straddle hstraddle
    obtain ⟨-, hslot, -⟩ := call_key store key op
    exact ⟨key, value, expiresAt, fun h => hop h.2, hbefore, hslot.trans hafter⟩
  · exact hstraddle.elim
  · exact hstraddle.elim

omit [PyHash K] in
/-- A load that is free of orphans gives no deadline without a value. -/
theorem loaded_consistent {data : Dict K V} {expiresAt : Dict K PyFloat}
    (horphan : (Call.load data expiresAt).OrphanFree) (now : Reading) (key : K) :
    (loaded data expiresAt now key).Consistent := by
  intro hnone
  simp [loaded, horphan key hnone]

/-- A load puts under each key what it gives it, or nothing. -/
theorem call_load (store : InMemoryStore K V) (data : Dict K V) (expiresAt : Dict K PyFloat)
    (key : K) :
    (store.call (.load data expiresAt)).2.slot key =
        loaded data expiresAt store.expiration.nowFn.head key ∨
      (store.call (.load data expiresAt)).2.slot key = Slot.absent := by
  obtain ⟨after, hrun, -, hslots⟩ := load_spec store data expiresAt
  have hafter : (store.call (.load data expiresAt)).2 = after := by simp [call, hrun]
  have hkey := hslots key
  rw [hafter]
  split at hkey
  · exact .inl hkey
  · obtain ⟨index, hindex⟩ := hkey
    rw [hindex, Slot.purge]
    split
    · exact .inr rfl
    · exact .inl rfl

/-- No call leaves a deadline without a value. -/
theorem call_consistent {store : InMemoryStore K V} (hconsistent : store.Consistent)
    {call : Call K V} (horphan : call.OrphanFree) : (store.call call).2.Consistent := by
  intro key
  rcases call with (⟨other, op⟩ | _) | ⟨data, expiresAt⟩
  · obtain ⟨-, hslot, hframe⟩ := call_key store other op
    by_cases hother : key = other
    · subst hother
      rw [hslot]
      exact Cell.perform_consistent (hconsistent key) op
    · rw [hframe key hother]
      exact hconsistent key
  · obtain ⟨data, expiresAt, -, hslots⟩ := call_snapshot store
    rcases (hslots key).1 with hsame | habsent
    · rw [hsame]
      exact hconsistent key
    · rw [habsent]
      exact Slot.consistent_absent
  · have hloaded := loaded_consistent horphan store.expiration.nowFn.head key
    rcases call_load store data expiresAt key with hsame | habsent
    · rw [hsame]
      exact hloaded
    · rw [habsent]
      exact Slot.consistent_absent

/-- A call that does not set an absent key denies it and leaves it absent. -/
theorem call_denies {store : InMemoryStore K V} {key : K} (habsent : store.slot key = Slot.absent)
    {call : Call K V} (horphan : call.OrphanFree) (hsets : ¬ call.Sets key) :
    call.Denies key (store.call call).1 ∧ (store.call call).2.slot key = Slot.absent := by
  rcases call with (⟨other, op⟩ | _) | ⟨data, expiresAt⟩
  · obtain ⟨hresult, hslot, hframe⟩ := call_key store other op
    by_cases hother : key = other
    · subst hother
      have hset : ∀ value ex, op ≠ .set value ex := by
        rintro value ex rfl
        exact hsets rfl
      have hcell := Cell.perform_absent store.expiration.nowFn op hset
      rw [← habsent] at hcell
      rw [show (⟨store.slot key, store.expiration.nowFn⟩ : Cell V) = store.cell key from rfl]
        at hcell
      rw [hcell] at hresult hslot
      exact ⟨fun _ => hresult, by rw [hslot, ← habsent]; rfl⟩
    · exact ⟨fun h => absurd h.symm hother, by rw [hframe key hother, habsent]⟩
  · obtain ⟨data, expiresAt, hresult, hslots⟩ := call_snapshot store
    refine ⟨⟨data, expiresAt, hresult, (hslots key).2 habsent⟩, ?_⟩
    rcases (hslots key).1 with hsame | hempty
    · rw [hsame, habsent]
    · exact hempty
  · refine ⟨trivial, ?_⟩
    have hnone : data.get? key = none := Classical.not_not.mp hsets
    have hloaded : loaded data expiresAt store.expiration.nowFn.head key = Slot.absent := by
      simp [loaded, hnone, horphan key hnone, Slot.absent]
    rcases call_load store data expiresAt key with hsame | hempty
    · rw [hsame, hloaded]
    · exact hempty

/-- A call without a straddle that reports a key absent leaves it absent. -/
theorem call_reports_absent {store : InMemoryStore K V} (hconsistent : store.Consistent)
    {call : Call K V} (hstraddle : ¬ store.Straddles call) {key : K}
    (hreports : call.ReportsAbsent key (store.call call).1) :
    (store.call call).2.slot key = Slot.absent := by
  rcases call with (⟨other, op⟩ | _) | ⟨data, expiresAt⟩
  · obtain ⟨rfl, reply, hresult, hreply⟩ := hreports
    obtain ⟨hcell, hslot, -⟩ := call_key store other op
    have hop : ¬ op.Rewrites := by
      intro hop
      cases op with
      | set value ex => exact hreply
      | expire seconds => exact hreply
      | delete => exact hreply
      | invalidate => exact hreply
      | _ => exact hop
    rw [hslot]
    refine (Cell.perform_reading (hconsistent other) hop hstraddle).2 reply ?_ hreply
    rw [hcell] at hresult
    cases hrun : (Cell.perform op (store.cell other)).1 with
    | error error =>
        rw [hrun] at hresult
        cases hresult
    | ok result =>
        rw [hrun] at hresult
        cases hresult
        rfl
  · exact hreports.elim
  · exact hreports.elim

/-- No call of a run straddles, and every load gives deadlines to values only. -/
def Settled (store : InMemoryStore K V) (calls : List (Call K V)) : Prop :=
  NoStraddle store calls ∧ ∀ call ∈ calls, call.OrphanFree

/-- An absent key is denied until it is set, in every run without orphans. -/
theorem denies_until_set (calls : List (Call K V)) (horphans : ∀ call ∈ calls, call.OrphanFree)
    {store : InMemoryStore K V} {key : K} (habsent : store.slot key = Slot.absent) :
    DeniesUntilSet store key calls := by
  induction calls generalizing store with
  | nil => trivial
  | cons call rest ih =>
      by_cases hsets : call.Sets key
      · exact .inl hsets
      · obtain ⟨hdenies, hafter⟩ :=
          call_denies habsent (horphans call List.mem_cons_self) hsets
        exact .inr ⟨hdenies, ih (fun other hmem => horphans other (List.mem_cons_of_mem _ hmem))
          hafter⟩

/-- In a run without straddles and orphans, deadlines last and absent keys stay absent. -/
theorem settled_run (calls : List (Call K V)) {store : InMemoryStore K V}
    (hconsistent : store.Consistent) (hsettled : Settled store calls) :
    KeepsDeadlines store calls ∧ StaysAbsent store calls := by
  induction calls generalizing store with
  | nil => exact ⟨trivial, trivial⟩
  | cons call rest ih =>
      obtain ⟨⟨hstraddle, hrest⟩, horphans⟩ := hsettled
      have horphan := horphans call List.mem_cons_self
      have horphans' : ∀ other ∈ rest, other.OrphanFree := fun other hmem =>
        horphans other (List.mem_cons_of_mem _ hmem)
      obtain ⟨hkeeps, hstays⟩ := ih (call_consistent hconsistent horphan) ⟨hrest, horphans'⟩
      refine ⟨⟨fun key value expiresAt hslot hrewrites => ?_, hkeeps⟩,
        ⟨fun key hreports => ?_, hstays⟩⟩
      · rcases call_keeps hconsistent hstraddle hrewrites with hsame | habsent
        · exact .inl (by rw [hsame, hslot])
        · exact .inr (by rw [habsent]; rfl)
      · exact denies_until_set rest horphans' (call_reports_absent hconsistent hstraddle hreports)

/-- A run in which deadlines last has no straddle. -/
theorem no_straddle_of_keeps (calls : List (Call K V)) {store : InMemoryStore K V}
    (hkeeps : KeepsDeadlines store calls) : NoStraddle store calls := by
  induction calls generalizing store with
  | nil => trivial
  | cons call rest ih =>
      refine ⟨fun hstraddle => ?_, ih hkeeps.2⟩
      obtain ⟨key, value, expiresAt, hrewrites, hbefore, hafter⟩ := call_straddle hstraddle
      rcases hkeeps.1 key value expiresAt hbefore hrewrites with hsame | habsent
      · rw [hafter] at hsame
        cases hsame
      · rw [hafter] at habsent
        cases habsent

/-- A new store has nothing under any key. -/
theorem slot_init (clock : Stream' Reading) (key : K) :
    (init clock : InMemoryStore K V).slot key = Slot.absent := by
  simp [slot, init, Slot.absent]

/-- A key that is not in the store is set for some time. -/
theorem call_set_absent {store : InMemoryStore K V} {key : K} {seconds : Int}
    {deadline : PyFloat} (habsent : store.slot key = Slot.absent) (value : V) (hpos : 0 < seconds)
    (hsum : store.expiration.nowFn.head.time.addInt seconds = .ok deadline) :
    ∃ after, store.call (.op (.key key (.set value (some seconds)))) =
        (.ok (some (.key .done)), after) ∧
      after.cell key = ⟨⟨some value, some deadline⟩, store.expiration.nowFn.tail⟩ ∧
      ∀ other, other ≠ key → after.slot other = store.slot other := by
  have hset : Cell.perform (.set value (some seconds)) (store.cell key) =
      (.ok .done, ⟨⟨some value, some deadline⟩, store.expiration.nowFn.tail⟩) := by
    show Cell.perform _ ⟨store.slot key, store.expiration.nowFn⟩ = _
    have hsign : ¬ seconds ≤ 0 := by omega
    rw [habsent]
    simp [Cell.perform, Cell.set, Cell.persist, Cell.dropDeadline, Cell.setExpire, Cell.now,
      Slot.absent, hsum, hsign]
  obtain ⟨after, hrun, hcell, hframe⟩ := (local_perform key _).run hset
  exact ⟨after, by simp [call, perform, hrun], hcell, hframe⟩

/-- No deadline belongs to a key that was never set. -/
theorem consistent_init (nowFn : Stream' Reading) :
    (init nowFn : InMemoryStore K V).Consistent := by
  intro key _
  rw [slot_init nowFn key]
  rfl

/-- An expiring key becomes permanent exactly by a straddle: in a run without one, whatever the
clock, and without orphans, deadlines last with their values and a key reported absent stays
absent until it is set; and a run in which deadlines last has no straddle. -/
theorem expiring_stays_expiring (clock : Stream' Reading) (calls : List (Call K V)) :
    (Settled (init clock) calls →
      KeepsDeadlines (init clock) calls ∧ StaysAbsent (init clock) calls) ∧
    (KeepsDeadlines (init clock) calls → NoStraddle (init clock) calls) :=
  ⟨settled_run calls (consistent_init clock), no_straddle_of_keeps calls⟩

/-- Over a clock that goes on by a second at each reading, a session of a minute is asked for its
time to live and for its deadline, a snapshot that has two keys is loaded, and the session, which
has its old deadline there, is read. -/
theorem expiring_stays_expiring_session :
    let _ : PyHash String := ⟨fun key => key.length⟩
    let clock : Stream' Reading := fun n => Reading.atSecond (Fin.ofNat _ n)
    let deadline := (Reading.atSecond 60).time
    let data : Dict String String := (Dict.empty.insert "user" "ann").insert "session" "open"
    let calls : List (Call String String) :=
      [.op (.key "session" (.set "open" (some 60))), .op (.key "session" .ttl),
        .op (.key "session" .getExpireAt), .load data (Dict.empty.insert "session" deadline),
        .op (.key "session" .get)]
    KeepsDeadlines (init clock) calls ∧ StaysAbsent (init clock) calls := by
  intro _ clock deadline data calls
  refine (expiring_stays_expiring clock calls).1 ⟨⟨id, ?_⟩, ?_⟩
  · have hsum : clock.head.time.addInt 60 = .ok deadline :=
      Reading.at_second_add 0 60 (by decide)
    obtain ⟨opened, hopened, hset, -⟩ :=
      call_set_absent (slot_init clock "session") "open" (by decide) hsum
    have hcell : opened.cell "session" = ⟨⟨some "open", some deadline⟩, clock.tail⟩ := hset
    rw [hopened]
    -- the readings of the two calls are the seconds 1 and 2, and 3 and 4
    have hfirst : deadline.gt (clock.get 1).time = true := Reading.at_second_gt 60 1
    have hleft : (deadline.sub (clock.get 2).time).toInt = .ok 58 := Reading.at_second_sub 60 2
    have hlast : deadline.gt (clock.get 4).time = true := Reading.at_second_gt 60 4
    have httl : Cell.perform .ttl (opened.cell "session") =
        (.ok (.number 58), ⟨⟨some "open", some deadline⟩, clock.tail.tail.tail⟩) := by
      rw [hcell]
      simp [Cell.perform, Cell.ttl, Cell.evictIfExpired, Cell.isExpired, Cell.inData,
        Cell.secondsLeft, Cell.now, hfirst, hleft]
    obtain ⟨asked, hasked, hcell', -⟩ := (local_perform "session" _).run httl
    refine ⟨?_, ?_, id, id, trivial⟩
    · rintro ⟨value, expiresAt, left, hslot, -, hright, hsign⟩
      rw [hcell] at hslot hright
      cases hslot
      obtain rfl : 58 = left := Except.ok.inj (hleft.symm.trans hright)
      omega
    · have hafter : (opened.call (.op (.key "session" .ttl))).2 = asked := by
        simp [call, perform, hasked]
      rw [hafter]
      rintro ⟨value, expiresAt, hslot, -, hpassed⟩
      rw [hcell'] at hslot hpassed
      cases hslot
      exact absurd (hlast.symm.trans hpassed) (by decide)
  · -- the deadline that is loaded belongs to a value
    have hload : (Call.load data (Dict.empty.insert "session" deadline)).OrphanFree := by
      intro key hnone
      by_cases hkey : key = "session"
      · simp [data, hkey] at hnone
      · simp [hkey]
    simp only [calls, List.forall_mem_cons]
    exact ⟨trivial, trivial, trivial, hload, trivial, fun _ h => by cases h⟩

/-- A clock that moves past a deadline between the two readings of a call. -/
def leapingClock : Stream' Reading :=
  Stream'.cons (Reading.atSecond 0) (Stream'.cons (Reading.atSecond 4)
    (Stream'.const (Reading.atSecond 7)))

/-- A session of five seconds is opened. -/
theorem leaping_session :
    let _ : PyHash String := ⟨fun key => key.length⟩
    ∃ after, (init leapingClock).call (.op (.key "session" (.set "open" (some 5)))) =
        (.ok (some (.key .done)), after) ∧
      after.cell "session" =
        ⟨⟨some "open", some (Reading.atSecond 5).time⟩, leapingClock.tail⟩ ∧
      ∀ other, other ≠ "session" → after.slot other = Slot.absent := by
  intro _
  have hsum : leapingClock.head.time.addInt 5 = .ok (Reading.atSecond 5).time :=
    Reading.at_second_add 0 5 (by decide)
  obtain ⟨after, hrun, hcell, hframe⟩ :=
    call_set_absent (slot_init leapingClock "session") "open" (by decide) hsum
  exact ⟨after, hrun, hcell, fun other hother => (hframe other hother).trans (slot_init _ other)⟩

theorem leaping_clock_le (n : Nat) : leapingClock.get n ≤ leapingClock.get (n + 1) := by
  rcases n with _ | _ | n
  · show Reading.atSecond 0 ≤ Reading.atSecond 4
    exact Reading.at_second_le (by decide)
  · show Reading.atSecond 4 ≤ Reading.atSecond 7
    exact Reading.at_second_le (by decide)
  · exact Reading.le_refl _

/-- A session of five seconds, asked for its time to live over a leap of the clock, stays open. -/
theorem ttl_makes_permanent :
    let _ : PyHash String := ⟨fun key => key.length⟩
    let calls : List (Call String String) :=
      [.op (.key "session" (.set "open" (some 5))), .op (.key "session" .ttl),
        .op (.key "session" .get)]
    (∀ n, leapingClock.get n ≤ leapingClock.get (n + 1)) ∧
      ¬ (KeepsDeadlines (init leapingClock) calls ∧ StaysAbsent (init leapingClock) calls) := by
  intro _ calls
  refine ⟨leaping_clock_le, fun hlaw => ?_⟩
  -- the deadline is at second 5, the two readings are at seconds 4 and 7
  obtain ⟨after, hrun, hcell, -⟩ := leaping_session
  have hstraddle := (no_straddle_of_keeps calls hlaw.1).2.1
  simp only [hrun, Straddles, hcell] at hstraddle
  refine hstraddle ⟨"open", (Reading.atSecond 5).time, -2, rfl, ?_, ?_, by omega⟩
  · exact (Reading.at_second_gt 5 4).trans (by decide)
  · exact Reading.at_second_sub 5 7

end InMemoryStore

end MiniRedis
