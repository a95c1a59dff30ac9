import MiniRedis.Storage.Operations

/-!
# The part of the store under one key

Every method of the store that takes a key reads and changes what the store keeps under
that key, and the clock, and nothing else. `Slot` is that part, `Cell` adds the clock, and
`Local` says of a computation of the store that it does on the cell of one key what a
computation of cells does, and leaves the slot of every other key alone. `local_perform`
collects the methods, so that what follows about the store is proved on cells.
-/

namespace MiniRedis

/-- What the store keeps under one key: a value and a deadline. -/
structure Slot (V : Type) where
  value : Option V
  deadline : Option PyFloat
deriving DecidableEq

/-- A slot and the clock. -/
structure Cell (V : Type) extends Slot V where
  nowFn : Stream' Reading

namespace Slot

variable {V : Type}

/-- The slot of a key that is not in the store. -/
def absent : Slot V := ⟨none, none⟩

/-- A deadline belongs to a value. -/
def Consistent (slot : Slot V) : Prop := slot.value = none → slot.deadline = none

end Slot

namespace Cell

variable {V : Type}

/-- `_now_fn()` on a cell. -/
def now : Py (Cell V) PyFloat := fun cell =>
  (.ok cell.nowFn.head.time, { cell with nowFn := cell.nowFn.tail })

/-- `_expires_at.pop(key, None)` on a cell. -/
def dropDeadline : Py (Cell V) Unit := Py.modify fun cell => { cell with deadline := none }

/-- `persist` on a cell. -/
def persist : Py (Cell V) Bool := do
  let cell ← Py.get
  dropDeadline
  return cell.deadline.isSome

/-- `_data.pop(key, None)` and `del _data[key]` on a cell: both raise without a value. -/
def dropValue : Py (Cell V) Unit := do
  match (← Py.get).value with
  | some _ => Py.modify fun cell => { cell with value := none }
  | none => Py.raise .keyError

/-- `is_expired` on a cell. -/
def isExpired : Py (Cell V) Bool := do
  match (← Py.get).deadline with
  | none => return false
  | some expiresAt =>
      let now ← now
      if expiresAt.gt now then
        return false
      dropDeadline
      return true

/-- `set_expire` on a cell. -/
def setExpire (ttlSeconds : Int) : Py (Cell V) Bool := do
  if ttlSeconds ≤ 0 then
    return false
  let now ← now
  let expiresAt ← Py.ofExcept (now.addInt ttlSeconds)
  Py.modify fun cell => { cell with deadline := some expiresAt }
  return true

/-- `ttl` of the expiration manager on a cell. -/
def secondsLeft (keyExists : Bool) : Py (Cell V) Int := do
  if !keyExists then
    return -2
  match (← Py.get).deadline with
  | none => return -1
  | some expiresAt =>
      let now ← now
      let remaining ← Py.ofExcept (expiresAt.sub now).toInt
      if 0 ≤ remaining then
        return remaining
      dropDeadline
      return -2

/-- `_evict_if_expired` on a cell. -/
def evictIfExpired : Py (Cell V) Bool := do
  if !(← isExpired) then
    return false
  dropValue
  return true

/-- `key in _data` on a cell. -/
def inData : Py (Cell V) Bool := do
  return (← Py.get).value.isSome

/-- `set` on a cell. -/
def set (value : V) (ex : Option Int) : Py (Cell V) Unit := do
  Py.modify fun cell => { cell with value := some value }
  let _ ← persist
  match ex with
  | none => return
  | some ex =>
      if ex ≤ 0 then
        dropValue
        dropDeadline
      else
        let _ ← setExpire ex

/-- `get` on a cell. -/
def get : Py (Cell V) (Option V) := do
  let _ ← evictIfExpired
  return (← Py.get).value

/-- `delete` on a cell. -/
def delete : Py (Cell V) Int := do
  let _ ← evictIfExpired
  if !(← inData) then
    dropDeadline
    return 0
  dropValue
  dropDeadline
  return 1

/-- `exists` on a cell. -/
def «exists» : Py (Cell V) Int := do
  let _ ← evictIfExpired
  return if ← inData then 1 else 0

/-- `expire` on a cell. -/
def expire (seconds : Int) : Py (Cell V) Int := do
  let _ ← evictIfExpired
  if !(← inData) then
    return 0
  return if ← setExpire seconds then 1 else 0

/-- `ttl` on a cell. -/
def ttl : Py (Cell V) Int := do
  if ← evictIfExpired then
    return -2
  let keyExists ← inData
  secondsLeft keyExists

/-- `get_expire_at` of the expiration manager on a cell. -/
def currentDeadline : Py (Cell V) (Option PyFloat) := do
  if ← isExpired then
    return none
  return (← Py.get).deadline

/-- `get_expire_at` on a cell. -/
def getExpireAt : Py (Cell V) (Option PyFloat) := do
  let _ ← evictIfExpired
  currentDeadline

end Cell

namespace InMemoryStore

variable {K V α β : Type} [PyHash K] [DecidableEq K]

/-- What the store keeps under a key. -/
def slot (store : InMemoryStore K V) (key : K) : Slot V :=
  ⟨store.data.lookup key, store.expiration.expiresAt.get? key⟩

/-- What the store keeps under a key, and its clock. -/
def cell (store : InMemoryStore K V) (key : K) : Cell V :=
  ⟨store.slot key, store.expiration.nowFn⟩

/-- A computation that acts on one key: it does what `view` does on the cell of the key, and
leaves what the store keeps under every other key. -/
def Local (key : K) (action : Py (InMemoryStore K V) α) (view : Py (Cell V) α) : Prop :=
  ∀ store, view (store.cell key) = ((action store).1, (action store).2.cell key) ∧
    ∀ other, other ≠ key → (action store).2.slot other = store.slot other

namespace Local

variable {key : K}

/-- Returning a value acts on no key. -/
theorem pure (a : α) : Local key (V := V) (Pure.pure a) (Pure.pure a) :=
  fun _ => ⟨rfl, fun _ _ => rfl⟩

/-- A sequence of computations that act on a key acts on that key. -/
theorem bind {action : Py (InMemoryStore K V) α} {view : Py (Cell V) α}
    {next : α → Py (InMemoryStore K V) β} {nextView : α → Py (Cell V) β}
    (h : Local key action view) (hnext : ∀ a, Local key (next a) (nextView a)) :
    Local key (action >>= next) (view >>= nextView) := by
  intro store
  obtain ⟨hview, hframe⟩ := h store
  simp only [Py.bind_apply, hview]
  generalize action store = run at hframe
  obtain ⟨result, after⟩ := run
  -- both sides go on or stop together, as they agree on the first result
  cases result with
  | error error => exact ⟨rfl, hframe⟩
  | ok a =>
      obtain ⟨hview', hframe'⟩ := hnext a after
      exact ⟨hview', fun other hother => (hframe' other hother).trans (hframe other hother)⟩

/-- What a computation of cells does, the computation of the store does. -/
theorem run {action : Py (InMemoryStore K V) α} {view : Py (Cell V) α} (h : Local key action view)
    {store : InMemoryStore K V} {result : Except PyError α} {cell : Cell V}
    (hview : view (store.cell key) = (result, cell)) :
    ∃ after, action store = (result, after) ∧ after.cell key = cell ∧
      ∀ other, other ≠ key → after.slot other = store.slot other := by
  obtain ⟨hrun, hframe⟩ := h store
  rw [hview, Prod.mk.injEq] at hrun
  exact ⟨(action store).2, by rw [hrun.1], hrun.2.symm, hframe⟩

/-- Two branches on one condition. -/
theorem ite {condition : Prop} [Decidable condition] {first second : Py (InMemoryStore K V) α}
    {view view' : Py (Cell V) α} (h : Local key first view) (h' : Local key second view') :
    Local key (if condition then first else second) (if condition then view else view') := by
  split
  · exact h
  · exact h'

end Local

variable {key : K}

theorem local_assign_data (value : V) :
    Local key (assignData key value) (Py.modify fun cell => { cell with value := some value }) := by
  intro store
  refine ⟨?_, fun other hother => ?_⟩
  · simp [assignData, cell, slot]
  · simp [assignData, slot, hother]

theorem local_in_data : Local key (V := V) (inData key) Cell.inData := by
  intro store
  simp [inData, Cell.inData, cell, slot]

theorem local_get_data :
    Local key (V := V) (getData key) (do return (← Py.get).value) := by
  intro store
  simp [getData, cell, slot]

theorem local_pop_data : Local key (V := V) (popData key) Cell.dropValue := by
  intro store
  cases hfound : store.data.lookup key with
  | none => simp [popData, Table.pop_absent hfound, Cell.dropValue, cell, slot, hfound]
  | some value =>
      obtain ⟨after, hpop, hafter⟩ := Table.pop_present hfound none
      refine ⟨?_, fun other hother => ?_⟩
      · simp [popData, hpop, Cell.dropValue, cell, slot, hfound, hafter]
      · simp [popData, hpop, slot, hafter, hother]

theorem local_del_data : Local key (V := V) (delData key) Cell.dropValue := by
  intro store
  cases hfound : store.data.lookup key with
  | none => simp [delData, Table.del_item_absent hfound, Cell.dropValue, cell, slot, hfound]
  | some value =>
      obtain ⟨after, hdel, hafter⟩ := Table.del_item_present hfound
      refine ⟨?_, fun other hother => ?_⟩
      · simp [delData, hdel, Cell.dropValue, cell, slot, hfound, hafter]
      · simp [delData, hdel, slot, hafter, hother]

theorem local_delete_deadline :
    Local key (V := V) (onExpiration (ExpirationManager.delete key)) Cell.dropDeadline := by
  intro store
  refine ⟨?_, fun other hother => ?_⟩
  · simp [onExpiration, ExpirationManager.delete, Cell.dropDeadline, cell, slot]
  · simp [onExpiration, ExpirationManager.delete, slot, hother]

theorem local_persist :
    Local key (V := V) (onExpiration (ExpirationManager.persist key)) Cell.persist := by
  intro store
  refine ⟨?_, fun other hother => ?_⟩
  · simp [onExpiration, ExpirationManager.persist, ExpirationManager.delete,
      ExpirationManager.deadline, Cell.persist, Cell.dropDeadline, cell, slot]
  · simp [onExpiration, ExpirationManager.persist, ExpirationManager.delete,
      ExpirationManager.deadline, slot, hother]

theorem local_is_expired :
    Local key (V := V) (onExpiration (ExpirationManager.isExpired key)) Cell.isExpired := by
  intro store
  cases hfound : store.expiration.expiresAt.get? key with
  | none =>
      simp [onExpiration, ExpirationManager.isExpired, ExpirationManager.deadline, Cell.isExpired,
        cell, slot, hfound]
  | some expiresAt =>
      by_cases hgt : expiresAt.gt store.expiration.nowFn.head.time
      · simp [onExpiration, ExpirationManager.isExpired, ExpirationManager.deadline,
          ExpirationManager.now, Cell.isExpired, Cell.now, cell, slot, hfound, hgt]
      · refine ⟨?_, fun other hother => ?_⟩
        · simp [onExpiration, ExpirationManager.isExpired, ExpirationManager.deadline,
            ExpirationManager.now, ExpirationManager.delete, Cell.isExpired, Cell.now,
            Cell.dropDeadline, cell, slot, hfound, hgt]
        · simp [onExpiration, ExpirationManager.isExpired, ExpirationManager.deadline,
            ExpirationManager.now, ExpirationManager.delete, slot, hfound, hgt, hother]

theorem local_set_expire (ttlSeconds : Int) :
    Local key (V := V) (onExpiration (ExpirationManager.setExpire key ttlSeconds))
      (Cell.setExpire ttlSeconds) := by
  intro store
  by_cases hsign : ttlSeconds ≤ 0
  · simp [onExpiration, ExpirationManager.setExpire, Cell.setExpire, hsign, cell, slot]
  · cases hsum : store.expiration.nowFn.head.time.addInt ttlSeconds with
    | error error =>
        simp [onExpiration, ExpirationManager.setExpire, ExpirationManager.now, Cell.setExpire,
          Cell.now, hsign, hsum, cell, slot]
    | ok expiresAt =>
        refine ⟨?_, fun other hother => ?_⟩
        · simp [onExpiration, ExpirationManager.setExpire, ExpirationManager.now, Cell.setExpire,
            Cell.now, hsign, hsum, cell, slot]
        · simp [onExpiration, ExpirationManager.setExpire, ExpirationManager.now, hsign, hsum,
            slot, hother]

theorem local_ttl (keyExists : Bool) :
    Local key (V := V) (onExpiration (ExpirationManager.ttl key keyExists))
      (Cell.secondsLeft keyExists) := by
  intro store
  cases keyExists with
  | false => simp [onExpiration, ExpirationManager.ttl, Cell.secondsLeft, cell, slot]
  | true =>
      cases hfound : store.expiration.expiresAt.get? key with
      | none =>
          simp [onExpiration, ExpirationManager.ttl, ExpirationManager.deadline,
            Cell.secondsLeft, cell, slot, hfound]
      | some expiresAt =>
          cases hleft : (expiresAt.sub store.expiration.nowFn.head.time).toInt with
          | error error =>
              simp [onExpiration, ExpirationManager.ttl, ExpirationManager.deadline,
                ExpirationManager.now, Cell.secondsLeft, Cell.now, cell, slot, hfound, hleft]
          | ok remaining =>
              by_cases hsign : 0 ≤ remaining
              · simp [onExpiration, ExpirationManager.ttl, ExpirationManager.deadline,
                  ExpirationManager.now, Cell.secondsLeft, Cell.now, cell, slot, hfound, hleft,
                  hsign]
              · refine ⟨?_, fun other hother => ?_⟩
                · simp [onExpiration, ExpirationManager.ttl, ExpirationManager.deadline,
                    ExpirationManager.now, ExpirationManager.delete, Cell.secondsLeft, Cell.now,
                    Cell.dropDeadline, cell, slot, hfound, hleft, hsign]
                · simp [onExpiration, ExpirationManager.ttl, ExpirationManager.deadline,
                    ExpirationManager.now, ExpirationManager.delete, slot, hfound, hleft, hsign,
                    hother]

theorem local_evict : Local key (V := V) (evictIfExpired key) Cell.evictIfExpired := by
  refine Local.bind local_is_expired fun expired => ?_
  refine Local.ite (Local.pure false) ?_
  exact Local.bind local_pop_data fun _ => Local.pure true

theorem local_set (value : V) (ex : Option Int) :
    Local key (set key value ex) (Cell.set value ex) := by
  refine Local.bind (local_assign_data value) fun _ => ?_
  refine Local.bind local_persist fun _ => ?_
  cases ex with
  | none => exact Local.pure ()
  | some ex =>
      refine Local.ite ?_ ?_
      · exact Local.bind local_pop_data fun _ => local_delete_deadline
      · exact Local.bind (local_set_expire ex) fun _ => Local.pure ()

theorem local_get : Local key (V := V) (get key) Cell.get :=
  Local.bind local_evict fun _ => local_get_data

theorem local_delete : Local key (V := V) (delete key) Cell.delete := by
  refine Local.bind local_evict fun _ => Local.bind local_in_data fun present => ?_
  refine Local.ite ?_ ?_
  · exact Local.bind local_delete_deadline fun _ => Local.pure 0
  · exact Local.bind local_del_data fun _ =>
      Local.bind local_delete_deadline fun _ => Local.pure 1

theorem local_exists : Local key (V := V) («exists» key) Cell.exists :=
  Local.bind local_evict fun _ => Local.bind local_in_data fun _ => Local.pure _

theorem local_expire (seconds : Int) :
    Local key (V := V) (expire key seconds) (Cell.expire seconds) := by
  refine Local.bind local_evict fun _ => Local.bind local_in_data fun present => ?_
  refine Local.ite (Local.pure 0) ?_
  exact Local.bind (local_set_expire seconds) fun _ => Local.pure _

theorem local_store_ttl : Local key (V := V) (ttl key) Cell.ttl := by
  refine Local.bind local_evict fun expired => ?_
  refine Local.ite (Local.pure (-2)) ?_
  exact Local.bind local_in_data fun present => local_ttl present

omit [DecidableEq K] in
/-- A sequence of methods of `_expiration` runs them one after the other. -/
theorem on_expiration_bind (first : Py (ExpirationManager K) α)
    (next : α → Py (ExpirationManager K) β) :
    onExpiration (V := V) (first >>= next) =
      (onExpiration first >>= fun a => onExpiration (next a)) := by
  funext store
  simp only [onExpiration, Py.zoom_apply, Py.bind_apply]
  split <;> simp_all

theorem local_current_deadline :
    Local key (V := V) (onExpiration (ExpirationManager.getExpireAt key)) Cell.currentDeadline := by
  rw [ExpirationManager.getExpireAt, on_expiration_bind]
  refine Local.bind local_is_expired fun expired => ?_
  cases expired with
  | true => exact Local.pure none
  | false =>
      intro store
      simp [onExpiration, ExpirationManager.deadline, cell, slot]

theorem local_get_expire_at : Local key (V := V) (getExpireAt key) Cell.getExpireAt :=
  Local.bind local_evict fun _ => local_current_deadline

end InMemoryStore

/-- Call a method on a cell. -/
def Cell.perform {V : Type} : KeyOp V → Py (Cell V) (KeyReply V)
  | .set value ex => do
      set value ex
      return .done
  | .get => return .value (← get)
  | .delete => return .number (← delete)
  | .exists => return .number (← «exists»)
  | .expire seconds => return .number (← expire seconds)
  | .ttl => return .number (← ttl)
  | .invalidate => return .number (← delete)
  | .getExpireAt => return .time (← getExpireAt)

section Raises

variable {V : Type} {P : PyError → Prop} (hkey : P .keyError)
  (hoverflow : ∀ message, P (.overflowError message))
  (hnan : P (.valueError "cannot convert float NaN to integer"))

namespace Cell

open Py

theorem raises_now : RaisesOnly P (now : Py (Cell V) PyFloat) := by
  intro cell error h
  cases h

theorem raises_is_expired : RaisesOnly P (isExpired : Py (Cell V) Bool) := by
  refine .bind .get fun cell => ?_
  cases cell.deadline with
  | none => exact .pure false
  | some expiresAt =>
      refine .bind raises_now fun now => .ite (.pure false) ?_
      exact .bind (.modify _) fun _ => .pure true

theorem raises_in_data : RaisesOnly P (inData : Py (Cell V) Bool) :=
  .bind .get fun _ => .pure _

include hoverflow in
theorem raises_set_expire (seconds : Int) :
    RaisesOnly P (setExpire seconds : Py (Cell V) Bool) := by
  refine .ite (.pure false) (.bind raises_now fun now => ?_)
  refine .bind (.ofExcept ?_) fun expiresAt => .bind (.modify _) fun _ => .pure true
  intro error herror
  rw [PyFloat.addInt, PyFloat.ofInt] at herror
  split at herror
  · cases herror
  · cases herror
    exact hoverflow _

include hkey

theorem raises_drop_value : RaisesOnly P (dropValue : Py (Cell V) Unit) := by
  refine .bind .get fun cell => ?_
  cases cell.value with
  | none => exact .raise hkey
  | some value => exact .modify _

theorem raises_evict : RaisesOnly P (evictIfExpired : Py (Cell V) Bool) := by
  refine .bind raises_is_expired fun expired => .ite (.pure false) ?_
  exact .bind (raises_drop_value hkey) fun _ => .pure true

theorem raises_get : RaisesOnly P (get : Py (Cell V) (Option V)) :=
  .bind (raises_evict hkey) fun _ => .bind .get fun _ => .pure _

theorem raises_delete : RaisesOnly P (delete : Py (Cell V) Int) := by
  refine .bind (raises_evict hkey) fun _ => .bind raises_in_data fun present => ?_
  refine .ite (.bind (.modify _) fun _ => .pure 0) ?_
  exact .bind (raises_drop_value hkey) fun _ => .bind (.modify _) fun _ => .pure 1

theorem raises_exists : RaisesOnly P («exists» : Py (Cell V) Int) :=
  .bind (raises_evict hkey) fun _ => .bind raises_in_data fun _ => .pure _

include hoverflow

theorem raises_set (value : V) (ex : Option Int) : RaisesOnly P (set value ex) := by
  refine .bind (.modify _) fun _ => ?_
  refine .bind (.bind .get fun _ => .bind (.modify _) fun _ => .pure _) fun _ => ?_
  cases ex with
  | none => exact .pure ()
  | some ex =>
      refine .ite (.bind (raises_drop_value hkey) fun _ => .modify _) ?_
      exact .bind (raises_set_expire hoverflow ex) fun _ => .pure ()

theorem raises_expire (seconds : Int) : RaisesOnly P (expire seconds : Py (Cell V) Int) := by
  refine .bind (raises_evict hkey) fun _ => .bind raises_in_data fun present => ?_
  refine .ite (.pure 0) ?_
  exact .bind (raises_set_expire hoverflow seconds) fun _ => .pure _

include hnan

theorem raises_ttl : RaisesOnly P (ttl : Py (Cell V) Int) := by
  refine .bind (raises_evict hkey) fun expired => .ite (.pure (-2)) ?_
  refine .bind raises_in_data fun present => .ite (.pure (-2)) ?_
  refine .bind .get fun cell => ?_
  cases cell.deadline with
  | none => exact .pure (-1)
  | some expiresAt =>
      refine .bind raises_now fun now => .bind (.ofExcept ?_) fun remaining => ?_
      · intro error herror
        cases hleft : expiresAt.sub now with
        | nan =>
            rw [hleft] at herror
            cases herror
            exact hnan
        | infinity negative =>
            rw [hleft] at herror
            cases herror
            exact hoverflow _
        | finite units isDouble =>
            rw [hleft] at herror
            cases herror
      · exact .ite (.pure remaining) (.bind (.modify _) fun _ => .pure (-2))

end Cell

end Raises

namespace InMemoryStore

variable {K V α : Type} [PyHash K] [DecidableEq K]

/-- A computation that acts on a key raises what the one on the cell raises. -/
theorem Local.raises {key : K} {action : Py (InMemoryStore K V) α} {view : Py (Cell V) α}
    (h : Local key action view) {P : PyError → Prop} (hview : Py.RaisesOnly P view) :
    Py.RaisesOnly P action := by
  intro store error herror
  refine hview (store.cell key) error ?_
  rw [(h store).1]
  exact herror

/-- Every method that takes a key acts on that key. -/
theorem local_perform (key : K) (op : KeyOp V) :
    Local key (performKey key op) (Cell.perform op) := by
  cases op with
  | set value ex => exact Local.bind (local_set value ex) fun _ => Local.pure _
  | get => exact Local.bind local_get fun _ => Local.pure _
  | delete => exact Local.bind local_delete fun _ => Local.pure _
  | «exists» => exact Local.bind local_exists fun _ => Local.pure _
  | expire seconds => exact Local.bind (local_expire seconds) fun _ => Local.pure _
  | ttl => exact Local.bind local_store_ttl fun _ => Local.pure _
  | invalidate => exact Local.bind local_delete fun _ => Local.pure _
  | getExpireAt => exact Local.bind local_get_expire_at fun _ => Local.pure _

end InMemoryStore

end MiniRedis
