import Mathlib.Data.Stream.Init
import MiniRedis.Foundation.Assoc
import MiniRedis.Foundation.PyFloat

/-!
# The expiration manager

`ExpirationManager` after `storage/expiration.py`: a dictionary of absolute deadlines and
the clock. The clock is the stream of the results of the coming calls of `now_fn`, so two
readings inside one operation may differ.
-/

namespace MiniRedis

/-- `ExpirationManager._expires_at` and the coming results of `_now_fn()`. -/
structure ExpirationManager (K : Type) where
  expiresAt : Dict K PyFloat
  nowFn : Stream' Reading

namespace ExpirationManager

variable {K : Type}

/-- `_now_fn()`. -/
def now : Py (ExpirationManager K) PyFloat := fun manager =>
  (.ok manager.nowFn.head.time, { manager with nowFn := manager.nowFn.tail })

/-- `snapshot`. -/
def snapshot : Py (ExpirationManager K) (Dict K PyFloat) := do
  let now ← now
  let manager ← Py.get
  return manager.expiresAt.filter (fun _ expiresAt => expiresAt.gt now)

/-- `load`. The keys are strings and the values floats already, so the conversions of the
source change neither. -/
def load (expiresAt : Dict K PyFloat) : Py (ExpirationManager K) Unit := do
  let now ← now
  Py.modify fun manager =>
    { manager with expiresAt := expiresAt.filter (fun _ value => value.gt now) }

variable [DecidableEq K]

/-- `_expires_at.get(key)`. -/
def deadline (key : K) : Py (ExpirationManager K) (Option PyFloat) := do
  let manager ← Py.get
  return manager.expiresAt.get? key

/-- `delete`: `_expires_at.pop(key, None)`. -/
def delete (key : K) : Py (ExpirationManager K) Unit :=
  Py.modify fun manager => { manager with expiresAt := manager.expiresAt.erase key }

/-- `persist`. -/
def persist (key : K) : Py (ExpirationManager K) Bool := do
  let expiresAt ← deadline key
  delete key
  return expiresAt.isSome

/-- `set_expire`. The sum is computed before it is stored and may overflow. -/
def setExpire (key : K) (ttlSeconds : Int) : Py (ExpirationManager K) Bool := do
  if ttlSeconds ≤ 0 then
    return false
  let now ← now
  let expiresAt ← Py.ofExcept (now.addInt ttlSeconds)
  Py.modify fun manager => { manager with expiresAt := manager.expiresAt.insert key expiresAt }
  return true

/-- `is_expired`, which drops a deadline that has passed. -/
def isExpired (key : K) : Py (ExpirationManager K) Bool := do
  match ← deadline key with
  | none => return false
  | some expiresAt =>
      let now ← now
      if expiresAt.gt now then
        return false
      delete key
      return true

/-- `ttl`, which reads the clock again and drops a deadline that has passed since. -/
def ttl (key : K) (keyExists : Bool) : Py (ExpirationManager K) Int := do
  if !keyExists then
    return -2
  match ← deadline key with
  | none => return -1
  | some expiresAt =>
      let now ← now
      let remaining ← Py.ofExcept (expiresAt.sub now).toInt
      if 0 ≤ remaining then
        return remaining
      delete key
      return -2

/-- `get_expire_at`. -/
def getExpireAt (key : K) : Py (ExpirationManager K) (Option PyFloat) := do
  if ← isExpired key then
    return none
  deadline key

end ExpirationManager

end MiniRedis
