import MiniRedis.HashTable.Table
import MiniRedis.Storage.Expiration

/-!
# The store

`InMemoryStore` after `storage/in_memory.py`: the values in a hash table and the deadlines
in an `ExpirationManager`. Values expire lazily: a passed deadline takes effect when an
operation finds it.
-/

namespace MiniRedis

/-- `InMemoryStore._data` and `InMemoryStore._expiration`. -/
structure InMemoryStore (K V : Type) [PyHash K] where
  data : Table K V
  expiration : ExpirationManager K

namespace InMemoryStore

variable {K V α : Type} [PyHash K]

/-- Run a method of `_expiration`. -/
def onExpiration (method : Py (ExpirationManager K) α) : Py (InMemoryStore K V) α :=
  Py.zoom expiration (fun store expiration => { store with expiration }) method

/-- `list(_data.keys())`. -/
def keyList : Py (InMemoryStore K V) (List K) := do
  let store ← Py.get
  return store.data.keys

variable [DecidableEq K]

/-- `_data[key] = value`. -/
def assignData (key : K) (value : V) : Py (InMemoryStore K V) Unit :=
  Py.modify fun store => { store with data := store.data.set key value }

/-- `key in _data`. -/
def inData (key : K) : Py (InMemoryStore K V) Bool := do
  let store ← Py.get
  return store.data.contains key

/-- `_data.get(key)`. -/
def getData (key : K) : Py (InMemoryStore K V) (Option V) := do
  let store ← Py.get
  return store.data.get key

/-- `_data.pop(key, None)`: raises `KeyError` for an absent key. -/
def popData (key : K) : Py (InMemoryStore K V) Unit := fun store =>
  match store.data.pop key none with
  | .ok (_, data) => (.ok (), { store with data })
  | .error error => (.error error, store)

/-- `del _data[key]`. -/
def delData (key : K) : Py (InMemoryStore K V) Unit := fun store =>
  match store.data.delItem key with
  | .ok data => (.ok (), { store with data })
  | .error error => (.error error, store)

/-- `_evict_if_expired`. -/
def evictIfExpired (key : K) : Py (InMemoryStore K V) Bool := do
  if !(← onExpiration (ExpirationManager.isExpired key)) then
    return false
  popData key
  return true

/-- `set`. -/
def set (key : K) (value : V) (ex : Option Int) : Py (InMemoryStore K V) Unit := do
  assignData key value
  let _ ← onExpiration (ExpirationManager.persist key)
  match ex with
  | none => return
  | some ex =>
      if ex ≤ 0 then
        popData key
        onExpiration (ExpirationManager.delete key)
      else
        let _ ← onExpiration (ExpirationManager.setExpire key ex)

/-- `get`. -/
def get (key : K) : Py (InMemoryStore K V) (Option V) := do
  let _ ← evictIfExpired key
  getData key

/-- `delete`. -/
def delete (key : K) : Py (InMemoryStore K V) Int := do
  let _ ← evictIfExpired key
  if !(← inData key) then
    onExpiration (ExpirationManager.delete key)
    return 0
  delData key
  onExpiration (ExpirationManager.delete key)
  return 1

/-- `exists`. -/
def «exists» (key : K) : Py (InMemoryStore K V) Int := do
  let _ ← evictIfExpired key
  return if ← inData key then 1 else 0

/-- `expire`. -/
def expire (key : K) (seconds : Int) : Py (InMemoryStore K V) Int := do
  let _ ← evictIfExpired key
  if !(← inData key) then
    return 0
  return if ← onExpiration (ExpirationManager.setExpire key seconds) then 1 else 0

/-- `ttl`. -/
def ttl (key : K) : Py (InMemoryStore K V) Int := do
  if ← evictIfExpired key then
    return -2
  let keyExists ← inData key
  onExpiration (ExpirationManager.ttl key keyExists)

/-- `invalidate`. -/
def invalidate (key : K) : Py (InMemoryStore K V) Int := delete key

/-- The loop of `snapshot` and `load`: evict every key of `_data` that has expired. -/
def evictAll : Py (InMemoryStore K V) Unit := do
  let keys ← keyList
  Py.forEach keys fun key => do
    let _ ← evictIfExpired key

/-- `snapshot`. -/
def snapshot : Py (InMemoryStore K V) (Dict K V × Dict K PyFloat) := do
  evictAll
  let store ← Py.get
  let expiresAt ← onExpiration ExpirationManager.snapshot
  return (Dict.ofList store.data.items, expiresAt)

/-- `load`. The keys and values are strings already, so `str` changes neither. -/
def load (data : Dict K V) (expiresAt : Dict K PyFloat) : Py (InMemoryStore K V) Unit := do
  Py.modify fun store => { store with data := store.data.clear }
  Py.modify fun store => { store with data := store.data.update data.entries }
  onExpiration (ExpirationManager.load expiresAt)
  evictAll

/-- `get_expire_at`. -/
def getExpireAt (key : K) : Py (InMemoryStore K V) (Option PyFloat) := do
  let _ ← evictIfExpired key
  onExpiration (ExpirationManager.getExpireAt key)

end InMemoryStore

end MiniRedis
