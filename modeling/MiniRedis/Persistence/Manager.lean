import MiniRedis.Persistence.Rdb
import MiniRedis.Storage.InMemory

/-!
# The persistence manager

`PersistenceManager` after `persistence/manager.py`. It works on the store and on the files;
what it writes to the log is left out.
-/

namespace MiniRedis

/-- The store and the data directory. -/
structure World (S : Type) [PyHash S] where
  storage : InMemoryStore S S
  disk : Disk

namespace World

variable {S α : Type} [PyHash S]

/-- Run a method of the store. -/
def onStorage (method : Py (InMemoryStore S S) α) : Py (World S) α :=
  Py.zoom storage (fun world storage => { world with storage }) method

/-- Run a file operation. -/
def onDisk (method : Py Disk α) : Py (World S) α :=
  Py.zoom disk (fun world disk => { world with disk }) method

/-- The log is removed if there is one. -/
theorem reset_run (world : World S) :
    onDisk AofPersistence.reset world =
      if world.disk.files.aof.isSome then onDisk (Disk.perform .unlinkAof) world
      else (.ok (), world) := by
  simp only [onDisk, AofPersistence.reset, Py.zoom_apply, Py.bind_apply, Py.get_apply]
  split <;> rfl

end World

/-- A manager: what it knows of JSON. -/
structure PersistenceManager (S : Type) where
  codec : JsonCodec S

namespace PersistenceManager

open World

variable {S : Type} [PyStr S] [PyHash S] [DecidableEq S]

/-- What `restore` reads from the files. -/
def recover (manager : PersistenceManager S) (files : Files) : Except PyError (ReplayState S) := do
  let snapshot ← RdbPersistence.load manager.codec files.rdb
  AofPersistence.replay manager.codec snapshot files.aof

/-- `restore`. -/
def restore (manager : PersistenceManager S) : Py (World S) Unit := do
  let world ← Py.get
  let state ← Py.ofExcept (manager.recover world.disk.files)
  onStorage (InMemoryStore.load state.data state.expiresAt)

/-- `snapshot`. -/
def snapshot (manager : PersistenceManager S) : Py (World S) Unit := do
  let (data, expiresAt) ← onStorage InMemoryStore.snapshot
  onDisk (RdbPersistence.save manager.codec data expiresAt)
  onDisk AofPersistence.reset

/-- `record_write`. An `EXPIRE` is recorded with the deadline instead of the seconds. -/
def recordWrite (manager : PersistenceManager S) (command : String) (args : List S) :
    Py (World S) Unit :=
  let normalized := PyText.upper command
  if normalized = "SET" then onDisk (AofPersistence.append manager.codec "SET" args)
  else if normalized = "DEL" then onDisk (AofPersistence.append manager.codec "DEL" args)
  else if normalized = "EXPIRE" then
    match args with
    | [] => Py.raise .indexError
    | key :: _ => do
        match ← onStorage (InMemoryStore.getExpireAt key) with
        | none => return
        | some expiresAt =>
            onDisk (AofPersistence.append manager.codec "EXPIRE"
              [key, manager.codec.floatText expiresAt])
  else Py.raise (.valueError s!"unsupported persistence command: {command}")

variable (manager : PersistenceManager S)

theorem record_write_set (args : List S) :
    manager.recordWrite "SET" args = onDisk (AofPersistence.append manager.codec "SET" args) := by
  have hname := AofPersistence.upper_of_mem AofPersistence.set_mem
  unfold recordWrite
  simp only [hname, if_true]

theorem record_write_del (args : List S) :
    manager.recordWrite "DEL" args = onDisk (AofPersistence.append manager.codec "DEL" args) := by
  have hname := AofPersistence.upper_of_mem AofPersistence.del_mem
  have hset : "DEL" ≠ "SET" := by decide
  unfold recordWrite
  simp only [hname, hset, if_true, if_false]

/-- An `EXPIRE` of a key is recorded with the deadline that the key has, if it has one. -/
theorem record_write_expire (key : S) (rest : List S) :
    manager.recordWrite "EXPIRE" (key :: rest) =
      onStorage (InMemoryStore.getExpireAt key) >>= fun found => found.elim (pure ())
        fun expiresAt => onDisk (AofPersistence.append manager.codec "EXPIRE"
          [key, manager.codec.floatText expiresAt]) := by
  have hname := AofPersistence.upper_of_mem AofPersistence.expire_mem
  have hset : "EXPIRE" ≠ "SET" := by decide
  have hdel : "EXPIRE" ≠ "DEL" := by decide
  unfold recordWrite
  simp only [hname, hset, hdel, if_true, if_false]
  refine congrArg _ (funext fun found => ?_)
  cases found <;> rfl

end PersistenceManager

end MiniRedis
