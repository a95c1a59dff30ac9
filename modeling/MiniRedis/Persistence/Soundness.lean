import MiniRedis.Persistence.Manager
import MiniRedis.Storage.Soundness

/-!
# Sound states of a running server

In a sound state every slot is sound, every value is printable and no file operation
fails. The methods of the store and of the persistence manager keep a state sound.
-/

namespace MiniRedis

/-- A text whose length has a decimal text, as every part of a request. -/
def Printable (text : String) : Prop :=
  ∃ length, PyText.intText (Bytes.ofText text).length = .ok length

variable [PyHash String]

/-- A running server: every slot is sound, the values are printable, and the files can be written.
-/
structure World.Sound (world : World String) : Prop where
  slots : ∀ key, (world.storage.slot key).Sound Printable
  faults : world.disk.faults = Stream'.const false

namespace World

open Py

/-- A method of the store on one key keeps the state sound if it keeps the slot of the key sound. -/
theorem triple_storage {α : Type} {key : String} {method : Py (InMemoryStore String String) α}
    {view : Py (Cell String) α} (h : InMemoryStore.Local key method view)
    {R : Cell String → Prop} {Q : α → Prop} {E : PyError → Prop}
    (hview : Triple R view (fun a cell => cell.toSlot.Sound Printable ∧ Q a)
      fun error cell => cell.toSlot.Sound Printable ∧ E error) :
    Triple (fun world => world.Sound ∧ R (world.storage.cell key)) (onStorage method)
      (fun a world => world.Sound ∧ Q a) fun error world => world.Sound ∧ E error := by
  intro world hworld
  obtain ⟨hsound, hR⟩ := hworld
  obtain ⟨hrun, hframe⟩ := h world.storage
  have hpost := hview (world.storage.cell key) hR
  rw [hrun] at hpost
  -- the slots of the other keys are what they were
  have hslots : ∀ after : InMemoryStore String String,
      (∀ other, other ≠ key → after.slot other = world.storage.slot other) →
      (after.slot key).Sound Printable → ∀ other, (after.slot other).Sound Printable := by
    intro after hother hkey other
    by_cases hsame : other = key
    · exact hsame ▸ hkey
    · exact hother other hsame ▸ hsound.slots other
  simp only [onStorage, zoom_apply]
  generalize method world.storage = run at hframe hpost ⊢
  obtain ⟨result, after⟩ := run
  cases result with
  | ok a => exact ⟨⟨hslots after hframe hpost.1, hsound.faults⟩, hpost.2⟩
  | error error => exact ⟨⟨hslots after hframe hpost.1, hsound.faults⟩, hpost.2⟩

/-- A method that raises on no sound slot. -/
theorem triple_storage_sound {α : Type} {key : String}
    {method : Py (InMemoryStore String String) α} {view : Py (Cell String) α}
    (h : InMemoryStore.Local key method view) {Q : α → Prop}
    (hview : Triple (fun cell => cell.toSlot.Sound Printable) view
      (fun a cell => cell.toSlot.Sound Printable ∧ Q a) fun _ _ => False) :
    Triple World.Sound (onStorage method) (fun a world => world.Sound ∧ Q a)
      fun _ _ => False := by
  refine (triple_storage h (E := fun _ => False)
    (hview.weaken_error fun _ _ h => h.elim)).consequence
    (fun world hsound => ⟨hsound, hsound.slots key⟩) (fun _ _ h => h) fun _ _ h => h.2

/-- A file operation works. -/
theorem triple_disk (effect : FileEffect) :
    Triple World.Sound (onDisk (Disk.perform effect)) (fun _ world => world.Sound)
      fun _ _ => False := by
  intro world h
  have hfault : world.disk.faults.head = false := by
    rw [h.faults]
    rfl
  simp only [onDisk, zoom_apply, Disk.perform, hfault, Bool.false_eq_true, if_false]
  refine ⟨h.slots, ?_⟩
  rw [h.faults]
  rfl

theorem triple_append (codec : JsonCodec String) {command : String}
    (h : command ∈ AofPersistence.writeCommands) (args : List String) :
    Triple World.Sound (onDisk (AofPersistence.append codec command args))
      (fun _ world => world.Sound) fun _ _ => False := by
  rw [AofPersistence.append_eq codec h]
  exact triple_disk _

theorem triple_reset :
    Triple World.Sound (onDisk AofPersistence.reset) (fun _ world => world.Sound)
      fun _ _ => False := by
  intro world h
  rw [reset_run]
  by_cases hfile : world.disk.files.aof.isSome
  · rw [if_pos hfile]
    exact triple_disk _ world h
  · rw [if_neg hfile]
    exact h

end World

namespace PersistenceManager

open Py World

variable (manager : PersistenceManager String)

theorem triple_record_set (args : List String) :
    Triple World.Sound (manager.recordWrite "SET" args) (fun _ world => world.Sound)
      fun _ _ => False := by
  rw [record_write_set]
  exact triple_append _ AofPersistence.set_mem args

theorem triple_record_del (args : List String) :
    Triple World.Sound (manager.recordWrite "DEL" args) (fun _ world => world.Sound)
      fun _ _ => False := by
  rw [record_write_del]
  exact triple_append _ AofPersistence.del_mem args

theorem triple_record_expire (key : String) (rest : List String) :
    Triple World.Sound (manager.recordWrite "EXPIRE" (key :: rest)) (fun _ world => world.Sound)
      fun _ _ => False := by
  rw [record_write_expire]
  refine .bind (triple_storage_sound (Q := fun _ => True) InMemoryStore.local_get_expire_at
    (Cell.triple_get_expire_at.weaken fun _ _ h => ⟨h, trivial⟩)) fun expiresAt => ?_
  cases expiresAt with
  | none => exact .pure fun _ h => h.1
  | some expiresAt =>
      exact (triple_append _ AofPersistence.expire_mem _).strengthen fun _ h => h.1

/-- A snapshot purges slots, which keeps them sound, and writes files. -/
theorem triple_snapshot :
    Triple World.Sound manager.snapshot (fun _ world => world.Sound) fun _ _ => False := by
  have hstorage : Triple World.Sound (onStorage InMemoryStore.snapshot)
      (fun _ world => world.Sound) fun _ _ => False := by
    intro world h
    obtain ⟨after, hrun, -, hslots⟩ := InMemoryStore.evict_all_spec world.storage
    have hsound : ∀ key, (after.slot key).Sound Printable := by
      intro key
      have hkey := hslots key
      split at hkey
      · exact hkey ▸ h.slots key
      · obtain ⟨index, hindex⟩ := hkey
        exact hindex ▸ Cell.sound_purge (h.slots key) _
    simp only [onStorage, zoom_apply, InMemoryStore.snapshot, bind_apply, hrun, get_apply,
      InMemoryStore.onExpiration, ExpirationManager.snapshot, ExpirationManager.now, pure_apply]
    exact ⟨hsound, h.faults⟩
  refine .bind hstorage fun contents => ?_
  exact .bind (triple_disk _) fun _ => triple_reset

end PersistenceManager

end MiniRedis
