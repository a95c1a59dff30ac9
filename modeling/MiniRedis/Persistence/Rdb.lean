import MiniRedis.Persistence.Aof

/-!
# The snapshot file

`RdbPersistence` after `persistence/rdb.py`. The snapshot is written to a temporary file that
takes the place of the old one, so for the reader it changes in one step.
-/

namespace MiniRedis

namespace RdbPersistence

variable {S : Type} [PyStr S] [DecidableEq S]

/-- The value that `save` writes. -/
def snapshotJson (data : Dict S S) (expiresAt : Dict S PyFloat) : Json S :=
  .object
    [(PyStr.ofString "data", .object (data.entries.map fun entry => (entry.1, .str entry.2))),
      (PyStr.ofString "expires_at",
        .object (expiresAt.entries.map fun entry => (entry.1, .float entry.2)))]

/-- `save`. -/
def save (codec : JsonCodec S) (data : Dict S S) (expiresAt : Dict S PyFloat) : Py Disk Unit :=
  Disk.perform (.replaceRdb (codec.dumpIndented (snapshotJson data expiresAt)))

/-- `{str(key): convert(value) for key, value in fields}`. -/
def convertFields {V : Type} (convert : Json S → Except PyError V) :
    List (S × Json S) → Except PyError (List (S × V))
  | [] => .ok []
  | (key, value) :: rest => do
      let converted ← convert value
      let others ← convertFields convert rest
      return (key, converted) :: others

/-- The two dictionaries of a snapshot. -/
def fromJson (codec : JsonCodec S) (raw : Json S) : Except PyError (ReplayState S) := do
  let data ← raw.get "data" (.object [])
  let expiresAt ← raw.get "expires_at" (.object [])
  match data, expiresAt with
  | .object dataFields, .object expiresAtFields => do
      let dataEntries ← convertFields (fun value => .ok (value.toStr codec))
        (Dict.ofList dataFields).entries
      let expiresAtEntries ← convertFields (Json.toFloat codec) (Dict.ofList expiresAtFields).entries
      return ⟨Dict.ofList dataEntries, Dict.ofList expiresAtEntries⟩
  | _, _ => .error (.valueError "Invalid RDB snapshot format")

/-- `load`. -/
def load (codec : JsonCodec S) (rdb : Option Bytes) : Except PyError (ReplayState S) :=
  match rdb with
  | none => .ok ⟨Dict.empty, Dict.empty⟩
  | some file =>
      match PyText.readText file with
      | none => .error (.valueError "invalid UTF-8")
      | some text =>
          match PyText.trim PyText.isSpace text with
          | [] => .ok ⟨Dict.empty, Dict.empty⟩
          | content =>
              match codec.loads (String.ofList content) with
              | .error .decode => .error (.valueError "Invalid RDB snapshot format")
              | .error (.other error) => .error error
              | .ok raw => fromJson codec raw

end RdbPersistence

end MiniRedis
