import MiniRedis.Persistence.Log
import MiniRedis.Persistence.Manager

/-!
# What the files say

The files as a snapshot with the records of the log after it. Reading the files back gives the
snapshot with the records applied (`Files.Holds.recover`). A log that is replayed over a snapshot
that contains it already changes nothing that is still present (`Record.absorbs`), which is what
keeps the files right between the two operations of `snapshot`.
-/

namespace MiniRedis

/-- What the persistence layer relies on: besides what the log does, `json.loads` reads back what
`json.dump` wrote, the text of an object, with the fields in any order, and `float` reads back what
`str` wrote. -/
structure JsonCodec.Lawful (codec : JsonCodec String) : Prop extends codec.WritesLines where
  loads_indented : ∀ data expiresAt, ∃ dataFields expiresAtFields,
    codec.loads (codec.dumpIndented (RdbPersistence.snapshotJson data expiresAt)) =
        .ok (.object [("data", .object dataFields), ("expires_at", .object expiresAtFields)]) ∧
      dataFields.Perm (data.entries.map fun entry => (entry.1, .str entry.2)) ∧
      expiresAtFields.Perm (expiresAt.entries.map fun entry => (entry.1, .float entry.2))
  indented_text : ∀ data expiresAt, ∃ body,
    (codec.dumpIndented (RdbPersistence.snapshotJson data expiresAt)).toList =
        '{' :: (body ++ ['}']) ∧ '\r' ∉ body
  parse_float_text : ∀ x, codec.parseFloat (codec.floatText x) = some x

/-- A record of the log. -/
inductive Record where
  | set (key value : String)
  | del (key : String)
  | expire (key : String) (deadline : PyFloat)

namespace Record

/-- The command of a record. -/
def command : Record → String
  | .set _ _ => "SET"
  | .del _ => "DEL"
  | .expire _ _ => "EXPIRE"

/-- The arguments of a record. -/
def args (codec : JsonCodec String) : Record → List String
  | .set key value => [key, value]
  | .del key => [key]
  | .expire key deadline => [key, codec.floatText deadline]

/-- The line of a record. -/
def line (codec : JsonCodec String) (record : Record) : String :=
  AofPersistence.record codec record.command (record.args codec)

/-- What a record does to the entry of a key. -/
def onEntry (key : String) : Record → Option (Entry String) → Option (Entry String)
  | .set other value, found => if key = other then some ⟨value, none⟩ else found
  | .del other, found => if key = other then none else found
  | .expire other deadline, found =>
      if key = other then found.map ({ · with deadline := some deadline }) else found

/-- What a record does to the reference store. -/
def perform (record : Record) (reference : ReferenceStore String String) :
    ReferenceStore String String := fun key => record.onEntry key (reference key)

/-- What some records do to the entry of a key. -/
def onEntryAll (key : String) (records : List Record) (found : Option (Entry String)) :
    Option (Entry String) :=
  records.foldl (fun found record => record.onEntry key found) found

/-- What some records do to the reference store. -/
def performAll (records : List Record) (reference : ReferenceStore String String) :
    ReferenceStore String String := fun key => onEntryAll key records (reference key)

/-- The record as it is written. -/
def written (codec : JsonCodec String) : Record → LogRecord String
  | .set key value => .set key value
  | .del key => .del key
  | .expire key deadline => .expire key (codec.floatText deadline)

theorem line_written (codec : JsonCodec String) (record : Record) :
    (record.written codec).line codec = record.line codec := by
  cases record <;> rfl

variable {codec : JsonCodec String}

theorem well_formed_written (hlawful : codec.Lawful) (record : Record) :
    (record.written codec).WellFormed codec := by
  cases record with
  | expire key deadline => exact ⟨deadline, hlawful.parse_float_text deadline⟩
  | _ => trivial

theorem on_entry_written (hlawful : codec.Lawful) (key : String) (record : Record)
    (found : Option (Entry String)) :
    ((record.written codec).change codec key).apply found = record.onEntry key found := by
  cases record with
  | expire other deadline =>
      rw [written, LogRecord.change, hlawful.parse_float_text, onEntry]
      split <;> rfl
  | _ =>
      rw [written, LogRecord.change, onEntry]
      split <;> rfl

theorem perform_all_written (hlawful : codec.Lawful) (records : List Record)
    (reference : ReferenceStore String String) :
    LogRecord.performAll codec (records.map (written codec)) reference =
      performAll records reference := by
  induction records generalizing reference with
  | nil => rfl
  | cons record rest ih =>
      have hrecord : (record.written codec).perform codec reference = record.perform reference :=
        funext fun key => on_entry_written hlawful key record (reference key)
      show LogRecord.performAll codec (rest.map (written codec))
        ((record.written codec).perform codec reference) = _
      rw [hrecord]
      exact ih (record.perform reference)

/-- Records that are applied once more, to what is still present, change nothing that is present at
that time or later. -/
theorem absorbs (hlawful : codec.Lawful) (key : String) (records : List Record)
    (found : Option (Entry String)) {now later : Reading} (hle : now ≤ later) :
    (onEntryAll key records ((onEntryAll key records found).filter (·.present now))).filter
        (·.present later) =
      (onEntryAll key records found).filter (·.present later) := by
  have hchange : ∀ found, onEntryAll key records found =
      (LogRecord.changeAll codec key (records.map (written codec))).apply found := by
    intro found
    rw [← LogRecord.perform_all_eq codec _ (fun _ => found) key, perform_all_written hlawful]
    rfl
  rw [hchange, hchange]
  exact EntryChange.absorbs _ found hle

end Record

namespace AofPersistence

variable {codec : JsonCodec String}

/-- A log that consists of some records reads as the records. -/
theorem replay_written (hlawful : codec.Lawful) (records : List Record) {text : String}
    (htext : text.toList = records.flatMap fun record => (record.line codec).toList)
    {state : ReplayState String} {reference : ReferenceStore String String}
    (h : state.Denotes reference) :
    ∃ after, replay codec state (some (Bytes.ofText text)) = .ok after ∧
      after.Denotes (Record.performAll records reference) := by
  have hlog : text = String.ofList (logText codec (records.map (Record.written codec))) := by
    have hlines : logText codec (records.map (Record.written codec)) = text.toList := by
      rw [htext, logText, List.flatMap_map]
      simp only [← line_text, Record.line_written]
    rw [hlines, String.ofList_toList]
  have hrecords : ∀ record ∈ records.map (Record.written codec), record.WellFormed codec := by
    intro record hmem
    obtain ⟨source, -, rfl⟩ := List.mem_map.mp hmem
    exact Record.well_formed_written hlawful source
  obtain ⟨after, hrun, hafter⟩ := replay_records hlawful.toWritesLines hrecords state
  refine ⟨after, by rw [hlog]; exact hrun, ?_⟩
  rw [h.reference_eq, Record.perform_all_written hlawful] at hafter
  exact hafter

end AofPersistence

namespace RdbPersistence

variable {codec : JsonCodec String}

/-- Fields whose values can be converted. -/
theorem convert_fields_ok {V : Type} {convert : Json String → Except PyError V}
    {read : Json String → V} {fields : List (String × Json String)}
    (h : ∀ field ∈ fields, convert field.2 = .ok (read field.2)) :
    convertFields convert fields = .ok (fields.map fun field => (field.1, read field.2)) := by
  induction fields with
  | nil => rfl
  | cons field rest ih =>
      have hfield := h field List.mem_cons_self
      have hrest := ih fun other hmem => h other (List.mem_cons_of_mem _ hmem)
      simp only [convertFields, hfield, hrest, bind, Except.bind]
      rfl

/-- The fields of a dictionary, in any order, are converted back to it. -/
theorem convert_fields_perm {V : Type} (convert : Json String → Except PyError V)
    (write : V → Json String) (read : Json String → V) (hread : ∀ value, read (write value) = value)
    (hconvert : ∀ value, convert (write value) = .ok value) {dict : Dict String V}
    {fields : List (String × Json String)}
    (h : fields.Perm (dict.entries.map fun entry => (entry.1, write entry.2))) :
    ∃ entries, convertFields convert (Dict.ofList fields).entries = .ok entries ∧
      ∀ key, (Dict.ofList entries).get? key = dict.get? key := by
  have hkeys : (Assoc.keys fields).Nodup := by
    refine (h.map Prod.fst).nodup_iff.mpr ?_
    rw [List.map_map]
    exact dict.nodup
  refine ⟨fields.map fun field => (field.1, read field.2), ?_, ?_⟩
  · rw [Dict.entries_ofList hkeys]
    refine convert_fields_ok fun field hfield => ?_
    obtain ⟨entry, -, rfl⟩ := List.mem_map.mp (h.mem_iff.mp hfield)
    rw [hread]
    exact hconvert entry.2
  · refine Dict.get?_ofList_perm ?_
    have hback := h.map fun field => (field.1, read field.2)
    simpa [Function.comp_def, hread] using hback

/-- The two dictionaries of a snapshot, from their fields. -/
theorem from_json_fields {dataFields expiresAtFields : List (String × Json String)}
    {dataEntries : List (String × String)} {expiresEntries : List (String × PyFloat)}
    (hdata : convertFields (fun value => .ok (value.toStr codec))
      (Dict.ofList dataFields).entries = .ok dataEntries)
    (hexpires : convertFields (Json.toFloat codec) (Dict.ofList expiresAtFields).entries =
      .ok expiresEntries) :
    fromJson codec
        (.object [("data", .object dataFields), ("expires_at", .object expiresAtFields)]) =
      .ok ⟨Dict.ofList dataEntries, Dict.ofList expiresEntries⟩ := by
  have hfirst : ∀ default, Json.get
      (.object [("data", .object dataFields), ("expires_at", .object expiresAtFields)]) "data"
      default = .ok (.object dataFields) := by
    intro default
    simp [Json.get, Dict.ofList, PyStr.ofString]
  have hsecond : ∀ default, Json.get
      (.object [("data", .object dataFields), ("expires_at", .object expiresAtFields)])
      "expires_at" default = .ok (.object expiresAtFields) := by
    intro default
    simp [Json.get, Dict.ofList, PyStr.ofString]
  simp only [fromJson, hfirst, hsecond, bind, Except.bind, hdata, hexpires]
  rfl

/-- A snapshot that was written is loaded. -/
theorem load_indented (hlawful : codec.Lawful) (data : Dict String String)
    (expiresAt : Dict String PyFloat) :
    ∃ state, load codec (some (Bytes.ofText (codec.dumpIndented (snapshotJson data expiresAt)))) =
        .ok state ∧
      ∀ key, state.data.get? key = data.get? key ∧
        state.expiresAt.get? key = expiresAt.get? key := by
  obtain ⟨dataFields, expiresAtFields, hloads, hdata, hexpires⟩ :=
    hlawful.loads_indented data expiresAt
  obtain ⟨body, hbody, hcr⟩ := hlawful.indented_text data expiresAt
  obtain ⟨dataEntries, hdataRun, hdataGet⟩ := convert_fields_perm
    (fun value => .ok (value.toStr codec)) Json.str (fun value => value.toStr codec)
    (fun _ => rfl) (fun _ => rfl) hdata
  obtain ⟨expiresEntries, hexpiresRun, hexpiresGet⟩ := convert_fields_perm
    (Json.toFloat codec) Json.float (fun value => match value with | .float x => x | _ => .nan)
    (fun _ => rfl) (fun _ => rfl) hexpires
  have hread : PyText.readText (Bytes.ofText (codec.dumpIndented (snapshotJson data expiresAt))) =
      some ('{' :: (body ++ ['}'])) := by
    rw [PyText.read_text_of_text, hbody]
    rw [hbody]
    simp [hcr]
  have htrim : PyText.trim PyText.isSpace ('{' :: (body ++ ['}'])) = '{' :: (body ++ ['}']) :=
    PyText.trim_of_ends rfl rfl
  have htext : String.ofList ('{' :: (body ++ ['}'])) =
      codec.dumpIndented (snapshotJson data expiresAt) := by
    rw [← hbody, String.ofList_toList]
  refine ⟨⟨Dict.ofList dataEntries, Dict.ofList expiresEntries⟩, ?_,
    fun key => ⟨hdataGet key, hexpiresGet key⟩⟩
  simp only [load, hread, htrim, htext, hloads]
  exact from_json_fields hdataRun hexpiresRun

/-- A snapshot of a reference store is loaded. -/
theorem load_saved (hlawful : codec.Lawful) {data : Dict String String}
    {expiresAt : Dict String PyFloat} {reference : ReferenceStore String String}
    (h : ReplayState.Denotes ⟨data, expiresAt⟩ reference) :
    ∃ state, load codec (some (Bytes.ofText (codec.dumpIndented (snapshotJson data expiresAt)))) =
      .ok state ∧ state.Denotes reference := by
  obtain ⟨state, hload, hstate⟩ := load_indented hlawful data expiresAt
  refine ⟨state, hload, fun key => ?_⟩
  rw [(hstate key).1, (hstate key).2]
  exact h key

end RdbPersistence

end MiniRedis

namespace Files

open MiniRedis

/-- The files hold a snapshot of the reference store `base`, if any, and a log of some records. -/
structure Holds (files : Files) (codec : JsonCodec String)
    (base : ReferenceStore String String) (records : List Record) : Prop where
  rdb : files.rdb = none ∧ base = ReferenceStore.empty ∨
    ∃ data expiresAt, ReplayState.Denotes ⟨data, expiresAt⟩ base ∧
      files.rdb =
        some (Bytes.ofText (codec.dumpIndented (RdbPersistence.snapshotJson data expiresAt)))
  aof : files.aof = none ∧ records = [] ∨
    ∃ text : String, files.aof = some (Bytes.ofText text) ∧
      text.toList = records.flatMap fun record => (record.line codec).toList

namespace Holds

variable {files : Files} {codec : JsonCodec String} {base : ReferenceStore String String}
  {records : List Record}

/-- What is read from the files is the snapshot with the records applied. -/
theorem recover (hlawful : codec.Lawful) (h : files.Holds codec base records) :
    ∃ state, PersistenceManager.recover ⟨codec⟩ files = .ok state ∧
      state.Denotes (Record.performAll records base) := by
  obtain ⟨snapshot, hload, hsnapshot⟩ : ∃ snapshot,
      RdbPersistence.load codec files.rdb = .ok snapshot ∧ snapshot.Denotes base := by
    rcases h.rdb with ⟨hrdb, hbase⟩ | ⟨data, expiresAt, hdenotes, hrdb⟩
    · refine ⟨⟨Dict.empty, Dict.empty⟩, by rw [hrdb]; rfl, ?_⟩
      rw [hbase]
      exact fun _ => rfl
    · rw [hrdb]
      exact RdbPersistence.load_saved hlawful hdenotes
  obtain ⟨state, hreplay, hstate⟩ : ∃ state,
      AofPersistence.replay codec snapshot files.aof = .ok state ∧
        state.Denotes (Record.performAll records base) := by
    rcases h.aof with ⟨haof, hrecords⟩ | ⟨text, haof, htext⟩
    · refine ⟨snapshot, by rw [haof]; rfl, ?_⟩
      rw [hrecords]
      exact hsnapshot
    · rw [haof]
      exact AofPersistence.replay_written hlawful records htext hsnapshot
  refine ⟨state, ?_, hstate⟩
  rw [PersistenceManager.recover, hload]
  exact hreplay

/-- An empty data directory. -/
theorem empty : Files.empty.Holds codec ReferenceStore.empty [] :=
  ⟨.inl ⟨rfl, rfl⟩, .inl ⟨rfl, rfl⟩⟩

/-- A record is appended to the log. -/
theorem append (h : files.Holds codec base records) (record : Record) :
    (files.apply (.appendAof (record.line codec))).Holds codec base (records ++ [record]) := by
  refine ⟨h.rdb, .inr ?_⟩
  rcases h.aof with ⟨haof, rfl⟩ | ⟨text, haof, htext⟩
  · refine ⟨record.line codec, ?_, ?_⟩
    · simp only [Files.apply, haof, Option.getD_none, List.nil_append]
    · simp
  · refine ⟨text ++ record.line codec, ?_, ?_⟩
    · simp only [Files.apply, haof, Option.getD_some, Bytes.of_text_append]
    · rw [String.toList_append, htext]
      simp

/-- A snapshot takes the place of the old one, and the log stays. -/
theorem replace (h : files.Holds codec base records) {data : Dict String String}
    {expiresAt : Dict String PyFloat} {contents : ReferenceStore String String}
    (hcontents : ReplayState.Denotes ⟨data, expiresAt⟩ contents) :
    (files.apply (.replaceRdb
      (codec.dumpIndented (RdbPersistence.snapshotJson data expiresAt)))).Holds codec contents
      records :=
  ⟨.inr ⟨data, expiresAt, hcontents, rfl⟩, h.aof⟩

/-- The log is removed. -/
theorem unlink (h : files.Holds codec base records) :
    (files.apply .unlinkAof).Holds codec base [] :=
  ⟨h.rdb, .inl ⟨rfl, rfl⟩⟩

end Holds

end Files
