import Mathlib.Data.List.TakeWhile
import MiniRedis.Persistence.JsonText

/-!
# Logs that are cut off

What a crash in the middle of a write leaves of the log is one of its prefixes. A prefix that ends
inside the text of a record is refused, and any other one reads as the records that it contains
(`log_replays_or_detects`). The line break after the last record may be missing: `replay` does not
need it, but the next `append` then continues on the same line (`append_after_crash_iff`).
-/

namespace PyText

/-- Stripping a text that starts with something else than a space leaves a part of it that is not
empty. -/
theorem strip_part {space : Char → Bool} {first : Char} (rest : List Char)
    (h : space first = false) :
    trim space (first :: rest) <+: first :: rest ∧ trim space (first :: rest) ≠ [] := by
  have hdrop : (first :: rest).dropWhile space = first :: rest := by
    rw [List.dropWhile_cons, h, if_neg Bool.false_ne_true]
  rw [trim, hdrop]
  refine ⟨?_, fun hnil => ?_⟩
  · rw [← List.reverse_suffix, List.reverse_reverse]
    exact List.dropWhile_suffix _
  · have hspace := List.dropWhile_eq_nil_iff.mp (List.reverse_eq_nil_iff.mp hnil) first
      (List.mem_reverse.mpr List.mem_cons_self)
    rw [h] at hspace
    cases hspace

end PyText

namespace MiniRedis

namespace AofPersistence

variable {S : Type} [PyStr S]

/-- Append some records, one after the other. -/
def appendAll (codec : JsonCodec S) (records : List (LogRecord S)) : Py Disk Unit :=
  Py.forEach records fun record => append codec record.command record.args

/-- The file that is there once some records were appended to no log. -/
def writtenLog (codec : JsonCodec S) (records : List (LogRecord S)) : Bytes :=
  (appendAll codec records (Disk.reliable Files.empty)).2.files.aof.getD []

/-- The records whose texts are wholly among the first `count` bytes of the log. -/
def wholeRecords (codec : JsonCodec S) : List (LogRecord S) → Nat → List (LogRecord S)
  | [], _ => []
  | record :: rest, count =>
      if count < (record.text codec).length then []
      else record :: wholeRecords codec rest (count - ((record.text codec).length + 1))

/-- The first `count` bytes of the log end inside the text of a record. -/
def EndsInside (codec : JsonCodec S) : List (LogRecord S) → Nat → Prop
  | [], _ => False
  | record :: rest, count =>
      if count < (record.text codec).length then 0 < count
      else EndsInside codec rest (count - ((record.text codec).length + 1))

variable {codec : JsonCodec S}

/-- Appending a record that is one of those that the log has. -/
theorem append_record (codec : JsonCodec S) (record : LogRecord S) :
    append codec record.command record.args =
      Disk.perform (.appendAof (record.line codec)) :=
  append_eq codec record.command_mem record.args

/-- Records that are appended to a log come after it, and change nothing else. -/
theorem append_all_run (codec : JsonCodec S) (records : List (LogRecord S)) (disk : Disk)
    (hfaults : disk.faults = Stream'.const false) :
    ∃ after, appendAll codec records disk = (.ok (), after) ∧
      after.files.rdb = disk.files.rdb ∧
      after.files.aof = if records = [] then disk.files.aof
        else some (disk.files.aof.getD [] ++
          Bytes.ofText (String.ofList (logText codec records))) := by
  induction records generalizing disk with
  | nil => exact ⟨disk, rfl, rfl, rfl⟩
  | cons record rest ih =>
      obtain ⟨after, hrun, hrdb, haof⟩ := ih (disk.changed (.appendAof (record.line codec))) hfaults
      rw [Disk.files_changed] at hrdb haof
      have hline : record.line codec = String.ofList (record.text codec ++ ['\n']) := by
        rw [← line_text, String.ofList_toList]
      refine ⟨after, ?_, hrdb, ?_⟩
      · rw [appendAll, Py.forEach, append_record, Py.bind_apply, Disk.perform_run hfaults]
        exact hrun
      · rw [haof, if_neg (List.cons_ne_nil _ _), log_text_cons]
        simp only [Files.apply, Option.getD_some]
        split
        · next hnil => rw [hnil, hline, log_text_nil]
        · rw [List.append_assoc, ← Bytes.of_text_append, hline, ← String.ofList_append,
            List.append_assoc]
          rfl

/-- The log that was written is the text of its records. -/
theorem written_log_eq (codec : JsonCodec S) (records : List (LogRecord S)) :
    writtenLog codec records = Bytes.ofText (String.ofList (logText codec records)) := by
  obtain ⟨after, hrun, -, haof⟩ := append_all_run codec records (Disk.reliable Files.empty) rfl
  rw [writtenLog, hrun, haof]
  split
  · next hnil =>
      rw [hnil]
      rfl
  · rfl

/-- A log is ASCII. -/
theorem log_text_ascii (hcuts : codec.DetectsCuts) (records : List (LogRecord S)) :
    ∀ c ∈ logText codec records, c.toNat < 128 := by
  intro c hc
  obtain ⟨record, -, hrecord⟩ := List.mem_flatMap.mp hc
  rcases List.mem_append.mp hrecord with htext | hend
  · have hbounds := hcuts.dumps_ascii _ _ c htext
    omega
  · obtain rfl := List.mem_singleton.mp hend
    decide

/-- The first bytes of a log are its first characters. -/
theorem take_written_log (hcuts : codec.DetectsCuts) (records : List (LogRecord S)) (count : Nat) :
    (writtenLog codec records).take count =
      Bytes.ofText (String.ofList ((logText codec records).take count)) := by
  have hascii := log_text_ascii hcuts records
  rw [written_log_eq, Bytes.of_text_ascii hascii, Bytes.of_text_ascii, List.map_take]
  exact fun c hc => hascii c (List.mem_of_mem_take hc)

/-- The ways in which a log can be cut: between two records, before the line break of a record, or
inside a record. -/
inductive Cut (codec : JsonCodec S) (records : List (LogRecord S)) (count : Nat) : Prop where
  | between (hends : ¬ EndsInside codec records count)
      (htake : (logText codec records).take count =
        logText codec (wholeRecords codec records count))
  | unterminated (others : List (LogRecord S)) (last : LogRecord S)
      (hends : ¬ EndsInside codec records count)
      (hwhole : wholeRecords codec records count = others ++ [last])
      (htake : (logText codec records).take count = logText codec others ++ last.text codec)
  | inside (record : LogRecord S) (part : List Char) (hends : EndsInside codec records count)
      (hpart : part <+: record.text codec) (hne : part ≠ []) (hshort : part ≠ record.text codec)
      (htake : (logText codec records).take count =
        logText codec (wholeRecords codec records count) ++ part)

/-- Every prefix of a log is cut in one of these ways. -/
theorem cut_cases (hlines : codec.WritesLines) (records : List (LogRecord S)) (count : Nat) :
    Cut codec records count := by
  induction records generalizing count with
  | nil => exact .between id (List.take_nil)
  | cons record rest ih =>
      obtain ⟨-, -, -, hne, -⟩ := text_line hlines record
      rcases Nat.lt_trichotomy count (record.text codec).length with hlt | heq | hgt
      · have hwhole : wholeRecords codec (record :: rest) count = [] := by
          rw [wholeRecords, if_pos hlt]
        have htake : (logText codec (record :: rest)).take count =
            (record.text codec).take count := by
          rw [log_text_cons, List.take_append_of_le_length hlt.le]
        have hends : EndsInside codec (record :: rest) count ↔ 0 < count := by
          rw [EndsInside, if_pos hlt]
        rcases Nat.eq_zero_or_pos count with hzero | hpos
        · refine .between (by rw [hends, hzero]; exact Nat.lt_irrefl 0) ?_
          rw [htake, hwhole, hzero]
          rfl
        · have hpart := List.take_prefix count (record.text codec)
          refine .inside record _ (hends.mpr hpos) hpart ?_ ?_ ?_
          · rw [ne_eq, List.take_eq_nil_iff, not_or]
            exact ⟨hpos.ne', hne⟩
          · intro h
            have hlength := congrArg List.length h
            rw [List.length_take, Nat.min_eq_left hlt.le] at hlength
            exact hlt.ne hlength
          · rw [htake, hwhole]
            rfl
      · -- the cut is right before the line break
        have hrest : count - ((record.text codec).length + 1) = 0 := by omega
        have hzero : wholeRecords codec rest 0 = [] ∧ ¬ EndsInside codec rest 0 := by
          cases rest with
          | nil => exact ⟨rfl, id⟩
          | cons next others =>
              obtain ⟨-, -, -, hnext, -⟩ := text_line hlines next
              have hpos := List.length_pos_iff.mpr hnext
              rw [wholeRecords, EndsInside, if_pos hpos, if_pos hpos]
              exact ⟨rfl, Nat.lt_irrefl 0⟩
        refine .unterminated [] record ?_ ?_ ?_
        · rw [EndsInside, if_neg heq.not_lt, hrest]
          exact hzero.2
        · rw [wholeRecords, if_neg heq.not_lt, hrest, hzero.1]
          rfl
        · rw [log_text_cons, heq, List.take_left]
          rfl
      · -- the first record is there with its line break
        obtain ⟨left, rfl⟩ : ∃ left, count = (record.text codec).length + 1 + left :=
          ⟨count - ((record.text codec).length + 1), by omega⟩
        have hleft : (record.text codec).length + 1 + left - ((record.text codec).length + 1) =
            left := Nat.add_sub_cancel_left _ _
        have hends : EndsInside codec (record :: rest) ((record.text codec).length + 1 + left) ↔
            EndsInside codec rest left := by
          rw [EndsInside, if_neg hgt.not_gt, hleft]
        have hwhole : wholeRecords codec (record :: rest)
            ((record.text codec).length + 1 + left) =
              record :: wholeRecords codec rest left := by
          rw [wholeRecords, if_neg hgt.not_gt, hleft]
        have htake : (logText codec (record :: rest)).take ((record.text codec).length + 1 + left) =
            record.text codec ++ '\n' :: (logText codec rest).take left := by
          rw [log_text_cons, Nat.add_assoc, List.take_length_add_append, Nat.add_comm 1 left,
            List.take_succ_cons]
        cases ih left with
        | between hout htext =>
            refine .between (mt hends.mp hout) ?_
            rw [htake, hwhole, htext, log_text_cons]
        | unterminated others last hout hothers htext =>
            refine .unterminated (record :: others) last (mt hends.mp hout) ?_ ?_
            · rw [hwhole, hothers]
              rfl
            · rw [htake, htext, log_text_cons, List.append_assoc, List.cons_append]
        | inside inner part hin hpart hpartNe hshort htext =>
            refine .inside inner part (hends.mpr hin) hpart hpartNe hshort ?_
            rw [htake, hwhole, htext, log_text_cons, List.append_assoc, List.cons_append]

/-- The whole records are among the records. -/
theorem whole_records_subset (codec : JsonCodec S) (records : List (LogRecord S)) (count : Nat) :
    ∀ record ∈ wholeRecords codec records count, record ∈ records := by
  induction records generalizing count with
  | nil => exact fun record h => h
  | cons first rest ih =>
      intro record h
      rw [wholeRecords] at h
      split at h
      · cases h
      · rcases List.mem_cons.mp h with rfl | h
        · exact List.mem_cons_self
        · exact List.mem_cons_of_mem _ (ih _ record h)

/-- The complete log contains all records. -/
theorem whole_records_length (codec : JsonCodec S) (records : List (LogRecord S)) :
    wholeRecords codec records (logText codec records).length = records ∧
      ¬ EndsInside codec records (logText codec records).length := by
  induction records with
  | nil => exact ⟨rfl, id⟩
  | cons record rest ih =>
      have hlength : (logText codec (record :: rest)).length =
          (record.text codec).length + 1 + (logText codec rest).length := by
        rw [log_text_cons, List.length_append, List.length_cons]
        omega
      have hle : ¬ (record.text codec).length + 1 + (logText codec rest).length <
          (record.text codec).length := by omega
      rw [hlength, wholeRecords, EndsInside, if_neg hle, if_neg hle, Nat.add_sub_cancel_left]
      exact ⟨by rw [ih.1], ih.2⟩

variable [DecidableEq S] [LawfulPyStr S]

omit [LawfulPyStr S] in
/-- A text without carriage returns is replayed line by line. -/
theorem replay_text (base : ReplayState S) {text : List Char} (h : '\r' ∉ text) :
    replay codec base (some (Bytes.ofText (String.ofList text))) =
      replayLines codec 1 (PyText.lines text)
        { base with expiresAt := base.expiresAt.filter fun key _ => base.data.contains key } := by
  have hread := PyText.read_text_of_text (String.ofList text) (by rwa [String.toList_ofList])
  rw [String.toList_ofList] at hread
  simp only [replay, hread]

/-- A log without its last line break reads as its records. -/
theorem replay_unterminated (hlines : codec.WritesLines) {records : List (LogRecord S)}
    (hrecords : ∀ record ∈ records, record.WellFormed codec) {last : LogRecord S}
    (hlast : last.WellFormed codec) (base : ReplayState S) :
    ∃ after, replay codec base
        (some (Bytes.ofText (String.ofList (logText codec records ++ last.text codec)))) =
          .ok after ∧
      after.Denotes (LogRecord.performAll codec (records ++ [last]) base.reference) := by
  obtain ⟨hcr, hlf, -⟩ := text_line hlines last
  obtain ⟨middle, hrun, hmiddle⟩ :=
    replay_lines_records hlines hrecords 1 base.denotes_filter (last.text codec)
  obtain ⟨after, hline, hafter⟩ :=
    replay_line_record hlines hlast (1 + records.length) hmiddle
  refine ⟨after, ?_, ?_⟩
  · rw [replay_text base, hrun, PyText.lines_singleton hlf, replayLines, hline]
    · rfl
    · rw [List.mem_append, not_or]
      exact ⟨log_text_no_return hlines records, hcr⟩
  · rw [LogRecord.performAll, List.foldl_append]
    exact hafter

/-- A log that ends inside the text of a record is refused. -/
theorem replay_inside (hcuts : codec.DetectsCuts) {records : List (LogRecord S)}
    (hrecords : ∀ record ∈ records, record.WellFormed codec) {record : LogRecord S}
    {part : List Char} (hpart : part <+: record.text codec) (hne : part ≠ [])
    (hshort : part ≠ record.text codec) (base : ReplayState S) :
    ∃ message, replay codec base
        (some (Bytes.ofText (String.ofList (logText codec records ++ part)))) =
          .error (.valueError message) := by
  have hlines := hcuts.toWritesLines
  obtain ⟨hcr, hlf, -⟩ := text_line hlines record
  obtain ⟨middle, hrun, -⟩ := replay_lines_records hlines hrecords 1 base.denotes_filter part
  obtain ⟨body, hbody, -⟩ := hlines.dumps_line record.command record.args
  -- what is left of the record starts with its brace
  obtain ⟨rest, rfl⟩ : ∃ rest, part = '{' :: rest := by
    rw [LogRecord.text, hbody] at hpart
    cases part with
    | nil => exact absurd rfl hne
    | cons c rest => exact ⟨rest, by rw [(List.cons_prefix_cons.mp hpart).1]⟩
  obtain ⟨htrim, htrimNe⟩ :=
    PyText.strip_part rest (show PyText.isSpace '{' = false from rfl)
  have hloads : codec.loads (String.ofList (PyText.trim PyText.isSpace ('{' :: rest))) =
      .error .decode := by
    refine hcuts.loads_cut _ _ _ (htrim.trans hpart) fun hsame => hshort ?_
    exact hpart.eq_of_length (Nat.le_antisymm hpart.length_le (by
      have hle := htrim.length_le
      rw [hsame] at hle
      exact hle))
  have hline : replayLine codec (1 + records.length) ('{' :: rest) middle =
      .error (.valueError s!"Invalid AOF record at line {1 + records.length}") := by
    unfold replayLine
    generalize PyText.trim PyText.isSpace ('{' :: rest) = stripped at htrimNe hloads
    cases stripped with
    | nil => exact absurd rfl htrimNe
    | cons c tail => simp only [hloads]
  refine ⟨s!"Invalid AOF record at line {1 + records.length}", ?_⟩
  have hnotMem : ∀ c : Char, c ∉ record.text codec → c ∉ '{' :: rest :=
    fun c h hmem => h (hpart.subset hmem)
  rw [replay_text base, hrun, PyText.lines_singleton (hnotMem _ hlf), replayLines, hline]
  · rfl
  · rw [List.mem_append, not_or]
    exact ⟨log_text_no_return hlines records, hnotMem _ hcr⟩

/-- What `replay` makes of the first bytes of a log, over any base: a log that ends inside the text
of a record raises `ValueError`, and any other one gives the base without the deadlines of keys
that have no value, with the records applied that the log contains. The complete log contains all
records. -/
theorem log_replays_or_detects (hcuts : codec.DetectsCuts) {records : List (LogRecord S)}
    (hrecords : ∀ record ∈ records, record.WellFormed codec) :
    (∀ (base : ReplayState S) (count : Nat),
      (EndsInside codec records count → ∃ message,
        replay codec base (some ((writtenLog codec records).take count)) =
          .error (.valueError message)) ∧
      (¬ EndsInside codec records count → ∃ state,
        replay codec base (some ((writtenLog codec records).take count)) = .ok state ∧
          state.Denotes (LogRecord.performAll codec (wholeRecords codec records count)
            base.reference))) ∧
      wholeRecords codec records (writtenLog codec records).length = records ∧
      ¬ EndsInside codec records (writtenLog codec records).length := by
  have hlines := hcuts.toWritesLines
  have hwhole : ∀ count, ∀ record ∈ wholeRecords codec records count, record.WellFormed codec :=
    fun count record h => hrecords record (whole_records_subset codec records count record h)
  refine ⟨fun base count => ?_, ?_⟩
  · rw [take_written_log hcuts]
    cases cut_cases hlines records count with
    | between hends htake =>
        refine ⟨fun h => absurd h hends, fun _ => ?_⟩
        rw [htake]
        exact replay_records hlines (hwhole count) base
    | unterminated others last hends hothers htake =>
        refine ⟨fun h => absurd h hends, fun _ => ?_⟩
        have hall := hwhole count
        rw [hothers] at hall ⊢
        rw [htake]
        exact replay_unterminated hlines
          (fun record h => hall record (List.mem_append_left _ h))
          (hall last (List.mem_append_right _ List.mem_cons_self)) base
    | inside record part hends hpart hne hshort htake =>
        refine ⟨fun _ => ?_, fun h => absurd hends h⟩
        rw [htake]
        exact replay_inside hcuts (hwhole count) hpart hne hshort base
  · have hlength : (writtenLog codec records).length = (logText codec records).length := by
      rw [written_log_eq, Bytes.of_text_ascii (log_text_ascii hcuts records), List.length_map]
    rw [hlength]
    exact whole_records_length codec records

/-- A session that is opened and ended, in a log that is cut anywhere. -/
theorem session_log_replays_or_detects :
    let records : List (LogRecord String) := [.set "session" "open", .del "session"]
    (∀ (base : ReplayState String) (count : Nat),
      (EndsInside JsonText.codec records count → ∃ message,
        replay JsonText.codec base (some ((writtenLog JsonText.codec records).take count)) =
          .error (.valueError message)) ∧
      (¬ EndsInside JsonText.codec records count → ∃ state,
        replay JsonText.codec base (some ((writtenLog JsonText.codec records).take count)) =
            .ok state ∧
          state.Denotes (LogRecord.performAll JsonText.codec
            (wholeRecords JsonText.codec records count) base.reference))) ∧
      wholeRecords JsonText.codec records (writtenLog JsonText.codec records).length = records ∧
      ¬ EndsInside JsonText.codec records (writtenLog JsonText.codec records).length := by
  intro records
  refine log_replays_or_detects JsonText.detects_cuts ?_
  intro record hrecord
  rcases List.mem_cons.mp hrecord with rfl | hrecord
  · trivial
  · obtain rfl := List.mem_singleton.mp hrecord
    trivial

/-- A log is empty or ends with a line break. -/
def Terminated (content : Bytes) : Prop := content = [] ∨ content.getLast? = some 10

omit [DecidableEq S] [LawfulPyStr S] in
/-- The last byte of a log is its last character. -/
theorem last_byte {text : List Char} (h : ∀ c ∈ text, c.toNat < 128) {last : Char}
    (hlast : text.getLast? = some last) :
    (Bytes.ofText (String.ofList text)).getLast? = some (UInt8.ofNat last.toNat) := by
  rw [Bytes.of_text_ascii h, List.getLast?_map, hlast]
  rfl

omit [DecidableEq S] [LawfulPyStr S] in
/-- A log with a line break after each record is terminated. -/
theorem terminated_log (hcuts : codec.DetectsCuts) (records : List (LogRecord S)) :
    Terminated (Bytes.ofText (String.ofList (logText codec records))) := by
  rcases List.eq_nil_or_concat records with rfl | ⟨others, last, rfl⟩
  · exact .inl rfl
  · have hend : (logText codec (others.concat last)).getLast? = some '\n' := by
      rw [List.concat_eq_append, log_text_append, log_text_cons, log_text_nil, List.append_cons,
        List.append_nil, ← List.append_assoc]
      exact List.getLast?_concat
    exact .inr (last_byte (log_text_ascii hcuts _) hend)

omit [DecidableEq S] [LawfulPyStr S] in
/-- A log without its last line break is not. -/
theorem not_terminated (hcuts : codec.DetectsCuts) (records : List (LogRecord S))
    (last : LogRecord S) :
    ¬ Terminated (Bytes.ofText (String.ofList (logText codec records ++ last.text codec))) := by
  have hascii : ∀ c ∈ logText codec records ++ last.text codec, c.toNat < 128 := by
    intro c hc
    rcases List.mem_append.mp hc with hc | hc
    · exact log_text_ascii hcuts records c hc
    · have hbounds := hcuts.dumps_ascii _ _ c hc
      omega
  obtain ⟨body, hbody, -⟩ := hcuts.dumps_line last.command last.args
  have hend : (logText codec records ++ last.text codec).getLast? = some '}' := by
    rw [LogRecord.text, hbody, ← List.cons_append, ← List.append_assoc]
    exact List.getLast?_concat
  have hbyte := last_byte hascii hend
  rintro (hempty | hlf)
  · rw [hempty] at hbyte
    cases hbyte
  · rw [hbyte] at hlf
    cases hlf

/-- A record that is appended to a log without its last line break makes the log unreadable. -/
theorem replay_joined (hlines : codec.WritesLines) (hextra : codec.RejectsExtraData)
    {records : List (LogRecord S)} (hrecords : ∀ record ∈ records, record.WellFormed codec)
    (last next : LogRecord S) (rest : List (LogRecord S)) (base : ReplayState S) :
    ∃ message, replay codec base (some (Bytes.ofText (String.ofList
        (logText codec records ++ last.text codec ++ logText codec (next :: rest))))) =
          .error (.valueError message) := by
  obtain ⟨hlastCr, hlastLf, -⟩ := text_line hlines last
  obtain ⟨hnextCr, hnextLf, -⟩ := text_line hlines next
  obtain ⟨lastBody, hlast, -⟩ := hlines.dumps_line last.command last.args
  obtain ⟨nextBody, hnext, -⟩ := hlines.dumps_line next.command next.args
  have htext : logText codec records ++ last.text codec ++ logText codec (next :: rest) =
      logText codec records ++ ((last.text codec ++ next.text codec) ++
        '\n' :: logText codec rest) := by
    rw [log_text_cons, List.append_assoc, List.append_assoc]
  obtain ⟨middle, hrun, -⟩ := replay_lines_records hlines hrecords 1 base.denotes_filter
    ((last.text codec ++ next.text codec) ++ '\n' :: logText codec rest)
  -- two objects in one line are no JSON value
  have hline : replayLine codec (1 + records.length) (last.text codec ++ next.text codec) middle =
      .error (.valueError s!"Invalid AOF record at line {1 + records.length}") := by
    have hjoined : last.text codec ++ next.text codec =
        '{' :: ((lastBody ++ '}' :: '{' :: nextBody) ++ ['}']) := by
      rw [LogRecord.text, LogRecord.text, hlast, hnext]
      simp
    have hloads : codec.loads (String.ofList (last.text codec ++ next.text codec)) =
        .error .decode := by
      have hboth := hextra last.command last.args next.command next.args
      rwa [← @String.ofList_toList (codec.dumps _ ++ codec.dumps _), String.toList_append] at hboth
    unfold replayLine
    rw [hjoined] at hloads ⊢
    rw [PyText.trim_of_ends rfl rfl]
    simp only [hloads]
  refine ⟨s!"Invalid AOF record at line {1 + records.length}", ?_⟩
  have hcr : '\r' ∉ logText codec records ++ last.text codec ++ logText codec (next :: rest) := by
    rw [List.mem_append, List.mem_append, not_or, not_or]
    exact ⟨⟨log_text_no_return hlines _, hlastCr⟩, log_text_no_return hlines _⟩
  have hlf : '\n' ∉ last.text codec ++ next.text codec := by
    rw [List.mem_append, not_or]
    exact ⟨hlastLf, hnextLf⟩
  rw [replay_text base hcr, htext, hrun, PyText.lines_append hlf, replayLines, hline]
  rfl

/-- After a crash that left a log which `replay` accepts, records that are appended can be read
back, exactly if the log is empty or ends with a line break, or nothing is appended. -/
theorem append_after_crash_iff (hcuts : codec.DetectsCuts) (hextra : codec.RejectsExtraData)
    {records news : List (LogRecord S)} (hrecords : ∀ record ∈ records, record.WellFormed codec)
    (hnews : ∀ record ∈ news, record.WellFormed codec) (base : ReplayState S) (count : Nat)
    {state : ReplayState S}
    (hfirst : replay codec base (some ((writtenLog codec records).take count)) = .ok state)
    (rdb : Option Bytes) :
    ∃ after, appendAll codec news
        (Disk.reliable ⟨rdb, some ((writtenLog codec records).take count)⟩) = (.ok (), after) ∧
      ((∃ final, replay codec base after.files.aof = .ok final ∧
          final.Denotes (LogRecord.performAll codec news state.reference)) ↔
        Terminated ((writtenLog codec records).take count) ∨ news = []) := by
  have hlines := hcuts.toWritesLines
  have hwhole : ∀ record ∈ wholeRecords codec records count, record.WellFormed codec :=
    fun record h => hrecords record (whole_records_subset codec records count record h)
  obtain ⟨after, hrun, -, haof⟩ := append_all_run codec news
    (Disk.reliable ⟨rdb, some ((writtenLog codec records).take count)⟩) rfl
  refine ⟨after, hrun, ?_⟩
  -- appending no record leaves the log alone, which is the same as appending nothing
  rw [haof]
  rw [take_written_log hcuts] at hfirst ⊢
  have hlog : ∀ left : List Char, (if news = [] then some (Bytes.ofText (String.ofList left))
      else some (Bytes.ofText (String.ofList left) ++
        Bytes.ofText (String.ofList (logText codec news)))) =
      some (Bytes.ofText (String.ofList (left ++ logText codec news))) := by
    intro left
    split
    · next hnil => rw [hnil, log_text_nil, List.append_nil]
    · rw [← Bytes.of_text_append, String.ofList_append]
  show (∃ final, replay codec base (if news = [] then
      some (Bytes.ofText (String.ofList ((logText codec records).take count)))
    else some (Bytes.ofText (String.ofList ((logText codec records).take count)) ++
      Bytes.ofText (String.ofList (logText codec news)))) = .ok final ∧ _) ↔ _
  rw [hlog]
  cases cut_cases hlines records count with
  | between hends htake =>
      rw [htake] at hfirst ⊢
      obtain ⟨first, hreplay, hdenotes⟩ := replay_records hlines hwhole base
      obtain rfl : first = state := Except.ok.inj (hreplay.symm.trans hfirst)
      -- the cut is between two records: the new ones start a line
      refine iff_of_true ?_ (.inl (terminated_log hcuts _))
      have hall : ∀ record ∈ wholeRecords codec records count ++ news, record.WellFormed codec :=
        List.forall_mem_append.mpr ⟨hwhole, hnews⟩
      obtain ⟨final, hsecond, hfinal⟩ := replay_records hlines hall base
      rw [log_text_append] at hsecond
      refine ⟨final, hsecond, ?_⟩
      rw [LogRecord.performAll, List.foldl_append] at hfinal
      rw [hdenotes.reference_eq]
      exact hfinal
  | unterminated others last hends hothers htake =>
      rw [hothers] at hwhole
      rw [htake] at hfirst ⊢
      have hrest : ∀ record ∈ others, record.WellFormed codec :=
        fun record h => hwhole record (List.mem_append_left _ h)
      have hlast := hwhole last (List.mem_append_right _ List.mem_cons_self)
      -- the cut is right before a line break, which `replay` does not miss
      cases news with
      | nil =>
          obtain ⟨first, hreplay, hdenotes⟩ := replay_unterminated hlines hrest hlast base
          obtain rfl : first = state := Except.ok.inj (hreplay.symm.trans hfirst)
          refine iff_of_true ⟨first, ?_, ?_⟩ (.inr rfl)
          · rw [log_text_nil, List.append_nil]
            exact hreplay
          · rw [hdenotes.reference_eq]
            exact hdenotes
      | cons next others =>
          obtain ⟨message, hraise⟩ := replay_joined hlines hextra hrest last next others base
          refine iff_of_false ?_ ?_
          · rintro ⟨final, hsecond, -⟩
            rw [hraise] at hsecond
            cases hsecond
          · rintro (hterminated | hnil)
            · exact not_terminated hcuts _ last hterminated
            · cases hnil
  | inside record part hends hpart hne hshort htake =>
      rw [htake] at hfirst
      -- the cut is inside a record: `replay` did not accept the log
      obtain ⟨message, hraise⟩ := replay_inside hcuts hwhole hpart hne hshort base
      rw [hraise] at hfirst
      cases hfirst

/-- A crash right behind the line break of the first of two records: it is recovered, and a session
that is opened then is read back behind it. -/
theorem session_appended_after_crash :
    let base : ReplayState String := ⟨Dict.empty, Dict.empty⟩
    let first : LogRecord String := .set "user" "ann"
    let left := (writtenLog JsonText.codec [first, .set "token" "one"]).take
      ((first.text JsonText.codec).length + 1)
    ∃ state after, replay JsonText.codec base (some left) = .ok state ∧
      state.Denotes (LogRecord.performAll JsonText.codec [first] base.reference) ∧
      appendAll JsonText.codec [.set "session" "open"] (Disk.reliable ⟨none, some left⟩) =
        (.ok (), after) ∧
      ∃ final, replay JsonText.codec base after.files.aof = .ok final ∧
        final.Denotes (LogRecord.performAll JsonText.codec [.set "session" "open"]
          state.reference) := by
  intro base first left
  have hset : ∀ key value : String, (LogRecord.set key value).WellFormed JsonText.codec :=
    fun _ _ => trivial
  have hrecords : ∀ record ∈ [first, .set "token" "one"], record.WellFormed JsonText.codec := by
    simp [first, hset]
  have hleft : left = Bytes.ofText (String.ofList (logText JsonText.codec [first])) := by
    show (writtenLog JsonText.codec _).take _ = _
    rw [take_written_log JsonText.detects_cuts, log_text_cons, List.append_cons,
      List.take_left' (by simp), log_text_cons, log_text_nil]
  obtain ⟨state, hfirst, hdenotes⟩ := replay_records JsonText.writes_lines
    (by simp [first, hset] : ∀ record ∈ [first], record.WellFormed JsonText.codec) base
  rw [← hleft] at hfirst
  obtain ⟨after, hrun, hiff⟩ := append_after_crash_iff JsonText.detects_cuts
    JsonText.rejects_extra_data hrecords (by simp [hset] : ∀ record ∈
      [LogRecord.set "session" "open"], record.WellFormed JsonText.codec) base _ hfirst none
  refine ⟨state, after, hfirst, hdenotes, hrun, hiff.mpr (.inl ?_)⟩
  show Terminated left
  rw [hleft]
  exact terminated_log JsonText.detects_cuts [first]

/-- A crash right before the line break of a record is not noticed at the first restart, and the
session that is opened after it makes the log unreadable at the second. -/
theorem append_continues_torn_line :
    let records : List (LogRecord String) := [.set "user" "ann"]
    let left := (writtenLog JsonText.codec records).take
      ((LogRecord.set "user" "ann").text JsonText.codec).length
    ∃ state after, replay JsonText.codec ⟨Dict.empty, Dict.empty⟩ (some left) = .ok state ∧
      appendAll JsonText.codec [.set "session" "open"] (Disk.reliable ⟨none, some left⟩) =
        (.ok (), after) ∧
      ¬ ∃ final, replay JsonText.codec ⟨Dict.empty, Dict.empty⟩ after.files.aof = .ok final := by
  intro records left
  have hleft : left = Bytes.ofText (String.ofList
      (logText JsonText.codec [] ++ (LogRecord.set "user" "ann").text JsonText.codec)) := by
    show (writtenLog JsonText.codec records).take _ = _
    rw [take_written_log JsonText.detects_cuts, log_text_cons, List.take_left]
    rfl
  have hnone : ∀ record ∈ ([] : List (LogRecord String)), record.WellFormed JsonText.codec :=
    fun record h => by cases h
  have hlast : (LogRecord.set "user" "ann").WellFormed JsonText.codec := trivial
  obtain ⟨state, hfirst, -⟩ :=
    replay_unterminated JsonText.writes_lines hnone hlast ⟨Dict.empty, Dict.empty⟩
  obtain ⟨after, hrun, -, haof⟩ := append_all_run JsonText.codec [.set "session" "open"]
    (Disk.reliable ⟨none, some left⟩) rfl
  obtain ⟨message, hraise⟩ := replay_joined JsonText.writes_lines JsonText.rejects_extra_data hnone
    (.set "user" "ann") (.set "session" "open") [] ⟨Dict.empty, Dict.empty⟩
  refine ⟨state, after, by rw [hleft]; exact hfirst, hrun, ?_⟩
  rintro ⟨final, hsecond⟩
  have hboth : after.files.aof = some (Bytes.ofText (String.ofList
      (logText JsonText.codec [] ++ (LogRecord.set "user" "ann").text JsonText.codec ++
        logText JsonText.codec [.set "session" "open"]))) := by
    rw [haof, if_neg (List.cons_ne_nil _ _), String.ofList_append, Bytes.of_text_append, ← hleft]
    rfl
  rw [hboth, hraise] at hsecond
  cases hsecond

end AofPersistence

end MiniRedis
