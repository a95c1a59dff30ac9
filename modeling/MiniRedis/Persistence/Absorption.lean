import MiniRedis.Persistence.TornLog

/-!
# Logs that are replayed again

A snapshot takes the place of the old one before the log is removed. A crash in between leaves a
log whose first records are in the snapshot already. Replaying it does no harm
(`replay_absorbs`): together, the records that are there twice are one change for each key, and a
change that is made again changes nothing.
-/

namespace MiniRedis

namespace LogRecord

variable {S : Type} [DecidableEq S]

theorem perform_all_append (codec : JsonCodec S) (first second : List (LogRecord S))
    (reference : ReferenceStore S S) :
    performAll codec (first ++ second) reference =
      performAll codec second (performAll codec first reference) :=
  List.foldl_append

/-- Records that are applied again change nothing. -/
theorem perform_all_idempotent (codec : JsonCodec S) (records : List (LogRecord S))
    (reference : ReferenceStore S S) :
    performAll codec records (performAll codec records reference) =
      performAll codec records reference := by
  funext key
  rw [perform_all_eq, perform_all_eq, EntryChange.apply_idempotent]

end LogRecord

namespace AofPersistence

variable {S : Type} [PyStr S] [DecidableEq S] [LawfulPyStr S] {codec : JsonCodec S}

/-- A log that is replayed over the state that its first records lead to gives the same data and the
same deadlines as over the state from which they led there. -/
theorem replay_absorbs (hlines : codec.WritesLines) {first second : List (LogRecord S)}
    (hfirst : ∀ record ∈ first, record.WellFormed codec)
    (hsecond : ∀ record ∈ second, record.WellFormed codec) (base : ReplayState S) :
    ∃ applied once again,
      replay codec base (some (writtenLog codec first)) = .ok applied ∧
      replay codec base (some (writtenLog codec (first ++ second))) = .ok once ∧
      replay codec applied (some (writtenLog codec (first ++ second))) = .ok again ∧
      ∀ key, again.data.get? key = once.data.get? key ∧
        again.expiresAt.get? key = once.expiresAt.get? key := by
  have hboth : ∀ record ∈ first ++ second, record.WellFormed codec :=
    List.forall_mem_append.mpr ⟨hfirst, hsecond⟩
  simp only [written_log_eq]
  obtain ⟨applied, happlied, hdenotes⟩ := replay_records hlines hfirst base
  obtain ⟨once, honce, hdenotesOnce⟩ := replay_records hlines hboth base
  obtain ⟨again, hagain, hdenotesAgain⟩ := replay_records hlines hboth applied
  -- the records that were applied before are applied twice, which is the same as once
  have hsame : LogRecord.performAll codec (first ++ second) applied.reference =
      LogRecord.performAll codec (first ++ second) base.reference :=
    calc LogRecord.performAll codec (first ++ second) applied.reference
      _ = LogRecord.performAll codec second
            (LogRecord.performAll codec first
              (LogRecord.performAll codec first base.reference)) := by
          rw [hdenotes.reference_eq, LogRecord.perform_all_append]
      _ = LogRecord.performAll codec second
            (LogRecord.performAll codec first base.reference) := by
          rw [LogRecord.perform_all_idempotent]
      _ = LogRecord.performAll codec (first ++ second) base.reference := by
          rw [LogRecord.perform_all_append]
  rw [hsame] at hdenotesAgain
  refine ⟨applied, once, again, happlied, honce, hagain, fun key => ⟨?_, ?_⟩⟩
  · rw [hdenotesAgain.value, hdenotesOnce.value]
  · rw [hdenotesAgain.deadline, hdenotesOnce.deadline]

/-- A session is opened, ended and opened again, and its log is replayed over the session that it
opened first. -/
theorem session_log_absorbs :
    let first : List (LogRecord String) := [.set "session" "open"]
    let second : List (LogRecord String) := [.del "session", .set "session" "again"]
    ∃ applied once again : ReplayState String,
      replay JsonText.codec ⟨Dict.empty, Dict.empty⟩ (some (writtenLog JsonText.codec first)) =
        .ok applied ∧
      replay JsonText.codec ⟨Dict.empty, Dict.empty⟩
        (some (writtenLog JsonText.codec (first ++ second))) = .ok once ∧
      replay JsonText.codec applied (some (writtenLog JsonText.codec (first ++ second))) =
        .ok again ∧
      ∀ key, again.data.get? key = once.data.get? key ∧
        again.expiresAt.get? key = once.expiresAt.get? key := by
  intro first second
  refine replay_absorbs JsonText.writes_lines ?_ ?_ _
  · intro record h
    obtain rfl := List.mem_singleton.mp h
    trivial
  · intro record h
    rcases List.mem_cons.mp h with rfl | h
    · trivial
    · obtain rfl := List.mem_singleton.mp h
      trivial

end AofPersistence

end MiniRedis
