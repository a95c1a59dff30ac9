import MiniRedis.Server.Transparency

/-!
# A snapshot makes up for failed writes

A command whose record could not be written has changed the memory, and the files lag behind. The
next snapshot that succeeds, periodic or asked for, brings them level again, whatever has failed
in whatever life of the server; and as long as writes succeed they stay level (`snapshot_heals`),
so that a server that is started on them in time holds what the old one held.
-/

namespace MiniRedis

namespace Journal

open Py

variable (cluster : Option ClusterCoordinator) {now : Reading} {journal : Journal}

/-- A snapshot that succeeds writes down what is present. -/
theorem snapshot_contents (h : journal.faults = Stream'.const false) (now : Reading) :
    (snapshot now journal).2.archive.contents = journal.memory.present now := by
  rw [snapshot_reliable h]
  show Archive.contents (Archive.empty.applyAll (journal.changes ++ _)) = _
  rw [Archive.applyAll, List.foldl_append]
  have hempty : Record.performAll [] (journal.memory.present now) =
      journal.memory.present now := rfl
  -- the old log is removed if there is one
  cases hlog : journal.archive.log with
  | none =>
      have hold : (List.foldl Archive.apply Archive.empty journal.changes).log = none := hlog
      simp [Archive.contents, Archive.apply, hold, hempty]
  | some records => simp [Archive.contents, Archive.apply, hempty]

/-- An event that takes a snapshot does nothing else. -/
theorem serve_saves {event : Recovery.Event}
    (hevent : event = .snapshot ∨ Recovery.saves event = true)
    (h : journal.faults = Stream'.const false) (now : Reading) :
    (serve cluster now event journal).2 = (snapshot now journal).2 := by
  cases event with
  | snapshot => rfl
  | command command =>
      have hsave : Query.ofCommand command = .save :=
        Recovery.saves_iff.mp (hevent.resolve_left Recovery.Event.noConfusion)
      rcases dispatch_routed cluster now command with ⟨hother, -⟩ | hrun
      · exact absurd hsave hother
      · have hanswer : answer true now .save journal =
            (.ok (.simpleString "OK"), (snapshot now journal).2) := by
          rw [show answer true now .save journal = _ from bind_ok (snapshot_reliable h now),
            snapshot_reliable h]
          rfl
        simp only [serve, hrun, hsave, hanswer]

/-- After a snapshot the files are level with the memory. -/
theorem durable_saves {event : Recovery.Event}
    (hevent : event = .snapshot ∨ Recovery.saves event = true)
    (h : journal.faults = Stream'.const false) (now : Reading) :
    (serve cluster now event journal).2.Durable now := by
  intro key later hle
  rw [serve_saves cluster hevent h, snapshot_contents h, memory_snapshot]
  exact Entry.filter_present _ hle

end Journal

variable [PyHash String]

namespace World

variable {codec : JsonCodec String} {now : Reading}

/-- The files are level with the store, and can be written. -/
structure Level (codec : JsonCodec String) (now : Reading) (world : World String)
    (journal : Journal) : Prop where
  follows : world.Follows codec now journal
  durable : journal.Durable now
  reliable : journal.faults = Stream'.const false

/-- What is read back from the files is what the store holds from a time on, and a server that is
started on them before a deadline in them has passed holds the same. -/
structure Recoverable (codec : JsonCodec String) (last : Reading) (world : World String) :
    Prop where
  recover : ∃ state, PersistenceManager.recover ⟨codec⟩ world.disk.files = .ok state ∧
    ∀ key later, last ≤ later →
      (state.reference key).filter (·.present later) = world.storage.live later key
  restore : ∀ state again coming,
    PersistenceManager.recover ⟨codec⟩ world.disk.files = .ok state → last ≤ again →
    PersistenceManager.NoneExpired state again →
    ∃ restored, PersistenceManager.restore ⟨codec⟩
        (found world.disk.initial world.disk.effects again coming) = (.ok (), restored) ∧
      ∀ key later, again ≤ later →
        restored.storage.live later key = world.storage.live later key

/-- The files stay level. -/
theorem Level.run (hlawful : codec.Lawful) (cluster : Option ClusterCoordinator)
    (steps : List (Reading × Recovery.Event)) {first last : Reading}
    (hclock : (first :: steps.map Prod.fst ++ [last]).Pairwise (· ≤ ·)) {world : World String}
    {journal : Journal} (h : Level codec first world journal) :
    ∃ after, Level codec last
      (Py.session (steps.map fun step => serve codec cluster step.1 step.2) world).2 after := by
  induction steps generalizing first world journal with
  | nil =>
      have hle : first ≤ last :=
        (List.pairwise_cons.mp hclock).1 last (List.mem_append_right _ List.mem_cons_self)
      exact ⟨journal, h.follows.later hle, h.durable.later hle, h.reliable⟩
  | cons step rest ih =>
      obtain ⟨hfirst, hrest⟩ := List.pairwise_cons.mp hclock
      have hle : first ≤ step.1 := hfirst _ List.mem_cons_self
      obtain ⟨-, hfollows⟩ := serve_simulates cluster step.2 (h.follows.later hle)
      exact ih hrest ⟨hfollows,
        Journal.durable_serve cluster hlawful step.2 h.reliable (h.durable.later hle),
        (Journal.serve_outcome cluster h.reliable step.1 step.2).2⟩

/-- Files that are level are as good as the store. -/
theorem Level.recoverable (hlawful : codec.Lawful) {world : World String} {journal : Journal}
    (h : Level codec now world journal) : Recoverable codec now world := by
  obtain ⟨state, hrecover, hstate⟩ := h.follows.written.recover hlawful
  have hlive : ∀ key later, now ≤ later →
      world.storage.live later key = (journal.memory key).filter (·.present later) :=
    fun key later hle => (h.follows.storage key).agree later hle
  refine ⟨⟨state, hrecover, fun key later hle => ?_⟩, ?_⟩
  · rw [hstate.reference_eq, h.durable key later hle, hlive key later hle]
  · intro other again coming hother hagain hexpired
    obtain rfl : state = other := Except.ok.inj (hrecover.symm.trans hother)
    obtain ⟨restored, hrun, hafter⟩ := restore_simulates hlawful h.follows.effects again coming
    have hrevive : journal.archive.contents.revive again = journal.archive.contents :=
      Journal.revive_eq (Restarts.none_expired_contents hstate hexpired)
    rw [h.follows.initial]
    refine ⟨restored, hrun, fun key later hlater => ?_⟩
    have hkey := (hafter.storage key).agree later hlater
    have hle : now ≤ later := Reading.le_trans hagain hlater
    rw [show (Archive.empty.applyAll journal.changes).contents.revive again =
      journal.archive.contents from hrevive, h.durable key later hle] at hkey
    exact hkey.trans (hlive key later hle).symm

/-- Whatever has failed in any lives of a server: once a snapshot has been taken and as long as file
operations succeed, what is read back from the files is what the store holds, and a server that is
started on them before a deadline in them has passed holds the same. The clock stands still within
an event, and a file operation that fails leaves no trace. -/
theorem snapshot_heals (hlawful : codec.Lawful) (cluster : Option ClusterCoordinator)
    (nowFn : Stream' Reading) (faults : Stream' Bool) (before : List Action)
    {first now last : Reading} (hbefore : Action.Ordered first before now)
    (hreliable : (Py.session (before.map (act codec cluster)) (start nowFn faults)).2.disk.faults =
      Stream'.const false)
    {event : Recovery.Event} (hevent : event = .snapshot ∨ Recovery.saves event = true)
    (steps : List (Reading × Recovery.Event))
    (hclock : (now :: steps.map Prod.fst ++ [last]).Pairwise (· ≤ ·)) :
    let reached := (Py.session (before.map (act codec cluster)) (start nowFn faults)).2
    let healed := (serve codec cluster now event reached).2
    let after := (Py.session (steps.map fun step => serve codec cluster step.1 step.2) healed).2
    Recoverable codec last after := by
  intro reached healed after
  obtain ⟨-, hreached⟩ := Restarts.run_simulates hlawful cluster before hbefore
    (follows_start nowFn faults first)
  generalize (Py.session (before.map (Journal.act cluster)) (Journal.start faults)).2 = journal
    at hreached
  have hfaults : journal.faults = Stream'.const false := hreached.faults.symm.trans hreliable
  obtain ⟨-, hhealed⟩ := serve_simulates cluster event hreached
  obtain ⟨last', hlevel⟩ := Level.run hlawful cluster steps hclock ⟨hhealed,
    Journal.durable_saves cluster hevent hfaults now,
    (Journal.serve_outcome cluster hfaults now event).2⟩
  exact hlevel.recoverable hlawful

omit [PyHash String] in
/-- The record of a session is lost, the session is in the files after the next snapshot, and a
server that is started on them before its deadline has it. -/
theorem snapshot_heals_session :
    let _ : PyHash String := ⟨fun key => key.length⟩
    let before : List Action :=
      [.serve (Reading.atSecond 1) (.command ⟨"SET", ["session", "open"]⟩)]
    let steps : List (Reading × Recovery.Event) :=
      [(Reading.atSecond 3, .command ⟨"EXPIRE", ["session", "100"]⟩)]
    let faults := Stream'.cons true (Stream'.const false)
    let reached := (Py.session (before.map (act JsonText.codec none))
      (start (Stream'.const (Reading.atSecond 0)) faults)).2
    let healed := (serve JsonText.codec none (Reading.atSecond 2) .snapshot reached).2
    let after := (Py.session (steps.map fun step => serve JsonText.codec none step.1 step.2)
      healed).2
    let again := Reading.atSecond 50
    Recoverable JsonText.codec (Reading.atSecond 4) after ∧
      ∃ restored, PersistenceManager.restore ⟨JsonText.codec⟩
          (found after.disk.initial after.disk.effects again (Stream'.const false)) =
          (.ok (), restored) ∧
        ∀ key later, again ≤ later →
          restored.storage.live later key = after.storage.live later key := by
  intro _ before steps faults reached healed after again
  have hle : ∀ first second : Fin (2 ^ 34), first ≤ second →
      Reading.atSecond first ≤ Reading.atSecond second := fun _ _ h => Reading.at_second_le h
  have hbefore : Action.Ordered (Reading.atSecond 0) before (Reading.atSecond 2) := by
    simp [before, Action.Ordered, Action.span, hle]
  have hclock : (Reading.atSecond 2 :: steps.map Prod.fst ++ [Reading.atSecond 4]).Pairwise
      (· ≤ ·) := by
    simp [steps, hle]
  -- the one fault has been met
  have hanswer : Journal.dispatch true (Reading.atSecond 1) none ⟨"SET", ["session", "open"]⟩ =
      Journal.answer true (Reading.atSecond 1) (.set "session" "open") := by
    rw [Journal.dispatch_local _ _ rfl, Query.of_command_set]
  have hleft : (Journal.serve none (Reading.atSecond 1) (.command ⟨"SET", ["session", "open"]⟩)
      (Journal.start faults)).2.faults = Stream'.const false := by
    simp only [Journal.serve, hanswer]
    rfl
  obtain ⟨-, hreached⟩ := Restarts.run_simulates JsonText.lawful none before hbefore
    (follows_start (Stream'.const (Reading.atSecond 0)) faults (Reading.atSecond 0))
  have hafter : Recoverable JsonText.codec (Reading.atSecond 4) after :=
    snapshot_heals JsonText.lawful none _ faults before hbefore (hreached.faults.trans hleft)
      (.inl rfl) steps hclock
  -- the deadline of the session is at second 103
  have hdeadlines : (PersistenceManager.recover ⟨JsonText.codec⟩ after.disk.files).toOption.all
      (fun state => state.expiresAt.entries.all fun entry => entry.2.gt again.time) = true := by
    decide +kernel
  obtain ⟨state, hrecover, -⟩ := hafter.recover
  rw [hrecover] at hdeadlines
  refine ⟨hafter, hafter.restore state again _ hrecover (hle 4 50 (by decide)) ?_⟩
  intro key value deadline hvalue hdeadline
  exact List.all_eq_true.mp hdeadlines (key, deadline) (Dict.mem_entries_iff.mpr hdeadline)

end World

end MiniRedis
