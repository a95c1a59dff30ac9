import MiniRedis.Persistence.Restore
import MiniRedis.Server.Recovery
import MiniRedis.Server.Refinement

/-!
# Lives of a server

A server serves commands and takes snapshots until the machine stops, perhaps in the middle of
an event, and `build_server` starts it again on the files that are there. File operations may
fail at any time. `lives_refine_journal` says that all of this is what the journal does.

The clock stands still within an event. A file operation happens as a whole or fails without a
trace, and the machine stops between two of them.
-/

namespace MiniRedis

/-- What happens to a server: an event takes place, or the machine stops when some of the file
operations of an event have happened, and the server is started again on a new machine. -/
inductive Action where
  | serve (now : Reading) (event : Recovery.Event)
  | restart (now : Reading) (event : Recovery.Event) (count : Nat) (again : Reading)
      (faults : Stream' Bool)

/-- When an action begins and ends. -/
def Action.span : Action → Reading × Reading
  | .serve now _ => (now, now)
  | .restart now _ _ again _ => (now, again)

/-- The clocks of the actions never go back, from a time and up to another one. -/
def Action.Ordered (first : Reading) (actions : List Action) (last : Reading) : Prop :=
  (first :: (actions.flatMap fun action => [action.span.1, action.span.2]) ++
    [last]).Pairwise (· ≤ ·)

namespace Journal

variable (cluster : Option ClusterCoordinator)

/-- An event: the reply to a command, or a snapshot that nobody waits for. -/
def serve (now : Reading) : Recovery.Event → Py Journal (Option Response)
  | .command command => fun journal =>
      let (result, after) := dispatch true now cluster command journal
      (result.map some, after)
  | .snapshot => fun journal => (.ok none, (snapshot now journal).2)

/-- What is written when some of the changes of an event have happened. -/
def interrupt (now : Reading) (event : Recovery.Event) (count : Nat) (journal : Journal) :
    List Change :=
  journal.changes ++
    ((serve cluster now event journal).2.changes.drop journal.changes.length).take count

/-- An action. A restart forgets the memory and brings back what is written. -/
def act : Action → Py Journal (Option Response)
  | .serve now event => serve cluster now event
  | .restart now event count again faults => fun journal =>
      let changes := interrupt cluster now event count journal
      (.ok none, ⟨(Archive.empty.applyAll changes).contents.revive again, changes, faults⟩)

end Journal

variable [PyHash String]

namespace World

variable (codec : JsonCodec String) (cluster : Option ClusterCoordinator)

/-- An event: a command is dispatched, or `_run_snapshot_once` takes a snapshot and swallows the
exception if that fails. The clock stands still meanwhile. -/
def serve (now : Reading) (event : Recovery.Event) : Py (World String) (Option Response) :=
    fun world =>
  let world := { world with storage := world.storage.atTime now }
  match event with
  | .command command =>
      let (result, after) := (Dispatcher.withLog codec cluster true).dispatch command world
      (result.map some, after)
  | .snapshot => (.ok none, (PersistenceManager.snapshot ⟨codec⟩ world).2)

/-- The file operations that have happened when an event is interrupted between two of its own. -/
def interrupt (now : Reading) (event : Recovery.Event) (count : Nat) (world : World String) :
    List FileEffect :=
  world.disk.effects ++
    ((serve codec cluster now event world).2.disk.effects.drop world.disk.effects.length).take count

/-- What `build_server` finds: an empty store, and the files. -/
def found (files : Files) (effects : List FileEffect) (again : Reading) (faults : Stream' Bool) :
    World String := ⟨InMemoryStore.init (Stream'.const again), files, effects, faults⟩

/-- An action. -/
def act : Action → Py (World String) (Option Response)
  | .serve now event => serve codec cluster now event
  | .restart now event count again faults => fun world =>
      let effects := interrupt codec cluster now event count world
      let (result, after) := PersistenceManager.restore ⟨codec⟩
        (found world.disk.initial effects again faults)
      (result.map fun _ => none, after)

/-- An empty store and an empty data directory. -/
def start (nowFn : Stream' Reading) (faults : Stream' Bool) : World String :=
  ⟨InMemoryStore.init nowFn, Files.empty, [], faults⟩

variable {codec cluster} {now : Reading} {world : World String} {journal : Journal}

/-- What the store holds from a time on, it holds from later times on. -/
theorem Follows.later (h : world.Follows codec now journal) {later : Reading} (hle : now ≤ later) :
    world.Follows codec later journal :=
  ⟨fun key => (h.storage key).later hle, h.initial, h.effects, h.faults⟩

/-- An event does the same to the journal. -/
theorem serve_simulates (cluster : Option ClusterCoordinator) (event : Recovery.Event)
    (h : world.Follows codec now journal) :
    (serve codec cluster now event world).1 = (Journal.serve cluster now event journal).1 ∧
      (serve codec cluster now event world).2.Follows codec now
        (Journal.serve cluster now event journal).2 := by
  have hserves : ({ world with storage := world.storage.atTime now } : World String).Serves codec
      now journal := ⟨⟨h.storage, h.initial, h.effects, h.faults⟩, rfl⟩
  cases event with
  | command command =>
      obtain ⟨hresult, hafter⟩ := (Dispatcher.dispatch_simulates command).outcome hserves
      exact ⟨congrArg (Except.map some) hresult, hafter.toFollows⟩
  | snapshot => exact ⟨rfl, (PersistenceManager.simulates_snapshot.after hserves).toFollows⟩

/-- What has happened to the files when an event is interrupted is what has been written. -/
theorem interrupt_carries_out (cluster : Option ClusterCoordinator) (event : Recovery.Event)
    (count : Nat) (h : world.Follows codec now journal) :
    List.Forall₂ (CarriesOut codec) (interrupt codec cluster now event count world)
      (Journal.interrupt cluster now event count journal) := by
  obtain ⟨-, hafter⟩ := serve_simulates cluster event h
  refine List.rel_append h.effects (List.forall₂_take count ?_)
  rw [h.effects.length_eq]
  exact List.forall₂_drop _ hafter.effects

omit [PyHash String] in
/-- A store that is loaded holds what comes back of the map that was written down. -/
theorem loaded_revive {state : ReplayState String} {contents : ReferenceStore String String}
    (h : state.Denotes contents) (hfinite : contents.Finite) (again : Reading) (key : String) :
    (InMemoryStore.loaded state.data state.expiresAt again key).Matches again
      (contents.revive again key) := by
  have hslot : InMemoryStore.loaded state.data state.expiresAt again key =
      Slot.ofEntry (contents.revive again key) := by
    rw [InMemoryStore.loaded, h.value, h.deadline, ReferenceStore.revive]
    cases contents key <;> rfl
  rw [hslot]
  refine .of_entry again fun expiresAt hdeadline => ?_
  have hkey := hfinite key
  rw [ReferenceStore.revive] at hdeadline
  cases hentry : contents key with
  | none =>
      rw [hentry] at hdeadline
      cases hdeadline
  | some entry =>
      rw [hentry] at hdeadline hkey
      exact hkey expiresAt (Option.filter_eq_some_iff.mp hdeadline).1

/-- A server that is started on files that can be read has what comes back of them. -/
theorem restore_simulates (hlawful : codec.Lawful) {effects : List FileEffect}
    {changes : List Change} (heffects : List.Forall₂ (CarriesOut codec) effects changes)
    (again : Reading) (faults : Stream' Bool) :
    ∃ after, PersistenceManager.restore ⟨codec⟩ (found Files.empty effects again faults) =
        (.ok (), after) ∧
      after.Follows codec again
        ⟨(Archive.empty.applyAll changes).contents.revive again, changes, faults⟩ := by
  have hwritten := Archive.written_empty.apply_all heffects
  obtain ⟨state, hrecover, hdenotes⟩ := hwritten.recover hlawful
  obtain ⟨after, hrun, hslots⟩ := InMemoryStore.load_at
    (InMemoryStore.init (Stream'.const again)) again state.data state.expiresAt
  refine ⟨{ found Files.empty effects again faults with storage := after }, ?_,
    fun key => ?_, rfl, heffects, rfl⟩
  · have hfiles : (found Files.empty effects again faults).disk.files =
        Files.empty.applyAll effects := rfl
    rw [PersistenceManager.restore, Py.bind_ok (Py.get_apply _), hfiles, hrecover]
    show onStorage _ _ = _
    simp only [onStorage, Py.zoom_apply]
    show (_, _) = _
    rw [show (found Files.empty effects again faults).storage =
      (InMemoryStore.init (Stream'.const again)).atTime again from rfl, hrun]
  · show (after.slot key).Matches _ _
    rw [hslots key]
    exact loaded_revive hdenotes hwritten.finite again key

/-- An action does the same to the journal. -/
theorem act_simulates (hlawful : codec.Lawful) (cluster : Option ClusterCoordinator)
    (action : Action) (h : world.Follows codec action.span.1 journal) :
    (act codec cluster action world).1 = (Journal.act cluster action journal).1 ∧
      (act codec cluster action world).2.Follows codec action.span.2
        (Journal.act cluster action journal).2 := by
  cases action with
  | serve now event => exact serve_simulates cluster event h
  | restart now event count again faults =>
      have hnow : world.Follows codec now journal := h
      obtain ⟨after, hrun, hafter⟩ := restore_simulates hlawful
        (interrupt_carries_out cluster event count hnow) again faults
      have hact : act codec cluster (.restart now event count again faults) world =
          (.ok none, after) := by
        simp only [act, h.initial, hrun]
        rfl
      rw [hact]
      exact ⟨rfl, hafter⟩

/-- A new server has nothing, and has written nothing. -/
theorem follows_start (nowFn : Stream' Reading) (faults : Stream' Bool) (now : Reading) :
    (start nowFn faults).Follows codec now (Journal.start faults) :=
  ⟨InMemoryStore.matches_init nowFn now, rfl, .nil, rfl⟩

end World

namespace Restarts

open World

variable {codec : JsonCodec String}

/-- Over any number of lives, a server does what the journal does. -/
theorem run_simulates (hlawful : codec.Lawful) (cluster : Option ClusterCoordinator)
    (actions : List Action) {first last : Reading} (hclock : Action.Ordered first actions last)
    {world : World String} {journal : Journal} (h : world.Follows codec first journal) :
    (Py.session (actions.map (act codec cluster)) world).1 =
        (Py.session (actions.map (Journal.act cluster)) journal).1 ∧
      (Py.session (actions.map (act codec cluster)) world).2.Follows codec last
        (Py.session (actions.map (Journal.act cluster)) journal).2 :=
  Py.runs_simulate (fun now world journal => World.Follows codec now world journal) Action.span
    (· ≤ ·) (fun _ _ _ _ hle h => h.later hle)
    (fun action _ _ _ h => act_simulates hlawful cluster action h) actions hclock h

/-- Over any number of lives of a server, whatever file operations fail without a trace and after
whichever of those of an event the machine stops, with a clock that stands still in it: every reply
and every exception is that of the journal, and no start raises; the store holds what is present in
the memory of the journal; and the files say what the journal has written. -/
theorem lives_refine_journal (hlawful : codec.Lawful) (cluster : Option ClusterCoordinator)
    (nowFn : Stream' Reading) (faults : Stream' Bool) (actions : List Action)
    {first last : Reading} (hclock : Action.Ordered first actions last) :
    let lives := Py.session (actions.map (act codec cluster)) (start nowFn faults)
    let journal := Py.session (actions.map (Journal.act cluster)) (Journal.start faults)
    lives.1 = journal.1 ∧
    (∀ key later, last ≤ later →
      lives.2.storage.live later key = (journal.2.memory key).filter (·.present later)) ∧
    ∃ state, PersistenceManager.recover ⟨codec⟩ lives.2.disk.files = .ok state ∧
      state.Denotes journal.2.archive.contents := by
  intro lives journal
  obtain ⟨hresults, hafter⟩ := run_simulates hlawful cluster actions hclock
    (follows_start nowFn faults first)
  refine ⟨hresults, fun key later hle => ?_, hafter.written.recover hlawful⟩
  exact (hafter.storage key).agree later hle

omit [PyHash String] in
/-- The first record of a session is lost, the second one is in the files when the machine stops
before the reply is sent, and the session is there when the server is started again. -/
theorem lives_refine_session :
    let _ : PyHash String := ⟨fun key => key.length⟩
    let actions : List Action :=
      [.serve (Reading.atSecond 1) (.command ⟨"SET", ["draft", "open"]⟩),
        .restart (Reading.atSecond 2) (.command ⟨"SET", ["session", "open"]⟩) 1
          (Reading.atSecond 3) (Stream'.const false),
        .serve (Reading.atSecond 4) (.command ⟨"GET", ["session"]⟩)]
    let faults : Stream' Bool := Stream'.cons true (Stream'.const false)
    let lives := Py.session (actions.map (act JsonText.codec none))
      (start (Stream'.const (Reading.atSecond 0)) faults)
    let journal := Py.session (actions.map (Journal.act none)) (Journal.start faults)
    lives.1 = journal.1 ∧
    (∀ key later, Reading.atSecond 5 ≤ later →
      lives.2.storage.live later key = (journal.2.memory key).filter (·.present later)) ∧
    ∃ state, PersistenceManager.recover ⟨JsonText.codec⟩ lives.2.disk.files = .ok state ∧
      state.Denotes journal.2.archive.contents := by
  intro _ actions faults
  have hle : ∀ first second : Fin (2 ^ 34), first ≤ second →
      Reading.atSecond first ≤ Reading.atSecond second := fun _ _ h => Reading.at_second_le h
  have hclock : Action.Ordered (Reading.atSecond 0) actions (Reading.atSecond 5) := by
    simp [actions, Action.Ordered, Action.span, hle]
  exact lives_refine_journal JsonText.lawful none _ faults actions hclock

end Restarts

end MiniRedis
