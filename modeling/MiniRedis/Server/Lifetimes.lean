import MiniRedis.Server.Isolation
import MiniRedis.Server.Restarts

/-!
# The server as a whole

`AsyncRedisServer` on its clients' connections, over the dispatcher, the hash tables and the files,
from the first `build_server` through any number of crashes. `served_in_one_order` says that all
its clients see is one sequence of commands, snapshots and restarts, carried out by the journal
one after the other.
-/

namespace MiniRedis

/-- What a server runs on: its dispatcher and its snapshots at a time, and how it is started again
on what is there when the machine has stopped, after some of the last writes. -/
structure Backend (σ : Type) where
  server : Reading → AsyncRedisServer σ
  restart (before : σ) (count : Nat) (again : Reading) (faults : Stream' Bool) : Py σ Unit

/-- A life of a server: what its clients send, the tasks in the order in which they run, and the
task in which the machine stops. -/
structure Lifetime (ι : Type) where
  inputs : ι → List {chunk : Bytes // chunk ≠ []}
  schedule : List (Reading × Wake ι)
  stop : Reading × Wake ι
  count : Nat
  again : Reading
  faults : Stream' Bool

/-- What happens in a life: the events, the one that was interrupted, what became of the
connections, and how the next start went. -/
structure Chronicle (ι : Type) where
  events : List (Reading × Event ι)
  interrupted : Option (Reading × Event ι)
  connections : ι → Connection
  started : Except PyError Unit

namespace Lifetime

variable {ι σ : Type}

/-- When things happen in a life. -/
def times (lifetime : Lifetime ι) : List Reading :=
  lifetime.schedule.map Prod.fst ++ [lifetime.stop.1, lifetime.again]

/-- The clock never goes back, from a time and up to another one. -/
def Ordered (first : Reading) (lifetimes : List (Lifetime ι)) (last : Reading) : Prop :=
  (first :: lifetimes.flatMap times ++ [last]).Pairwise (· ≤ ·)

variable [DecidableEq ι] (backend : Backend σ)

/-- A life. -/
def live (lifetime : Lifetime ι) (world : σ) : Chronicle ι × σ :=
  let life := (Concurrent.start lifetime.inputs world).live backend.server lifetime.schedule
  let task := life.2.wake (backend.server lifetime.stop.1) lifetime.stop.2
  let start := backend.restart life.2.world lifetime.count lifetime.again lifetime.faults
    task.2.world
  (⟨life.1, task.1.map (Prod.mk lifetime.stop.1), life.2.connections, start.1⟩, start.2)

/-- Lives one after the other. -/
def liveAll : List (Lifetime ι) → σ → List (Chronicle ι) × σ
  | [], world => ([], world)
  | lifetime :: rest, world =>
      let first := lifetime.live backend world
      let others := liveAll rest first.2
      (first.1 :: others.1, others.2)

/-- The events of a life one after the other, without connections and tasks: what becomes of the
items of each client, and what the next life starts with. -/
def replay (lifetime : Lifetime ι) (chronicle : Chronicle ι) (world : σ) :
    (ι → List Fate) × σ :=
  let life := (Event.aloneAll backend.server chronicle.events world).2
  let task := (Event.aloneAll backend.server chronicle.interrupted.toList life).2
  (fun client => Event.fatesOf backend.server client chronicle.events world,
    (backend.restart life lifetime.count lifetime.again lifetime.faults task).2)

/-- The events of lives. -/
def replayAll : List (Lifetime ι) → List (Chronicle ι) → σ → List (ι → List Fate) × σ
  | lifetime :: rest, chronicle :: others, world =>
      let first := lifetime.replay backend chronicle world
      let later := replayAll rest others first.2
      (first.1 :: later.1, later.2)
  | _, _, world => ([], world)

end Lifetime

section

variable {ι σ τ : Type} {R : σ → τ → Prop}

/-- Two servers over different states that stay related: the replies and the exceptions are the
same. -/
structure AsyncRedisServer.Mirrors (R : σ → τ → Prop) (left : AsyncRedisServer σ)
    (right : AsyncRedisServer τ) : Prop where
  dispatch : ∀ command, Py.Simulates R (left.dispatch command) (right.dispatch command)
    (fun a b s t => a = b ∧ R s t) R
  snapshot : Py.Simulates R left.snapshotCallback right.snapshotCallback (fun _ _ => R) R

variable {left : AsyncRedisServer σ} {right : AsyncRedisServer τ} {s : σ} {t : τ}

/-- A turn is the same for both servers. -/
theorem Connection.turn_mirrors (hmirrors : left.Mirrors R right) (connection : Connection)
    (h : R s t) :
    (connection.turn left s).1 = (connection.turn right t).1 ∧
      (connection.turn left s).2.1 = (connection.turn right t).2.1 ∧
      R (connection.turn left s).2.2 (connection.turn right t).2.2 := by
  unfold turn
  split
  · exact ⟨rfl, rfl, h⟩
  · split
    · exact ⟨rfl, rfl, h⟩
    · next message hparse =>
        cases RespEncoder.encode (Response.ofError message) with
        | error error => exact ⟨rfl, rfl, h⟩
        | ok reply => exact ⟨rfl, rfl, h⟩
    · next command consumed hparse =>
        have hanswer : Py.Simulates R (Service.answer left.dispatch command)
            (Service.answer right.dispatch command) (fun a b s t => a = b ∧ R s t) R := by
          refine .bind (hmirrors.dispatch command) fun reply reply' => ?_
          refine .given (fun s t h => h.1) fun hsame => ?_
          subst hsame
          exact (Py.Simulates.ofExcept _).strengthen fun s t h => h.2
        obtain ⟨hresult, hafter⟩ := hanswer.outcome h
        dsimp only
        generalize Service.answer left.dispatch command s = first at hresult hafter
        generalize Service.answer right.dispatch command t = second at hresult hafter
        obtain ⟨result, after⟩ := first
        obtain ⟨result', after'⟩ := second
        obtain rfl : result = result' := hresult
        cases result with
        | error error => exact ⟨rfl, rfl, hafter⟩
        | ok reply => exact ⟨rfl, rfl, hafter⟩

theorem Connection.wake_mirrors (hmirrors : left.Mirrors R right) (connection : Connection)
    (h : R s t) :
    (connection.wake left s).1 = (connection.wake right t).1 ∧
      (connection.wake left s).2.1 = (connection.wake right t).2.1 ∧
      R (connection.wake left s).2.2 (connection.wake right t).2.2 := by
  obtain ⟨pending, buffer, phase, written⟩ := connection
  cases phase with
  | reading =>
      cases pending with
      | nil => exact ⟨rfl, rfl, h⟩
      | cons chunk rest => exact turn_mirrors hmirrors _ h
  | draining => exact turn_mirrors hmirrors _ h
  | errorDraining => exact ⟨rfl, rfl, h⟩
  | closed => exact ⟨rfl, rfl, h⟩

namespace Concurrent

/-- The connections are the same, over states that are related. -/
structure Mirrors (R : σ → τ → Prop) (left : Concurrent ι σ) (right : Concurrent ι τ) : Prop where
  connections : left.connections = right.connections
  world : R left.world right.world

variable [DecidableEq ι]

theorem wake_mirrors (hmirrors : left.Mirrors R right) {state : Concurrent ι σ}
    {state' : Concurrent ι τ} (h : state.Mirrors R state') (task : Wake ι) :
    (state.wake left task).1 = (state'.wake right task).1 ∧
      (state.wake left task).2.Mirrors R (state'.wake right task).2 := by
  obtain ⟨connections, world⟩ := state
  obtain ⟨connections', world'⟩ := state'
  obtain ⟨rfl, hworld⟩ : connections = connections' ∧ R world world' := ⟨h.connections, h.world⟩
  cases task with
  | resume client =>
      obtain ⟨hitem, hconnection, hafter⟩ :=
        Connection.wake_mirrors hmirrors (connections client) hworld
      exact ⟨congrArg (Option.map (Event.served client)) hitem,
        congrArg (Function.update connections client) hconnection, hafter⟩
  | lose client => exact ⟨rfl, rfl, hworld⟩
  | snapshot => exact ⟨rfl, rfl, hmirrors.snapshot.after hworld⟩

end Concurrent

end

namespace Backend

variable {ι σ τ : Type} [DecidableEq ι]

/-- Two backends that do the same while time passes. -/
structure Mirrors (R : Reading → σ → τ → Prop) (left : Backend σ) (right : Backend τ) : Prop where
  later : ∀ {first second s t}, first ≤ second → R first s t → R second s t
  server : ∀ now, (left.server now).Mirrors (R now) (right.server now)
  restart : ∀ {now again s t s' t'} (count faults), now ≤ again → R now s t → R now s' t' →
    (left.restart s count again faults s').1 = (right.restart t count again faults t').1 ∧
      R again (left.restart s count again faults s').2 (right.restart t count again faults t').2

variable {R : Reading → σ → τ → Prop} {left : Backend σ} {right : Backend τ}

/-- The tasks of a life are the same on both. -/
theorem Mirrors.tasks (hmirrors : left.Mirrors R right) (schedule : List (Reading × Wake ι))
    {first last : Reading}
    (hclock : (first :: schedule.map Prod.fst ++ [last]).Pairwise (· ≤ ·))
    {state : Concurrent ι σ} {state' : Concurrent ι τ} (h : state.Mirrors (R first) state') :
    (state.live left.server schedule).1 = (state'.live right.server schedule).1 ∧
      (state.live left.server schedule).2.Mirrors (R last)
        (state'.live right.server schedule).2 := by
  induction schedule generalizing first state state' with
  | nil =>
      have hle : first ≤ last := (List.pairwise_cons.mp hclock).1 last (by simp)
      exact ⟨rfl, h.connections, hmirrors.later hle h.world⟩
  | cons task rest ih =>
      obtain ⟨now, task⟩ := task
      obtain ⟨hfirst, hrest⟩ := List.pairwise_cons.mp hclock
      have hle : first ≤ now := hfirst now (by simp)
      have hnow : state.Mirrors (R now) state' := ⟨h.connections, hmirrors.later hle h.world⟩
      obtain ⟨hevent, hmiddle⟩ := Concurrent.wake_mirrors (hmirrors.server now) hnow task
      obtain ⟨hevents, hlast⟩ := ih hrest hmiddle
      simp only [Concurrent.live]
      rw [hevent, hevents]
      exact ⟨rfl, hlast⟩

omit [DecidableEq ι] in
/-- The clock of the first life, and of those after it. -/
theorem ordered_cons {lifetime : Lifetime ι} {rest : List (Lifetime ι)} {first last : Reading}
    (h : Lifetime.Ordered first (lifetime :: rest) last) :
    (first :: lifetime.schedule.map Prod.fst ++ [lifetime.stop.1]).Pairwise (· ≤ ·) ∧
      lifetime.stop.1 ≤ lifetime.again ∧ Lifetime.Ordered lifetime.again rest last := by
  have hall : (first :: lifetime.schedule.map Prod.fst ++ ([lifetime.stop.1] ++
      (lifetime.again :: rest.flatMap Lifetime.times ++ [last]))).Pairwise (· ≤ ·) := by
    simpa [Lifetime.Ordered, Lifetime.times] using h
  have htail := (List.pairwise_append.mp hall).2.1
  refine ⟨hall.sublist ?_, (List.pairwise_cons.mp htail).1 _ (by simp),
    (List.pairwise_cons.mp htail).2⟩
  exact (List.Sublist.refl _).append (List.sublist_append_left _ _)

/-- A life is the same on both. -/
theorem Mirrors.live (hmirrors : left.Mirrors R right) (lifetime : Lifetime ι) {first : Reading}
    (hclock : (first :: lifetime.schedule.map Prod.fst ++ [lifetime.stop.1]).Pairwise (· ≤ ·))
    (hagain : lifetime.stop.1 ≤ lifetime.again) {s : σ} {t : τ} (h : R first s t) :
    (lifetime.live left s).1 = (lifetime.live right t).1 ∧
      R lifetime.again (lifetime.live left s).2 (lifetime.live right t).2 := by
  have hstart : (Concurrent.start lifetime.inputs s).Mirrors (R first)
      (Concurrent.start lifetime.inputs t) := ⟨rfl, h⟩
  obtain ⟨hevents, hlife⟩ := hmirrors.tasks lifetime.schedule hclock hstart
  obtain ⟨hevent, htask⟩ :=
    Concurrent.wake_mirrors (hmirrors.server lifetime.stop.1) hlife lifetime.stop.2
  obtain ⟨hstarted, hafter⟩ :=
    hmirrors.restart lifetime.count lifetime.faults hagain hlife.world htask.world
  refine ⟨?_, hafter⟩
  simp only [Lifetime.live]
  rw [hevents, hevent, hlife.connections, hstarted]

/-- All lives are the same on both. -/
theorem Mirrors.live_all (hmirrors : left.Mirrors R right) (lifetimes : List (Lifetime ι))
    {first last : Reading} (hclock : Lifetime.Ordered first lifetimes last) {s : σ} {t : τ}
    (h : R first s t) :
    (Lifetime.liveAll left lifetimes s).1 = (Lifetime.liveAll right lifetimes t).1 ∧
      R last (Lifetime.liveAll left lifetimes s).2 (Lifetime.liveAll right lifetimes t).2 := by
  induction lifetimes generalizing first s t with
  | nil =>
      have hle : first ≤ last := (List.pairwise_cons.mp hclock).1 last (by simp)
      exact ⟨rfl, hmirrors.later hle h⟩
  | cons lifetime rest ih =>
      obtain ⟨hlife, hagain, hrest⟩ := ordered_cons hclock
      obtain ⟨hsame, hnext⟩ := hmirrors.live lifetime hlife hagain h
      obtain ⟨hothers, hlast⟩ := ih hrest hnext
      exact ⟨congrArg₂ List.cons hsame hothers, hlast⟩

end Backend

namespace Lifetime

variable {ι σ : Type} [DecidableEq ι] (backend : Backend σ)

/-- What the clients of a life see, if this is what becomes of their items: each client has been
treated as if only its own failures had happened. -/
def Sees (lifetime : Lifetime ι) (chronicle : Chronicle ι) (fates : ι → List Fate) : Prop :=
  ∀ client, (chronicle.connections client).Treated (lifetime.inputs client)
    (.lose client ∈ lifetime.schedule.map Prod.snd) (fates client)

/-- The events of a life, one after the other, leave what the life leaves. -/
theorem replay_live (lifetime : Lifetime ι) (world : σ) :
    (lifetime.replay backend (lifetime.live backend world).1 world).2 =
        (lifetime.live backend world).2 ∧
      lifetime.Sees (lifetime.live backend world).1
        (lifetime.replay backend (lifetime.live backend world).1 world).1 := by
  have hlife := Concurrent.reckons_live backend.server lifetime.inputs world lifetime.schedule
  have htask := hlife.wake lifetime.stop.1 lifetime.stop.2
  have hworld := htask.world
  rw [Event.alone_all_append, hlife.world] at hworld
  refine ⟨?_, fun client => (hlife.conversation client).treated (hlife.written client)⟩
  simp only [replay, live, hlife.world, Option.toList_map] at hworld ⊢
  rw [hworld]

/-- The events of all lives, one after the other. -/
theorem replay_live_all (lifetimes : List (Lifetime ι)) (world : σ) :
    (replayAll backend lifetimes (liveAll backend lifetimes world).1 world).2 =
        (liveAll backend lifetimes world).2 ∧
      List.Forall₂ (fun life fates => Sees life.1 life.2 fates)
        (lifetimes.zip (liveAll backend lifetimes world).1)
        (replayAll backend lifetimes (liveAll backend lifetimes world).1 world).1 := by
  induction lifetimes generalizing world with
  | nil => exact ⟨rfl, .nil⟩
  | cons lifetime rest ih =>
      obtain ⟨hafter, hsees⟩ := replay_live backend lifetime world
      obtain ⟨hothers, hlater⟩ := ih (lifetime.live backend world).2
      simp only [liveAll, replayAll, hafter]
      exact ⟨hothers, .cons hsees hlater⟩

end Lifetime

/-- The journal, which is written up to some change when the machine stops. -/
def Journal.backend (cluster : Option ClusterCoordinator) : Backend Journal where
  server now := ⟨dispatch true now cluster, snapshot now⟩
  restart before count again faults := fun after =>
    let changes := before.changes ++ (after.changes.drop before.changes.length).take count
    (.ok (), ⟨(Archive.empty.applyAll changes).contents.revive again, changes, faults⟩)

theorem Journal.live_started {ι : Type} [DecidableEq ι] (cluster : Option ClusterCoordinator)
    (lifetimes : List (Lifetime ι)) (journal : Journal) :
    ∀ chronicle ∈ (Lifetime.liveAll (backend cluster) lifetimes journal).1,
      chronicle.started = .ok () := by
  induction lifetimes generalizing journal with
  | nil =>
      intro chronicle h
      cases h
  | cons lifetime rest ih =>
      intro chronicle h
      cases h with
      | head => rfl
      | tail _ hlater => exact ih _ chronicle hlater

namespace World

variable [PyHash String] {codec : JsonCodec String}

/-- What `build_server` puts together: the dispatcher with its manager and its coordinator, whose
clock stands still while a task runs; and the manager when it restores the files. -/
def backend (codec : JsonCodec String) (cluster : Option ClusterCoordinator) :
    Backend (World String) where
  server now :=
    ⟨fun command world => (Dispatcher.withLog codec cluster true).dispatch command
        { world with storage := world.storage.atTime now },
      fun world => PersistenceManager.snapshot ⟨codec⟩
        { world with storage := world.storage.atTime now }⟩
  restart before count again faults := fun after =>
    PersistenceManager.restore ⟨codec⟩ (found before.disk.initial (before.disk.effects ++
      (after.disk.effects.drop before.disk.effects.length).take count) again faults)

/-- The files and the store do what the journal does. -/
theorem backend_mirrors (hlawful : codec.Lawful) (cluster : Option ClusterCoordinator) :
    (backend codec cluster).Mirrors (fun now world journal => world.Follows codec now journal)
      (Journal.backend cluster) := by
  have hserves : ∀ {now : Reading} {world : World String} {journal : Journal},
      world.Follows codec now journal →
      ({ world with storage := world.storage.atTime now } : World String).Serves codec now
        journal := fun h => ⟨⟨h.storage, h.initial, h.effects, h.faults⟩, rfl⟩
  refine ⟨fun hle h => h.later hle, fun now => ⟨fun command => ?_, ?_⟩,
    fun count faults hagain h h' => ?_⟩
  · exact (Dispatcher.dispatch_simulates command).prepared _ (fun _ _ h => hserves h)
      (fun _ _ _ _ h => ⟨h.1, h.2.toFollows⟩) fun _ _ h => h.toFollows
  · exact PersistenceManager.simulates_snapshot.prepared _ (fun _ _ h => hserves h)
      (fun _ _ _ _ h => h.toFollows) fun _ _ h => h.toFollows
  · rename_i now again world journal world' journal'
    have heffects : List.Forall₂ (CarriesOut codec)
        (world.disk.effects ++
          (world'.disk.effects.drop world.disk.effects.length).take count)
        (journal.changes ++ (journal'.changes.drop journal.changes.length).take count) := by
      refine List.rel_append h.effects (List.forall₂_take count ?_)
      rw [h.effects.length_eq]
      exact List.forall₂_drop _ h'.effects
    obtain ⟨after, hrun, hafter⟩ := restore_simulates hlawful heffects again faults
    simp only [backend, Journal.backend, h.initial, hrun]
    exact ⟨trivial, hafter⟩

/-- Over any number of lives of a server, with any clients, however its tasks are interleaved,
whatever raises, whatever file operations fail without a trace and after whichever of those of a
task the machine stops, with a clock that stands still in it: every start succeeds; and carrying
out the events of each life one after the other, and the restarts in between, the journal treats
each client as it was treated, ends with what is in the store, and has written what is in the
files. -/
theorem served_in_one_order {ι : Type} [DecidableEq ι] (hlawful : codec.Lawful)
    (cluster : Option ClusterCoordinator) (nowFn : Stream' Reading) (faults : Stream' Bool)
    (lifetimes : List (Lifetime ι)) {first last : Reading}
    (hclock : Lifetime.Ordered first lifetimes last) :
    let lives := Lifetime.liveAll (backend codec cluster) lifetimes (start nowFn faults)
    let serial := Lifetime.replayAll (Journal.backend cluster) lifetimes lives.1
      (Journal.start faults)
    (∀ chronicle ∈ lives.1, chronicle.started = .ok ()) ∧
    List.Forall₂ (fun life fates => Lifetime.Sees life.1 life.2 fates)
      (lifetimes.zip lives.1) serial.1 ∧
    (∀ key later, last ≤ later →
      lives.2.storage.live later key = (serial.2.memory key).filter (·.present later)) ∧
    ∃ state, PersistenceManager.recover ⟨codec⟩ lives.2.disk.files = .ok state ∧
      state.Denotes serial.2.archive.contents := by
  intro lives serial
  obtain ⟨hsame, hafter⟩ := (backend_mirrors hlawful cluster).live_all lifetimes hclock
    (follows_start nowFn faults first)
  obtain ⟨hworld, hsees⟩ :=
    Lifetime.replay_live_all (Journal.backend cluster) lifetimes (Journal.start faults)
  have hserial : serial = Lifetime.replayAll (Journal.backend cluster) lifetimes
      (Lifetime.liveAll (Journal.backend cluster) lifetimes (Journal.start faults)).1
      (Journal.start faults) := congrArg
    (fun chronicles => Lifetime.replayAll (Journal.backend cluster) lifetimes chronicles
      (Journal.start faults)) hsame
  rw [← hworld, ← hserial] at hafter
  rw [← hserial, ← hsame] at hsees
  refine ⟨fun chronicle h => ?_, hsees, fun key later hle => (hafter.storage key).agree later hle,
    hafter.written.recover hlawful⟩
  exact Journal.live_started cluster lifetimes _ chronicle (hsame ▸ h)

omit [PyHash String] in
/-- One client sends a command while the other one is served, and the machine stops before its reply
is sent, but behind the record; in the next life a client finds the value. -/
theorem served_in_one_order_session :
    let _ : PyHash String := ⟨fun key => key.length⟩
    let set : {chunk : Bytes // chunk ≠ []} :=
      ⟨Bytes.ofText "*3\r\n$3\r\nSET\r\n$1\r\nk\r\n$1\r\nv\r\n", by decide⟩
    let get : {chunk : Bytes // chunk ≠ []} :=
      ⟨Bytes.ofText "*2\r\n$3\r\nGET\r\n$1\r\nk\r\n", by decide⟩
    let lifetimes : List (Lifetime Bool) :=
      [⟨fun first => if first then [get] else [set], [(Reading.atSecond 1, .resume true),
          (Reading.atSecond 2, .snapshot)], (Reading.atSecond 3, .resume false), 1,
          Reading.atSecond 4, Stream'.const false⟩,
        ⟨fun first => if first then [get] else [], [(Reading.atSecond 5, .resume false),
          (Reading.atSecond 6, .resume true)], (Reading.atSecond 7, .snapshot), 0,
          Reading.atSecond 8, Stream'.const true⟩]
    let nowFn := Stream'.const (Reading.atSecond 0)
    let lives := Lifetime.liveAll (backend JsonText.codec none) lifetimes
      (start nowFn (Stream'.const false))
    let serial := Lifetime.replayAll (Journal.backend none) lifetimes lives.1
      (Journal.start (Stream'.const false))
    (∀ chronicle ∈ lives.1, chronicle.started = .ok ()) ∧
    List.Forall₂ (fun life fates => Lifetime.Sees life.1 life.2 fates)
      (lifetimes.zip lives.1) serial.1 ∧
    (∀ key later, Reading.atSecond 9 ≤ later →
      lives.2.storage.live later key = (serial.2.memory key).filter (·.present later)) ∧
    ∃ state, PersistenceManager.recover ⟨JsonText.codec⟩ lives.2.disk.files = .ok state ∧
      state.Denotes serial.2.archive.contents := by
  intro _ set get lifetimes nowFn
  have hle : ∀ first second : Fin (2 ^ 34), first ≤ second →
      Reading.atSecond first ≤ Reading.atSecond second := fun _ _ h => Reading.at_second_le h
  have hclock : Lifetime.Ordered (Reading.atSecond 0) lifetimes (Reading.atSecond 9) := by
    simp [lifetimes, Lifetime.Ordered, Lifetime.times, hle]
  exact served_in_one_order JsonText.lawful none nowFn _ lifetimes hclock

end World

end MiniRedis
