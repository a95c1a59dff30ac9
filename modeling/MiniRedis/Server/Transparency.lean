import MiniRedis.Server.Interference

/-!
# Persistence is transparent

A server with persistence beside one without that is sent the same commands. Whatever file
operations fail, both hold the same in their stores, and the replies are the same, but for those
to `SAVE` and to commands whose own file operation fails (`persistence_unnoticed`). The snapshots
in between change neither.
-/

namespace MiniRedis

namespace Query

theorem with_arity_save {name : String} {args : List String} {expected : Nat} {query : Query}
    (h : withArity name args expected query = .save) : args.length = expected ∧ query = .save := by
  unfold withArity at h
  split at h
  · next hlength => exact ⟨hlength, h⟩
  · cases h

theorem expire_after_ne_save (key seconds : String) : expireAfter key seconds ≠ .save := by
  unfold expireAfter
  split
  · simp
  · split <;> simp

/-- A command that asks for a snapshot has no key. -/
theorem key_of_save {command : Command} (h : ofCommand command = .save) : command.key = none := by
  have hargs : command.args.length = 0 := by
    simp only [ofCommand] at h
    split_ifs at h with hping hset hget hdel hexists hexpire httl hsave
    all_goals first
      | exact (with_arity_save h).1
      | exact absurd (with_arity_save h).2 (expire_after_ne_save _ _)
      | cases (with_arity_save h).2
  rw [Command.key, List.eq_nil_of_length_eq_zero hargs]

end Query

namespace Journal

open Py

variable {now : Reading} {left right : Journal}

/-- The number of writes of a computation if none of them fails. -/
def writes {α : Type} (action : Py Journal α) (journal : Journal) : Nat :=
  (action { journal with faults := Stream'.const false }).2.changes.length -
    journal.changes.length

/-- What a computation does with a log, `logged`, and without one, `plain`: the memory is the same
in the end, and so is the result, unless one of its own writes fails. -/
structure Unlogged {α : Type} (logged plain : Py Journal α) (left right : Journal) : Prop where
  memory : (logged left).2.memory = (plain right).2.memory
  result : (logged left).1 =
    if true ∈ left.faults.take (writes logged left) then .error .osError else (plain right).1

/-- A write keeps the memory and takes the next fault, and raises if that is one. -/
theorem write_run (change : Change) (journal : Journal) :
    ∃ after : Journal, write change journal =
        (if journal.faults.head then .error .osError else .ok (), after) ∧
      after.memory = journal.memory ∧ after.faults = journal.faults.tail ∧
      after.changes = journal.changes ++ if journal.faults.head then [] else [change] := by
  rw [write]
  split
  · exact ⟨_, rfl, rfl, rfl, (List.append_nil _).symm⟩
  · exact ⟨_, rfl, rfl, rfl, rfl⟩

/-- One of the first faults is met at once, or afterwards. -/
theorem mem_take_succ (faults : Stream' Bool) (count : Nat) :
    true ∈ faults.take (count + 1) ↔ faults.head = true ∨ true ∈ faults.tail.take count := by
  rw [Stream'.take_succ, List.mem_cons, eq_comm]

theorem Unlogged.of_runs {α : Type} {logged plain : Py Journal α} {count : Nat}
    (hwrites : writes logged left = count) {result : Except PyError α} {after after' : Journal}
    (hlogged : logged left =
      (if true ∈ left.faults.take count then .error .osError else result, after))
    (hplain : plain right = (result, after')) (hmemory : after.memory = after'.memory) :
    Unlogged logged plain left right := by
  refine ⟨?_, ?_⟩
  · rw [hlogged, hplain]
    exact hmemory
  · rw [hlogged, hplain, hwrites]

/-- A reply that is given once a record has been written, or without that. -/
theorem Unlogged.recorded (record : Record) (reply : Response) (h : left.memory = right.memory) :
    Unlogged (do log true record; return reply : Py Journal Response)
      (do log false record; return reply : Py Journal Response) left right := by
  have hwrites : writes (do log true record; return reply : Py Journal Response) left = 1 := by
    have hrun : (do log true record; return reply : Py Journal Response)
        { left with faults := Stream'.const false } = (.ok reply, { left with
          changes := left.changes ++ [.append record]
          faults := Stream'.const false }) :=
      bind_ok (@write_reliable { left with faults := Stream'.const false } rfl _)
    rw [writes, hrun]
    simp
  obtain ⟨after, hrun, hmemory, -, -⟩ := write_run (.append record) left
  refine .of_runs hwrites ?_ rfl (hmemory.trans h)
  by_cases hfault : left.faults.head = true
  · rw [if_pos hfault] at hrun
    rw [if_pos ((mem_take_succ _ _).mpr (.inl hfault))]
    exact bind_error hrun
  · rw [if_neg hfault] at hrun
    rw [if_neg (by simp [mem_take_succ, hfault])]
    exact bind_ok hrun

/-- Such a query does the same with a log and without one. -/
theorem answer_unlogged (now : Reading) {query : Query} (hquery : query ≠ .save)
    (h : left.memory = right.memory) :
    Unlogged (answer true now query) (answer false now query) left right := by
  rcases answer_cases now hquery right.memory with
    ⟨after, result, hrun⟩ | ⟨after, record, reply, hrun⟩
  · have hwrites : writes (answer true now query) left = 0 := by
      rw [writes, hrun true { left with faults := Stream'.const false } h]
      exact Nat.sub_self _
    exact .of_runs hwrites (hrun true left h) (hrun false right rfl) rfl
  · have hwrites : writes (answer true now query) left =
        writes (do log true record; return reply : Py Journal Response)
          { left with memory := after } := by
      rw [writes, hrun true { left with faults := Stream'.const false } h]
      rfl
    have hsame : Unlogged (do log true record; return reply : Py Journal Response)
        (do log false record; return reply : Py Journal Response)
        { left with memory := after } { right with memory := after } := .recorded record reply rfl
    refine ⟨?_, ?_⟩
    · rw [hrun true left h, hrun false right rfl]
      exact hsame.memory
    · rw [hwrites, hrun true left h, hrun false right rfl]
      exact hsame.result

/-- A snapshot keeps the memory, and raises if one of its own writes fails. -/
theorem snapshot_unlogged (now : Reading) (journal : Journal) :
    Unlogged (snapshot now) (pure ()) journal journal := by
  have hwrites : writes (snapshot now) journal =
      if journal.archive.log.isSome then 2 else 1 := by
    rw [writes, snapshot_reliable rfl, List.length_append, Nat.add_sub_cancel_left]
    show (_ :: if journal.archive.log.isSome then _ else _).length = _
    split <;> rfl
  obtain ⟨middle, hsave, hmemory, hfaults, hchanges⟩ :=
    write_run (.save (journal.memory.present now)) journal
  by_cases hfirst : journal.faults.head = true
  · have hmet : true ∈ journal.faults.take (if journal.archive.log.isSome then 2 else 1) := by
      split <;> exact (mem_take_succ _ _).mpr (.inl hfirst)
    rw [if_pos hfirst] at hsave
    refine .of_runs hwrites ?_ rfl hmemory
    rw [if_pos hmet, snapshot, bind_ok (get_apply journal), bind_error hsave]
  · rw [if_neg hfirst] at hsave hchanges
    have hlog : middle.archive.log = journal.archive.log := by
      rw [archive, hchanges, log_save]
      rfl
    have hrest : snapshot now journal =
        (if journal.archive.log.isSome then write .unlink else pure ()) middle := by
      rw [snapshot, bind_ok (get_apply journal), bind_ok hsave, bind_ok (get_apply middle), hlog]
    by_cases hsome : journal.archive.log.isSome
    · obtain ⟨after, hreset, hmemory', -, -⟩ := write_run .unlink middle
      rw [if_pos hsome] at hwrites
      refine .of_runs hwrites ?_ rfl (hmemory'.trans hmemory)
      rw [hrest, if_pos hsome, hreset, hfaults]
      simp [mem_take_succ, hfirst]
    · rw [if_neg hsome] at hwrites
      refine .of_runs hwrites ?_ rfl hmemory
      rw [hrest, if_neg hsome]
      simp [mem_take_succ, hfirst]

/-- A snapshot that somebody asks for is acknowledged if none of its writes fails. -/
theorem answer_save (now : Reading) (journal : Journal) :
    Unlogged (answer true now .save) (pure (.simpleString "OK")) journal journal := by
  have hsnapshot := snapshot_unlogged now journal
  have hrun : ∀ other, answer true now .save other =
      ((snapshot now other).1.map fun _ => .simpleString "OK", (snapshot now other).2) := by
    intro other
    show (do snapshot now; return .simpleString "OK" : Py Journal Response) other = _
    cases hrun : snapshot now other with
    | mk result after =>
        cases result with
        | ok done => exact bind_ok hrun
        | error error => exact bind_error hrun
  have hwrites : writes (answer true now .save) journal = writes (snapshot now) journal := by
    rw [writes, hrun]
    rfl
  refine ⟨?_, ?_⟩
  · rw [hrun]
    exact hsnapshot.memory
  · rw [hwrites, hrun, hsnapshot.result]
    split <;> rfl

end Journal

/-- Whether an event is a command that asks for a snapshot. -/
def Recovery.saves : Recovery.Event → Bool
  | .command command =>
      match Query.ofCommand command with
      | .save => true
      | _ => false
  | .snapshot => false

theorem Recovery.saves_iff {command : Command} :
    Recovery.saves (.command command) = true ↔ Query.ofCommand command = .save := by
  rw [Recovery.saves]
  generalize Query.ofCommand command = query
  cases query <;> simp

/-- The results of an event with persistence and without, where one of its own file operations fails
or not: a command raises then, and else it is answered the same, but for `SAVE`. -/
def Recovery.Excused (failed : Prop) (event : Recovery.Event)
    (kept plain : Except PyError (Option Response)) : Prop :=
  match event with
  | .snapshot => kept = plain
  | .command _ =>
      (failed → kept = .error .osError) ∧
        (¬failed →
          if Recovery.saves event = true then
            kept = .ok (some (.simpleString "OK")) ∧
              plain = .ok (some (Response.ofError "persistence is not enabled"))
          else kept = plain)

namespace Journal

variable (cluster : Option ClusterCoordinator) {left right : Journal}

/-- An event on a server without persistence, where there is no snapshot to take. -/
def serveUnlogged (now : Reading) : Recovery.Event → Py Journal (Option Response)
  | .command command => fun journal =>
      let (result, after) := dispatch false now cluster command journal
      (result.map some, after)
  | .snapshot => fun journal => (.ok none, journal)

/-- The routing refuses a command with a log and without one, or it is answered. -/
theorem dispatch_routed (now : Reading) (command : Command) :
    (Query.ofCommand command ≠ .save ∧ ∃ result, ∀ logging journal,
        dispatch logging now cluster command journal = (result, journal)) ∨
      ∀ logging, dispatch logging now cluster command =
        answer logging now (Query.ofCommand command) := by
  by_cases hlocal : (⟨none, cluster⟩ : Dispatcher).routeError command = .ok none
  · exact .inr fun logging => dispatch_local logging now hlocal
  · refine .inl ⟨fun hsave => hlocal ?_, ?_⟩
    · cases cluster with
      | none => rfl
      | some coordinator => simp [Dispatcher.routeError, Query.key_of_save hsave]
    · cases hroute : (⟨none, cluster⟩ : Dispatcher).routeError command with
      | error error =>
          refine ⟨.error error, fun logging journal => ?_⟩
          rw [dispatch, hroute]
          rfl
      | ok refusal =>
          cases refusal with
          | some message =>
              refine ⟨.ok (Response.ofError message), fun logging journal => ?_⟩
              rw [dispatch, hroute]
              rfl
          | none => exact absurd hroute hlocal

/-- An event with a log and without one. -/
theorem serve_unlogged (now : Reading) (event : Recovery.Event) (h : left.memory = right.memory) :
    Recovery.Excused (true ∈ left.faults.take (writes (serve cluster now event) left)) event
        (serve cluster now event left).1 (serveUnlogged cluster now event right).1 ∧
      (serve cluster now event left).2.memory =
        (serveUnlogged cluster now event right).2.memory := by
  cases event with
  | command command =>
      have hwrites : writes (serve cluster now (.command command)) left =
          writes (dispatch true now cluster command) left := rfl
      rw [hwrites]
      rcases dispatch_routed cluster now command with ⟨hsave, result, hrun⟩ | hrun
      · have hnone : writes (dispatch true now cluster command) left = 0 := by
          rw [writes, hrun]
          exact Nat.sub_self _
        rw [hnone]
        simp only [serve, serveUnlogged, hrun]
        exact ⟨⟨by simp, fun _ => by rw [if_neg (mt Recovery.saves_iff.mp hsave)]⟩, h⟩
      · simp only [serve, serveUnlogged, hrun]
        by_cases hsave : Query.ofCommand command = .save
        · have hanswer := answer_save now left
          have hplain : answer false now (Query.ofCommand command) right =
              (.ok (Response.ofError "persistence is not enabled"), right) := by
            rw [hsave]
            rfl
          rw [hplain, hsave]
          refine ⟨⟨fun hfailed => ?_, fun hdone => ?_⟩, hanswer.memory.trans h⟩
          · rw [hanswer.result, if_pos hfailed]
            rfl
          · rw [if_pos (Recovery.saves_iff.mpr hsave), hanswer.result, if_neg hdone]
            exact ⟨rfl, rfl⟩
        · have hanswer := answer_unlogged now hsave h
          refine ⟨⟨fun hfailed => ?_, fun hdone => ?_⟩, hanswer.memory⟩
          · rw [hanswer.result, if_pos hfailed]
            rfl
          · rw [if_neg (mt Recovery.saves_iff.mp hsave), hanswer.result, if_neg hdone]
  | snapshot => exact ⟨rfl, (snapshot_unlogged now left).memory.trans h⟩

end Journal

variable [PyHash String]

namespace World

open Py

variable {codec : JsonCodec String} {now : Reading} {kept plain : World String}

/-- An event on a server without persistence, while the clock stands still. -/
def serveUnlogged (cluster : Option ClusterCoordinator) (now : Reading) :
    Recovery.Event → Py (World String) (Option Response)
  | .command command => fun world =>
      let (result, after) := (⟨none, cluster⟩ : Dispatcher).dispatch command
        { world with storage := world.storage.atTime now }
      (result.map some, after)
  | .snapshot => fun world => (.ok none, world)

/-- Such an event does the same to a journal without a log. -/
theorem serve_unlogged_simulates (cluster : Option ClusterCoordinator) (event : Recovery.Event)
    {world : World String} {journal : Journal} (h : world.Follows codec now journal) :
    (serveUnlogged cluster now event world).1 =
        (Journal.serveUnlogged cluster now event journal).1 ∧
      (serveUnlogged cluster now event world).2.Follows codec now
        (Journal.serveUnlogged cluster now event journal).2 := by
  cases event with
  | command command =>
      have hserves : ({ world with storage := world.storage.atTime now } : World String).Serves
          codec now journal := ⟨⟨h.storage, h.initial, h.effects, h.faults⟩, rfl⟩
      have hsimulates : Simulates (Serves codec now)
          ((Dispatcher.withLog codec cluster false).dispatch command)
          (Journal.dispatch false now cluster command) (Dispatcher.Agree codec now)
          (Serves codec now) := Dispatcher.dispatch_simulates command
      obtain ⟨hresult, hafter⟩ := hsimulates.outcome hserves
      exact ⟨congrArg (Except.map some) hresult, hafter.toFollows⟩
  | snapshot => exact ⟨rfl, h⟩

/-- Whether one of the file operations of an event fails: those that it does if none of them
fails. -/
def Fails (codec : JsonCodec String) (cluster : Option ClusterCoordinator) (now : Reading)
    (event : Recovery.Event) (world : World String) : Prop :=
  let reliable := { world with disk := { world.disk with faults := Stream'.const false } }
  let operations := (serve codec cluster now event reliable).2.disk.effects.length -
    world.disk.effects.length
  true ∈ world.disk.faults.take operations

instance (codec : JsonCodec String) (cluster : Option ClusterCoordinator) (now : Reading)
    (event : Recovery.Event) (world : World String) :
    Decidable (Fails codec cluster now event world) :=
  inferInstanceAs (Decidable (true ∈ world.disk.faults.take _))

/-- Such an event fails if one of its writes in the journal does. -/
theorem fails_iff (cluster : Option ClusterCoordinator) (event : Recovery.Event)
    {world : World String} {journal : Journal} (h : world.Follows codec now journal) :
    Fails codec cluster now event world ↔
      true ∈ journal.faults.take (Journal.writes (Journal.serve cluster now event) journal) := by
  have hreliable : ({ world with disk := { world.disk with faults := Stream'.const false } } :
      World String).Follows codec now { journal with faults := Stream'.const false } :=
    ⟨h.storage, h.initial, h.effects, rfl⟩
  have hafter := (serve_simulates cluster event hreliable).2
  rw [Fails, hafter.effects.length_eq, h.effects.length_eq, h.faults]
  rfl

/-- A server with persistence and one without hold the same. -/
structure Transparent (codec : JsonCodec String) (now : Reading) (kept plain : World String)
    (left right : Journal) : Prop where
  kept : kept.Follows codec now left
  plain : plain.Follows codec now right
  memory : left.memory = right.memory

theorem Transparent.later {left right : Journal} (h : Transparent codec now kept plain left right)
    {later : Reading} (hle : now ≤ later) : Transparent codec later kept plain left right :=
  ⟨h.kept.later hle, h.plain.later hle, h.memory⟩

/-- An event on both servers. -/
theorem Transparent.step {left right : Journal} (h : Transparent codec now kept plain left right)
    (cluster : Option ClusterCoordinator) (event : Recovery.Event) :
    Recovery.Excused (Fails codec cluster now event kept) event
        (serve codec cluster now event kept).1 (serveUnlogged cluster now event plain).1 ∧
      Transparent codec now (serve codec cluster now event kept).2
        (serveUnlogged cluster now event plain).2 (Journal.serve cluster now event left).2
        (Journal.serveUnlogged cluster now event right).2 := by
  obtain ⟨hresult, hkept⟩ := serve_simulates cluster event h.kept
  obtain ⟨hresult', hplain⟩ := serve_unlogged_simulates cluster event h.plain
  obtain ⟨hexcused, hmemory⟩ := Journal.serve_unlogged cluster now event h.memory
  rw [hresult, hresult', fails_iff cluster event h.kept]
  exact ⟨hexcused, hkept, hplain, hmemory⟩

/-- A server with persistence holds in its store what a server without it holds after the same
events, whatever file operations have failed, and replies the same to the next event. It raises
where a file operation of this very event fails, and only `SAVE` is told apart: it is acknowledged,
or persistence is not enabled. The clock stands still within an event, and a file operation that
fails leaves no trace. -/
theorem persistence_unnoticed (codec : JsonCodec String) (cluster : Option ClusterCoordinator)
    (nowFn : Stream' Reading) (faults : Stream' Bool) (steps : List (Reading × Recovery.Event))
    {first now : Reading}
    (hclock : (first :: steps.map Prod.fst ++ [now]).Pairwise (· ≤ ·)) :
    let kept := (Py.session (steps.map fun step => serve codec cluster step.1 step.2)
      (start nowFn faults)).2
    let plain := (Py.session (steps.map fun step => serveUnlogged cluster step.1 step.2)
      (start nowFn faults)).2
    (∀ key later, now ≤ later →
      kept.storage.live later key = plain.storage.live later key) ∧
      ∀ event, Recovery.Excused (Fails codec cluster now event kept) event
        (serve codec cluster now event kept).1 (serveUnlogged cluster now event plain).1 := by
  intro kept plain
  have hstart : Transparent codec first (start nowFn faults) (start nowFn faults)
      (Journal.start faults) (Journal.start faults) :=
    ⟨follows_start nowFn faults first, follows_start nowFn faults first, rfl⟩
  obtain ⟨left, right, hnow⟩ := Py.runs_related
    (fun now kept plain => ∃ left right, Transparent codec now kept plain left right)
    Prod.fst (· ≤ ·) (fun _ _ _ _ hle ⟨left, right, h⟩ => ⟨left, right, h.later hle⟩)
    (fun (step : Reading × Recovery.Event) kept plain ⟨left, right, h⟩ =>
      ⟨_, _, (h.step cluster step.2).2⟩)
    steps hclock ⟨_, _, hstart⟩
  refine ⟨fun key later hle => ?_, fun event => (hnow.step cluster event).1⟩
  have hleft := (hnow.kept.storage key).agree later hle
  have hright := (hnow.plain.storage key).agree later hle
  rw [hnow.memory] at hleft
  exact hleft.trans hright.symm

omit [PyHash String] in
/-- The record of a session is lost, which its client is told, and the session is read as it is
without persistence; the client of the next record that is lost is told as well. -/
theorem persistence_unnoticed_session :
    let _ : PyHash String := ⟨fun key => key.length⟩
    let steps : List (Reading × Recovery.Event) :=
      [(Reading.atSecond 1, .command ⟨"SET", ["session", "open"]⟩),
        (Reading.atSecond 2, .command ⟨"SAVE", []⟩)]
    let now := Reading.atSecond 3
    let nowFn := Stream'.const (Reading.atSecond 0)
    let faults := Stream'.cons true (Stream'.cons false (Stream'.cons true (Stream'.const false)))
    let kept := (Py.session (steps.map fun step => serve JsonText.codec none step.1 step.2)
      (start nowFn faults)).2
    let plain := (Py.session (steps.map fun step => serveUnlogged none step.1 step.2)
      (start nowFn faults)).2
    kept.storage.live now "session" = plain.storage.live now "session" ∧
      (serve JsonText.codec none now (.command ⟨"GET", ["session"]⟩) kept).1 =
        (serveUnlogged none now (.command ⟨"GET", ["session"]⟩) plain).1 ∧
      (serve JsonText.codec none now (.command ⟨"SET", ["draft", "open"]⟩) kept).1 =
        .error .osError := by
  intro _ steps now nowFn faults kept plain
  have hle : ∀ first second : Fin (2 ^ 34), first ≤ second →
      Reading.atSecond first ≤ Reading.atSecond second := fun _ _ h => Reading.at_second_le h
  have hclock : (Reading.atSecond 0 :: steps.map Prod.fst ++ [now]).Pairwise (· ≤ ·) := by
    simp [steps, now, hle]
  obtain ⟨hlive, hnext⟩ := persistence_unnoticed JsonText.codec none nowFn faults steps hclock
  -- a `GET` does no file operation, and the record of the `SET` meets the fault that is left
  have hget : ¬Fails JsonText.codec none now (.command ⟨"GET", ["session"]⟩) kept := by
    decide +kernel
  have hset : Fails JsonText.codec none now (.command ⟨"SET", ["draft", "open"]⟩) kept := by
    decide +kernel
  have hquery : ¬Recovery.saves (.command ⟨"GET", ["session"]⟩) = true := by
    decide +kernel
  obtain ⟨-, hsame⟩ := hnext (.command ⟨"GET", ["session"]⟩)
  obtain ⟨hraised, -⟩ := hnext (.command ⟨"SET", ["draft", "open"]⟩)
  have hfound := hsame hget
  rw [if_neg hquery] at hfound
  exact ⟨hlive "session" now (Reading.le_refl now), hfound, hraised hset⟩

end World

end MiniRedis
