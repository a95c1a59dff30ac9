import MiniRedis.Server.Continuity

/-!
# Keys do not interfere

Whoever uses some of the keys does not notice what others do with the rest: as long as the files
can be written, the commands on a set of keys get the replies, and leave in the store and in the
files, what they would without the commands on other keys in between (`keys_do_not_interfere`).
This includes snapshots, which write all keys and start a new log, and the eviction of keys whose
deadline has passed. Commands without a key may be left out or not.
-/

namespace MiniRedis

/-- The key of an event, if it is a command on one. -/
def Recovery.key? : Recovery.Event → Option String
  | .command command => (Query.ofCommand command).key?
  | .snapshot => none

namespace Journal

open Py

/-- The memories hold the same under some of the keys from a time on, and no write fails. -/
structure AlikeOn (mine : String → Bool) (now : Reading) (left right : Journal) : Prop where
  memory : ∀ key, mine key = true → ∀ later, now ≤ later →
    (left.memory key).filter (·.present later) = (right.memory key).filter (·.present later)
  reliable : left.faults = Stream'.const false
  reliable' : right.faults = Stream'.const false

variable {mine : String → Bool} {now : Reading} {journal left right : Journal}

theorem AlikeOn.later (h : left.AlikeOn mine now right) {later : Reading} (hle : now ≤ later) :
    left.AlikeOn mine later right :=
  ⟨fun key hkey last hlast => h.memory key hkey last (Reading.le_trans hle hlast), h.reliable,
    h.reliable'⟩

theorem AlikeOn.symm (h : left.AlikeOn mine now right) : right.AlikeOn mine now left :=
  ⟨fun key hkey later hle => (h.memory key hkey later hle).symm, h.reliable', h.reliable⟩

/-- What is alike under all keys is alike under some. -/
theorem AlikeOn.of_alike {middle : Journal} (h : left.Alike now middle)
    (hmiddle : middle.AlikeOn mine now right) : left.AlikeOn mine now right :=
  ⟨fun key hkey later hle => (h.memory key later hle).trans (hmiddle.memory key hkey later hle),
    h.reliable, hmiddle.reliable'⟩

/-- A query on one of the keys, or on none, does not tell the memories apart. -/
theorem alike_on_answer (now : Reading) {query : Query}
    (hquery : ∀ key, query.key? = some key → mine key = true) :
    Simulates (AlikeOn mine now) (answer true now query) (answer true now query)
      (fun a b left right => a = b ∧ left.AlikeOn mine now right) (AlikeOn mine now) := by
  refine answer_related now query (fun key hkey => ?_) (fun key entry _ => ?_) (fun record => ?_)
    fun _ => ?_
  · exact ⟨fun left right h => ⟨h.memory key (hquery key hkey) now (Reading.le_refl now), h⟩⟩
  · refine ⟨fun left right h => ⟨rfl, fun other hother later hle => ?_, h.reliable, h.reliable'⟩⟩
    show (Function.update left.memory key entry other).filter _ =
      (Function.update right.memory key entry other).filter _
    rw [filter_update, filter_update, h.memory other hother later hle]
  · refine ⟨fun left right h => ?_⟩
    rw [log, if_pos rfl, write_reliable h.reliable, write_reliable h.reliable']
    exact ⟨rfl, h.memory, h.reliable, h.reliable'⟩
  · refine ⟨fun left right h => ?_⟩
    rw [snapshot_reliable h.reliable, snapshot_reliable h.reliable']
    exact ⟨rfl, h.memory, h.reliable, h.reliable'⟩

/-- A write changes nothing in the memory. -/
theorem memory_write (change : Change) (journal : Journal) :
    (write change journal).2.memory = journal.memory := by
  rw [write]
  split <;> rfl

/-- A snapshot changes nothing in the memory. -/
theorem memory_snapshot (now : Reading) (journal : Journal) :
    (snapshot now journal).2.memory = journal.memory := by
  have hsaved := memory_write (.save (journal.memory.present now)) journal
  rw [snapshot, bind_ok (get_apply journal)]
  cases hwrite : write (.save (journal.memory.present now)) journal with
  | mk result middle =>
      rw [hwrite] at hsaved
      cases result with
      | error error =>
          rw [bind_error hwrite]
          exact hsaved
      | ok done =>
          rw [bind_ok hwrite, bind_ok (get_apply middle)]
          by_cases hlog : middle.archive.log.isSome
          · rw [if_pos hlog]
            exact (memory_write .unlink middle).trans hsaved
          · rw [if_neg hlog]
            exact hsaved

/-- A query leaves alone what is under another key than its own. -/
theorem answer_frame (now : Reading) {query : Query} {other : String}
    (hother : query.key? ≠ some other) (journal : Journal) :
    (answer true now query journal).2.memory other = journal.memory other := by
  -- the journal runs beside itself
  have hself : ∀ {α : Type} {action : Py Journal α},
      (∀ seen : Journal, (action seen).2.memory other = seen.memory other) →
      Simulates (fun left right => left = right ∧ left.memory other = journal.memory other) action
        action (fun a b left right => a = b ∧ left = right ∧
          left.memory other = journal.memory other)
        fun left right => left = right ∧ left.memory other = journal.memory other := by
    intro α action haction
    refine ⟨fun left right h => ?_⟩
    obtain ⟨rfl, hentry⟩ := h
    have hafter := (haction left).trans hentry
    generalize action left = run at hafter
    obtain ⟨result, after⟩ := run
    cases result with
    | ok a => exact ⟨rfl, rfl, hafter⟩
    | error error => exact ⟨rfl, rfl, hafter⟩
  refine ((answer_related now query (fun key _ => hself fun _ => rfl) (fun key entry hkey => ?_)
    (fun record => hself fun seen => ?_) fun _ => hself fun seen => ?_).outcome ⟨rfl, rfl⟩).2.2
  · have hne : other ≠ key := fun h => hother (h ▸ hkey)
    exact hself fun seen => Function.update_of_ne hne _ _
  · rw [log, if_pos rfl, memory_write]
  · rw [memory_snapshot]

variable (cluster : Option ClusterCoordinator)

/-- A command on one of the keys, or an event without a key, does not tell the memories apart. -/
theorem alike_on_serve {event : Recovery.Event}
    (hevent : ∀ key, Recovery.key? event = some key → mine key = true)
    (h : left.AlikeOn mine now right) :
    (serve cluster now event left).1 = (serve cluster now event right).1 ∧
      (serve cluster now event left).2.AlikeOn mine now (serve cluster now event right).2 := by
  cases event with
  | command command =>
      rcases dispatch_cases cluster now command with ⟨result, hrun⟩ | hanswer
      · have hserve : ∀ journal, serve cluster now (.command command) journal =
            (result.map some, journal) := by
          intro journal
          simp only [serve, hrun]
        rw [hserve, hserve]
        exact ⟨rfl, h⟩
      · have hquery : ∀ key, (Query.ofCommand command).key? = some key → mine key = true := hevent
        generalize Query.ofCommand command = query at hanswer hquery
        obtain ⟨hresult, hafter⟩ := (alike_on_answer now hquery).outcome h
        simp only [serve, hanswer]
        exact ⟨congrArg (Except.map some) hresult, hafter⟩
  | snapshot =>
      simp only [serve, snapshot_reliable h.reliable, snapshot_reliable h.reliable']
      exact ⟨trivial, h.memory, h.reliable, h.reliable'⟩

/-- A command on another key, or an event without a key, is not seen, at whatever time it is. -/
theorem alike_on_skip (now : Reading) {since : Reading} {event : Recovery.Event}
    (hevent : ∀ key, Recovery.key? event = some key → mine key = false)
    (h : left.AlikeOn mine since right) :
    (serve cluster now event left).2.AlikeOn mine since right := by
  obtain ⟨-, hreliable⟩ := serve_outcome cluster h.reliable now event
  refine ⟨fun key hkey later hle => ?_, hreliable, h.reliable'⟩
  rw [← h.memory key hkey later hle]
  refine congrArg _ ?_
  cases event with
  | command command =>
      rcases dispatch_cases cluster now command with ⟨result, hrun⟩ | hanswer
      · have hserve : (serve cluster now (.command command) left).2 = left :=
          congrArg Prod.snd (hrun left)
        rw [hserve]
      · have hserve : (serve cluster now (.command command) left).2 =
            (answer true now (Query.ofCommand command) left).2 :=
          congrArg (fun run => (run left).2) hanswer
        rw [hserve]
        refine answer_frame now (fun hsame => ?_) left
        rw [hevent key hsame] at hkey
        exact Bool.false_ne_true hkey
  | snapshot =>
      have hserve : (serve cluster now .snapshot left).2 = (snapshot now left).2 := rfl
      rw [hserve, memory_snapshot]

/-- An event leaves in the files what it leaves in the memory. -/
theorem durable_serve {codec : JsonCodec String} (hlawful : codec.Lawful) (event : Recovery.Event)
    (hreliable : journal.faults = Stream'.const false) (h : journal.Durable now) :
    (serve cluster now event journal).2.Durable now :=
  (serve_continues cluster hlawful event ⟨fun _ _ _ => rfl, hreliable, hreliable⟩ h).2.2

end Journal

variable [PyHash String]

namespace World

variable {codec : JsonCodec String} {mine : String → Bool} {now : Reading}
  {whole alone : World String}

/-- Under some of the keys, two servers hold the same and have written the same. -/
structure Beside (codec : JsonCodec String) (mine : String → Bool) (now : Reading)
    (whole alone : World String) (left right : Journal) : Prop where
  whole : whole.Follows codec now left
  alone : alone.Follows codec now right
  alike : left.AlikeOn mine now right
  durable : left.Durable now
  durable' : right.Durable now

namespace Beside

variable {left right : Journal}

theorem later (h : Beside codec mine now whole alone left right) {later : Reading}
    (hle : now ≤ later) : Beside codec mine later whole alone left right :=
  ⟨h.whole.later hle, h.alone.later hle, h.alike.later hle, h.durable.later hle,
    h.durable'.later hle⟩

/-- The same event on both servers. -/
theorem serve (hlawful : codec.Lawful) (cluster : Option ClusterCoordinator)
    {event : Recovery.Event} (hevent : ∀ key, Recovery.key? event = some key → mine key = true)
    (h : Beside codec mine now whole alone left right) :
    (World.serve codec cluster now event whole).1 = (World.serve codec cluster now event alone).1 ∧
      Beside codec mine now (World.serve codec cluster now event whole).2
        (World.serve codec cluster now event alone).2 (Journal.serve cluster now event left).2
        (Journal.serve cluster now event right).2 := by
  obtain ⟨hreply, hwhole⟩ := serve_simulates cluster event h.whole
  obtain ⟨hreply', halone⟩ := serve_simulates cluster event h.alone
  obtain ⟨hsame, halike⟩ := Journal.alike_on_serve cluster hevent h.alike
  refine ⟨hreply.trans (hsame.trans hreply'.symm), hwhole, halone, halike, ?_, ?_⟩
  · exact Journal.durable_serve cluster hlawful event h.alike.reliable h.durable
  · exact Journal.durable_serve cluster hlawful event h.alike.reliable' h.durable'

/-- An event that only one of the servers has. -/
theorem skip (hlawful : codec.Lawful) (cluster : Option ClusterCoordinator)
    {event : Recovery.Event} (hevent : ∀ key, Recovery.key? event = some key → mine key = false)
    (h : Beside codec mine now whole alone left right) :
    Beside codec mine now (World.serve codec cluster now event whole).2 alone
      (Journal.serve cluster now event left).2 right :=
  ⟨(serve_simulates cluster event h.whole).2, h.alone,
    Journal.alike_on_skip cluster now hevent h.alike,
    Journal.durable_serve cluster hlawful event h.alike.reliable h.durable, h.durable'⟩

end Beside

/-- As long as the files can be written: the commands on some of the keys get the same replies as
without the commands on the other keys. In the end the store holds the same under these keys, and
what is read back from the files is the same under them. Snapshots and commands without a key may
be left out or kept. The clock stands still within a command or a snapshot. -/
theorem keys_do_not_interfere (hlawful : codec.Lawful) (cluster : Option ClusterCoordinator)
    (nowFn : Stream' Reading) (mine : String → Bool) (kept : Recovery.Event → Bool)
    (hkept : ∀ event key, Recovery.key? event = some key → kept event = mine key)
    (steps : List (Reading × Recovery.Event)) {first last : Reading}
    (hclock : (first :: steps.map Prod.fst ++ [last]).Pairwise (· ≤ ·)) :
    let whole := Py.session (steps.map fun step => serve codec cluster step.1 step.2)
      (start nowFn (Stream'.const false))
    let alone := Py.session ((steps.filter fun step => kept step.2).map fun step =>
      serve codec cluster step.1 step.2) (start nowFn (Stream'.const false))
    ((steps.zip whole.1).filter fun served => kept served.1.2).map Prod.snd = alone.1 ∧
    (∀ key, mine key = true → ∀ later, last ≤ later →
      whole.2.storage.live later key = alone.2.storage.live later key) ∧
    ∃ state state', PersistenceManager.recover ⟨codec⟩ whole.2.disk.files = .ok state ∧
      PersistenceManager.recover ⟨codec⟩ alone.2.disk.files = .ok state' ∧
      ∀ key, mine key = true → ∀ later, last ≤ later →
        (state.reference key).filter (·.present later) =
          (state'.reference key).filter (·.present later) := by
  intro whole alone
  have hstart : Beside codec mine first (start nowFn (Stream'.const false))
      (start nowFn (Stream'.const false)) (Journal.start (Stream'.const false))
      (Journal.start (Stream'.const false)) :=
    ⟨follows_start nowFn _ first, follows_start nowFn _ first, ⟨fun _ _ _ _ => rfl, rfl, rfl⟩,
      fun _ _ _ => rfl, fun _ _ _ => rfl⟩
  have hstay : ∀ (step : Reading × Recovery.Event) (seen : Bool), kept step.2 = seen →
      ∀ key, Recovery.key? step.2 = some key → mine key = seen :=
    fun step seen hseen key hkey => (hkept step.2 key hkey).symm.trans hseen
  obtain ⟨hreplies, left, right, hlast⟩ := Py.runs_purged
    (fun step : Reading × Recovery.Event => serve codec cluster step.1 step.2)
    (fun step => serve codec cluster step.1 step.2) (fun step => kept step.2)
    (fun now whole alone => ∃ left right, Beside codec mine now whole alone left right) Prod.fst
    (· ≤ ·) (fun _ _ _ _ hle ⟨left, right, h⟩ => ⟨left, right, h.later hle⟩)
    (fun step whole alone hstep ⟨left, right, h⟩ => by
      obtain ⟨hreply, hafter⟩ := h.serve hlawful cluster (hstay step true hstep)
      exact ⟨hreply, _, _, hafter⟩)
    (fun step whole alone hstep ⟨left, right, h⟩ =>
      ⟨_, _, h.skip hlawful cluster (hstay step false hstep)⟩)
    steps hclock ⟨_, _, hstart⟩
  obtain ⟨state, hrecover, hstate⟩ := hlast.whole.written.recover hlawful
  obtain ⟨state', hrecover', hstate'⟩ := hlast.alone.written.recover hlawful
  refine ⟨hreplies, fun key hkey later hle => ?_, state, state', hrecover, hrecover',
    fun key hkey later hle => ?_⟩
  · have hleft := (hlast.whole.storage key).agree later hle
    have hright := (hlast.alone.storage key).agree later hle
    exact hleft.trans ((hlast.alike.memory key hkey later hle).trans hright.symm)
  · rw [hstate.reference_eq, hstate'.reference_eq, hlast.durable key later hle,
      hlast.durable' key later hle]
    exact hlast.alike.memory key hkey later hle

omit [PyHash String] in
/-- A draft that is written, kept in a snapshot and removed does not change what is said of a
session. -/
theorem keys_do_not_interfere_session :
    let _ : PyHash String := ⟨fun key => key.length⟩
    let kept (event : Recovery.Event) : Bool := Recovery.key? event == some "session"
    let steps : List (Reading × Recovery.Event) :=
      [(Reading.atSecond 1, .command ⟨"SET", ["session", "open"]⟩),
        (Reading.atSecond 2, .command ⟨"SET", ["draft", "open"]⟩),
        (Reading.atSecond 3, .snapshot),
        (Reading.atSecond 4, .command ⟨"GET", ["session"]⟩),
        (Reading.atSecond 5, .command ⟨"DEL", ["draft"]⟩)]
    let nowFn := Stream'.const (Reading.atSecond 0)
    let whole := Py.session (steps.map fun step => serve JsonText.codec none step.1 step.2)
      (start nowFn (Stream'.const false))
    let alone := Py.session ((steps.filter fun step => kept step.2).map fun step =>
      serve JsonText.codec none step.1 step.2) (start nowFn (Stream'.const false))
    ((steps.zip whole.1).filter fun served => kept served.1.2).map Prod.snd = alone.1 ∧
    (∀ key, (key == "session") = true → ∀ later, Reading.atSecond 6 ≤ later →
      whole.2.storage.live later key = alone.2.storage.live later key) ∧
    ∃ state state', PersistenceManager.recover ⟨JsonText.codec⟩ whole.2.disk.files = .ok state ∧
      PersistenceManager.recover ⟨JsonText.codec⟩ alone.2.disk.files = .ok state' ∧
      ∀ key, (key == "session") = true → ∀ later, Reading.atSecond 6 ≤ later →
        (state.reference key).filter (·.present later) =
          (state'.reference key).filter (·.present later) := by
  intro _ kept steps nowFn
  have hle : ∀ first second : Fin (2 ^ 34), first ≤ second →
      Reading.atSecond first ≤ Reading.atSecond second := fun _ _ h => Reading.at_second_le h
  have hclock : (Reading.atSecond 0 :: steps.map Prod.fst ++ [Reading.atSecond 6]).Pairwise
      (· ≤ ·) := by
    simp [steps, hle]
  refine keys_do_not_interfere JsonText.lawful none nowFn (· == "session") kept ?_ steps hclock
  intro event key hkey
  show (Recovery.key? event == some "session") = (key == "session")
  rw [hkey]
  rfl

end World

end MiniRedis
