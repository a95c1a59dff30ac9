import MiniRedis.Server.Restarts

/-!
# A server that is restarted goes on

As long as file operations do not fail, and no deadline passes while the server is down, nobody
notices a restart: `restarts_unnoticed` compares the replies with those of a server that never
stops. What a command has done is there after any restart, and what a command that is interrupted
between two file operations would have done is there as a whole or not at all.
-/

namespace MiniRedis

namespace Journal

open Py

/-- The memories hold the same from a time on, and no write fails. -/
structure Alike (now : Reading) (left right : Journal) : Prop where
  memory : ∀ key later, now ≤ later →
    (left.memory key).filter (·.present later) = (right.memory key).filter (·.present later)
  reliable : left.faults = Stream'.const false
  reliable' : right.faults = Stream'.const false

/-- What is written holds the same as the memory from a time on. -/
def Durable (now : Reading) (journal : Journal) : Prop :=
  ∀ key later, now ≤ later → (journal.archive.contents key).filter (·.present later) =
    (journal.memory key).filter (·.present later)

variable {now : Reading} {journal left right : Journal}

theorem Alike.present (h : left.Alike now right) (key : String) :
    left.memory.present now key = right.memory.present now key :=
  h.memory key now (Reading.le_refl now)

theorem Alike.later (h : left.Alike now right) {later : Reading} (hle : now ≤ later) :
    left.Alike later right :=
  ⟨fun key last hlast => h.memory key last (Reading.le_trans hle hlast), h.reliable, h.reliable'⟩

theorem Durable.later (h : journal.Durable now) {later : Reading} (hle : now ≤ later) :
    journal.Durable later := fun key last hlast => h key last (Reading.le_trans hle hlast)

/-- A write happens. -/
theorem write_reliable (h : journal.faults = Stream'.const false) (change : Change) :
    write change journal = (.ok (), { journal with changes := journal.changes ++ [change] }) := by
  have hhead : journal.faults.head = false := by
    rw [h]
    rfl
  have htail : journal.faults.tail = journal.faults := by
    rw [h]
    rfl
  rw [write, hhead, htail, if_neg Bool.false_ne_true]

/-- A snapshot is written beside the log. -/
theorem log_save (changes : List Change) (contents : ReferenceStore String String) :
    (Archive.empty.applyAll (changes ++ [.save contents])).log =
      (Archive.empty.applyAll changes).log := by
  rw [Archive.applyAll, List.foldl_append]
  rfl

/-- A snapshot is written, and the log is removed if there is one. -/
theorem snapshot_reliable (h : journal.faults = Stream'.const false) (now : Reading) :
    snapshot now journal = (.ok (), { journal with
      changes := journal.changes ++ .save (journal.memory.present now) ::
        if journal.archive.log.isSome then [.unlink] else [] }) := by
  have hreset : ∀ other : Journal, other.faults = Stream'.const false →
      (if other.archive.log.isSome then write .unlink else pure ()) other =
        (.ok (), { other with
          changes := other.changes ++ if other.archive.log.isSome then [.unlink] else [] }) := by
    intro other hother
    by_cases hsome : other.archive.log.isSome
    · rw [if_pos hsome, if_pos hsome, write_reliable hother]
    · rw [if_neg hsome, if_neg hsome, List.append_nil]
      rfl
  rw [snapshot, bind_ok (get_apply journal), bind_ok (write_reliable h _), bind_ok (get_apply _)]
  refine (hreset { journal with
    changes := journal.changes ++ [.save (journal.memory.present now)] } h).trans ?_
  show (_, Journal.mk _ (journal.changes ++ [_] ++ if Option.isSome (Archive.log
    (Archive.empty.applyAll (journal.changes ++ [_]))) then _ else _) _) = _
  rw [log_save, List.append_assoc]
  rfl

/-- What a query does to what is written. -/
inductive Outcome (now : Reading) (journal after : Journal) : Prop where
  | quiet (hmemory : after.Alike now journal) (hchanges : after.changes = journal.changes)
  | recorded (record : Record) (happlies : record.Applies (journal.memory.present now))
      (hmemory : ∀ key later, now ≤ later → (after.memory key).filter (·.present later) =
        (record.onEntry key (journal.memory.present now key)).filter (·.present later))
      (hchanges : after.changes = journal.changes ++ [.append record])
  | saved (hmemory : after.Alike now journal)
      (hchanges : after.changes = journal.changes ++ .save (journal.memory.present now) ::
        if journal.archive.log.isSome then [.unlink] else [])

/-- Replacing an entry. -/
theorem filter_update (memory : ReferenceStore String String) (key : String)
    (entry : Option (Entry String)) (other : String) (later : Reading) :
    (Function.update memory key entry other).filter (·.present later) =
      if other = key then entry.filter (·.present later)
      else (memory other).filter (·.present later) := by
  by_cases hother : other = key
  · rw [if_pos hother, hother, Function.update_self]
  · rw [if_neg hother, Function.update_of_ne hother]

/-- A record is written for what a query has done to the memory. -/
theorem outcome_recorded {key : String}
    {entry : Option (Entry String)} (record : Record)
    (happlies : record.Applies (journal.memory.present now))
    (hentry : ∀ other found, record.onEntry other found =
      if other = key then record.onEntry key found else found)
    (hkey : record.onEntry key (journal.memory.present now key) = entry) :
    Outcome now journal { journal with
      memory := Function.update journal.memory key entry
      changes := journal.changes ++ [.append record] } := by
  refine .recorded record happlies (fun other later hle => ?_) rfl
  rw [hentry]
  show (Function.update journal.memory key entry other).filter _ = _
  rw [filter_update]
  by_cases hother : other = key
  · rw [if_pos hother, if_pos hother, hother, hkey]
  · rw [if_neg hother, if_neg hother]
    exact (Entry.filter_present _ hle).symm

/-- What a query does if every write happens. -/
theorem answer_outcome (h : journal.faults = Stream'.const false) (now : Reading) (query : Query) :
    Outcome now journal (answer true now query journal).2 ∧
      (answer true now query journal).2.faults = Stream'.const false := by
  have hquiet : Outcome now journal journal := .quiet ⟨fun _ _ _ => rfl, h, h⟩ rfl
  cases query with
  | ping => exact ⟨hquiet, h⟩
  | set key value =>
      have hwrite := @write_reliable { journal with
        memory := Function.update journal.memory key (some ⟨value, none⟩) } h
        (.append (.set key value))
      simp only [answer, assign, log, bind_apply, modify_apply, if_true, hwrite, pure_apply]
      refine ⟨outcome_recorded (.set key value) trivial ?_ ?_, h⟩
      · intro other found
        simp [Record.onEntry]
      · simp [Record.onEntry]
  | get key => exact ⟨hquiet, h⟩
  | del key =>
      cases hfound : journal.memory.present now key with
      | none =>
          have hrun : answer true now (.del key) journal = (.ok (.integer 0), { journal with
              memory := Function.update journal.memory key none }) := by
            simp [answer, remove, find, assign, hfound]
          rw [hrun]
          refine ⟨.quiet ⟨fun other later hle => ?_, h, h⟩ rfl, h⟩
          show (Function.update journal.memory key none other).filter _ = _
          rw [filter_update]
          by_cases hother : other = key
          · rw [if_pos hother, hother, ← Entry.filter_present (journal.memory key) hle]
            show none = Option.filter _ (journal.memory.present now key)
            rw [hfound]
            rfl
          · rw [if_neg hother]
      | some entry =>
          have hwrite := @write_reliable { journal with
            memory := Function.update journal.memory key none } h (.append (.del key))
          have hrun : answer true now (.del key) journal = (.ok (.integer 1), { journal with
              memory := Function.update journal.memory key none
              changes := journal.changes ++ [.append (.del key)] }) := by
            simp [answer, remove, find, assign, hfound, log, hwrite]
          rw [hrun]
          refine ⟨outcome_recorded (.del key) trivial ?_ ?_, h⟩
          · intro other found
            simp [Record.onEntry]
          · simp [Record.onEntry]
  | «exists» key => exact ⟨hquiet, h⟩
  | expire key seconds =>
      cases hfound : journal.memory.present now key with
      | none =>
          have hrun : answer true now (.expire key seconds) journal =
              (.ok (.integer 0), journal) := by
            rw [answer, bind_ok (prolong_absent seconds hfound)]
            rfl
          rw [hrun]
          exact ⟨hquiet, h⟩
      | some entry =>
          cases hsum : now.time.addInt seconds with
          | error error =>
              have hrun : answer true now (.expire key seconds) journal =
                  (.error error, journal) := by
                rw [answer, bind_error (prolong_error hfound hsum)]
              rw [hrun]
              exact ⟨hquiet, h⟩
          | ok deadline =>
              have hwrite := @write_reliable { journal with
                memory := Function.update journal.memory key
                  (some { entry with deadline := some deadline }) } h
                (.append (.expire key deadline))
              have hrun : answer true now (.expire key seconds) journal =
                  (.ok (.integer 1), { journal with
                    memory := Function.update journal.memory key
                      (some { entry with deadline := some deadline })
                    changes := journal.changes ++ [.append (.expire key deadline)] }) := by
                refine (bind_ok (prolong_ok hfound hsum)).trans ?_
                show (log true (.expire key deadline) >>= fun _ => pure (Response.integer 1)) _ = _
                rw [log, if_pos rfl, bind_ok hwrite]
                rfl
              rw [hrun]
              refine ⟨outcome_recorded (.expire key deadline) ?_ ?_ ?_, h⟩
              · show (journal.memory.present now key).isSome
                rw [hfound]
                rfl
              · intro other found
                simp [Record.onEntry]
              · simp [Record.onEntry, hfound]
  | ttl key =>
      have hrun : (answer true now (.ttl key) journal).2 = journal := by
        cases hfound : journal.memory.present now key <;> simp [answer, find, hfound]
      rw [hrun]
      exact ⟨hquiet, h⟩
  | save =>
      rw [show answer true now .save journal = _ from bind_ok (snapshot_reliable h now)]
      exact ⟨.saved ⟨fun _ _ _ => rfl, h, h⟩ rfl, h⟩
  | invalid message => exact ⟨hquiet, h⟩

/-- When some of the changes of a query have happened, what is written holds the memory before the
query or the one after it; and the latter if all of them have happened. -/
theorem Outcome.interrupted {codec : JsonCodec String} (hlawful : codec.Lawful)
    (hdurable : journal.Durable now) {after : Journal} (h : Outcome now journal after)
    (count : Nat) :
    ∃ took : Bool, (count ≠ 0 → took = true) ∧ ∀ key later, now ≤ later →
      ((Archive.empty.applyAll (journal.changes ++
          (after.changes.drop journal.changes.length).take count)).contents key).filter
          (·.present later) =
        ((if took then after else journal).memory key).filter (·.present later) := by
  have hbefore : ∀ key later, now ≤ later →
      ((Archive.empty.applyAll journal.changes).contents key).filter (·.present later) =
        (journal.memory key).filter (·.present later) := hdurable
  cases h with
  | quiet hmemory hchanges =>
      refine ⟨true, fun _ => rfl, fun key later hle => ?_⟩
      rw [hchanges, List.drop_length, List.take_nil, List.append_nil, hbefore key later hle]
      exact (hmemory.memory key later hle).symm
  | recorded record happlies hmemory hchanges =>
      rw [hchanges, List.drop_left]
      cases count with
      | zero =>
          refine ⟨false, fun h => absurd rfl h, fun key later hle => ?_⟩
          rw [List.take_zero, List.append_nil]
          exact hbefore key later hle
      | succ count =>
          refine ⟨true, fun _ => rfl, fun key later hle => ?_⟩
          rw [List.take_succ_cons, List.take_nil, Archive.applyAll, List.foldl_append]
          show ((Archive.contents ((Archive.empty.applyAll journal.changes).apply
            (.append record))) key).filter _ = (after.memory key).filter _
          rw [hmemory key later hle, Archive.contents, Archive.apply, Option.getD_some,
            Record.performAll, Record.onEntryAll, List.foldl_append]
          show (record.onEntry key ((Archive.empty.applyAll journal.changes).contents key)).filter
            _ = _
          refine Recovery.on_entry_agree (Recovery.current_present journal.memory now) happlies
            (fun key later hle => ?_) key hle
          exact (hbefore key later hle).trans (Entry.filter_present _ hle).symm
  | saved hmemory hchanges =>
      refine ⟨true, fun _ => rfl, fun key later hle => ?_⟩
      show _ = (after.memory key).filter _
      rw [hchanges, List.drop_left, hmemory.memory key later hle]
      -- the old log is replayed over the new snapshot, or it has been removed
      have habsorbed : ((Record.onEntryAll key
          ((Archive.empty.applyAll journal.changes).log.getD [])
          (journal.memory.present now key))).filter (·.present later) =
          (journal.memory key).filter (·.present later) := by
        have hpresent := hbefore key now (Reading.le_refl now)
        rw [ReferenceStore.present, ← hpresent, ← hbefore key later hle]
        exact Record.absorbs hlawful key _ _ hle
      cases count with
      | zero =>
          rw [List.take_zero, List.append_nil]
          exact hbefore key later hle
      | succ count =>
          rw [List.take_succ_cons, Archive.applyAll, List.foldl_append]
          split
          · cases count with
            | zero => exact habsorbed
            | succ count =>
                rw [List.take_succ_cons, List.take_nil]
                exact Entry.filter_present _ hle
          · rw [List.take_nil]
            exact habsorbed

/-- The replies of memories that are alike. -/
def Same (now : Reading) {α : Type} (a b : α) (left right : Journal) : Prop :=
  a = b ∧ left.Alike now right

theorem alike_find (key : String) :
    Simulates (Alike now) (find now key) (find now key) (Same now) (Alike now) :=
  ⟨fun _ _ h => ⟨h.present key, h⟩⟩

theorem alike_assign (key : String) (entry : Option (Entry String)) :
    Simulates (Alike now) (assign key entry) (assign key entry) (Same now) (Alike now) := by
  refine ⟨fun left right h => ⟨rfl, fun other later hle => ?_, h.reliable, h.reliable'⟩⟩
  show (Function.update left.memory key entry other).filter _ =
    (Function.update right.memory key entry other).filter _
  rw [filter_update, filter_update, h.memory other later hle]

theorem alike_log (record : Record) :
    Simulates (Alike now) (log true record) (log true record) (Same now) (Alike now) := by
  refine ⟨fun left right h => ?_⟩
  rw [log, if_pos rfl, write_reliable h.reliable, write_reliable h.reliable']
  exact ⟨rfl, h.memory, h.reliable, h.reliable'⟩

theorem alike_snapshot :
    Simulates (Alike now) (snapshot now) (snapshot now) (Same now) (Alike now) := by
  refine ⟨fun left right h => ?_⟩
  rw [snapshot_reliable h.reliable, snapshot_reliable h.reliable']
  exact ⟨rfl, h.memory, h.reliable, h.reliable'⟩

/-- A query runs on related journals alike, if what it does to its key, to the log and to the
snapshot does. -/
theorem answer_related {R : Journal → Journal → Prop} (now : Reading) (query : Query)
    (hfind : ∀ key, query.key? = some key →
      Simulates R (find now key) (find now key) (fun a b left right => a = b ∧ R left right) R)
    (hassign : ∀ key entry, query.key? = some key → Simulates R (assign key entry)
      (assign key entry) (fun a b left right => a = b ∧ R left right) R)
    (hlog : ∀ record, Simulates R (log true record) (log true record)
      (fun a b left right => a = b ∧ R left right) R)
    (hsave : query = .save → Simulates R (snapshot now) (snapshot now)
      (fun a b left right => a = b ∧ R left right) R) :
    Simulates R (answer true now query) (answer true now query)
      (fun a b left right => a = b ∧ R left right) R := by
  have hpure : ∀ {α : Type} (a : α), Simulates R (pure a) (pure a)
      (fun a b left right => a = b ∧ R left right) R := fun a => .pure fun _ _ h => ⟨rfl, h⟩
  cases query with
  | ping => exact hpure _
  | set key value =>
      exact .bind_same (hassign key _ rfl) fun _ => .bind_same (hlog _) fun _ => hpure _
  | get key => exact .bind_same (hfind key rfl) fun _ => hpure _
  | del key =>
      refine .bind_same (.bind_same (hfind key rfl) fun _ => .bind_same (hassign key _ rfl)
        fun _ => hpure _) fun removed => ?_
      cases removed with
      | true => exact .bind_same (hlog _) fun _ => hpure _
      | false => exact hpure _
  | «exists» key => exact .bind_same (hfind key rfl) fun _ => hpure _
  | expire key seconds =>
      refine .bind_same (R := R) (.bind_same (hfind key rfl) fun found => ?_) fun moved => ?_
      · cases found with
        | none => exact hpure _
        | some entry =>
            exact .bind_same (.ofExcept _) fun _ => .bind_same (hassign key _ rfl) fun _ =>
              hpure _
      · cases moved with
        | none => exact hpure _
        | some deadline => exact .bind_same (hlog _) fun _ => hpure _
  | ttl key =>
      refine .bind_same (hfind key rfl) fun found => ?_
      cases found with
      | none => exact hpure _
      | some entry => exact hpure _
  | save => exact .bind_same (hsave rfl) fun _ => hpure _
  | invalid message => exact hpure _

/-- Memories that are alike give the same replies, and stay alike. -/
theorem alike_answer (now : Reading) (query : Query) :
    Simulates (Alike now) (answer true now query) (answer true now query) (Same now)
      (Alike now) :=
  answer_related now query (fun key _ => alike_find key) (fun key entry _ => alike_assign key entry)
    alike_log fun _ => alike_snapshot

variable (cluster : Option ClusterCoordinator)

/-- What happens to a command happens to its query, or nothing happens at all. -/
theorem dispatch_cases (now : Reading) (command : Command) :
    (∃ result, ∀ journal, dispatch true now cluster command journal = (result, journal)) ∨
      dispatch true now cluster command = answer true now (Query.ofCommand command) := by
  unfold dispatch
  generalize answer true now (Query.ofCommand command) = answered
  cases (⟨none, cluster⟩ : Dispatcher).routeError command with
  | error error => exact .inl ⟨.error error, fun _ => rfl⟩
  | ok refusal =>
      cases refusal with
      | some message => exact .inl ⟨.ok (Response.ofError message), fun _ => rfl⟩
      | none => exact .inr rfl

/-- What an event does if every write happens. -/
theorem serve_outcome (h : journal.faults = Stream'.const false) (now : Reading)
    (event : Recovery.Event) :
    Outcome now journal (serve cluster now event journal).2 ∧
      (serve cluster now event journal).2.faults = Stream'.const false := by
  cases event with
  | command command =>
      rcases dispatch_cases cluster now command with ⟨result, hrun⟩ | hanswer
      · have hserve : (serve cluster now (.command command) journal).2 = journal :=
          congrArg Prod.snd (hrun journal)
        rw [hserve]
        exact ⟨.quiet ⟨fun _ _ _ => rfl, h, h⟩ rfl, h⟩
      · have hserve : (serve cluster now (.command command) journal).2 =
            (answer true now (Query.ofCommand command) journal).2 :=
          congrArg (fun run => (run journal).2) hanswer
        rw [hserve]
        exact answer_outcome h now _
  | snapshot =>
      have hserve : (serve cluster now .snapshot journal).2 = (snapshot now journal).2 := rfl
      rw [hserve, snapshot_reliable h]
      exact ⟨.saved ⟨fun _ _ _ => rfl, h, h⟩ rfl, h⟩

/-- Events on memories that are alike. -/
theorem alike_serve (event : Recovery.Event) (h : left.Alike now right) :
    (serve cluster now event left).1 = (serve cluster now event right).1 ∧
      (serve cluster now event left).2.Alike now (serve cluster now event right).2 := by
  cases event with
  | command command =>
      rcases dispatch_cases cluster now command with ⟨result, hrun⟩ | hanswer
      · have hserve : ∀ journal, serve cluster now (.command command) journal =
            (result.map some, journal) := by
          intro journal
          simp only [serve, hrun]
        rw [hserve, hserve]
        exact ⟨rfl, h⟩
      · obtain ⟨hresult, hafter⟩ := (alike_answer now (Query.ofCommand command)).outcome h
        simp only [serve, hanswer]
        exact ⟨congrArg (Except.map some) hresult, hafter⟩
  | snapshot =>
      obtain ⟨-, hafter⟩ := (@alike_snapshot now).outcome h
      exact ⟨rfl, hafter⟩

/-- What a server that never stops does instead: an interrupted event takes place without a reply,
or it does not. -/
def refer : Action × Bool → Py Journal (Option Response)
  | (.serve now event, _) => serve cluster now event
  | (.restart now event _ _ _, took) => fun journal =>
      (.ok none, if took then (serve cluster now event journal).2 else journal)

/-- What comes back of a map is the map, if no deadline has passed. -/
theorem revive_eq {contents : ReferenceStore String String} {again : Reading}
    (h : ∀ key value deadline, contents key = some ⟨value, some deadline⟩ →
      deadline.gt again.time = true) : contents.revive again = contents := by
  funext key
  rw [ReferenceStore.revive]
  cases hentry : contents key with
  | none => rfl
  | some entry =>
      obtain ⟨value, deadline⟩ := entry
      cases deadline with
      | none => rfl
      | some deadline => simp [h key value deadline hentry]

/-- An event keeps the memory alike and durable. -/
theorem serve_continues {codec : JsonCodec String} (hlawful : codec.Lawful) (event : Recovery.Event)
    (halike : left.Alike now right) (hdurable : left.Durable now) :
    (serve cluster now event left).1 = (serve cluster now event right).1 ∧
      (serve cluster now event left).2.Alike now (serve cluster now event right).2 ∧
      (serve cluster now event left).2.Durable now := by
  obtain ⟨hresult, hafter⟩ := alike_serve cluster event halike
  obtain ⟨houtcome, -⟩ := serve_outcome cluster halike.reliable now event
  refine ⟨hresult, hafter, ?_⟩
  -- all changes of the event have happened
  obtain ⟨took, htook, hwritten⟩ := houtcome.interrupted hlawful hdurable
    ((serve cluster now event left).2.changes.length + 1)
  obtain ⟨news, hnews⟩ : ∃ news, (serve cluster now event left).2.changes =
      left.changes ++ news := by
    cases houtcome with
    | quiet _ hchanges => exact ⟨[], by rw [hchanges, List.append_nil]⟩
    | recorded _ _ _ hchanges => exact ⟨_, hchanges⟩
    | saved _ hchanges => exact ⟨_, hchanges⟩
  have hall : left.changes ++ (((serve cluster now event left).2.changes.drop
      left.changes.length).take ((serve cluster now event left).2.changes.length + 1)) =
      (serve cluster now event left).2.changes := by
    rw [hnews, List.drop_left, List.take_of_length_le]
    rw [List.length_append]
    omega
  intro key later hle
  have hkey := hwritten key later hle
  rw [hall, htook (Nat.succ_ne_zero _)] at hkey
  exact hkey

/-- A restart in time keeps the memory alike and durable, be it that the interrupted event has taken
place or not. -/
theorem restart_continues {codec : JsonCodec String} (hlawful : codec.Lawful)
    (event : Recovery.Event)
    (count : Nat) {again : Reading} (hle : now ≤ again) (halike : left.Alike now right)
    (hdurable : left.Durable now)
    (hintime : ∀ key value deadline,
      (Archive.empty.applyAll (interrupt cluster now event count left)).contents key =
        some ⟨value, some deadline⟩ → deadline.gt again.time = true) :
    ∃ took : Bool,
      (act cluster (.restart now event count again (Stream'.const false)) left).2.Alike again
        (if took then (serve cluster now event right).2 else right) ∧
      (act cluster (.restart now event count again (Stream'.const false)) left).2.Durable
        again := by
  obtain ⟨-, hafter⟩ := alike_serve cluster event halike
  obtain ⟨houtcome, -⟩ := serve_outcome cluster halike.reliable now event
  obtain ⟨took, -, hwritten⟩ := houtcome.interrupted hlawful hdurable count
  have hmemory :
      (act cluster (.restart now event count again (Stream'.const false)) left).2.memory =
      (Archive.empty.applyAll (interrupt cluster now event count left)).contents :=
    revive_eq hintime
  refine ⟨took, ⟨fun key later hlater => ?_, rfl, ?_⟩, fun key later hlater => ?_⟩
  · rw [hmemory]
    refine (hwritten key later (Reading.le_trans hle hlater)).trans ?_
    cases took with
    | true => exact hafter.memory key later (Reading.le_trans hle hlater)
    | false => exact halike.memory key later (Reading.le_trans hle hlater)
  · cases took with
    | true => exact hafter.reliable'
    | false => exact halike.reliable'
  · rw [hmemory]
    rfl

/-- A value is set and written down. -/
theorem serve_set (journal : Journal) (h : journal.faults = Stream'.const false) {now : Reading}
    {key value : String} :
    serve none now (.command ⟨"SET", [key, value]⟩) journal =
      (.ok (some (.simpleString "OK")), { journal with
        memory := Function.update journal.memory key (some ⟨value, none⟩)
        changes := journal.changes ++ [.append (.set key value)] }) := by
  have hrun : answer true now (.set key value) journal =
      (.ok (.simpleString "OK"), { journal with
        memory := Function.update journal.memory key (some ⟨value, none⟩)
        changes := journal.changes ++ [.append (.set key value)] }) := by
    simp only [answer, assign, log, bind_apply, modify_apply, if_true, pure_apply,
      @write_reliable { journal with
        memory := Function.update journal.memory key (some ⟨value, none⟩) } h]
  have hlocal : dispatch true now none ⟨"SET", [key, value]⟩ =
      answer true now (Query.ofCommand ⟨"SET", [key, value]⟩) := dispatch_local true now rfl
  simp only [serve, hlocal, Query.of_command_set, hrun]
  rfl

end Journal

namespace Restarts

open World

variable [PyHash String]

/-- No deadline in the files has passed when the server is started again, and the files can be
written in its new life. -/
def InTime (codec : JsonCodec String) (cluster : Option ClusterCoordinator) :
    List Action → World String → Prop
  | [], _ => True
  | action :: rest, world =>
      (match action with
        | .serve _ _ => True
        | .restart now event count again faults => faults = Stream'.const false ∧
            ∀ state, PersistenceManager.recover ⟨codec⟩ (world.disk.initial.applyAll
              (interrupt codec cluster now event count world)) = .ok state →
              PersistenceManager.NoneExpired state again) ∧
        InTime codec cluster rest (act codec cluster action world).2

variable {codec : JsonCodec String} {cluster : Option ClusterCoordinator}

omit [PyHash String] in
/-- What is written down has no deadline that has passed, if what is read back has none. -/
theorem none_expired_contents {state : ReplayState String}
    {contents : ReferenceStore String String} (hdenotes : state.Denotes contents) {again : Reading}
    (hexpired : PersistenceManager.NoneExpired state again) (key value : String)
    (deadline : PyFloat) (hkey : contents key = some ⟨value, some deadline⟩) :
    deadline.gt again.time = true := by
  refine hexpired key value deadline ?_ ?_
  · rw [hdenotes.value, hkey]
    rfl
  · rw [hdenotes.deadline, hkey]
    rfl

/-- What is written when an event is interrupted has no deadline that has passed, if the files have
none. -/
theorem contents_in_time (hlawful : codec.Lawful) {now again : Reading} {event : Recovery.Event}
    {count : Nat} {world : World String} {journal : Journal}
    (hfollows : world.Follows codec now journal)
    (hexpired : ∀ state, PersistenceManager.recover ⟨codec⟩ (world.disk.initial.applyAll
      (interrupt codec cluster now event count world)) = .ok state →
      PersistenceManager.NoneExpired state again) (key value : String) (deadline : PyFloat)
    (hkey : (Archive.empty.applyAll
      (Journal.interrupt cluster now event count journal)).contents key =
        some ⟨value, some deadline⟩) : deadline.gt again.time = true := by
  have heffects := Archive.written_empty.apply_all
    (interrupt_carries_out cluster event count hfollows)
  obtain ⟨state, hrecover, hdenotes⟩ := heffects.recover hlawful
  rw [← hfollows.initial] at hrecover
  exact none_expired_contents hdenotes (hexpired state hrecover) key value deadline hkey

/-- From any state in which the files hold what the memory does, the replies are those of a server
that never stops. -/
theorem run_unnoticed (hlawful : codec.Lawful) (actions : List Action) {first last : Reading}
    (hclock : Action.Ordered first actions last) {world : World String}
    {journal reference : Journal} (hfollows : world.Follows codec first journal)
    (halike : journal.Alike first reference) (hdurable : journal.Durable first)
    (hintime : InTime codec cluster actions world) :
    ∃ took : List Bool, took.length = actions.length ∧
      (Py.session (actions.map (act codec cluster)) world).1 =
        (Py.session ((actions.zip took).map (Journal.refer cluster)) reference).1 := by
  induction actions generalizing first world journal reference with
  | nil => exact ⟨[], rfl, rfl⟩
  | cons action rest ih =>
      obtain ⟨hfirst, htail⟩ := List.pairwise_cons.mp hclock
      obtain ⟨hspan, hrest⟩ := List.pairwise_cons.mp htail
      have hbegin : first ≤ action.span.1 := hfirst _ List.mem_cons_self
      have hle : action.span.1 ≤ action.span.2 := hspan _ List.mem_cons_self
      obtain ⟨hnow, hlater⟩ := hintime
      obtain ⟨hresult, hafter⟩ := act_simulates hlawful cluster action
        (hfollows.later hbegin)
      obtain ⟨took, halike', hdurable', hsame⟩ : ∃ took : Bool,
          (Journal.act cluster action journal).2.Alike action.span.2
            (Journal.refer cluster (action, took) reference).2 ∧
          (Journal.act cluster action journal).2.Durable action.span.2 ∧
          (Journal.act cluster action journal).1 =
            (Journal.refer cluster (action, took) reference).1 := by
        cases action with
        | serve now event =>
            obtain ⟨hreply, hmemory, hwritten⟩ := Journal.serve_continues cluster hlawful
              event (halike.later hbegin) (hdurable.later hbegin)
            exact ⟨true, hmemory, hwritten, hreply⟩
        | restart now event count again faults =>
            obtain ⟨rfl, hexpired⟩ := hnow
            obtain ⟨took, hmemory, hwritten⟩ := Journal.restart_continues cluster hlawful event
              count hle (halike.later hbegin) (hdurable.later hbegin)
              (contents_in_time hlawful (hfollows.later hbegin) hexpired)
            exact ⟨took, hmemory, hwritten, rfl⟩
      obtain ⟨others, hlength, hresults⟩ := ih hrest hafter halike' hdurable' hlater
      refine ⟨took :: others, congrArg (· + 1) hlength, ?_⟩
      exact congrArg₂ List.cons (hresult.trans hsame) hresults

/-- Files with the record of one value have no deadline that has passed, whatever event was
interrupted before it had an effect. -/
theorem none_expired_set (hlawful : codec.Lawful) {now again : Reading} {world : World String}
    {journal : Journal} (hfollows : world.Follows codec now journal) {key value : String}
    (hchanges : journal.changes = [.append (.set key value)]) (event : Recovery.Event)
    (state : ReplayState String)
    (hrecover : PersistenceManager.recover ⟨codec⟩ (world.disk.initial.applyAll
      (interrupt codec cluster now event 0 world)) = .ok state) :
    PersistenceManager.NoneExpired state again := by
  have heffects := Archive.written_empty.apply_all
    (interrupt_carries_out cluster event 0 hfollows)
  obtain ⟨found, hfound, hdenotes⟩ := heffects.recover hlawful
  rw [hfollows.initial] at hrecover
  obtain rfl : found = state := Except.ok.inj (hfound.symm.trans hrecover)
  intro other text deadline hvalue hdeadline
  rw [hdenotes.deadline, Journal.interrupt, List.take_zero, List.append_nil, hchanges] at hdeadline
  have hcontents : (Archive.empty.applyAll [.append (.set key value)]).contents other =
      if other = key then some ⟨value, none⟩ else none := rfl
  rw [hcontents] at hdeadline
  split at hdeadline <;> cases hdeadline

/-- As long as the files can be written, and no deadline in the files has passed when a server is
started: over any number of lives, after whichever file operations of an event the machine stops,
the replies are those of a server that never stops, where each interrupted event has taken place
or has not. The clock stands still within an event. -/
theorem restarts_unnoticed (hlawful : codec.Lawful) (cluster : Option ClusterCoordinator)
    (nowFn : Stream' Reading) (actions : List Action) {first last : Reading}
    (hclock : Action.Ordered first actions last)
    (hintime : InTime codec cluster actions (start nowFn (Stream'.const false))) :
    ∃ took : List Bool, took.length = actions.length ∧
      (Py.session (actions.map (act codec cluster)) (start nowFn (Stream'.const false))).1 =
        (Py.session ((actions.zip took).map (Journal.refer cluster))
          (Journal.start (Stream'.const false))).1 :=
  run_unnoticed hlawful actions hclock (follows_start nowFn _ first)
    ⟨fun _ _ _ => rfl, rfl, rfl⟩ (fun _ _ _ => rfl) hintime

omit [PyHash String] in
/-- A session is opened, the machine stops before the command that would end it has had an effect,
and the session is found when the server is back. -/
theorem restarts_unnoticed_session :
    let _ : PyHash String := ⟨fun key => key.length⟩
    let actions : List Action :=
      [.serve (Reading.atSecond 1) (.command ⟨"SET", ["session", "open"]⟩),
        .restart (Reading.atSecond 2) (.command ⟨"DEL", ["session"]⟩) 0
          (Reading.atSecond 3) (Stream'.const false),
        .serve (Reading.atSecond 4) (.command ⟨"GET", ["session"]⟩)]
    let nowFn := Stream'.const (Reading.atSecond 0)
    ∃ took : List Bool, took.length = actions.length ∧
      (Py.session (actions.map (act JsonText.codec none)) (start nowFn (Stream'.const false))).1 =
        (Py.session ((actions.zip took).map (Journal.refer none))
          (Journal.start (Stream'.const false))).1 := by
  intro _ actions nowFn
  have hle : ∀ first second : Fin (2 ^ 34), first ≤ second →
      Reading.atSecond first ≤ Reading.atSecond second := fun _ _ h => Reading.at_second_le h
  have hclock : Action.Ordered (Reading.atSecond 0) actions (Reading.atSecond 5) := by
    simp [actions, Action.Ordered, Action.span, hle]
  have hafter := (act_simulates JsonText.lawful none
    (.serve (Reading.atSecond 1) (.command ⟨"SET", ["session", "open"]⟩))
    (follows_start nowFn (Stream'.const false) (Reading.atSecond 1))).2.later
    (hle 1 2 (by decide))
  have hchanges : (Journal.act none (.serve (Reading.atSecond 1)
      (.command ⟨"SET", ["session", "open"]⟩)) (Journal.start (Stream'.const false))).2.changes =
      [.append (.set "session" "open")] := by
    rw [Journal.act, Journal.serve_set (Journal.start (Stream'.const false)) rfl]
    rfl
  exact restarts_unnoticed JsonText.lawful none nowFn actions hclock
    ⟨trivial, ⟨rfl, none_expired_set JsonText.lawful hafter hchanges _⟩, trivial, trivial⟩

end Restarts

end MiniRedis
