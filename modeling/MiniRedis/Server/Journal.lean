import MiniRedis.Persistence.Replay
import MiniRedis.Server.Dispatcher

/-!
# What the server is for

A `Journal` is a map in memory and what is written about it: a snapshot of the map, and the
records of the writes since. It says what the server does without hash tables, lazy eviction,
files or texts. A command is a `Query` once its name and its arguments have been checked, and
`Journal.answer` says what a query does. Any write may fail, and then the map is ahead of
what is written.
-/

namespace MiniRedis

/-- What a command asks for. -/
inductive Query where
  | ping
  | set (key value : String)
  | get (key : String)
  | del (key : String)
  | exists (key : String)
  | expire (key : String) (seconds : Int)
  | ttl (key : String)
  | save
  | invalid (message : String)

namespace Query

/-- The key of a query, if it has one. -/
def key? : Query → Option String
  | .set key _ | .get key | .del key | .exists key | .expire key _ | .ttl key => some key
  | .ping | .save | .invalid _ => none

/-- A query that takes a number of arguments. -/
def withArity (name : String) (args : List String) (expected : Nat) (query : Query) : Query :=
  if args.length = expected then query
  else .invalid s!"wrong number of arguments for '{PyText.lower name}' command"

/-- A deadline that is a positive number of seconds away. -/
def expireAfter (key seconds : String) : Query :=
  match PyText.parseInt seconds with
  | none => .invalid "value is not an integer or out of range"
  | some seconds =>
      if seconds ≤ 0 then .invalid "value is not an integer or out of range"
      else .expire key seconds

/-- The query of a command. -/
def ofCommand (command : Command) : Query :=
  let args := command.args
  let first := args.getD 0 ""
  let second := args.getD 1 ""
  let name := command.normalizedName
  if name = "PING" then withArity name args 0 .ping
  else if name = "SET" then withArity name args 2 (.set first second)
  else if name = "GET" then withArity name args 1 (.get first)
  else if name = "DEL" then withArity name args 1 (.del first)
  else if name = "EXISTS" then withArity name args 1 (.exists first)
  else if name = "EXPIRE" then withArity name args 2 (expireAfter first second)
  else if name = "TTL" then withArity name args 1 (.ttl first)
  else if name = "SAVE" then withArity name args 0 .save
  else .invalid s!"unknown command '{command.name}'"

theorem of_command_ping : ofCommand ⟨"PING", []⟩ = .ping := by
  have hname : PyText.upper (PyText.strip "PING") = "PING" := by decide
  simp [ofCommand, withArity, Command.normalizedName, hname]

theorem of_command_set (key value : String) :
    ofCommand ⟨"SET", [key, value]⟩ = .set key value := by
  have hname : PyText.upper (PyText.strip "SET") = "SET" := by decide
  simp [ofCommand, withArity, Command.normalizedName, hname]

theorem of_command_get (key : String) : ofCommand ⟨"GET", [key]⟩ = .get key := by
  have hname : PyText.upper (PyText.strip "GET") = "GET" := by decide
  simp [ofCommand, withArity, Command.normalizedName, hname]

end Query

/-- A change of what is written. -/
inductive Change where
  | append (record : Record)
  | save (contents : ReferenceStore String String)
  | unlink

/-- What is written: a snapshot, and the records of the log after it, if there is a log. -/
structure Archive where
  base : ReferenceStore String String
  log : Option (List Record)

namespace Archive

/-- Nothing is written. -/
def empty : Archive := ⟨ReferenceStore.empty, none⟩

/-- What is written after a change. -/
def apply (archive : Archive) : Change → Archive
  | .append record => { archive with log := some (archive.log.getD [] ++ [record]) }
  | .save contents => { archive with base := contents }
  | .unlink => { archive with log := none }

/-- What is written after some changes. -/
def applyAll (archive : Archive) (changes : List Change) : Archive := changes.foldl apply archive

/-- The map that is written down. -/
def contents (archive : Archive) : ReferenceStore String String :=
  Record.performAll (archive.log.getD []) archive.base

end Archive

/-- What comes back of a map that was written down: deadlines that have passed are dropped. -/
def ReferenceStore.revive (now : Reading) (reference : ReferenceStore String String) :
    ReferenceStore String String := fun key =>
  (reference key).map fun entry => { entry with deadline := entry.deadline.filter (·.gt now.time) }

/-- The map in memory, the changes of what is written, and which of the coming ones fail. -/
structure Journal where
  memory : ReferenceStore String String
  changes : List Change
  faults : Stream' Bool

namespace Journal

/-- What is written. -/
def archive (journal : Journal) : Archive := Archive.empty.applyAll journal.changes

/-- An empty map, of which nothing is written. -/
def start (faults : Stream' Bool) : Journal := ⟨ReferenceStore.empty, [], faults⟩

/-- Change what is written, or fail. -/
def write (change : Change) : Py Journal Unit := fun journal =>
  if journal.faults.head then (.error .osError, { journal with faults := journal.faults.tail })
  else (.ok (), { journal with
    changes := journal.changes ++ [change]
    faults := journal.faults.tail })

/-- The entry of a key that is present. -/
def find (now : Reading) (key : String) : Py Journal (Option (Entry String)) := do
  let journal ← Py.get
  return journal.memory.present now key

/-- Put an entry under a key, or nothing. -/
def assign (key : String) (entry : Option (Entry String)) : Py Journal Unit :=
  Py.modify fun journal => { journal with memory := Function.update journal.memory key entry }

/-- Remove the entry of a key, and say whether there was one that was present. -/
def remove (now : Reading) (key : String) : Py Journal Bool := do
  let found ← find now key
  assign key none
  return found.isSome

/-- Move the deadline of a key that is present to a number of seconds from now. -/
def prolong (now : Reading) (key : String) (seconds : Int) : Py Journal (Option PyFloat) := do
  match ← find now key with
  | none => return none
  | some entry => do
      let deadline ← Py.ofExcept (now.time.addInt seconds)
      assign key (some { entry with deadline := some deadline })
      return some deadline

/-- Write a snapshot of what is present, and start a new log. -/
def snapshot (now : Reading) : Py Journal Unit := do
  let journal ← Py.get
  write (.save (journal.memory.present now))
  let journal ← Py.get
  if journal.archive.log.isSome then
    write .unlink

variable (logging : Bool) (now : Reading)

/-- Write a record, if there is a log. -/
def log (record : Record) : Py Journal Unit := if logging then write (.append record) else pure ()

/-- What a query does. -/
def answer : Query → Py Journal Response
  | .ping => return .simpleString "PONG"
  | .set key value => do
      assign key (some ⟨value, none⟩)
      log logging (.set key value)
      return .simpleString "OK"
  | .get key => do
      let found ← find now key
      return Response.ofBulkString (found.map Entry.value)
  | .del key => do
      if ← remove now key then
        log logging (.del key)
        return .integer 1
      else return .integer 0
  | .exists key => do
      let found ← find now key
      return .integer (if found.isSome then 1 else 0)
  | .expire key seconds => do
      match ← prolong now key seconds with
      | none => return .integer 0
      | some deadline => do
          log logging (.expire key deadline)
          return .integer 1
  | .ttl key => do
      match ← find now key with
      | none => return .integer (-2)
      | some entry =>
          return .integer (entry.deadline.elim (-1) fun deadline => (deadline.sub now.time).floor)
  | .save => do
      if logging then
        snapshot now
        return .simpleString "OK"
      else return Response.ofError "persistence is not enabled"
  | .invalid message => return Response.ofError message

/-- What a command does, where some commands belong to other nodes of the cluster. -/
def dispatch (cluster : Option ClusterCoordinator) (command : Command) : Py Journal Response := do
  match ← Py.ofExcept ((⟨none, cluster⟩ : Dispatcher).routeError command) with
  | some message => return Response.ofError message
  | none => answer logging now (Query.ofCommand command)

/-- A command that belongs to this node is answered. -/
theorem dispatch_local {cluster : Option ClusterCoordinator} {command : Command}
    (h : (⟨none, cluster⟩ : Dispatcher).routeError command = .ok none) :
    dispatch logging now cluster command = answer logging now (Query.ofCommand command) := by
  rw [dispatch, h]
  generalize answer logging now (Query.ofCommand command) = reply
  rfl

open Py

section

variable {now : Reading} {key : String} {journal : Journal}

theorem prolong_absent (seconds : Int) (h : journal.memory.present now key = none) :
    prolong now key seconds journal = (.ok none, journal) := by
  simp [prolong, find, h]

theorem prolong_error {seconds : Int} {entry : Entry String} {error : PyError}
    (h : journal.memory.present now key = some entry)
    (hsum : now.time.addInt seconds = .error error) :
    prolong now key seconds journal = (.error error, journal) := by
  simp [prolong, find, h, hsum]

theorem prolong_ok {seconds : Int} {entry : Entry String} {deadline : PyFloat}
    (h : journal.memory.present now key = some entry)
    (hsum : now.time.addInt seconds = .ok deadline) :
    prolong now key seconds journal = (.ok (some deadline), { journal with
      memory := Function.update journal.memory key
        (some { entry with deadline := some deadline }) }) := by
  simp [prolong, find, assign, h, hsum]

end

/-- What is found under a key. -/
theorem find_eq (now : Reading) (key : String) (journal : Journal) :
    find now key journal = (.ok (journal.memory.present now key), journal) := rfl

/-- A query that asks for no snapshot changes the memory, and then it replies or raises, or it
writes a record and replies; which of these, and what it does, the memory decides. -/
theorem answer_cases (now : Reading) {query : Query} (hquery : query ≠ .save)
    (memory : ReferenceStore String String) :
    (∃ after result, ∀ logging (journal : Journal), journal.memory = memory →
        answer logging now query journal = (result, { journal with memory := after })) ∨
      ∃ after record reply, ∀ logging (journal : Journal), journal.memory = memory →
        answer logging now query journal =
          (do log logging record; return reply : Py Journal Response)
            { journal with memory := after } := by
  cases query with
  | ping =>
      refine .inl ⟨memory, .ok (.simpleString "PONG"), ?_⟩
      intro logging journal h
      rw [← h]
      rfl
  | set key value =>
      refine .inr ⟨Function.update memory key (some ⟨value, none⟩), .set key value,
        .simpleString "OK", ?_⟩
      intro logging journal h
      rw [← h]
      rfl
  | get key =>
      refine .inl ⟨memory, .ok (.ofBulkString ((memory.present now key).map Entry.value)), ?_⟩
      intro logging journal h
      rw [← h]
      rfl
  | del key =>
      cases hfound : memory.present now key with
      | none =>
          refine .inl ⟨Function.update memory key none, .ok (.integer 0), ?_⟩
          intro logging journal h
          rw [← h] at hfound ⊢
          simp [answer, remove, find, assign, hfound]
      | some entry =>
          refine .inr ⟨Function.update memory key none, .del key, .integer 1, ?_⟩
          intro logging journal h
          rw [← h] at hfound ⊢
          simp [answer, remove, find, assign, hfound]
  | «exists» key =>
      refine .inl ⟨memory, .ok (.integer (if (memory.present now key).isSome then 1 else 0)), ?_⟩
      intro logging journal h
      rw [← h]
      rfl
  | expire key seconds =>
      cases hfound : memory.present now key with
      | none =>
          refine .inl ⟨memory, .ok (.integer 0), ?_⟩
          intro logging journal h
          rw [← h] at hfound ⊢
          rw [answer, bind_ok (prolong_absent seconds hfound)]
          rfl
      | some entry =>
          cases hsum : now.time.addInt seconds with
          | error error =>
              refine .inl ⟨memory, .error error, ?_⟩
              intro logging journal h
              rw [← h] at hfound ⊢
              rw [answer, bind_error (prolong_error hfound hsum)]
          | ok deadline =>
              refine .inr ⟨Function.update memory key
                (some { entry with deadline := some deadline }), .expire key deadline,
                .integer 1, ?_⟩
              intro logging journal h
              rw [← h] at hfound ⊢
              rw [answer, bind_ok (prolong_ok hfound hsum)]
  | ttl key =>
      refine .inl ⟨memory, .ok (.integer ((memory.present now key).elim (-2) fun entry =>
        entry.deadline.elim (-1) fun deadline => (deadline.sub now.time).floor)), ?_⟩
      intro logging journal h
      rw [← h, answer, bind_ok (find_eq now key journal)]
      cases journal.memory.present now key <;> rfl
  | save => exact absurd rfl hquery
  | invalid message =>
      refine .inl ⟨memory, .ok (.ofError message), ?_⟩
      intro logging journal h
      rw [← h]
      rfl

/-- An exception that is no `ValueError`. -/
def NoValueError (error : PyError) : Prop := ∀ message, error ≠ .valueError message

theorem raises_write (change : Change) : (write change).RaisesOnly NoValueError := by
  intro journal error h
  rw [write] at h
  split at h
  · cases h
    intro message hmessage
    cases hmessage
  · cases h

theorem raises_find (now : Reading) (key : String) : (find now key).RaisesOnly NoValueError :=
  .bind .get fun _ => .pure _

theorem raises_log (logging : Bool) (record : Record) :
    (log logging record).RaisesOnly NoValueError := .ite (raises_write _) (.pure ())

theorem raises_add (now : Reading) (seconds : Int) (error : PyError)
    (h : now.time.addInt seconds = .error error) : NoValueError error := by
  rw [PyFloat.addInt, PyFloat.ofInt, PyFloat.ofUnits] at h
  split at h
  · cases h
  · cases h
    intro message hmessage
    cases hmessage

/-- No query ends in a `ValueError`. -/
theorem raises_answer (query : Query) :
    (answer logging now query).RaisesOnly NoValueError := by
  cases query with
  | ping => exact .pure _
  | set key value =>
      exact .bind (.modify _) fun _ => .bind (raises_log logging _) fun _ => .pure _
  | get key => exact .bind (raises_find now key) fun _ => .pure _
  | del key =>
      refine .bind (.bind (raises_find now key) fun _ => .bind (.modify _) fun _ => .pure _)
        fun removed => ?_
      exact .ite (.bind (raises_log logging _) fun _ => .pure _) (.pure _)
  | «exists» key => exact .bind (raises_find now key) fun _ => .pure _
  | expire key seconds =>
      refine .bind (.bind (raises_find now key) fun found => ?_) fun deadline => ?_
      · cases found with
        | none => exact .pure _
        | some entry =>
            exact .bind (.ofExcept (raises_add now seconds)) fun _ => .bind (.modify _) fun _ =>
              .pure _
      · cases deadline with
        | none => exact .pure _
        | some deadline => exact .bind (raises_log logging _) fun _ => .pure _
  | ttl key =>
      refine .bind (raises_find now key) fun found => ?_
      cases found with
      | none => exact .pure _
      | some entry => exact .pure _
  | save =>
      refine .ite ?_ (.pure _)
      refine .bind (.bind .get fun _ => .bind (raises_write _) fun _ => ?_) fun _ => .pure _
      exact .bind .get fun _ => .ite (raises_write _) (.pure _)
  | invalid message => exact .pure _

end Journal

end MiniRedis
