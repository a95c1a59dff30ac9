import MiniRedis.Cluster.Router
import MiniRedis.Core.Message
import MiniRedis.Persistence.Manager

/-!
# The dispatcher

`Dispatcher` after `server/dispatcher.py`. Persistence and the cluster are optional. A
`ValueError` of a handler becomes an error reply; one of the routing does not.
-/

namespace MiniRedis

/-- A dispatcher. -/
structure Dispatcher where
  persistence : Option (PersistenceManager String)
  cluster : Option ClusterCoordinator

namespace Dispatcher

open World

variable [PyHash String]

/-- `_ensure_arity`. -/
def ensureArity (commandName : String) (args : List String) (expected : Nat) :
    Py (World String) Unit :=
  if args.length ≠ expected then
    Py.raise (.valueError
      s!"wrong number of arguments for '{PyText.lower commandName}' command")
  else pure ()

/-- `args[index]`, where there is one. -/
def arg (args : List String) (index : Nat) : String := args.getD index ""

/-- `_record_write`. -/
def recordWrite (dispatcher : Dispatcher) (command : String) (args : List String) :
    Py (World String) Unit :=
  match dispatcher.persistence with
  | none => pure ()
  | some manager => manager.recordWrite command args

/-- `_dispatch_ping`. -/
def dispatchPing (args : List String) : Py (World String) Response := do
  ensureArity "PING" args 0
  return .simpleString "PONG"

/-- `_dispatch_set`. -/
def dispatchSet (dispatcher : Dispatcher) (args : List String) : Py (World String) Response := do
  ensureArity "SET" args 2
  onStorage (InMemoryStore.set (arg args 0) (arg args 1) none)
  dispatcher.recordWrite "SET" [arg args 0, arg args 1]
  return .simpleString "OK"

/-- `_dispatch_get`. -/
def dispatchGet (args : List String) : Py (World String) Response := do
  ensureArity "GET" args 1
  return Response.ofBulkString (← onStorage (InMemoryStore.get (arg args 0)))

/-- `_dispatch_del`. -/
def dispatchDel (dispatcher : Dispatcher) (args : List String) : Py (World String) Response := do
  ensureArity "DEL" args 1
  let deleted ← onStorage (InMemoryStore.delete (arg args 0))
  if deleted ≠ 0 then
    dispatcher.recordWrite "DEL" [arg args 0]
  return .integer deleted

/-- `_dispatch_exists`. -/
def dispatchExists (args : List String) : Py (World String) Response := do
  ensureArity "EXISTS" args 1
  return .integer (← onStorage (InMemoryStore.exists (arg args 0)))

/-- What `_dispatch_expire` says of a number of seconds that it refuses. -/
def notAnInteger : PyError := .valueError "value is not an integer or out of range"

/-- `_dispatch_expire`. -/
def dispatchExpire (dispatcher : Dispatcher) (args : List String) :
    Py (World String) Response := do
  ensureArity "EXPIRE" args 2
  match PyText.parseInt (arg args 1) with
  | none => Py.raise notAnInteger
  | some seconds =>
      if seconds ≤ 0 then Py.raise notAnInteger
      else do
        let updated ← onStorage (InMemoryStore.expire (arg args 0) seconds)
        if updated ≠ 0 then
          dispatcher.recordWrite "EXPIRE" [arg args 0, arg args 1]
        return .integer updated

/-- `_dispatch_ttl`. -/
def dispatchTtl (args : List String) : Py (World String) Response := do
  ensureArity "TTL" args 1
  return .integer (← onStorage (InMemoryStore.ttl (arg args 0)))

/-- `_dispatch_save`. -/
def dispatchSave (dispatcher : Dispatcher) (args : List String) : Py (World String) Response := do
  ensureArity "SAVE" args 0
  match dispatcher.persistence with
  | none => return Response.ofError "persistence is not enabled"
  | some manager => do
      manager.snapshot
      return .simpleString "OK"

/-- `_route_error`. -/
def routeError (dispatcher : Dispatcher) (command : Command) : Except PyError (Option String) :=
  match dispatcher.cluster with
  | none => .ok none
  | some cluster =>
      match command.key with
      | none => .ok none
      | some key => cluster.movedError key

/-- The handler of a command name, if there is one. -/
def handler (dispatcher : Dispatcher) (name : String) (args : List String) :
    Option (Py (World String) Response) :=
  if name = "PING" then some (dispatchPing args)
  else if name = "SET" then some (dispatcher.dispatchSet args)
  else if name = "GET" then some (dispatchGet args)
  else if name = "DEL" then some (dispatcher.dispatchDel args)
  else if name = "EXISTS" then some (dispatchExists args)
  else if name = "EXPIRE" then some (dispatcher.dispatchExpire args)
  else if name = "TTL" then some (dispatchTtl args)
  else if name = "SAVE" then some (dispatcher.dispatchSave args)
  else none

/-- The body of `dispatch`, after the routing. -/
def execute (dispatcher : Dispatcher) (command : Command) : Py (World String) Response :=
  match dispatcher.handler command.normalizedName command.args with
  | some handler =>
      Py.exceptValueError handler fun message => pure (Response.ofError message)
  | none => pure (Response.ofError s!"unknown command '{command.name}'")

/-- `dispatch`. -/
def dispatch (dispatcher : Dispatcher) (command : Command) : Py (World String) Response := do
  match ← Py.ofExcept (dispatcher.routeError command) with
  | some message => return Response.ofError message
  | none => dispatcher.execute command

end Dispatcher

end MiniRedis
