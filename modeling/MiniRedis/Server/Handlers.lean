import MiniRedis.Server.Dispatcher
import MiniRedis.Storage.Cell

/-!
# What a command looks at

Without persistence, the handler of a command that `Command.key` gives a key acts on that
key and on nothing else (`confined_execute`), and every other command leaves the store alone
(`untouched_execute`). So routing by `Command.key` sends a command to the data it needs.
-/

namespace MiniRedis

namespace World

variable {S α β : Type} [PyHash S] [DecidableEq S]

/-- An action on the world that acts on one key: it does what some computation does on the cell of
the key, and leaves what the store keeps under every other key. -/
def Confined (key : S) (action : Py (World S) α) : Prop :=
  ∃ view : Py (Cell S) α, ∀ world,
    view (world.storage.cell key) = ((action world).1, (action world).2.storage.cell key) ∧
      ∀ other, other ≠ key → (action world).2.storage.slot other = world.storage.slot other

namespace Confined

variable {key : S}

theorem pure (a : α) : Confined key (Pure.pure a) :=
  ⟨Pure.pure a, fun _ => ⟨rfl, fun _ _ => rfl⟩⟩

theorem raise (error : PyError) : Confined key (Py.raise error : Py (World S) α) :=
  ⟨Py.raise error, fun _ => ⟨rfl, fun _ _ => rfl⟩⟩

theorem storage {method : Py (InMemoryStore S S) α} {view : Py (Cell S) α}
    (h : InMemoryStore.Local key method view) : Confined key (onStorage method) :=
  ⟨view, fun world => h world.storage⟩

/-- A sequence of actions on a key acts on that key. -/
theorem bind {action : Py (World S) α} {next : α → Py (World S) β} (h : Confined key action)
    (hnext : ∀ a, Confined key (next a)) : Confined key (action >>= next) := by
  obtain ⟨view, hview⟩ := h
  choose nextView hnextView using hnext
  refine ⟨view >>= nextView, ?_⟩
  intro world
  obtain ⟨hrun, hframe⟩ := hview world
  simp only [Py.bind_apply, hrun]
  generalize action world = run at hframe
  obtain ⟨result, after⟩ := run
  cases result with
  | error error => exact ⟨rfl, hframe⟩
  | ok a =>
      obtain ⟨hrun', hframe'⟩ := hnextView a after
      exact ⟨hrun', fun other hother => (hframe' other hother).trans (hframe other hother)⟩

theorem ite {condition : Prop} [Decidable condition] {first second : Py (World S) α}
    (h : Confined key first) (h' : Confined key second) :
    Confined key (if condition then first else second) := by
  split
  · exact h
  · exact h'

/-- Handling a `ValueError` without touching the store acts on the same key. -/
theorem exceptValueError {action : Py (World S) α} (h : Confined key action)
    (handler : String → α) :
    Confined key (Py.exceptValueError action fun message => Pure.pure (handler message)) := by
  obtain ⟨view, hview⟩ := h
  refine ⟨Py.exceptValueError view fun message => Pure.pure (handler message), ?_⟩
  intro world
  obtain ⟨hrun, hframe⟩ := hview world
  simp only [Py.exceptValueError, hrun]
  generalize action world = run at hframe
  obtain ⟨result, after⟩ := run
  cases result with
  | ok a => exact ⟨rfl, hframe⟩
  | error error =>
      cases error with
      | valueError message => exact ⟨rfl, hframe⟩
      | _ => exact ⟨rfl, hframe⟩

end Confined

/-- An action whose result does not depend on the world, which it leaves as it is. -/
def Untouched (action : Py (World S) α) : Prop := ∃ result, ∀ world, action world = (result, world)

end World

namespace Dispatcher

open World

variable [PyHash String] {key : String} {args : List String}

/-- A command that the routing lets pass is executed. -/
theorem dispatch_local {dispatcher : Dispatcher} {command : Command}
    (h : dispatcher.routeError command = .ok none) :
    dispatcher.dispatch command = dispatcher.execute command := by
  funext world
  simp only [dispatch, h, Py.bind_apply, Py.of_except_apply]

/-- A command that the routing refuses is answered with its message. -/
theorem dispatch_refused {dispatcher : Dispatcher} {command : Command} {message : String}
    (h : dispatcher.routeError command = .ok (some message)) (world : World String) :
    dispatcher.dispatch command world = (.ok (Response.ofError message), world) := by
  simp only [dispatch, h, Py.bind_apply, Py.of_except_apply, Py.pure_apply]

/-- The handlers do not look at the cluster. -/
theorem handler_cluster (cluster : Option ClusterCoordinator) (name : String)
    (args : List String) : (⟨none, cluster⟩ : Dispatcher).handler name args =
      (⟨none, none⟩ : Dispatcher).handler name args := by
  have hset : (⟨none, cluster⟩ : Dispatcher).dispatchSet args =
      (⟨none, none⟩ : Dispatcher).dispatchSet args := rfl
  have hdel : (⟨none, cluster⟩ : Dispatcher).dispatchDel args =
      (⟨none, none⟩ : Dispatcher).dispatchDel args := rfl
  have hexpire : (⟨none, cluster⟩ : Dispatcher).dispatchExpire args =
      (⟨none, none⟩ : Dispatcher).dispatchExpire args := rfl
  have hsave : (⟨none, cluster⟩ : Dispatcher).dispatchSave args =
      (⟨none, none⟩ : Dispatcher).dispatchSave args := rfl
  rw [handler, handler, hset, hdel, hexpire, hsave]

/-- The cluster is for routing only. -/
theorem execute_cluster (cluster : Option ClusterCoordinator) (command : Command) :
    (⟨none, cluster⟩ : Dispatcher).execute command = (⟨none, none⟩ : Dispatcher).execute command := by
  unfold execute
  rw [handler_cluster]

/-- What holds of the handler of each name holds of every handler. -/
theorem handler_cases {dispatcher : Dispatcher} {name : String}
    {handler : Py (World String) Response} {motive : Py (World String) Response → Prop}
    (h : dispatcher.handler name args = some handler)
    (ping : name = "PING" → motive (dispatchPing args))
    (set : name = "SET" → motive (dispatcher.dispatchSet args))
    (get : name = "GET" → motive (dispatchGet args))
    (del : name = "DEL" → motive (dispatcher.dispatchDel args))
    (exist : name = "EXISTS" → motive (dispatchExists args))
    (expire : name = "EXPIRE" → motive (dispatcher.dispatchExpire args))
    (ttl : name = "TTL" → motive (dispatchTtl args))
    (save : name = "SAVE" → motive (dispatcher.dispatchSave args)) : motive handler := by
  unfold Dispatcher.handler at h
  split at h
  · next hname => exact Option.some.inj h ▸ ping hname
  split at h
  · next hname => exact Option.some.inj h ▸ set hname
  split at h
  · next hname => exact Option.some.inj h ▸ get hname
  split at h
  · next hname => exact Option.some.inj h ▸ del hname
  split at h
  · next hname => exact Option.some.inj h ▸ exist hname
  split at h
  · next hname => exact Option.some.inj h ▸ expire hname
  split at h
  · next hname => exact Option.some.inj h ▸ ttl hname
  split at h
  · next hname => exact Option.some.inj h ▸ save hname
  cases h

theorem confined_arity (commandName : String) (expected : Nat) :
    Confined key (ensureArity commandName args expected) :=
  .ite (.raise _) (.pure ())

/-- Each handler of a key acts on its first argument. -/
theorem confined_handler (cluster : Option ClusterCoordinator) {name : String}
    {handler : Py (World String) Response} (hping : name ≠ "PING") (hsave : name ≠ "SAVE")
    (h : (⟨none, cluster⟩ : Dispatcher).handler name args = some handler) :
    Confined (arg args 0) handler := by
  refine handler_cases h ?_ ?_ ?_ ?_ ?_ ?_ ?_ ?_
  · intro hname
    exact absurd hname hping
  · intro hname
    refine .bind (confined_arity _ _) fun _ => ?_
    refine .bind (.storage (InMemoryStore.local_set _ _)) fun _ => ?_
    exact .bind (.pure ()) fun _ => .pure _
  · intro hname
    refine .bind (confined_arity _ _) fun _ => ?_
    exact .bind (.storage InMemoryStore.local_get) fun _ => .pure _
  · intro hname
    refine .bind (confined_arity _ _) fun _ => ?_
    refine .bind (.storage InMemoryStore.local_delete) fun deleted => ?_
    exact .ite (.bind (.pure ()) fun _ => .pure _) (.pure _)
  · intro hname
    refine .bind (confined_arity _ _) fun _ => ?_
    exact .bind (.storage InMemoryStore.local_exists) fun _ => .pure _
  · intro hname
    refine .bind (confined_arity _ _) fun _ => ?_
    cases PyText.parseInt (arg args 1) with
    | none => exact .raise _
    | some seconds =>
        refine .ite (.raise _) ?_
        refine .bind (.storage (InMemoryStore.local_expire seconds)) fun updated => ?_
        exact .ite (.bind (.pure ()) fun _ => .pure _) (.pure _)
  · intro hname
    refine .bind (confined_arity _ _) fun _ => ?_
    exact .bind (.storage InMemoryStore.local_store_ttl) fun _ => .pure _
  · intro hname
    exact absurd hname hsave

/-- A command with a key acts on that key. -/
theorem confined_execute (cluster : Option ClusterCoordinator) {command : Command}
    (h : command.key = some key) :
    Confined key ((⟨none, cluster⟩ : Dispatcher).execute command) := by
  obtain ⟨name, args⟩ := command
  cases args with
  | nil => cases h
  | cons first rest =>
      have hname : ¬ (Command.normalizedName ⟨name, first :: rest⟩ = "PING" ∨
          Command.normalizedName ⟨name, first :: rest⟩ = "SAVE") := by
        intro hname
        simp only [Command.key, if_pos hname] at h
        cases h
      simp only [Command.key, if_neg hname, Option.some.injEq] at h
      subst h
      unfold execute
      split
      · next handler hhandler =>
          refine .exceptValueError ?_ _
          exact confined_handler cluster (fun hping => hname (.inl hping))
            (fun hsave => hname (.inr hsave)) hhandler
      · exact .pure _

/-- A wrong number of arguments is answered before anything else happens. -/
theorem untouched_arity {commandName : String} {expected : Nat} (h : args.length ≠ expected)
    (rest : Unit → Py (World String) Response) :
    Untouched (Py.exceptValueError (ensureArity commandName args expected >>= rest)
      fun message => pure (Response.ofError message)) := by
  refine ⟨.ok (Response.ofError
    s!"wrong number of arguments for '{PyText.lower commandName}' command"), ?_⟩
  intro world
  rw [ensureArity, if_pos h]
  rfl

/-- A command without a key leaves the store alone. -/
theorem untouched_execute (cluster : Option ClusterCoordinator) {command : Command}
    (h : command.key = none) : Untouched ((⟨none, cluster⟩ : Dispatcher).execute command) := by
  obtain ⟨name, args⟩ := command
  have hargs : Command.normalizedName ⟨name, args⟩ ≠ "PING" →
      Command.normalizedName ⟨name, args⟩ ≠ "SAVE" → ∀ count, args.length ≠ count + 1 := by
    intro hping hsave count
    cases args with
    | nil => exact (Nat.succ_ne_zero count).symm
    | cons first rest =>
        simp only [Command.key, hping, hsave, or_self, if_false] at h
        cases h
  unfold execute
  split
  · next handler hhandler =>
      refine handler_cases (motive := fun handler => Untouched (Py.exceptValueError handler
        fun message => pure (Response.ofError message))) hhandler ?_ ?_ ?_ ?_ ?_ ?_ ?_ ?_
      · intro hname
        by_cases harity : args.length = 0
        · exact ⟨.ok (.simpleString "PONG"), fun world => by
            rw [dispatchPing, ensureArity, if_neg (fun hne => hne harity)]
            rfl⟩
        · exact untouched_arity harity _
      · intro hname
        exact untouched_arity (hargs (by simp [hname]) (by simp [hname]) _) _
      · intro hname
        exact untouched_arity (hargs (by simp [hname]) (by simp [hname]) _) _
      · intro hname
        exact untouched_arity (hargs (by simp [hname]) (by simp [hname]) _) _
      · intro hname
        exact untouched_arity (hargs (by simp [hname]) (by simp [hname]) _) _
      · intro hname
        exact untouched_arity (hargs (by simp [hname]) (by simp [hname]) _) _
      · intro hname
        exact untouched_arity (hargs (by simp [hname]) (by simp [hname]) _) _
      · intro hname
        by_cases harity : args.length = 0
        · exact ⟨.ok (Response.ofError "persistence is not enabled"), fun world => by
            rw [dispatchSave, ensureArity, if_neg (fun hne => hne harity)]
            rfl⟩
        · exact untouched_arity harity _
  · exact ⟨_, fun _ => rfl⟩

/-- A message that does not send the client elsewhere. -/
def NotMoved (message : String) : Prop := Response.startsWith message "MOVED " = false

omit [PyHash String] in
/-- A message that starts with another letter is no redirection. -/
theorem not_moved {message : String} {c : Char} {rest : List Char}
    (h : message.toList = c :: rest) (hc : c ≠ 'M') : NotMoved message := by
  have hmoved : "MOVED ".toList = 'M' :: "OVED ".toList := by decide
  rw [NotMoved, Response.startsWith, h, hmoved, List.isPrefixOf_cons_cons, Bool.and_eq_false_iff]
  exact .inl (by simpa using hc.symm)

/-- An exception that does not become a redirection. -/
def NoRedirection (error : PyError) : Prop :=
  ∀ message, error = .valueError message → NotMoved message

/-- A response that is no redirection. -/
def Final (response : Response) : Prop := ∀ message, response = .error message → NotMoved message

omit [PyHash String] in
/-- The reply to a `ValueError` is a redirection only if its message is one. -/
theorem final_of_error {message : String} (h : NotMoved message) :
    Final (Response.ofError message) := by
  intro text htext
  cases htext
  split
  · exact h
  · have hprefixed : ("ERR " ++ message).toList = 'E' :: ("RR ".toList ++ message.toList) := by
      rw [String.toList_append]
      rfl
    exact not_moved hprefixed (by decide)

/-- The exceptions of the store are no redirections. -/
theorem raises_storage {α : Type} {key : String} {method : Py (InMemoryStore String String) α}
    {view : Py (Cell String) α} (h : InMemoryStore.Local key method view)
    (hview : view.RaisesOnly NoRedirection) : (onStorage method).RaisesOnly NoRedirection :=
  .zoom (h.raises hview)

theorem raises_arity (commandName : String) (expected : Nat) :
    (ensureArity commandName args expected).RaisesOnly NoRedirection := by
  refine .ite (.raise ?_) (.pure ())
  intro message hmessage
  cases hmessage
  exact not_moved (by simp; rfl) (by decide)

/-- What a handler raises or returns is no redirection. -/
theorem answers_handler (cluster : Option ClusterCoordinator) {name : String}
    {handler : Py (World String) Response}
    (h : (⟨none, cluster⟩ : Dispatcher).handler name args = some handler) :
    handler.RaisesOnly NoRedirection ∧ handler.ReturnsOnly Final := by
  have hkey : NoRedirection .keyError := by
    intro message hmessage
    cases hmessage
  have hoverflow : ∀ text, NoRedirection (.overflowError text) := by
    intro text message hmessage
    cases hmessage
  have hnan : NoRedirection (.valueError "cannot convert float NaN to integer") := by
    intro message hmessage
    cases hmessage
    rfl
  have hinteger : NoRedirection notAnInteger := by
    intro message hmessage
    cases hmessage
    rfl
  have hfinal : ∀ value, Final (.integer value) := by
    intro value text htext
    cases htext
  -- these are all the exceptions of the methods: none of them has the text of a redirection
  refine handler_cases
    (motive := fun handler => handler.RaisesOnly NoRedirection ∧ handler.ReturnsOnly Final) h
    ?_ ?_ ?_ ?_ ?_ ?_ ?_ ?_
  · intro hname
    refine ⟨.bind (raises_arity _ _) fun _ => .pure _, .bind fun _ => .pure ?_⟩
    intro text htext
    cases htext
  · intro hname
    refine ⟨.bind (raises_arity _ _) fun _ => ?_,
      .bind fun _ => .bind fun _ => .bind fun _ => .pure ?_⟩
    · refine .bind (raises_storage (InMemoryStore.local_set _ _) ?_) fun _ =>
        .bind (.pure ()) fun _ => .pure _
      exact Cell.raises_set hkey hoverflow _ _
    · intro text htext
      cases htext
  · intro hname
    refine ⟨.bind (raises_arity _ _) fun _ => ?_, .bind fun _ => .bind fun found => .pure ?_⟩
    · refine .bind (raises_storage InMemoryStore.local_get ?_) fun _ => .pure _
      exact Cell.raises_get hkey
    · intro text htext
      cases found <;> cases htext
  · intro hname
    refine ⟨.bind (raises_arity _ _) fun _ => ?_, .bind fun _ => .bind fun deleted => ?_⟩
    · refine .bind (raises_storage InMemoryStore.local_delete ?_) fun deleted =>
        .ite (.bind (.pure ()) fun _ => .pure _) (.pure _)
      exact Cell.raises_delete hkey
    · exact .ite (.bind fun _ => .pure (hfinal _)) (.pure (hfinal _))
  · intro hname
    refine ⟨.bind (raises_arity _ _) fun _ => ?_,
      .bind fun _ => .bind fun found => .pure (hfinal found)⟩
    refine .bind (raises_storage InMemoryStore.local_exists ?_) fun _ => .pure _
    exact Cell.raises_exists hkey
  · intro hname
    refine ⟨.bind (raises_arity _ _) fun _ => ?_, .bind fun _ => ?_⟩
    · cases PyText.parseInt (arg args 1) with
      | none => exact .raise hinteger
      | some seconds =>
          refine .ite (.raise hinteger) ?_
          refine .bind (raises_storage (InMemoryStore.local_expire seconds) ?_) fun updated =>
            .ite (.bind (.pure ()) fun _ => .pure _) (.pure _)
          exact Cell.raises_expire hkey hoverflow seconds
    · cases PyText.parseInt (arg args 1) with
      | none => exact .raise _
      | some seconds =>
          refine .ite (.raise _) (.bind fun updated => ?_)
          exact .ite (.bind fun _ => .pure (hfinal _)) (.pure (hfinal _))
  · intro hname
    refine ⟨.bind (raises_arity _ _) fun _ => ?_,
      .bind fun _ => .bind fun remaining => .pure (hfinal remaining)⟩
    refine .bind (raises_storage InMemoryStore.local_store_ttl ?_) fun _ => .pure _
    exact Cell.raises_ttl hkey hoverflow hnan
  · intro hname
    refine ⟨.bind (raises_arity _ _) fun _ => .pure _, .bind fun _ => .pure ?_⟩
    exact final_of_error rfl

/-- Without routing, no command is answered with a redirection. -/
theorem final_execute (cluster : Option ClusterCoordinator) (command : Command) :
    ((⟨none, cluster⟩ : Dispatcher).execute command).ReturnsOnly Final := by
  unfold execute
  split
  · next handler hhandler =>
      obtain ⟨hraises, hreturns⟩ := answers_handler cluster hhandler
      intro world response hresponse
      simp only [Py.exceptValueError] at hresponse
      cases hrun : handler world with
      | mk result after =>
          rw [hrun] at hresponse
          cases result with
          | ok value =>
              cases hresponse
              exact hreturns world response (by rw [hrun])
          | error error =>
              cases error with
              | valueError message =>
                  cases hresponse
                  exact final_of_error (hraises world _ (by rw [hrun]) message rfl)
              | _ => cases hresponse
  · refine .pure (final_of_error ?_)
    exact not_moved (by simp; rfl) (by decide)

end Dispatcher

end MiniRedis
