import MiniRedis.Foundation.Effect

/-!
# Pre- and postconditions

`Triple P action Q E` says of a computation that may raise: from a state that satisfies `P`
it returns a value and leaves a state that satisfy `Q`, or raises an exception and leaves a
state that satisfy `E`. The rules follow the structure of the computation.
-/

namespace Py

variable {σ τ α β : Type}

/-- From `P`, the computation ends in `Q` or raises in `E`. -/
def Triple (P : σ → Prop) (action : Py σ α) (Q : α → σ → Prop) (E : PyError → σ → Prop) : Prop :=
  ∀ state, P state →
    match action state with
    | (.ok a, after) => Q a after
    | (.error error, after) => E error after

namespace Triple

variable {P : σ → Prop} {Q : α → σ → Prop} {E : PyError → σ → Prop}

/-- A run that returns, from a triple. -/
theorem ok {action : Py σ α} (h : Triple P action Q E) {state after : σ} {a : α} (hP : P state)
    (hrun : action state = (.ok a, after)) : Q a after := by
  have hpost := h state hP
  rw [hrun] at hpost
  exact hpost

/-- A run that raises, from a triple. -/
theorem error {action : Py σ α} (h : Triple P action Q E) {state after : σ} {error : PyError}
    (hP : P state) (hrun : action state = (.error error, after)) : E error after := by
  have hpost := h state hP
  rw [hrun] at hpost
  exact hpost

/-- A computation that cannot raise returns. -/
theorem returns {action : Py σ α} (h : Triple P action Q fun _ _ => False) {state : σ}
    (hP : P state) : ∃ a after, action state = (.ok a, after) ∧ Q a after := by
  have hpost := h state hP
  split at hpost
  · next a after hrun => exact ⟨a, after, hrun, hpost⟩
  · exact hpost.elim

/-- A computation that cannot return raises. -/
theorem raises {action : Py σ α} (h : Triple P action (fun _ _ => False) E) {state : σ}
    (hP : P state) : ∃ error after, action state = (.error error, after) ∧ E error after := by
  have hpost := h state hP
  split at hpost
  · exact hpost.elim
  · next error after hrun => exact ⟨error, after, hrun, hpost⟩

/-- What holds after a return and after an exception holds in the end. -/
theorem after {R : σ → Prop} {action : Py σ α} (h : Triple P action (fun _ => R) fun _ => R)
    {state : σ} (hP : P state) : R (action state).2 := by
  have hpost := h state hP
  generalize action state = run at hpost ⊢
  obtain ⟨result, last⟩ := run
  cases result with
  | ok a => exact hpost
  | error error => exact hpost

theorem pure {a : α} (h : ∀ state, P state → Q a state) :
    Triple P (Pure.pure a : Py σ α) Q E := h

theorem raise {error : PyError} (h : ∀ state, P state → E error state) :
    Triple P (Py.raise error : Py σ α) Q E := h

/-- A sequence: the first part ends where the second starts. -/
theorem bind {first : Py σ β} {next : β → Py σ α} {R : β → σ → Prop}
    (hfirst : Triple P first R E) (hnext : ∀ b, Triple (R b) (next b) Q E) :
    Triple P (first >>= next) Q E := by
  intro state hP
  have hmiddle := hfirst state hP
  rw [bind_apply]
  generalize first state = run at hmiddle ⊢
  obtain ⟨result, middle⟩ := run
  cases result with
  | ok b => exact hnext b middle hmiddle
  | error error => exact hmiddle

theorem ite {condition : Prop} [Decidable condition] {first second : Py σ α}
    (hfirst : condition → Triple P first Q E) (hsecond : ¬ condition → Triple P second Q E) :
    Triple P (if condition then first else second) Q E := by
  split
  · next h => exact hfirst h
  · next h => exact hsecond h

/-- A stronger precondition and weaker postconditions. -/
theorem consequence {P' : σ → Prop} {Q' : α → σ → Prop} {E' : PyError → σ → Prop}
    {action : Py σ α} (h : Triple P' action Q' E') (hP : ∀ state, P state → P' state)
    (hQ : ∀ a state, Q' a state → Q a state) (hE : ∀ error state, E' error state → E error state) :
    Triple P action Q E := by
  intro state hstate
  have hpost := h state (hP state hstate)
  split at hpost
  · next a after hrun => exact hQ a after hpost
  · next error after hrun => exact hE error after hpost

/-- A stronger precondition. -/
theorem strengthen {P' : σ → Prop} {action : Py σ α} (h : Triple P' action Q E)
    (hP : ∀ state, P state → P' state) : Triple P action Q E :=
  h.consequence hP (fun _ _ hQ => hQ) fun _ _ hE => hE

/-- A weaker postcondition of a return. -/
theorem weaken {Q' : α → σ → Prop} {action : Py σ α} (h : Triple P action Q' E)
    (hQ : ∀ a state, Q' a state → Q a state) : Triple P action Q E :=
  h.consequence (fun _ hP => hP) hQ fun _ _ hE => hE

/-- A weaker postcondition of an exception. -/
theorem weaken_error {E' : PyError → σ → Prop} {action : Py σ α} (h : Triple P action Q E')
    (hE : ∀ error state, E' error state → E error state) : Triple P action Q E :=
  h.consequence (fun _ hP => hP) (fun _ _ hQ => hQ) hE

/-- A computation that cannot raise raises nothing but what `E` allows. -/
theorem safe {action : Py σ α} (h : Triple P action Q fun _ _ => False) : Triple P action Q E :=
  h.weaken_error fun _ _ hE => hE.elim

/-- A handler takes over where the `ValueError` was raised. -/
theorem exceptValueError {action : Py σ α} {handler : String → Py σ α}
    {V : String → σ → Prop}
    (haction : Triple P action Q fun error state =>
      match error with
      | .valueError message => V message state
      | other => E other state)
    (hhandler : ∀ message, Triple (V message) (handler message) Q E) :
    Triple P (Py.exceptValueError action handler) Q E := by
  intro state hP
  have hmiddle := haction state hP
  unfold Py.exceptValueError
  generalize action state = run at hmiddle ⊢
  obtain ⟨result, middle⟩ := run
  cases result with
  | ok a => exact hmiddle
  | error error =>
      cases error with
      | valueError message => exact hhandler message middle hmiddle
      | _ => exact hmiddle

end Triple

end Py
