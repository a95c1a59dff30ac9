import Mathlib.Tactic.Common

/-!
# Stateful computations that may raise

`Py σ α` reads and writes a state `σ` and either returns an `α` or raises. As in Python,
a raise keeps every assignment made before it, so the state is returned in both cases.
The lemmas evaluate a computation on a given state one operation at a time.
-/

/-- The exceptions a modelled function can raise. `JSONDecodeError` and
`UnicodeDecodeError` are subclasses of `ValueError` and appear as such. -/
inductive PyError where
  | valueError (message : String)
  | keyError
  | indexError
  | overflowError (message : String)
  | typeError
  | attributeError
  | osError
  | recursionError
deriving DecidableEq, Repr

/-- A sequence that succeeds has parts that succeed. -/
theorem Except.exists_of_bind_ok {ε α β : Type} {first : Except ε α} {next : α → Except ε β}
    {b : β} (h : (first >>= next) = .ok b) : ∃ a, first = .ok a ∧ next a = .ok b := by
  cases first with
  | error error => cases h
  | ok a => exact ⟨a, rfl, h⟩

/-- A computation over the state `σ` that returns an `α` or raises. -/
def Py (σ α : Type) : Type := σ → Except PyError α × σ

namespace Py

variable {σ τ α β : Type}

instance : Monad (Py σ) where
  pure a := fun state => (.ok a, state)
  bind first next := fun state =>
    match first state with
    | (.ok a, after) => next a after
    | (.error error, after) => (.error error, after)

/-- Stop with an exception. -/
def raise (error : PyError) : Py σ α := fun state => (.error error, state)

/-- The current state. -/
def get : Py σ σ := fun state => (.ok state, state)

/-- Change the state. -/
def modify (f : σ → σ) : Py σ Unit := fun state => (.ok (), f state)

/-- Run a computation on a part of the state. -/
def zoom (part : σ → τ) (update : σ → τ → σ) (action : Py τ α) : Py σ α := fun state =>
  let (result, after) := action (part state)
  (result, update state after)

/-- Return a value or raise, the state unchanged. -/
def ofExcept (result : Except PyError α) : Py σ α := fun state => (result, state)

/-- Run `action`, and `handler` on the message of a `ValueError` it raises. -/
def exceptValueError (action : Py σ α) (handler : String → Py σ α) : Py σ α := fun state =>
  match action state with
  | (.error (.valueError message), after) => handler message after
  | other => other

/-- Run the body for each element, in order. -/
def forEach (xs : List α) (body : α → Py σ Unit) : Py σ Unit :=
  match xs with
  | [] => pure ()
  | x :: rest => do
      body x
      forEach rest body

@[simp] theorem pure_apply (a : α) (state : σ) : (pure a : Py σ α) state = (.ok a, state) := rfl

@[simp] theorem raise_apply (error : PyError) (state : σ) :
    (raise error : Py σ α) state = (.error error, state) := rfl

@[simp] theorem get_apply (state : σ) : (get : Py σ σ) state = (.ok state, state) := rfl

@[simp] theorem modify_apply (f : σ → σ) (state : σ) : modify f state = (.ok (), f state) := rfl

@[simp] theorem of_except_apply (result : Except PyError α) (state : σ) :
    ofExcept result state = (result, state) := rfl

@[simp] theorem zoom_apply (part : σ → τ) (update : σ → τ → σ) (action : Py τ α) (state : σ) :
    zoom part update action state =
      ((action (part state)).1, update state (action (part state)).2) := rfl

/-- A computation goes on with the value the first part returned. -/
theorem bind_ok {first : Py σ α} {next : α → Py σ β} {state after : σ} {a : α}
    (h : first state = (.ok a, after)) : (first >>= next) state = next a after := by
  change (match first state with
    | (.ok a, after) => next a after
    | (.error error, after) => (.error error, after)) = _
  rw [h]

/-- A computation whose first part raises raises the same. -/
theorem bind_error {first : Py σ α} {next : α → Py σ β} {state after : σ} {error : PyError}
    (h : first state = (.error error, after)) :
    (first >>= next) state = (.error error, after) := by
  change (match first state with
    | (.ok a, after) => next a after
    | (.error error, after) => (.error error, after)) = _
  rw [h]

@[simp] theorem bind_apply (first : Py σ α) (next : α → Py σ β) (state : σ) :
    (first >>= next) state =
      match first state with
      | (.ok a, after) => next a after
      | (.error error, after) => (.error error, after) := rfl

/-- Whatever the state, an exception that the computation raises satisfies `P`. -/
def RaisesOnly (P : PyError → Prop) (action : Py σ α) : Prop :=
  ∀ state error, (action state).1 = .error error → P error

namespace RaisesOnly

variable {P : PyError → Prop}

theorem pure (a : α) : RaisesOnly P (Pure.pure a : Py σ α) := by
  intro state error h
  cases h

theorem get : RaisesOnly P (Py.get : Py σ σ) := by
  intro state error h
  cases h

theorem modify (f : σ → σ) : RaisesOnly P (Py.modify f) := by
  intro state error h
  cases h

theorem raise {error : PyError} (h : P error) : RaisesOnly P (Py.raise error : Py σ α) := by
  intro state other hother
  cases hother
  exact h

theorem ofExcept {result : Except PyError α} (h : ∀ error, result = .error error → P error) :
    RaisesOnly P (Py.ofExcept result : Py σ α) := by
  intro state error herror
  exact h error herror

theorem bind {first : Py σ α} {next : α → Py σ β} (h : RaisesOnly P first)
    (hnext : ∀ a, RaisesOnly P (next a)) : RaisesOnly P (first >>= next) := by
  intro state error herror
  rw [bind_apply] at herror
  cases hfirst : first state with
  | mk result after =>
      rw [hfirst] at herror
      cases result with
      | error other =>
          cases herror
          exact h state error (by rw [hfirst])
      | ok a => exact hnext a after error herror

theorem ite {condition : Prop} [Decidable condition] {first second : Py σ α}
    (h : RaisesOnly P first) (h' : RaisesOnly P second) :
    RaisesOnly P (if condition then first else second) := by
  split
  · exact h
  · exact h'

theorem zoom {part : σ → τ} {update : σ → τ → σ} {action : Py τ α} (h : RaisesOnly P action) :
    RaisesOnly P (Py.zoom part update action) := by
  intro state error herror
  exact h (part state) error herror

end RaisesOnly

/-- Whatever the state, a value that the computation returns satisfies `Q`. -/
def ReturnsOnly (Q : α → Prop) (action : Py σ α) : Prop :=
  ∀ state a, (action state).1 = .ok a → Q a

namespace ReturnsOnly

variable {Q : β → Prop}

theorem pure {b : β} (h : Q b) : ReturnsOnly Q (Pure.pure b : Py σ β) := by
  intro state other hother
  cases hother
  exact h

theorem raise (error : PyError) : ReturnsOnly Q (Py.raise error : Py σ β) := by
  intro state b h
  cases h

theorem bind {first : Py σ α} {next : α → Py σ β} (hnext : ∀ a, ReturnsOnly Q (next a)) :
    ReturnsOnly Q (first >>= next) := by
  intro state b hreturn
  rw [bind_apply] at hreturn
  cases hfirst : first state with
  | mk result after =>
      rw [hfirst] at hreturn
      cases result with
      | error other => cases hreturn
      | ok a => exact hnext a after b hreturn

theorem ite {condition : Prop} [Decidable condition] {first second : Py σ β}
    (h : ReturnsOnly Q first) (h' : ReturnsOnly Q second) :
    ReturnsOnly Q (if condition then first else second) := by
  split
  · exact h
  · exact h'

end ReturnsOnly

/-- Run computations one after the other, whatever they raise. -/
def session : List (Py σ α) → σ → List (Except PyError α) × σ
  | [], state => ([], state)
  | action :: rest, state =>
      let (result, middle) := action state
      let (results, after) := session rest middle
      (result :: results, after)

/-- Computations that agree one by one agree in a row. -/
theorem session_simulation {ι : Type} {left : ι → Py σ α} {right : ι → Py τ α}
    (R : σ → τ → Prop)
    (hstep : ∀ i s t, R s t → (left i s).1 = (right i t).1 ∧ R (left i s).2 (right i t).2)
    (steps : List ι) {s : σ} {t : τ} (h : R s t) :
    (session (steps.map left) s).1 = (session (steps.map right) t).1 ∧
      R (session (steps.map left) s).2 (session (steps.map right) t).2 := by
  induction steps generalizing s t with
  | nil => exact ⟨rfl, h⟩
  | cons i rest ih =>
      obtain ⟨hresult, hafter⟩ := hstep i s t h
      obtain ⟨hresults, hlast⟩ := ih hafter
      exact ⟨congrArg₂ List.cons hresult hresults, hlast⟩

/-- What every computation returns, every one of a row returns. -/
theorem session_returns {Q : α → Prop} {actions : List (Py σ α)}
    (h : ∀ action ∈ actions, action.ReturnsOnly Q) (state : σ) {a : α}
    (ha : .ok a ∈ (session actions state).1) : Q a := by
  induction actions generalizing state with
  | nil => cases ha
  | cons action rest ih =>
      rcases List.mem_cons.mp ha with hfirst | hrest
      · exact h action List.mem_cons_self state a hfirst.symm
      · exact ih (fun other hother => h other (List.mem_cons_of_mem _ hother)) _ hrest

end Py
