import MiniRedis.Foundation.Effect

/-!
# Counted computations and their amortized cost

A computation with a counter for its state counts something it does. `Erases` relates it to
the computation without the counter. An `Account` has an invariant of the data, a potential
and the price of one count, and `Account.Pays` says that what a step counts is paid out of its
allowance and of what the potential falls by. Both have a rule for a loop over a list.
-/

namespace Py

variable {σ ι α β : Type}

/-- Without its counter, the computation is `plain`. -/
def Erases (counted : Py Nat α) (plain : Except PyError α) : Prop :=
  ∀ count, (counted count).1 = plain

namespace Erases

theorem pure (a : α) : Erases (Pure.pure a) (Except.ok a) := fun _ => rfl

theorem raise (error : PyError) : Erases (Py.raise error : Py Nat α) (.error error) :=
  fun _ => rfl

/-- A count adds nothing to what is computed. -/
theorem modify {counted : Py Nat α} {plain : Except PyError α} (h : Erases counted plain)
    (f : Nat → Nat) : Erases (Py.modify f >>= fun _ => counted) plain :=
  fun count => h (f count)

theorem bind {first : Py Nat α} {next : α → Py Nat β} {plain : Except PyError α}
    {rest : α → Except PyError β} (h : Erases first plain)
    (hnext : ∀ a, Erases (next a) (rest a)) : Erases (first >>= next) (plain >>= rest) := by
  intro count
  have hfirst := h count
  rw [bind_apply]
  cases hrun : first count with
  | mk result after =>
      rw [hrun] at hfirst
      subst hfirst
      cases result with
      | error error => rfl
      | ok a => exact hnext a after

theorem map {counted : Py Nat α} {plain : Except PyError α} (h : Erases counted plain)
    (f : α → β) : Erases (counted >>= fun a => Pure.pure (f a)) (plain.map f) := by
  intro count
  have hplain := h count
  rw [bind_apply]
  cases hrun : counted count with
  | mk result after =>
      rw [hrun] at hplain
      subst hplain
      cases result with
      | error error => rfl
      | ok a => rfl

/-- A loop of counted steps is the loop of the steps. -/
theorem fold {counted : σ → ι → Py Nat σ} {plain : σ → ι → Except PyError σ}
    (h : ∀ state item, Erases (counted state item) (plain state item)) (items : List ι)
    (state : σ) : Erases (items.foldlM counted state) (items.foldlM plain state) := by
  induction items generalizing state with
  | nil => exact pure state
  | cons item rest ih =>
      rw [List.foldlM_cons, List.foldlM_cons]
      exact (h state item).bind ih

end Erases

/-- An invariant of the data, its potential, and the price of one count. -/
structure Account (σ : Type) where
  inv : σ → Prop
  potential : σ → Nat
  price : Nat

namespace Account

variable {account : Account σ}

/-- From any data under the invariant and any count, the step returns data under the invariant,
and what it adds to the count is paid by the allowance and the potential. -/
def Pays (account : Account σ) (allowance : Nat) (step : σ → Py Nat σ) : Prop :=
  ∀ state count, account.inv state → ∃ after total, step state count = (.ok after, total) ∧
    account.inv after ∧
    account.price * total + account.potential after ≤
      account.price * count + allowance + account.potential state

/-- The allowances of a list of items. -/
def allow (allowance : ι → Nat) : List ι → Nat
  | [] => 0
  | item :: rest => allowance item + allow allowance rest

/-- Equal allowances are counted. -/
theorem allow_const (allowance : Nat) (items : List ι) :
    allow (fun _ => allowance) items = allowance * items.length := by
  induction items with
  | nil => rfl
  | cons item rest ih =>
      rw [allow, ih, List.length_cons, Nat.mul_succ]
      omega

/-- The potentials between the steps of a loop cancel. -/
theorem Pays.fold {allowance : ι → Nat} {step : σ → ι → Py Nat σ}
    (h : ∀ item, account.Pays (allowance item) fun state => step state item) (items : List ι) :
    account.Pays (allow allowance items) fun state => items.foldlM step state := by
  induction items with
  | nil =>
      intro state count hinv
      exact ⟨state, count, rfl, hinv, Nat.le_refl _⟩
  | cons item rest ih =>
      intro state count hinv
      obtain ⟨middle, between, hstep, hmiddle, hpaid⟩ := h item state count hinv
      obtain ⟨after, total, hrest, hafter, hrestPaid⟩ := ih middle between hmiddle
      refine ⟨after, total, ?_, hafter, ?_⟩
      · show (item :: rest).foldlM step state count = _
        rw [List.foldlM_cons, bind_ok hstep]
        exact hrest
      · rw [allow]
        omega

end Account

end Py
