import MiniRedis.Foundation.Effect

/-!
# Simulations

`Simulates P concrete abstract Q E` says that two computations over different states run in
step: from states related by `P`, both return and end in `Q`, or both raise the same exception
and end in `E`. The rules follow the structure of the two computations, and `runs_simulate` is
for computations that run one after the other while time passes.
-/

namespace Py

variable {σ τ α β γ δ : Type}

/-- Both computations have returned and are in `Q`, or both have raised the same and are in `E`. -/
def InStep (Q : α → β → σ → τ → Prop) (E : σ → τ → Prop) :
    Except PyError α × σ → Except PyError β × τ → Prop
  | (.ok a, s), (.ok b, t) => Q a b s t
  | (.error error, s), (.error other, t) => error = other ∧ E s t
  | _, _ => False

/-- From `P`, the computations return and end in `Q`, or raise the same and end in `E`. -/
structure Simulates (P : σ → τ → Prop) (concrete : Py σ α) (abstract : Py τ β)
    (Q : α → β → σ → τ → Prop) (E : σ → τ → Prop) : Prop where
  run : ∀ s t, P s t → InStep Q E (concrete s) (abstract t)

namespace Simulates

variable {P : σ → τ → Prop} {Q : α → β → σ → τ → Prop} {E : σ → τ → Prop}

/-- The states are related in the end, whatever the results are. -/
theorem after {R : σ → τ → Prop} {concrete : Py σ α} {abstract : Py τ β}
    (h : Simulates P concrete abstract (fun _ _ => R) R) {s : σ} {t : τ} (hstate : P s t) :
    R (concrete s).2 (abstract t).2 := by
  have hpair := h.run s t hstate
  generalize concrete s = left at hpair ⊢
  generalize abstract t = right at hpair ⊢
  obtain ⟨result, after⟩ := left
  obtain ⟨result', after'⟩ := right
  cases result with
  | ok a =>
      cases result' with
      | ok b => exact hpair
      | error error => exact hpair.elim
  | error error =>
      cases result' with
      | ok b => exact hpair.elim
      | error other => exact hpair.2

/-- The results are the same, and the states are related, whatever they are. -/
theorem outcome {R : σ → τ → Prop} {concrete : Py σ α} {abstract : Py τ α}
    (h : Simulates P concrete abstract (fun a b s t => a = b ∧ R s t) R) {s : σ} {t : τ}
    (hstate : P s t) :
    (concrete s).1 = (abstract t).1 ∧ R (concrete s).2 (abstract t).2 := by
  have hpair := h.run s t hstate
  generalize concrete s = left at hpair ⊢
  generalize abstract t = right at hpair ⊢
  obtain ⟨result, after⟩ := left
  obtain ⟨result', after'⟩ := right
  cases result with
  | ok a =>
      cases result' with
      | ok b => exact ⟨congrArg _ hpair.1, hpair.2⟩
      | error error => exact hpair.elim
  | error error =>
      cases result' with
      | ok b => exact hpair.elim
      | error other => exact ⟨congrArg _ hpair.1, hpair.2⟩

theorem pure {a : α} {b : β} (h : ∀ s t, P s t → Q a b s t) :
    Simulates P (Pure.pure a : Py σ α) (Pure.pure b : Py τ β) Q E := ⟨h⟩

/-- No states are related. -/
theorem absurd {concrete : Py σ α} {abstract : Py τ β} (h : ∀ s t, ¬ P s t) :
    Simulates P concrete abstract Q E := ⟨fun s t hstate => (h s t hstate).elim⟩

/-- What the states that are related have in common may be assumed. -/
theorem given {p : Prop} {concrete : Py σ α} {abstract : Py τ β} (h : ∀ s t, P s t → p)
    (hrun : p → Simulates P concrete abstract Q E) : Simulates P concrete abstract Q E :=
  ⟨fun s t hstate => (hrun (h s t hstate)).run s t hstate⟩

/-- The same result on both sides. -/
theorem ofExcept (result : Except PyError α) :
    Simulates P (Py.ofExcept result) (Py.ofExcept result) (fun a b s t => a = b ∧ P s t) P := by
  refine ⟨fun s t hstate => ?_⟩
  cases result with
  | ok a => exact ⟨rfl, hstate⟩
  | error error => exact ⟨rfl, hstate⟩

/-- Sequences run in step if their parts do. -/
theorem bind {first : Py σ γ} {first' : Py τ δ} {next : γ → Py σ α} {next' : δ → Py τ β}
    {R : γ → δ → σ → τ → Prop} (hfirst : Simulates P first first' R E)
    (hnext : ∀ c d, Simulates (R c d) (next c) (next' d) Q E) :
    Simulates P (first >>= next) (first' >>= next') Q E := by
  refine ⟨fun s t hstate => ?_⟩
  have hpair := hfirst.run s t hstate
  rw [bind_apply, bind_apply]
  generalize first s = left at hpair ⊢
  generalize first' t = right at hpair ⊢
  obtain ⟨result, middle⟩ := left
  obtain ⟨result', middle'⟩ := right
  cases result with
  | ok c =>
      cases result' with
      | ok d => exact (hnext c d).run middle middle' hpair
      | error error => exact hpair.elim
  | error error =>
      cases result' with
      | ok d => exact hpair.elim
      | error other => exact hpair

/-- The second parts may assume that the first have returned the same. -/
theorem bind_same {R : σ → τ → Prop} {first : Py σ γ} {first' : Py τ γ} {next : γ → Py σ α}
    {next' : γ → Py τ β}
    (hfirst : Simulates P first first' (fun a b s t => a = b ∧ R s t) E)
    (hnext : ∀ a, Simulates R (next a) (next' a) Q E) :
    Simulates P (first >>= next) (first' >>= next') Q E := by
  refine .bind hfirst fun a b => ⟨fun s t hstate => ?_⟩
  obtain ⟨rfl, hstate⟩ := hstate
  exact (hnext a).run s t hstate

theorem ite {condition condition' : Prop} [Decidable condition] [Decidable condition']
    {first second : Py σ α} {first' second' : Py τ β} (hcondition : condition ↔ condition')
    (hfirst : condition → Simulates P first first' Q E)
    (hsecond : ¬ condition → Simulates P second second' Q E) :
    Simulates P (if condition then first else second) (if condition' then first' else second')
      Q E := by
  by_cases h : condition
  · rw [if_pos h, if_pos (hcondition.mp h)]
    exact hfirst h
  · rw [if_neg h, if_neg (mt hcondition.mpr h)]
    exact hsecond h

/-- A stronger relation before. -/
theorem strengthen {P' : σ → τ → Prop} {concrete : Py σ α} {abstract : Py τ β}
    (h : Simulates P' concrete abstract Q E) (hP : ∀ s t, P s t → P' s t) :
    Simulates P concrete abstract Q E := ⟨fun s t hstate => h.run s t (hP s t hstate)⟩

/-- A weaker relation behind, and a state that is prepared before. -/
theorem prepared {P' : σ → τ → Prop} {Q' : α → β → σ → τ → Prop} {E' : σ → τ → Prop}
    {concrete : Py σ α} {abstract : Py τ β} (h : Simulates P' concrete abstract Q' E')
    (prepare : σ → σ) (hP : ∀ s t, P s t → P' (prepare s) t)
    (hQ : ∀ a b s t, Q' a b s t → Q a b s t) (hE : ∀ s t, E' s t → E s t) :
    Simulates P (fun s => concrete (prepare s)) abstract Q E := by
  refine ⟨fun s t hstate => ?_⟩
  have hpair := h.run (prepare s) t (hP s t hstate)
  generalize concrete (prepare s) = left at hpair ⊢
  generalize abstract t = right at hpair ⊢
  obtain ⟨result, after⟩ := left
  obtain ⟨result', after'⟩ := right
  cases result with
  | ok a =>
      cases result' with
      | ok b => exact hQ a b _ _ hpair
      | error error => exact hpair.elim
  | error error =>
      cases result' with
      | ok b => exact hpair.elim
      | error other => exact ⟨hpair.1, hE _ _ hpair.2⟩

/-- Loops over the same list run in step if their bodies do. -/
theorem forEach {R : σ → τ → Prop} {body : γ → Py σ Unit} {body' : γ → Py τ Unit} (xs : List γ)
    (h : ∀ x, Simulates R (body x) (body' x) (fun _ _ => R) R) :
    Simulates R (Py.forEach xs body) (Py.forEach xs body') (fun _ _ => R) R := by
  induction xs with
  | nil => exact pure fun s t hstate => hstate
  | cons x rest ih => exact (h x).bind fun _ _ => ih

/-- A handler of `ValueError` has nothing to do where none is raised. -/
theorem handled {concrete : Py σ α} {abstract : Py τ β} (h : Simulates P concrete abstract Q E)
    (handler : String → Py σ α)
    (hraises : abstract.RaisesOnly fun error => ∀ message, error ≠ .valueError message) :
    Simulates P (Py.exceptValueError concrete handler) abstract Q E := by
  refine ⟨fun s t hstate => ?_⟩
  have hpair := h.run s t hstate
  have hother := hraises t
  unfold Py.exceptValueError
  generalize concrete s = left at hpair ⊢
  generalize abstract t = right at hpair hother ⊢
  obtain ⟨result, after⟩ := left
  obtain ⟨result', after'⟩ := right
  cases result with
  | ok a => exact hpair
  | error error =>
      cases result' with
      | ok b => exact hpair.elim
      | error other =>
          obtain rfl : error = other := hpair.1
          have hvalue := hother error rfl
          cases error with
          | valueError message => exact (hvalue message rfl).elim
          | _ => exact hpair

end Simulates

/-- Computations that run one after the other, each over a span of time, in step with their
counterparts: states that are related at a time are related later, until the next one starts. -/
theorem runs_simulate {ι θ : Type} {left : ι → Py σ α} {right : ι → Py τ α}
    (R : θ → σ → τ → Prop) (span : ι → θ × θ) (before : θ → θ → Prop)
    (hlater : ∀ first second s t, before first second → R first s t → R second s t)
    (hstep : ∀ i s t, before (span i).1 (span i).2 → R (span i).1 s t →
      (left i s).1 = (right i t).1 ∧ R (span i).2 (left i s).2 (right i t).2)
    (steps : List ι) {first last : θ}
    (hclock : (first :: (steps.flatMap fun i => [(span i).1, (span i).2]) ++
      [last]).Pairwise before)
    {s : σ} {t : τ} (h : R first s t) :
    (session (steps.map left) s).1 = (session (steps.map right) t).1 ∧
      R last (session (steps.map left) s).2 (session (steps.map right) t).2 := by
  induction steps generalizing first s t with
  | nil =>
      have hle : before first last :=
        (List.pairwise_cons.mp hclock).1 last (List.mem_append_right _ List.mem_cons_self)
      exact ⟨rfl, hlater first last s t hle h⟩
  | cons i rest ih =>
      obtain ⟨hfirst, htail⟩ := List.pairwise_cons.mp hclock
      obtain ⟨hstart, hrest⟩ := List.pairwise_cons.mp htail
      have hbegin : R (span i).1 s t := hlater _ _ s t (hfirst _ List.mem_cons_self) h
      obtain ⟨hresult, hafter⟩ := hstep i s t (hstart _ List.mem_cons_self) hbegin
      obtain ⟨hresults, hlast⟩ := ih hrest hafter
      exact ⟨congrArg₂ List.cons hresult hresults, hlast⟩

/-- Computations that run one after the other beside their counterparts keep the states related,
whatever their results are. -/
theorem runs_related {ι θ : Type} {left : ι → Py σ α} {right : ι → Py τ β}
    (R : θ → σ → τ → Prop) (time : ι → θ) (before : θ → θ → Prop)
    (hlater : ∀ first second s t, before first second → R first s t → R second s t)
    (hstep : ∀ i s t, R (time i) s t → R (time i) (left i s).2 (right i t).2)
    (steps : List ι) {first last : θ}
    (hclock : (first :: steps.map time ++ [last]).Pairwise before) {s : σ} {t : τ}
    (h : R first s t) :
    R last (session (steps.map left) s).2 (session (steps.map right) t).2 := by
  induction steps generalizing first s t with
  | nil =>
      have hle : before first last :=
        (List.pairwise_cons.mp hclock).1 last (List.mem_append_right _ List.mem_cons_self)
      exact hlater first last s t hle h
  | cons i rest ih =>
      obtain ⟨hfirst, hrest⟩ := List.pairwise_cons.mp hclock
      exact ih hrest (hstep i s t (hlater _ _ s t (hfirst _ List.mem_cons_self) h))

/-- Computations that run one after the other beside those of them that are kept: what the others
do is not seen, if it keeps the relation between the states. -/
theorem runs_purged {ι θ : Type} (left : ι → Py σ α) (right : ι → Py τ α) (kept : ι → Bool)
    (R : θ → σ → τ → Prop) (time : ι → θ) (before : θ → θ → Prop)
    (hlater : ∀ first second s t, before first second → R first s t → R second s t)
    (hkept : ∀ i s t, kept i = true → R (time i) s t →
      (left i s).1 = (right i t).1 ∧ R (time i) (left i s).2 (right i t).2)
    (hother : ∀ i s t, kept i = false → R (time i) s t → R (time i) (left i s).2 t)
    (steps : List ι) {first last : θ}
    (hclock : (first :: steps.map time ++ [last]).Pairwise before) {s : σ} {t : τ}
    (h : R first s t) :
    ((steps.zip (session (steps.map left) s).1).filter fun step => kept step.1).map Prod.snd =
        (session ((steps.filter kept).map right) t).1 ∧
      R last (session (steps.map left) s).2 (session ((steps.filter kept).map right) t).2 := by
  induction steps generalizing first s t with
  | nil =>
      have hle : before first last :=
        (List.pairwise_cons.mp hclock).1 last (List.mem_append_right _ List.mem_cons_self)
      exact ⟨rfl, hlater first last s t hle h⟩
  | cons i rest ih =>
      obtain ⟨hfirst, hrest⟩ := List.pairwise_cons.mp hclock
      have hbegin : R (time i) s t := hlater _ _ s t (hfirst _ List.mem_cons_self) h
      cases hcase : kept i with
      | true =>
          obtain ⟨hresult, hafter⟩ := hkept i s t hcase hbegin
          obtain ⟨hresults, hlast⟩ := ih hrest hafter
          simp only [List.map_cons, session, List.zip_cons_cons, List.filter_cons, hcase, if_true]
          exact ⟨congrArg₂ List.cons hresult hresults, hlast⟩
      | false =>
          simp only [List.map_cons, session, List.zip_cons_cons, List.filter_cons, hcase,
            Bool.false_eq_true, if_false]
          exact ih hrest (hother i s t hcase hbegin)

end Py
