import Mathlib.Data.List.Infix
import Mathlib.Order.WellFounded

/-!
# Machines and Their Runs

A `Machine` is a state type, an event type, a predicate saying which events a state
may take, and a step function that either produces the next state or ends the run in
a fault. A run (`Machine.Run`) is a finite sequence of enabled events none of which
faults. This module names nothing but states and events: every transition system of
the development is an instance, and the safety arguments use the two induction rules
below instead of repeating an induction over event lists.

## Main results

* `Machine.Run.invariant`: a predicate every step preserves holds at the end of every
  run it holds at the start of.
* `Machine.Run.history_induction`: the same for a predicate that also looks at the
  events taken so far, which is how a state is related to the inputs that led to it.
* `Machine.Run.of_restrict`: restricting the events that may be taken only removes runs.
* `Machine.run_of_exec`: executing concrete events gives a run.
* `Machine.Run.simulation`, `Machine.Run.exists_run`: a machine whose steps another one
  matches is matched over whole runs.
* `Machine.Run.append` and `Machine.Run.of_append`: runs compose and split, so that an
  interval of a run is again a run.
* `Machine.not_endless`: a machine that brings a measure down comes to an end.
* `Machine.Settles.unique`: a machine that never has a choice comes to rest in one state.
* `Machine.forall_before_snoc_iff`: how a condition on what came before certain events
  extends by one event.
* `Except.exists_of_bind_eq_ok`, `Except.bind_eq_error_iff`: taking a step function apart.
-/

universe u v w u' v' w' x

/-- A computation that goes on after another: if it does not fault, the first part did
not. -/
theorem Except.exists_of_bind_eq_ok {φ : Type w} {α : Type u} {β : Type v} {x : Except φ α}
    {f : α → Except φ β} {b : β} (h : x.bind f = .ok b) : ∃ a, x = .ok a ∧ f a = .ok b := by
  cases x with
  | error e => cases h
  | ok a => exact ⟨a, rfl, h⟩

/-- A computation that goes on after another faults in the first part or in the second. -/
theorem Except.bind_eq_error_iff {φ : Type w} {α : Type u} {β : Type v} {x : Except φ α}
    {f : α → Except φ β} {e : φ} :
    x.bind f = .error e ↔ x = .error e ∨ ∃ a, x = .ok a ∧ f a = .error e := by
  cases x with
  | error e' =>
      constructor
      · intro h
        cases h
        exact .inl rfl
      · rintro (h | ⟨a, h, -⟩)
        · cases h
          rfl
        · cases h
  | ok a =>
      constructor
      · intro h
        exact .inr ⟨a, rfl, h⟩
      · rintro (h | ⟨a', h, hf⟩)
        · cases h
        · cases h
          exact hf

/-- A machine: the events a state may take, and what taking one does. -/
structure Machine (σ : Type u) (ε : Type v) (φ : Type w) where
  /-- The events a state may take. -/
  enabled : σ → ε → Prop
  /-- The next state, or the fault that ends the run. -/
  step : σ → ε → Except φ σ

namespace Machine

variable {σ : Type u} {ε : Type v} {φ : Type w} {M : Machine σ ε φ}

/-- One step of the machine: an enabled event that does not fault. -/
def Step (M : Machine σ ε φ) (s : σ) (e : ε) (t : σ) : Prop :=
  M.enabled s e ∧ M.step s e = .ok t

/-- A finite run: the events taken and the states at both ends. -/
inductive Run (M : Machine σ ε φ) : σ → List ε → σ → Prop
  | nil (s : σ) : Run M s [] s
  | cons {s t u : σ} {e : ε} {es : List ε} :
      M.Step s e t → Run M t es u → Run M s (e :: es) u

/-- Where an entry stands in a history that was extended by one entry: it is the new one,
or it stood there before. -/
theorem snoc_eq_append_cons {h before after : List ε} {e e' : ε}
    (heq : h ++ [e] = before ++ e' :: after) :
    (before = h ∧ e' = e) ∨ ∃ after', h = before ++ e' :: after' := by
  rcases List.eq_nil_or_concat' after with rfl | ⟨after', last, rfl⟩
  · obtain ⟨rfl, hlast⟩ := List.append_inj' heq rfl
    exact .inl ⟨rfl, (List.cons.inj hlast).1.symm⟩
  · rw [← List.cons_append, ← List.append_assoc] at heq
    exact .inr ⟨after', (List.append_inj' heq rfl).1⟩

/-- What holds before every place where an event stands in a history: it held before, and, if
the event is the new entry, it holds of the history. -/
theorem forall_before_snoc_iff {h : List ε} {e e₀ : ε} {P : List ε → Prop} :
    (∀ before after, h ++ [e] = before ++ e₀ :: after → P before) ↔
      (∀ before after, h = before ++ e₀ :: after → P before) ∧ (e = e₀ → P h) := by
  constructor
  · intro hall
    refine ⟨fun before after heq => hall before (after ++ [e]) (by simp [heq]), ?_⟩
    rintro rfl
    exact hall h [] rfl
  · rintro ⟨hall, hnew⟩ before after heq
    rcases snoc_eq_append_cons heq with ⟨rfl, he⟩ | ⟨after', rfl⟩
    · exact hnew he.symm
    · exact hall before after' rfl

namespace Run

/-- The first step of a nonempty run. -/
theorem of_cons {s u : σ} {e : ε} {es : List ε} (h : M.Run s (e :: es) u) :
    ∃ t, M.Step s e t ∧ M.Run t es u := by
  cases h with
  | cons hstep hrest => exact ⟨_, hstep, hrest⟩

/-- A run without events goes nowhere. -/
theorem eq_of_nil {s t : σ} (h : M.Run s [] t) : s = t := by
  cases h
  rfl

/-- Runs compose. -/
theorem append {s t u : σ} {es fs : List ε} (h₁ : M.Run s es t) (h₂ : M.Run t fs u) :
    M.Run s (es ++ fs) u := by
  induction h₁ with
  | nil s => exact h₂
  | cons hstep _ ih => exact .cons hstep (ih h₂)

/-- A run over a concatenation passes through a state between the two parts. -/
theorem of_append {s u : σ} {es fs : List ε} (h : M.Run s (es ++ fs) u) :
    ∃ t, M.Run s es t ∧ M.Run t fs u := by
  induction es generalizing s with
  | nil => exact ⟨s, .nil s, h⟩
  | cons e es ih =>
      obtain ⟨s', hstep, hrest⟩ := h.of_cons
      obtain ⟨t, h₁, h₂⟩ := ih hrest
      exact ⟨t, .cons hstep h₁, h₂⟩

/-- The last step of a nonempty run. -/
theorem of_snoc {s u : σ} {es : List ε} {e : ε} (h : M.Run s (es ++ [e]) u) :
    ∃ t, M.Run s es t ∧ M.Step t e u := by
  obtain ⟨t, h₁, h₂⟩ := h.of_append
  obtain ⟨t', hstep, hnil⟩ := h₂.of_cons
  obtain rfl := hnil.eq_of_nil
  exact ⟨t, h₁, hstep⟩

/-- The events of a run determine where it leads. -/
theorem unique {s t t' : σ} {es : List ε} (h : M.Run s es t) (h' : M.Run s es t') : t = t' := by
  induction h with
  | nil s => exact h'.eq_of_nil
  | cons hstep _ ih =>
      obtain ⟨u, hstep', hrest⟩ := h'.of_cons
      cases hstep.2.symm.trans hstep'.2
      exact ih hrest

/-- **The invariant rule**: a predicate preserved by every step is preserved by every
run. -/
theorem invariant {I : σ → Prop}
    (hpres : ∀ s e t, I s → M.Step s e t → I t) {s t : σ} {es : List ε}
    (h : M.Run s es t) (hs : I s) : I t := by
  induction h with
  | nil s => exact hs
  | cons hstep _ ih => exact ih (hpres _ _ _ hs hstep)

/-- **The history rule**: a relation between the events taken and the state reached
that holds of no events and survives every step holds of every run. -/
theorem history_induction {s₀ : σ} {P : List ε → σ → Prop} (h₀ : P [] s₀)
    (hpres : ∀ es s e t, M.Run s₀ es s → P es s → M.Step s e t → P (es ++ [e]) t)
    {es : List ε} {s : σ} (h : M.Run s₀ es s) : P es s := by
  induction es using List.reverseRecOn generalizing s with
  | nil =>
      cases h
      exact h₀
  | append_singleton es e ih =>
      obtain ⟨t, hrun, hstep⟩ := h.of_snoc
      exact hpres es t e s hrun (ih hrun) hstep

/-- **The simulation rule**: if every step is matched by the steps `f` makes of its event,
at most one, in a machine related by `R`, then every run is matched by a run. -/
theorem simulation {σ' : Type u'} {ε' : Type v'} {φ' : Type w'} {N : Machine σ' ε' φ'}
    {R : σ → σ' → Prop} {f : ε → Option ε'} {s₀ : σ} {p₀ : σ'} (h₀ : R s₀ p₀)
    (hsim : ∀ es s e t es' p, M.Run s₀ es s → N.Run p₀ es' p → R s p → M.Step s e t →
      ∃ q, N.Run p (f e).toList q ∧ R t q)
    {es : List ε} {s : σ} (h : M.Run s₀ es s) :
    ∃ p, N.Run p₀ (es.filterMap f) p ∧ R s p := by
  refine h.history_induction (P := fun es s => ∃ p, N.Run p₀ (es.filterMap f) p ∧ R s p)
    ⟨p₀, .nil p₀, h₀⟩ ?_
  rintro es s e t hrun ⟨p, hmatched, hrel⟩ hstep
  obtain ⟨q, hmatch, hrel'⟩ := hsim es s e t _ p hrun hmatched hrel hstep
  refine ⟨q, ?_, hrel'⟩
  have hsnoc : (es ++ [e]).filterMap f = es.filterMap f ++ (f e).toList := by
    rw [List.filterMap_append]
    cases hf : f e <;> simp [hf]
  rw [hsnoc]
  exact hmatched.append hmatch

/-- The simulation rule where the matching steps depend on the state as well, any number
of them. -/
theorem exists_run {σ' : Type u'} {ε' : Type v'} {φ' : Type w'} {N : Machine σ' ε' φ'}
    {R : σ → σ' → Prop} {s₀ : σ} {p₀ : σ'} (h₀ : R s₀ p₀)
    (hsim : ∀ s e t p, R s p → M.Step s e t → ∃ es' q, N.Run p es' q ∧ R t q)
    {es : List ε} {s : σ} (h : M.Run s₀ es s) : ∃ es' p, N.Run p₀ es' p ∧ R s p := by
  refine h.invariant (I := fun s => ∃ es' p, N.Run p₀ es' p ∧ R s p) ?_ ⟨[], p₀, .nil p₀, h₀⟩
  rintro s e t ⟨es', p, hmatched, hrel⟩ hstep
  obtain ⟨es'', q, hmatch, hrel'⟩ := hsim s e t p hrel hstep
  exact ⟨es' ++ es'', q, hmatched.append hmatch, hrel'⟩

end Run

/-! ### Coming to rest -/

/-- Taking events for as long as there are any, the machine can come to rest in `t`. -/
def Settles (M : Machine σ ε φ) (s t : σ) : Prop :=
  ∃ es, M.Run s es t ∧ ∀ e, ¬ M.enabled t e

/-- A state without events is where the machine comes to rest. -/
theorem settles_self {s : σ} (h : ∀ e, ¬ M.enabled s e) : M.Settles s s :=
  ⟨[], .nil s, h⟩

/-- Where a run leads, the machine comes to rest as where it began. -/
theorem Settles.of_run {s t u : σ} {es : List ε} (hrun : M.Run s es t) (h : M.Settles t u) :
    M.Settles s u := by
  obtain ⟨es', hrun', hrest⟩ := h
  exact ⟨es ++ es', hrun.append hrun', hrest⟩

/-- A machine that never has a choice between two events comes to rest in one state. -/
theorem Settles.unique (hdet : ∀ s e e', M.enabled s e → M.enabled s e' → e = e') {s t t' : σ}
    (h : M.Settles s t) (h' : M.Settles s t') : t = t' := by
  obtain ⟨es, hrun, hrest⟩ := h
  obtain ⟨es', hrun', hrest'⟩ := h'
  induction hrun generalizing es' with
  | nil s =>
      cases hrun' with
      | nil => rfl
      | cons hstep _ => exact absurd hstep.1 (hrest _)
  | cons hstep _ ih =>
      cases hrun' with
      | nil => exact absurd hstep.1 (hrest' _)
      | cons hstep' hrun' =>
          obtain rfl := hdet _ _ _ hstep.1 hstep'.1
          cases hstep.2.symm.trans hstep'.2
          exact ih hrest _ hrun'

/-- There is a run that goes on for ever. -/
def Endless (M : Machine σ ε φ) (s : σ) : Prop :=
  ∃ ss : ℕ → σ, ss 0 = s ∧ ∀ i, ∃ e, M.Step (ss i) e (ss (i + 1))

/-- Where no run goes on for ever, there is one that comes to an end. -/
theorem exists_end {s : σ} (h : ¬ M.Endless s) :
    ∃ es t, M.Run s es t ∧ ∀ e u, ¬ M.Step t e u := by
  by_contra hno
  have hnext : ∀ t : { t // ∃ es, M.Run s es t }, ∃ u : { t // ∃ es, M.Run s es t },
      ∃ e, M.Step t e u := by
    rintro ⟨t, es, hrun⟩
    by_contra hend
    exact hno ⟨es, t, hrun, fun e u hstep =>
      hend ⟨⟨u, es ++ [e], hrun.append (.cons hstep (.nil u))⟩, e, hstep⟩⟩
  choose next hnext using hnext
  refine h ⟨fun i => (next^[i] ⟨s, [], .nil s⟩).val, rfl, fun i => ?_⟩
  simp only [Function.iterate_succ_apply']
  exact hnext _

/-- **The ranking rule**: a machine whose steps keep an invariant and bring a measure down has
no endless run. -/
theorem not_endless {α : Type x} {r : α → α → Prop} (hwf : WellFounded r) {I : σ → Prop}
    (hpres : ∀ s e t, I s → M.Step s e t → I t) (μ : σ → α)
    (hdown : ∀ s e t, I s → M.Step s e t → r (μ t) (μ s)) {s : σ} (hs : I s) :
    ¬ M.Endless s := by
  rintro ⟨ss, rfl, hsteps⟩
  have hinv : ∀ i, I (ss i) := by
    intro i
    induction i with
    | zero => exact hs
    | succ i ih =>
        obtain ⟨e, hstep⟩ := hsteps i
        exact hpres _ e _ ih hstep
  refine (wellFounded_iff_isEmpty_descending_chain.mp hwf).false ⟨fun i => μ (ss i), fun i => ?_⟩
  obtain ⟨e, hstep⟩ := hsteps i
  exact hdown _ e _ (hinv i) hstep

/-! ### Restricted machines -/

/-- The machine that takes an event only where a condition holds. -/
def restrict (M : Machine σ ε φ) (C : σ → ε → Prop) : Machine σ ε φ where
  enabled s e := M.enabled s e ∧ C s e
  step := M.step

instance {C : σ → ε → Prop} [∀ s e, Decidable (M.enabled s e)] [∀ s e, Decidable (C s e)]
    (s : σ) (e : ε) : Decidable ((M.restrict C).enabled s e) :=
  inferInstanceAs (Decidable (_ ∧ _))

/-- A step of a restricted machine is a step of the machine that meets the condition. -/
theorem step_restrict_iff {C : σ → ε → Prop} {s t : σ} {e : ε} :
    (M.restrict C).Step s e t ↔ M.Step s e t ∧ C s e := by
  simp only [Step, restrict]
  tauto

/-- Runs of a restricted machine are runs of the machine. -/
theorem Run.of_restrict {C : σ → ε → Prop} {s t : σ} {es : List ε}
    (h : (M.restrict C).Run s es t) : M.Run s es t := by
  induction h with
  | nil s => exact .nil s
  | cons hstep _ ih => exact .cons (step_restrict_iff.mp hstep).1 ih

/-! ### Running on concrete events -/

/-- The state a list of events leads to, unless one of them is not enabled or faults. -/
def exec (M : Machine σ ε φ) [∀ s e, Decidable (M.enabled s e)] : σ → List ε → Option σ
  | s, [] => some s
  | s, e :: es =>
    if M.enabled s e then
      match M.step s e with
      | .ok t => exec M t es
      | .error _ => none
    else none

/-- An execution is a run. -/
theorem run_of_exec [∀ s e, Decidable (M.enabled s e)] {s t : σ} {es : List ε}
    (h : M.exec s es = some t) : M.Run s es t := by
  induction es generalizing s with
  | nil =>
      cases h
      exact .nil _
  | cons e es ih =>
      rw [exec] at h
      split at h
      · rename_i henabled
        split at h
        · rename_i t' hstep
          exact .cons ⟨henabled, hstep⟩ (ih h)
        · cases h
      · cases h

/-- What is observed of an execution is observed of a run. -/
theorem exists_run_of_exec (M : Machine σ ε φ) [∀ s e, Decidable (M.enabled s e)] {β : Type x}
    (s : σ) (es : List ε) (f : σ → β) {b : β} (h : (M.exec s es).map f = some b) :
    ∃ t, M.Run s es t ∧ f t = b := by
  obtain ⟨t, hexec, hb⟩ := Option.map_eq_some_iff.mp h
  exact ⟨t, run_of_exec hexec, hb⟩

end Machine
