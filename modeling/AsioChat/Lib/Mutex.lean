import AsioChat.Lib.Machine

/-!
# Critical Sections

A machine whose events are taken by threads, some of them under one mutex: such an event is
a critical section, which the machine takes in one step and a thread takes step by step. Whether
an event takes the mutex may depend on the state. While one thread is inside, the others go on with
events outside, in between its steps; they wait for the mutex if they want to enter.

Two runs are compared: those of the machine, and those in small steps (`Mutex.Layout.fine`). If
the events outside do not depend on what the sections work on (`Mutex.Layout.Independent`), then
the run in small steps is one of the machine, in which each section is taken when the mutex is
released; at any moment in between it is that one with a part of a section taken.

## Main results

* `Mutex.Layout.atomic`: every run in small steps is a run of the machine.
* `Mutex.Layout.Abstracts.exists_run`: a section that does not fault is left, and the mutex
  released.
-/

universe u v w x y

namespace Mutex

/-- A critical section: the local variables at its beginning, its steps, each of them on the
shared state and the local variables, and what is done when the mutex is released. -/
structure Section (σ : Type u) (φ : Type w) (ρ : Type x) where
  locals : ρ
  steps : List (σ × ρ → Except φ (σ × ρ))
  finish : σ × ρ → σ

variable {σ : Type u} {ε : Type v} {φ : Type w} {ρ : Type x} {τ : Type y}

/-- Steps one after the other. -/
def runSteps : List (σ × ρ → Except φ (σ × ρ)) → σ × ρ → Except φ (σ × ρ)
  | [], z => .ok z
  | m :: ms, z => (m z).bind (runSteps ms)

/-- The whole section in one step. -/
def Section.run (sec : Section σ φ ρ) (s : σ) : Except φ σ :=
  (runSteps sec.steps (s, sec.locals)).bind fun z => .ok (sec.finish z)

/-- How the events of a machine are divided: which thread takes an event, whether it is a
critical section, and which one, in terms of the state when it is entered. -/
structure Layout (M : Machine σ ε φ) (ρ : Type x) (τ : Type y) where
  thread : ε → τ
  locked : σ → ε → Bool
  entry : σ → ε → Except φ (Section σ φ ρ)
  step_eq : ∀ s e, locked s e = true → M.step s e = (entry s e).bind fun sec => sec.run s

/-- The thread that holds the mutex: the event it takes, its local variables, and what is left of
its section. -/
structure Held (σ : Type u) (ε : Type v) (φ : Type w) (ρ : Type x) where
  event : ε
  locals : ρ
  rest : List (σ × ρ → Except φ (σ × ρ))
  finish : σ × ρ → σ

/-- The shared state, and the thread that holds the mutex. -/
structure State (σ : Type u) (ε : Type v) (φ : Type w) (ρ : Type x) where
  shared : σ
  held : Option (Held σ ε φ ρ)

/-- The small steps: a thread takes the mutex, takes a step of its section, releases the mutex;
or a thread takes an event outside. -/
inductive Event (ε : Type v)
  | enter (e : ε)
  | micro
  | leave (e : ε)
  | free (e : ε)

/-- The event of the machine that a small step completes. -/
def Event.completed : Event ε → Option ε
  | leave e | free e => some e
  | _ => none

namespace Layout

variable {M : Machine σ ε φ}

/-- What is possible. The mutex is taken only when nobody holds it, and the thread that holds it
takes no event outside. -/
def Enabled (L : Layout M ρ τ) (s : State σ ε φ ρ) : Event ε → Prop
  | .enter e => s.held = none ∧ L.locked s.shared e = true ∧ M.enabled s.shared e
  | .micro => ∃ h, s.held = some h ∧ h.rest ≠ []
  | .leave e => ∃ h, s.held = some h ∧ h.event = e ∧ h.rest = []
  | .free e => L.locked s.shared e = false ∧ M.enabled s.shared e ∧
    ∀ h, s.held = some h → L.thread e ≠ L.thread h.event

/-- A small step. -/
def step (L : Layout M ρ τ) (s : State σ ε φ ρ) : Event ε → Except φ (State σ ε φ ρ)
  | .enter e => (L.entry s.shared e).bind fun sec =>
    .ok ⟨s.shared, some ⟨e, sec.locals, sec.steps, sec.finish⟩⟩
  | .micro =>
    match s.held with
    | some ⟨e, r, m :: rest, finish⟩ =>
      (m (s.shared, r)).bind fun z => .ok ⟨z.1, some ⟨e, z.2, rest, finish⟩⟩
    | _ => .ok s
  | .leave _ =>
    match s.held with
    | some h => .ok ⟨h.finish (s.shared, h.locals), none⟩
    | none => .ok s
  | .free e => (M.step s.shared e).bind fun t => .ok ⟨t, s.held⟩

/-- The machine in small steps. -/
def fine (L : Layout M ρ τ) : Machine (State σ ε φ ρ) (Event ε) φ where
  enabled := L.Enabled
  step := L.step

/-- The events outside that another thread takes neither prevent nor change a section, and come
to the same, outside, before a step of it as after it. -/
structure Independent (L : Layout M ρ τ) : Prop where
  keeps : ∀ {s t : σ} {e u : ε}, L.locked s e = true → M.enabled s e → L.thread u ≠ L.thread e →
    L.locked s u = false → M.Step s u t →
      L.locked t e = true ∧ M.enabled t e ∧ L.entry t e = L.entry s e
  commutes : ∀ {a : σ} {e u : ε} {sec : Section σ φ ρ}, L.locked a e = true →
    L.entry a e = .ok sec → L.thread u ≠ L.thread e →
    ∀ m ∈ sec.steps, ∀ {s s' t' : σ} {r r' : ρ}, m (s, r) = .ok (s', r') →
      L.locked s' u = false → M.Step s' u t' →
        L.locked s u = false ∧ ∃ t, M.Step s u t ∧ m (t, r) = .ok (t', r')

/-- What the small steps have come to: a state of the machine, or one with the first steps of a
section taken. -/
def Abstracts (L : Layout M ρ τ) (a : σ) (s : State σ ε φ ρ) : Prop :=
  match s.held with
  | none => s.shared = a
  | some h => L.locked a h.event = true ∧ M.enabled a h.event ∧ ∃ sec done,
    L.entry a h.event = .ok sec ∧ sec.steps = done ++ h.rest ∧ sec.finish = h.finish ∧
      runSteps done (a, sec.locals) = .ok (s.shared, h.locals)

end Layout

/-- Steps, and then some more. -/
theorem runSteps_append (ms ms' : List (σ × ρ → Except φ (σ × ρ))) (z : σ × ρ) :
    runSteps (ms ++ ms') z = (runSteps ms z).bind (runSteps ms') := by
  induction ms generalizing z with
  | nil => rfl
  | cons m ms ih =>
      rw [List.cons_append, runSteps, runSteps]
      cases m z with
      | error f => rfl
      | ok z' => exact ih z'

namespace Layout

variable {M : Machine σ ε φ} {L : Layout M ρ τ} {a : σ} {s t : State σ ε φ ρ}

/-- **An event outside comes to the same before all the steps taken** by another thread. -/
theorem Independent.commutes_all (hind : L.Independent) {e u : ε} {sec : Section σ φ ρ}
    (hlocked : L.locked a e = true) (hentry : L.entry a e = .ok sec)
    (hthread : L.thread u ≠ L.thread e) {done : List (σ × ρ → Except φ (σ × ρ))}
    (hdone : ∀ m ∈ done, m ∈ sec.steps) {b c d : σ} {r r' : ρ}
    (hsteps : runSteps done (b, r) = .ok (c, r')) (hfree : L.locked c u = false)
    (hstep : M.Step c u d) :
    L.locked b u = false ∧ ∃ b', M.Step b u b' ∧ runSteps done (b', r) = .ok (d, r') := by
  induction done generalizing b r with
  | nil =>
      cases hsteps
      exact ⟨hfree, d, hstep, rfl⟩
  | cons m done ih =>
      obtain ⟨⟨b₁, r₁⟩, hm, hrest⟩ := Except.exists_of_bind_eq_ok hsteps
      obtain ⟨hfree₁, b₂, hb₂, hrest'⟩ :=
        ih (fun m' hm' => hdone m' (List.mem_cons_of_mem m hm')) hrest
      obtain ⟨hfree', b', hb', hm'⟩ :=
        hind.commutes hlocked hentry hthread m (hdone m List.mem_cons_self) hm hfree₁ hb₂
      refine ⟨hfree', b', hb', ?_⟩
      rw [runSteps, hm']
      exact hrest'

/-- **Every small step** completes an event of the machine or none. -/
theorem Abstracts.step (hind : L.Independent) {e : Event ε} (h : L.Abstracts a s)
    (hstep : L.fine.Step s e t) : ∃ b, M.Run a e.completed.toList b ∧ L.Abstracts b t := by
  obtain ⟨henabled, hstep⟩ := hstep
  obtain ⟨shared, held⟩ := s
  cases e with
  | enter e =>
      obtain ⟨hnone, hlocked, henabled⟩ := henabled
      obtain rfl : held = none := hnone
      obtain rfl : shared = a := h
      obtain ⟨sec, hentry, ht⟩ := Except.exists_of_bind_eq_ok hstep
      cases ht
      exact ⟨shared, .nil _, hlocked, henabled, sec, [], hentry, rfl, rfl, rfl⟩
  | micro =>
      obtain ⟨⟨e, r, rest, finish⟩, hheld, hne⟩ := henabled
      obtain rfl : held = some ⟨e, r, rest, finish⟩ := hheld
      obtain ⟨hlocked, henabled, sec, done, hentry, hsteps, hfinish, hdone⟩ := h
      cases rest with
      | nil => exact absurd rfl hne
      | cons m rest =>
          obtain ⟨⟨shared', r'⟩, hm, ht⟩ := Except.exists_of_bind_eq_ok hstep
          cases ht
          refine ⟨a, .nil _, hlocked, henabled, sec, done ++ [m], hentry, ?_, hfinish, ?_⟩
          · rw [hsteps, List.append_assoc]
            rfl
          · rw [runSteps_append, hdone, Except.bind, runSteps, hm]
            rfl
  | leave e =>
      obtain ⟨⟨e', r, rest, finish⟩, hheld, rfl, rfl⟩ := henabled
      obtain rfl : held = some ⟨e', r, [], finish⟩ := hheld
      obtain ⟨hlocked, henabled, sec, done, hentry, hsteps, hfinish, hdone⟩ := h
      cases hstep
      rw [List.append_nil] at hsteps
      refine ⟨finish (shared, r), .cons ⟨henabled, ?_⟩ (.nil _), rfl⟩
      rw [L.step_eq a e' hlocked, hentry]
      show sec.run a = _
      rw [Section.run, hsteps, hdone, hfinish]
      rfl
  | free u =>
      obtain ⟨hfree, henabled, hothers⟩ := henabled
      obtain ⟨b, hb, ht⟩ := Except.exists_of_bind_eq_ok hstep
      cases ht
      cases held with
      | none =>
          obtain rfl : shared = a := h
          exact ⟨b, .cons ⟨henabled, hb⟩ (.nil _), rfl⟩
      | some held =>
          obtain ⟨hlocked, henabled', sec, done, hentry, hsteps, hfinish, hdone⟩ := h
          have hthread := hothers held rfl
          obtain ⟨hfree', a', ha', hdone'⟩ := hind.commutes_all hlocked hentry hthread
            (fun m hm => hsteps ▸ List.mem_append_left _ hm) hdone hfree ⟨henabled, hb⟩
          obtain ⟨hlocked', henabled'', hentry'⟩ :=
            hind.keeps hlocked henabled' hthread hfree' ha'
          exact ⟨a', .cons ha' (.nil _), hlocked', henabled'', sec, done, hentry'.trans hentry,
            hsteps, hfinish, hdone'⟩

/-- **Sections may be taken for single steps**: what a run in small steps has come to is what
the machine comes to by the events completed. -/
theorem atomic (hind : L.Independent) {s₀ : σ} {es : List (Event ε)}
    (h : L.fine.Run ⟨s₀, none⟩ es s) :
    ∃ a, M.Run s₀ (es.filterMap Event.completed) a ∧ L.Abstracts a s :=
  h.simulation (R := fun s a => L.Abstracts a s) (show L.Abstracts s₀ ⟨s₀, none⟩ from rfl)
    fun _ _ _ _ _ _ _ _ habstracts hstep => habstracts.step hind hstep

/-- The thread that holds the mutex takes the rest of its section and leaves. -/
theorem run_of_runSteps (L : Layout M ρ τ) {shared : σ} {e : ε} {r : ρ}
    {rest : List (σ × ρ → Except φ (σ × ρ))} {finish : σ × ρ → σ} {z : σ × ρ}
    (h : runSteps rest (shared, r) = .ok z) :
    L.fine.Run ⟨shared, some ⟨e, r, rest, finish⟩⟩
      (List.replicate rest.length .micro ++ [.leave e]) ⟨finish z, none⟩ := by
  induction rest generalizing shared r with
  | nil =>
      cases h
      exact .cons ⟨⟨_, rfl, rfl, rfl⟩, rfl⟩ (.nil _)
  | cons m rest ih =>
      obtain ⟨⟨shared', r'⟩, hm, hrest⟩ := Except.exists_of_bind_eq_ok h
      refine .cons ⟨⟨_, rfl, List.cons_ne_nil m rest⟩, ?_⟩ (ih hrest)
      show (m (shared, r)).bind _ = _
      rw [hm]
      rfl

/-- **A section that does not fault is left**: the thread that holds the mutex gets on by itself,
and when it has released the mutex, the section is taken. -/
theorem Abstracts.exists_run {b : σ} {held : Held σ ε φ ρ} (h : L.Abstracts a s)
    (hheld : s.held = some held) (hstep : M.step a held.event = .ok b) :
    L.fine.Run s (List.replicate held.rest.length .micro ++ [.leave held.event]) ⟨b, none⟩ := by
  obtain ⟨shared, held'⟩ := s
  obtain rfl : held' = some held := hheld
  obtain ⟨e, r, rest, finish⟩ := held
  obtain ⟨hlocked, -, sec, done, hentry, hsteps, hfinish, hdone⟩ := h
  rw [L.step_eq a e hlocked, hentry] at hstep
  obtain ⟨z, hz, hb⟩ := Except.exists_of_bind_eq_ok (show sec.run a = .ok b from hstep)
  rw [hsteps, runSteps_append, hdone] at hz
  rw [hfinish] at hb
  cases hb
  exact run_of_runSteps L hz

end Layout

end Mutex
