import Mathlib.Data.List.Forall2
import Mathlib.Data.List.Flatten

/-!
# Gathering Frames from Chunks

A receiver that gathers chunks until they hold a header, checks the header once, and
gathers on until the frame the header announces is complete; whatever it then holds is
handed over as one frame and gathering starts afresh with the next chunk. What a
header is, which headers are accepted and how long a frame is are parameters
(`Gather.Rules`), and so is the type of the symbols.

Such a receiver never looks inside a chunk, so a chunk that holds the end of one frame
and the beginning of the next is handed over whole with the first. The results say
exactly what follows.

## Main results

* `feed_append`: feeding in two parts is feeding the concatenation.
* `feed_aligned`: if the chunks split into one group per frame, every frame is handed
  over, alone and in order, and nothing is left.
* `step_valid`: every frame handed over begins with an accepted header.
* `length_feed_le`: no symbol is handed over twice.
* `within_aligned`: aligned chunks never make the receiver hold more than one frame.
* `forall₂_prefix_feed_iff`: for a stream of frames, the receiver hands over one
  buffer per frame, beginning with that frame, **if and only if** no chunk holds
  symbols of two frames.
-/

namespace Gather

universe u

variable {α : Type u}

/-- What a receiver knows about headers: their length, which of them it accepts, and how
many symbols a frame with a given header has. Both are read off the header alone. -/
structure Rules (α : Type u) where
  headerLen : ℕ
  headerLen_pos : 0 < headerLen
  accept : List α → Bool
  need : List α → ℕ
  accept_append : ∀ q a, headerLen ≤ q.length → accept (q ++ a) = accept q
  need_append : ∀ q a, headerLen ≤ q.length → need (q ++ a) = need q

/-- What has been gathered since the last start, and whether its header has been
accepted. -/
structure State (α : Type u) where
  acc : List α
  checked : Bool

/-- Nothing gathered. -/
def State.empty : State α := ⟨[], false⟩

/-- What became of a chunk. -/
inductive Outcome (α : Type u)
  | waiting
  | dropped
  | frame (acc : List α)

/-- The frame handed over, if any. -/
def Outcome.frames : Outcome α → List (List α)
  | .frame acc => [acc]
  | _ => []

/-- While it waits, no frame is handed over. -/
@[simp] theorem Outcome.frames_waiting : (waiting : Outcome α).frames = [] := rfl

/-- What is dropped is no frame. -/
@[simp] theorem Outcome.frames_dropped : (dropped : Outcome α).frames = [] := rfl

/-- A frame is handed over. -/
@[simp] theorem Outcome.frames_frame (acc : List α) : (frame acc).frames = [acc] := rfl

variable (R : Rules α)

/-- One chunk. -/
def step (s : State α) (chunk : List α) : State α × Outcome α :=
  let acc := s.acc ++ chunk
  if acc.length < R.headerLen then (⟨acc, s.checked⟩, .waiting)
  else if s.checked = false ∧ R.accept acc = false then (.empty, .dropped)
  else if R.need acc ≤ acc.length then (.empty, .frame acc)
  else (⟨acc, true⟩, .waiting)

/-- A list of chunks, collecting the frames. -/
def feed : State α → List (List α) → State α × List (List α)
  | s, [] => (s, [])
  | s, c :: cs =>
    let r := step R s c
    let t := feed r.1 cs
    (t.1, r.2.frames ++ t.2)

variable {s : State α} {c : List α}

/-- Without a whole header the chunk is kept. -/
theorem step_of_short (h : (s.acc ++ c).length < R.headerLen) :
    step R s c = (⟨s.acc ++ c, s.checked⟩, .waiting) := if_pos h

/-- A header that is looked at and not accepted drops everything. -/
theorem step_of_bad (hhead : R.headerLen ≤ (s.acc ++ c).length)
    (hbad : s.checked = false ∧ R.accept (s.acc ++ c) = false) :
    step R s c = (.empty, .dropped) := by
  rw [step, if_neg (Nat.not_lt.mpr hhead), if_pos hbad]

/-- With an accepted header and all the symbols it announces, the frame is handed over. -/
theorem step_of_complete (hhead : R.headerLen ≤ (s.acc ++ c).length)
    (hok : ¬ (s.checked = false ∧ R.accept (s.acc ++ c) = false))
    (hneed : R.need (s.acc ++ c) ≤ (s.acc ++ c).length) :
    step R s c = (.empty, .frame (s.acc ++ c)) := by
  rw [step, if_neg (Nat.not_lt.mpr hhead), if_neg hok, if_pos hneed]

/-- With an accepted header and too few symbols, the chunk is kept. -/
theorem step_of_incomplete (hhead : R.headerLen ≤ (s.acc ++ c).length)
    (hok : ¬ (s.checked = false ∧ R.accept (s.acc ++ c) = false))
    (hneed : (s.acc ++ c).length < R.need (s.acc ++ c)) :
    step R s c = (⟨s.acc ++ c, true⟩, .waiting) := by
  rw [step, if_neg (Nat.not_lt.mpr hhead), if_neg hok, if_neg (Nat.not_le.mpr hneed)]

/-- **What a chunk can do**: it is kept and waits, or everything gathered is dropped, or
everything gathered is handed over. -/
theorem step_cases (s : State α) (c : List α) :
    (∃ checked, step R s c = (⟨s.acc ++ c, checked⟩, .waiting)) ∨
      step R s c = (.empty, .dropped) ∨
      (R.headerLen ≤ (s.acc ++ c).length ∧ R.need (s.acc ++ c) ≤ (s.acc ++ c).length ∧
        step R s c = (.empty, .frame (s.acc ++ c))) := by
  rcases Nat.lt_or_ge (s.acc ++ c).length R.headerLen with hhead | hhead
  · exact .inl ⟨_, step_of_short R hhead⟩
  · by_cases hbad : s.checked = false ∧ R.accept (s.acc ++ c) = false
    · exact .inr (.inl (step_of_bad R hhead hbad))
    · rcases Nat.lt_or_ge (s.acc ++ c).length (R.need (s.acc ++ c)) with hneed | hneed
      · exact .inl ⟨_, step_of_incomplete R hhead hbad hneed⟩
      · exact .inr (.inr ⟨hhead, hneed, step_of_complete R hhead hbad hneed⟩)

/-- Where there are no reads, nothing happens. -/
@[simp] theorem feed_nil (s : State α) : feed R s [] = (s, []) := rfl

/-- One read, and then the others. -/
theorem feed_cons (s : State α) (c : List α) (cs : List (List α)) :
    feed R s (c :: cs) =
      ((feed R (step R s c).1 cs).1, (step R s c).2.frames ++ (feed R (step R s c).1 cs).2) :=
  rfl

/-- Feeding in two parts is feeding the concatenation. -/
theorem feed_append (s : State α) (cs ds : List (List α)) :
    feed R s (cs ++ ds) =
      ((feed R (feed R s cs).1 ds).1, (feed R s cs).2 ++ (feed R (feed R s cs).1 ds).2) := by
  induction cs generalizing s with
  | nil => rfl
  | cons c cs ih => simp only [List.cons_append, feed_cons, ih, List.append_assoc]

/-! ### Frames that arrive in groups of their own -/

/-- A list of symbols is a frame for the rules if it holds an accepted header that
announces its length. -/
structure Rules.IsFrame (p : List α) : Prop where
  header_le : R.headerLen ≤ p.length
  accept : R.accept p = true
  need : R.need p = p.length

variable {R}

/-- A frame has a header. -/
theorem Rules.IsFrame.ne_nil {p : List α} (hp : R.IsFrame p) : p ≠ [] :=
  List.ne_nil_of_length_pos (Nat.lt_of_lt_of_le R.headerLen_pos hp.header_le)

/-- A prefix of a frame that holds the header is accepted and announces the frame's
length. -/
theorem Rules.IsFrame.of_prefix {p q : List α} (hp : R.IsFrame p) (hpre : q <+: p)
    (hq : R.headerLen ≤ q.length) : R.accept q = true ∧ R.need q = p.length := by
  obtain ⟨a, rfl⟩ := hpre
  exact ⟨(R.accept_append q a hq).symm.trans hp.accept, (R.need_append q a hq).symm.trans hp.need⟩

/-- A chunk that leaves the frame incomplete is kept. -/
theorem step_of_lt {p : List α} (hp : R.IsFrame p) {s : State α} {c : List α}
    (hpre : s.acc ++ c <+: p) (hlt : (s.acc ++ c).length < p.length) :
    ∃ checked, step R s c = (⟨s.acc ++ c, checked⟩, .waiting) := by
  rcases Nat.lt_or_ge (s.acc ++ c).length R.headerLen with hhead | hhead
  · exact ⟨_, step_of_short R hhead⟩
  · obtain ⟨haccept, hneed⟩ := hp.of_prefix hpre hhead
    exact ⟨_, step_of_incomplete R hhead (by simp [haccept]) (hneed ▸ hlt)⟩

/-- The chunk that completes the frame hands it over. -/
theorem step_of_eq {p : List α} (hp : R.IsFrame p) {s : State α} {c : List α}
    (heq : s.acc ++ c = p) : step R s c = (.empty, .frame p) := by
  subst heq
  exact step_of_complete R hp.header_le (by simp [hp.accept]) (Nat.le_of_eq hp.need)

/-- Chunks without symbols change nothing. -/
theorem feed_empty_of_flatten_eq_nil {cs : List (List α)} (h : cs.flatten = []) :
    feed R .empty cs = (.empty, []) := by
  induction cs with
  | nil => rfl
  | cons c cs ih =>
      obtain ⟨rfl, hcs⟩ := List.append_eq_nil_iff.mp h
      have hstep : step R (.empty : State α) [] = (.empty, .waiting) :=
        step_of_short R R.headerLen_pos
      rw [feed_cons, hstep, ih hcs]
      rfl

/-- A group of chunks that completes a frame hands over that frame and nothing else. -/
theorem feed_group {p : List α} (hp : R.IsFrame p) {g : List (List α)} {s : State α}
    (heq : s.acc ++ g.flatten = p) (hlt : s.acc.length < p.length) :
    feed R s g = (.empty, [p]) := by
  induction g generalizing s with
  | nil =>
      rw [List.flatten_nil, List.append_nil] at heq
      exact absurd (congrArg List.length heq) (Nat.ne_of_lt hlt)
  | cons c g ih =>
      rw [List.flatten_cons, ← List.append_assoc] at heq
      by_cases hshort : (s.acc ++ c).length < p.length
      · obtain ⟨checked, hstep⟩ := step_of_lt hp ⟨g.flatten, heq⟩ hshort
        rw [feed_cons, hstep, ih heq hshort]
        rfl
      · have hlen := congrArg List.length heq
        rw [List.length_append] at hlen
        have hrest : g.flatten = [] := List.eq_nil_of_length_eq_zero (by omega)
        rw [hrest, List.append_nil] at heq
        rw [feed_cons, step_of_eq hp heq, feed_empty_of_flatten_eq_nil hrest]
        rfl

/-- The chunks split into one group per frame: no chunk holds symbols of two frames. -/
def Aligned (cs ps : List (List α)) : Prop :=
  ∃ groups : List (List (List α)), groups.flatten = cs ∧ groups.map List.flatten = ps

/-- **Aligned chunks hand over exactly the frames**, in order, and leave nothing. -/
theorem feed_aligned {cs ps : List (List α)} (hps : ∀ p ∈ ps, R.IsFrame p)
    (h : Aligned cs ps) : feed R .empty cs = (.empty, ps) := by
  obtain ⟨groups, rfl, rfl⟩ := h
  induction groups with
  | nil => rfl
  | cons g groups ih =>
      have hp : R.IsFrame g.flatten := hps _ (by simp)
      have hpos : 0 < g.flatten.length := Nat.lt_of_lt_of_le R.headerLen_pos hp.header_le
      have hg : feed R .empty g = (.empty, [g.flatten]) := feed_group hp rfl hpos
      have hrest := ih fun p hmem => hps p (List.mem_cons_of_mem _ hmem)
      rw [List.flatten_cons, feed_append, hg, hrest]
      rfl

/-! ### Checked headers -/

/-- A state marked as checked holds an accepted header. -/
def State.Valid (R : Rules α) (s : State α) : Prop :=
  s.checked = true → R.headerLen ≤ s.acc.length ∧ R.accept s.acc = true

/-- The empty state is valid. -/
theorem State.valid_empty : (State.empty : State α).Valid R :=
  fun h => absurd h (by simp [State.empty])

/-- **No frame is handed over unchecked**: from a valid state every chunk leads to a valid
state, and what is handed over begins with an accepted header. -/
theorem step_valid {s : State α} (hs : s.Valid R) (c : List α) :
    (step R s c).1.Valid R ∧
      ∀ acc ∈ (step R s c).2.frames, R.headerLen ≤ acc.length ∧ R.accept acc = true := by
  have haccept : s.checked = true → R.accept (s.acc ++ c) = true := fun hc =>
    (R.accept_append _ _ (hs hc).1).trans (hs hc).2
  rcases Nat.lt_or_ge (s.acc ++ c).length R.headerLen with hhead | hhead
  · rw [step_of_short R hhead]
    refine ⟨fun hc => ?_, fun acc h => absurd h (by simp)⟩
    have := (hs hc).1
    rw [List.length_append] at hhead
    omega
  · by_cases hbad : s.checked = false ∧ R.accept (s.acc ++ c) = false
    · rw [step_of_bad R hhead hbad]
      exact ⟨State.valid_empty, fun acc h => absurd h (by simp)⟩
    · have hok : R.accept (s.acc ++ c) = true := by
        cases hc : s.checked
        · simpa [hc] using hbad
        · exact haccept hc
      rcases Nat.lt_or_ge (s.acc ++ c).length (R.need (s.acc ++ c)) with hneed | hneed
      · rw [step_of_incomplete R hhead hbad hneed]
        exact ⟨fun _ => ⟨hhead, hok⟩, fun acc h => absurd h (by simp)⟩
      · rw [step_of_complete R hhead hbad hneed]
        refine ⟨State.valid_empty, fun acc h => ?_⟩
        obtain rfl : acc = s.acc ++ c := by simpa using h
        exact ⟨hhead, hok⟩

/-! ### Counting symbols -/

/-- No symbol is handed over twice: what is handed over and what is still held is at most
what was held before and what arrived. -/
theorem length_feed_le (s : State α) (cs : List (List α)) :
    (feed R s cs).2.flatten.length + (feed R s cs).1.acc.length ≤
      s.acc.length + cs.flatten.length := by
  induction cs generalizing s with
  | nil => simp
  | cons c cs ih =>
      have hlen : (s.acc ++ c).length = s.acc.length + c.length := List.length_append
      have hrec := ih (step R s c).1
      rw [feed_cons, List.flatten_cons, List.length_append]
      rcases step_cases R s c with ⟨checked, hstep⟩ | hstep | ⟨-, -, hstep⟩
      all_goals
        simp only [hstep, State.empty, Outcome.frames, List.nil_append, List.flatten_append,
          List.flatten_cons, List.flatten_nil, List.length_append, List.length_nil] at hrec ⊢
        omega

/-- If everything that arrived was handed over, the chunks split into one group for each
buffer handed over. Induction on the chunks; `pending` are those gathered so far. -/
theorem aligned_of_length_eq (pending : List (List α)) (checked : Bool) {cs : List (List α)}
    (hne : ∀ c ∈ pending ++ cs, c ≠ [])
    (hlen : (feed R ⟨pending.flatten, checked⟩ cs).2.flatten.length =
      (pending ++ cs).flatten.length) :
    Aligned (pending ++ cs) (feed R ⟨pending.flatten, checked⟩ cs).2 := by
  induction cs generalizing pending checked with
  | nil =>
      cases pending with
      | nil => exact ⟨[], rfl, rfl⟩
      | cons c pending =>
          have hc : 0 < c.length := List.length_pos_of_ne_nil (hne c (by simp))
          simp at hlen
          omega
  | cons c cs ih =>
      have hc : 0 < c.length := List.length_pos_of_ne_nil (hne c (by simp))
      have hsplit : pending ++ c :: cs = (pending ++ [c]) ++ cs := by simp
      have hacc : pending.flatten ++ c = (pending ++ [c]).flatten := by simp
      rw [feed_cons] at hlen ⊢
      rcases step_cases R ⟨pending.flatten, checked⟩ c with
        ⟨checked', hstep⟩ | hstep | ⟨-, -, hstep⟩
      · rw [hstep, Outcome.frames_waiting, List.nil_append] at hlen ⊢
        simp only [hacc] at hlen ⊢
        rw [hsplit] at hlen hne ⊢
        exact ih _ _ hne hlen
      · -- the dropped symbols are missing from what was handed over
        rw [hstep, Outcome.frames_dropped, List.nil_append] at hlen
        have hle := length_feed_le (R := R) .empty cs
        simp only [State.empty, List.length_nil, Nat.zero_add] at hle hlen
        rw [hlen, hsplit, List.flatten_append, List.length_append, ← hacc,
          List.length_append] at hle
        omega
      · rw [hstep, Outcome.frames_frame] at hlen ⊢
        have hlen' : (feed R .empty cs).2.flatten.length = cs.flatten.length := by
          simp only [hsplit, List.flatten_append, List.length_append, List.flatten_singleton]
            at hlen
          omega
        obtain ⟨groups, hgroups, hframes⟩ :=
          ih [] false (fun d hd => hne d (by simp at hd ⊢; tauto)) hlen'
        refine ⟨(pending ++ [c]) :: groups, ?_, ?_⟩
        · rw [List.flatten_cons, hgroups, hsplit, List.nil_append]
        · rw [List.map_cons, hframes, ← hacc]
          rfl

/-- Buffers that begin with the frames are at least as long. -/
theorem length_flatten_le_of_forall₂ {ps ds : List (List α)}
    (h : List.Forall₂ (fun p d => p <+: d) ps ds) : ps.flatten.length ≤ ds.flatten.length := by
  induction h with
  | nil => exact Nat.le_refl _
  | cons hpd _ ih =>
      have := hpd.length_le
      simp only [List.flatten_cons, List.length_append]
      omega

/-- Buffers that begin with the frames and are no longer are the frames. -/
theorem eq_of_forall₂_of_length_le {ps ds : List (List α)}
    (h : List.Forall₂ (fun p d => p <+: d) ps ds)
    (hle : ds.flatten.length ≤ ps.flatten.length) : ps = ds := by
  induction h with
  | nil => rfl
  | @cons p d ps ds hpd hrest ih =>
      have h1 := hpd.length_le
      have h2 := length_flatten_le_of_forall₂ hrest
      simp only [List.flatten_cons, List.length_append] at hle
      rw [hpd.eq_of_length (by omega), ih (by omega)]

/-- **Framing is exact if and only if no chunk straddles two frames.** For a stream of
frames cut into nonempty chunks, one buffer is handed over per frame, in order and
beginning with that frame, exactly when the cut is aligned with the frames. -/
theorem forall₂_prefix_feed_iff {cs ps : List (List α)} (hps : ∀ p ∈ ps, R.IsFrame p)
    (hne : ∀ c ∈ cs, c ≠ []) (hflat : cs.flatten = ps.flatten) :
    List.Forall₂ (fun p d => p <+: d) ps (feed R .empty cs).2 ↔ Aligned cs ps := by
  constructor
  · intro h
    have hle := length_feed_le (R := R) .empty cs
    have hge := length_flatten_le_of_forall₂ h
    simp only [State.empty, List.length_nil, Nat.zero_add, hflat] at hle
    have heq : ps = (feed R .empty cs).2 :=
      eq_of_forall₂_of_length_le h (by simp only [State.empty]; omega)
    have halign := aligned_of_length_eq (R := R) [] false hne
    rw [List.nil_append, hflat] at halign
    rw [heq]
    exact halign (congrArg (fun l => l.flatten.length) heq.symm)
  · intro h
    rw [feed_aligned hps h]
    exact List.forall₂_same.mpr fun p _ => List.prefix_rfl

/-! ### Bounded memory -/

/-- At no time are more than `n` symbols held, the chunk being looked at included. -/
def Within (R : Rules α) (n : ℕ) : State α → List (List α) → Prop
  | _, [] => True
  | s, c :: cs => (s.acc ++ c).length ≤ n ∧ Within R n (step R s c).1 cs

/-- Some reads and some more are within frames. -/
theorem within_append {n : ℕ} {s : State α} {cs ds : List (List α)} :
    Within R n s (cs ++ ds) ↔ Within R n s cs ∧ Within R n (feed R s cs).1 ds := by
  induction cs generalizing s with
  | nil => simp [Within]
  | cons c cs ih => simp only [List.cons_append, Within, feed_cons, ih, and_assoc]

/-- What is held is at most what was held before and what arrived. -/
theorem length_step_le (s : State α) (c : List α) :
    (step R s c).1.acc.length ≤ s.acc.length + c.length := by
  have hlen : (s.acc ++ c).length = s.acc.length + c.length := List.length_append
  rcases step_cases R s c with ⟨checked, hstep⟩ | hstep | ⟨-, -, hstep⟩
  · simp only [hstep]; omega
  · simp only [hstep, State.empty, List.length_nil]; omega
  · simp only [hstep, State.empty, List.length_nil]; omega

/-- Chunks that fit together fit one after another. -/
theorem within_of_length_le {n : ℕ} {s : State α} {cs : List (List α)}
    (h : s.acc.length + cs.flatten.length ≤ n) : Within R n s cs := by
  induction cs generalizing s with
  | nil => trivial
  | cons c cs ih =>
      rw [List.flatten_cons, List.length_append] at h
      have hstep := length_step_le (R := R) s c
      refine ⟨?_, ih ?_⟩
      · rw [List.length_append]; omega
      · omega

/-- Aligned chunks never make the receiver hold more than one frame. -/
theorem within_aligned {n : ℕ} {cs ps : List (List α)}
    (hps : ∀ p ∈ ps, R.IsFrame p ∧ p.length ≤ n) (h : Aligned cs ps) :
    Within R n .empty cs := by
  obtain ⟨groups, rfl, rfl⟩ := h
  induction groups with
  | nil => trivial
  | cons g groups ih =>
      obtain ⟨hp, hlen⟩ := hps g.flatten (by simp)
      have hpos : 0 < g.flatten.length := Nat.lt_of_lt_of_le R.headerLen_pos hp.header_le
      have hg : feed R .empty g = (.empty, [g.flatten]) := feed_group hp rfl hpos
      rw [List.flatten_cons, within_append, hg]
      refine ⟨within_of_length_le ?_, ih fun p hmem => hps p (List.mem_cons_of_mem _ hmem)⟩
      simpa only [State.empty, List.length_nil, Nat.zero_add] using hlen

end Gather
