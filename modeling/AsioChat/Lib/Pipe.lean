import AsioChat.Lib.Gather

/-!
# Pipes

A stream of symbols from a sender, who puts in one piece after the other, to a receiver, who
takes out chunks of any size and gathers them by some rules (`Gather`). What is underway is
kept as what is left of each piece.

As the receiver never looks inside a chunk, it hands over what was put in as long as no chunk
that is taken out reaches from one piece into the next (`Pipe.Fits`). This is said here of a
pipe that is in use, with putting in and taking out in any order.

## Main results

* `Pipe.flatten_drop`: what is taken out comes from the front of the stream.
* `Pipe.Transfers.put`, `Pipe.Transfers.take`: what putting in and taking out preserves: the
  receiver has handed over the first so many pieces, and holds the front of the next one.
-/

universe u

namespace Pipe

variable {α : Type u}

/-- What is underway after `n` symbols were taken out. -/
def drop : ℕ → List (List α) → List (List α)
  | _, [] => []
  | n, piece :: rest =>
    if n < piece.length then piece.drop n :: rest else drop (n - piece.length) rest

/-- What is taken out comes from the front of the stream. -/
theorem flatten_drop (n : ℕ) (p : List (List α)) : (drop n p).flatten = p.flatten.drop n := by
  induction p generalizing n with
  | nil => rw [drop, List.flatten_nil, List.drop_nil]
  | cons piece rest ih =>
      rw [drop, List.flatten_cons, List.drop_append]
      split
      · rename_i hlt
        rw [List.flatten_cons, Nat.sub_eq_zero_of_le (Nat.le_of_lt hlt), List.drop_zero]
      · rename_i hle
        rw [ih, List.drop_eq_nil_of_le (Nat.le_of_not_lt hle), List.nil_append]

/-- Something taken out leaves less underway. -/
theorem length_flatten_drop_lt {n : ℕ} {p : List (List α)} (h : p.flatten.take n ≠ []) :
    (drop n p).flatten.length < p.flatten.length := by
  have hpos := List.length_pos_of_ne_nil h
  rw [List.length_take] at hpos
  rw [flatten_drop, List.length_drop]
  omega

/-- Taking out nothing, if no piece is empty. -/
theorem drop_zero {p : List (List α)} (h : ∀ piece ∈ p, piece ≠ []) : drop 0 p = p := by
  cases p with
  | nil => rfl
  | cons piece rest =>
      have hpos := List.length_pos_of_ne_nil (h piece List.mem_cons_self)
      rw [drop, if_pos hpos, List.drop_zero]

/-- The next `n` symbols are all of one piece. -/
def Fits (n : ℕ) (p : List (List α)) : Prop := n ≤ (p.headD []).length

instance (n : ℕ) (p : List (List α)) : Decidable (Fits n p) :=
  inferInstanceAs (Decidable (_ ≤ _))

/-- What is underway, together with the front of the next piece that was taken out before. -/
def joined (acc : List α) : List (List α) → List (List α)
  | [] => []
  | piece :: rest => (acc ++ piece) :: rest

/-- Nothing is put in front. -/
@[simp] theorem joined_nil (p : List (List α)) : joined [] p = p := by
  cases p <;> rfl

/-- Where a transfer is: of the pieces put in, the first `k` were handed over, the receiver
holds the front of the next one, and the rest is underway. -/
structure Transfers (sent : List (List α)) (k : ℕ) (g : Gather.State α) (p : List (List α)) :
    Prop where
  le : k ≤ sent.length
  underway : joined g.acc p = sent.drop k
  unfinished : g.acc ≠ [] → ∃ piece rest, p = piece :: rest ∧ piece ≠ []

variable {R : Gather.Rules α} {sent p : List (List α)} {k n : ℕ} {g : Gather.State α}

/-- A transfer begins with nothing handed over. -/
theorem Transfers.begin (sent : List (List α)) (checked : Bool) :
    Transfers sent 0 ⟨[], checked⟩ sent :=
  ⟨Nat.zero_le _, joined_nil sent, fun h => absurd rfl h⟩

/-- When nothing is underway, the receiver holds nothing. -/
theorem Transfers.acc_eq_nil (h : Transfers sent k g []) : g.acc = [] := by
  by_contra hne
  obtain ⟨_, _, hcons, -⟩ := h.unfinished hne
  cases hcons

/-- When nothing is underway, everything was handed over. -/
theorem Transfers.eq_length (h : Transfers sent k g []) : k = sent.length :=
  Nat.le_antisymm h.le (List.drop_eq_nil_iff.mp h.underway.symm)

/-- **Putting pieces in** changes nothing on the other end. -/
theorem Transfers.put (h : Transfers sent k g p) (new : List (List α)) :
    Transfers (sent ++ new) k g (p ++ new) := by
  refine ⟨?_, ?_, fun hacc => ?_⟩
  · rw [List.length_append]
    exact Nat.le_add_right_of_le h.le
  · rw [List.drop_append_of_le_length h.le, ← h.underway]
    cases p with
    | nil => rw [h.acc_eq_nil, joined_nil, joined_nil]
    | cons piece rest => rfl
  · obtain ⟨piece, rest, rfl, hne⟩ := h.unfinished hacc
    exact ⟨piece, rest ++ new, rfl, hne⟩

/-- With a chunk of one piece, the receiver holds nothing or the front of a piece. -/
theorem Transfers.exists_prefix (h : Transfers sent k g p) (hfits : Fits n p) :
    g.acc ++ p.flatten.take n = [] ∨ ∃ q ∈ sent, g.acc ++ p.flatten.take n <+: q := by
  cases p with
  | nil =>
      left
      rw [h.acc_eq_nil, List.flatten_nil, List.take_nil, List.nil_append]
  | cons piece rest =>
      have hnext : sent.drop k = (g.acc ++ piece) :: rest := h.underway.symm
      have hn : n ≤ piece.length := hfits
      refine .inr ⟨g.acc ++ piece, List.mem_of_mem_drop (hnext ▸ List.mem_cons_self), ?_⟩
      rw [List.flatten_cons, List.take_append_of_le_length hn]
      exact (List.prefix_append_right_inj _).mpr (List.take_prefix n piece)

/-- While something is underway, the next symbol can be taken out. -/
theorem Transfers.fits_one (h : Transfers sent k g p) (hne : ∀ q ∈ sent, q ≠ []) (hp : p ≠ []) :
    Fits 1 p ∧ p.flatten.take 1 ≠ [] := by
  obtain ⟨piece, rest, rfl⟩ := List.exists_cons_of_ne_nil hp
  have hpiece : piece ≠ [] := by
    by_cases hacc : g.acc = []
    · have hnext := h.underway
      rw [hacc, joined_nil] at hnext
      exact hne piece (List.mem_of_mem_drop (hnext ▸ List.mem_cons_self))
    · obtain ⟨piece', rest', heq, hpiece⟩ := h.unfinished hacc
      exact (List.cons.inj heq).1 ▸ hpiece
  obtain ⟨x, piece, rfl⟩ := List.exists_cons_of_ne_nil hpiece
  exact ⟨Nat.succ_le_succ (Nat.zero_le _), List.cons_ne_nil _ _⟩

/-- **Taking out a chunk of one piece**: the receiver holds more of the piece, or hands it
over. -/
theorem Transfers.take (h : Transfers sent k g p) (hframes : ∀ q ∈ sent, R.IsFrame q)
    (hfits : Fits n p) :
    (∃ checked, Gather.step R g (p.flatten.take n) =
        (⟨g.acc ++ p.flatten.take n, checked⟩, .waiting) ∧
      Transfers sent k ⟨g.acc ++ p.flatten.take n, checked⟩ (drop n p)) ∨
    (sent[k]? = some (g.acc ++ p.flatten.take n) ∧
      Gather.step R g (p.flatten.take n) = (.empty, .frame (g.acc ++ p.flatten.take n)) ∧
      Transfers sent (k + 1) .empty (drop n p)) := by
  cases p with
  | nil =>
      -- nothing is underway, so the receiver holds nothing and takes out nothing
      have hacc := h.acc_eq_nil
      have hshort : (g.acc ++ ([] : List α)).length < R.headerLen := by
        rw [hacc]
        exact R.headerLen_pos
      left
      rw [List.flatten_nil, List.take_nil]
      refine ⟨g.checked, Gather.step_of_short R hshort, h.le, ?_, fun hne => ?_⟩
      · exact h.underway
      · rw [hacc] at hne
        exact absurd rfl hne
  | cons piece rest =>
      have hnext : sent.drop k = (g.acc ++ piece) :: rest := h.underway.symm
      have hframe : R.IsFrame (g.acc ++ piece) := hframes _
        (List.mem_of_mem_drop (hnext ▸ List.mem_cons_self))
      have hn : n ≤ piece.length := hfits
      have hchunk : (piece :: rest).flatten.take n = piece.take n := by
        rw [List.flatten_cons, List.take_append_of_le_length hn]
      rw [hchunk]
      rcases Nat.lt_or_ge n piece.length with hlt | hge
      · have hpre : g.acc ++ piece.take n <+: g.acc ++ piece :=
          (List.prefix_append_right_inj _).mpr (List.take_prefix n piece)
        obtain ⟨checked, hstep⟩ := Gather.step_of_lt hframe (s := g) hpre (by
          rw [List.length_append, List.length_append, List.length_take]
          omega)
        refine .inl ⟨checked, hstep, h.le, ?_, fun _ => ⟨piece.drop n, rest, ?_, ?_⟩⟩
        · rw [drop, if_pos hlt, joined, List.append_assoc, List.take_append_drop, hnext]
        · rw [drop, if_pos hlt]
        · rw [ne_eq, List.drop_eq_nil_iff]
          omega
      · have hall : piece.take n = piece := List.take_of_length_le hge
        have hrest : sent.drop (k + 1) = rest := by
          rw [← List.drop_drop, hnext]
          rfl
        have hne : ∀ q ∈ rest, q ≠ [] := fun q hq =>
          (hframes q (List.mem_of_mem_drop (hrest ▸ hq))).ne_nil
        have hget : sent[k]? = some (g.acc ++ piece) := by
          rw [← List.head?_drop, hnext]
          rfl
        have hle : k + 1 ≤ sent.length := (List.getElem?_eq_some_iff.mp hget).1
        rw [hall]
        refine .inr ⟨hget, Gather.step_of_eq hframe rfl, hle, ?_, fun hacc => absurd rfl hacc⟩
        rw [drop, if_neg (Nat.not_lt.mpr hge), Nat.sub_eq_zero_of_le hn, drop_zero hne, hrest]
        exact joined_nil rest

end Pipe
