import AsioChat.Lib.Gather
import Mathlib.Data.List.Induction

/-!
# Gathering in Batches

The receiver of `Gather` looks at one chunk at a time and keeps what it knows between
chunks. Here the same frames are read off a whole list of chunks at once: take chunks until
they hold a header; if it is not accepted, drop them; otherwise take more until they hold
what the header announces, and hand them over; then start afresh. Nothing is kept but the
symbols gathered, and no header is looked at twice.

## Main results

* `feed_of_unfinished`, `feed_of_rejected`, `feed_of_complete`: what the receiver makes of the
  three kinds of groups the chunks fall into.
* `feed_eq_batch`: the receiver and the batch agree on every list of chunks, in the frames
  and in what is left over.
* `within_of_batch`: what the receiver holds at any time is held by one of the groups.
-/

namespace Gather

universe u

variable {α : Type u} (R : Rules α)

/-! ### Groups of chunks -/

/-- Chunks that complete nothing: they are too short for a header, or hold an accepted
header and fewer symbols than it announces. -/
def Unfinished (cs : List (List α)) : Prop :=
  R.headerLen ≤ cs.flatten.length →
    R.accept cs.flatten = true ∧ cs.flatten.length < R.need cs.flatten

/-- Chunks the last of which completes a header that is not accepted. -/
structure Rejected (cs : List (List α)) : Prop where
  short : cs.dropLast.flatten.length < R.headerLen
  header_le : R.headerLen ≤ cs.flatten.length
  accept : R.accept cs.flatten = false

/-- Chunks the last of which completes a frame with an accepted header. -/
structure Complete (cs : List (List α)) : Prop where
  unfinished : Unfinished R cs.dropLast
  header_le : R.headerLen ≤ cs.flatten.length
  accept : R.accept cs.flatten = true
  need_le : R.need cs.flatten ≤ cs.flatten.length

/-- The state of the receiver after chunks that complete nothing. -/
def held (cs : List (List α)) : State α := ⟨cs.flatten, decide (R.headerLen ≤ cs.flatten.length)⟩

/-- Where there are no chunks, nothing is held. -/
theorem held_nil : held R [] = .empty := by
  have hpos := R.headerLen_pos
  simp [held, State.empty]
  omega

variable {R}

/-- What is shorter than a header is unfinished. -/
theorem unfinished_of_short {cs : List (List α)} (h : cs.flatten.length < R.headerLen) :
    Unfinished R cs := fun hle => absurd h (Nat.not_lt.mpr hle)

/-- Where there are no chunks, nothing is complete. -/
theorem unfinished_nil : Unfinished R [] := unfinished_of_short R.headerLen_pos

/-- The first of some chunks that complete nothing complete nothing. -/
theorem Unfinished.of_append {cs ds : List (List α)} (h : Unfinished R (cs ++ ds)) :
    Unfinished R cs := by
  intro hle
  rw [Unfinished, List.flatten_append, R.accept_append _ _ hle, R.need_append _ _ hle,
    List.length_append] at h
  obtain ⟨haccept, hneed⟩ := h (by omega)
  exact ⟨haccept, by omega⟩

/-- A chunk that completes nothing is kept. -/
theorem step_held_of_unfinished {cs : List (List α)} {c : List α}
    (h : Unfinished R (cs ++ [c])) :
    step R (held R cs) c = (held R (cs ++ [c]), .waiting) := by
  have hflat : (cs ++ [c]).flatten = cs.flatten ++ c := List.flatten_concat
  rw [Unfinished, hflat] at h
  rcases Nat.lt_or_ge (cs.flatten ++ c).length R.headerLen with hhead | hhead
  · have hshort : cs.flatten.length < R.headerLen := by
      rw [List.length_append] at hhead
      omega
    rw [step_of_short R hhead, held, held, hflat, decide_eq_false (Nat.not_le.mpr hhead),
      decide_eq_false (Nat.not_le.mpr hshort)]
  · obtain ⟨haccept, hneed⟩ := h hhead
    have hheld : held R (cs ++ [c]) = ⟨cs.flatten ++ c, true⟩ := by
      rw [held, hflat, decide_eq_true hhead]
    rw [step_of_incomplete R hhead (by simp [held, haccept]) hneed, hheld]
    rfl

/-- The chunk that completes a rejected header drops everything. -/
theorem step_held_of_rejected {cs : List (List α)} {c : List α} (h : Rejected R (cs ++ [c])) :
    step R (held R cs) c = (.empty, .dropped) := by
  have hflat : (cs ++ [c]).flatten = cs.flatten ++ c := List.flatten_concat
  obtain ⟨hshort, hhead, hbad⟩ := h
  rw [List.dropLast_concat] at hshort
  rw [hflat] at hhead hbad
  exact step_of_bad R hhead ⟨decide_eq_false (Nat.not_le.mpr hshort), hbad⟩

/-- The chunk that completes a frame hands it over. -/
theorem step_held_of_complete {cs : List (List α)} {c : List α} (h : Complete R (cs ++ [c])) :
    step R (held R cs) c = (.empty, .frame (cs ++ [c]).flatten) := by
  have hflat : (cs ++ [c]).flatten = cs.flatten ++ c := List.flatten_concat
  obtain ⟨-, hhead, haccept, hneed⟩ := h
  rw [hflat] at hhead haccept hneed ⊢
  exact step_of_complete R hhead (by simp [held, haccept]) hneed

/-- **Chunks that complete nothing are held.** -/
theorem feed_of_unfinished {cs : List (List α)} (h : Unfinished R cs) :
    feed R .empty cs = (held R cs, []) := by
  induction cs using List.reverseRecOn with
  | nil => rw [feed_nil, held_nil]
  | append_singleton cs c ih =>
      rw [feed_append, ih h.of_append, feed_cons, step_held_of_unfinished h]
      rfl

/-- A group of chunks is not empty, and all but its last chunk complete nothing. -/
theorem exists_concat {cs : List (List α)} (h : R.headerLen ≤ cs.flatten.length) :
    ∃ ds c, cs = ds ++ [c] := by
  rcases List.eq_nil_or_concat' cs with rfl | hconcat
  · exact absurd h (Nat.not_le.mpr R.headerLen_pos)
  · exact hconcat

/-- **Chunks that complete a rejected header are dropped.** -/
theorem feed_of_rejected {cs : List (List α)} (h : Rejected R cs) :
    feed R .empty cs = (.empty, []) := by
  obtain ⟨ds, c, rfl⟩ := exists_concat h.header_le
  have hshort := h.short
  rw [List.dropLast_concat] at hshort
  rw [feed_append, feed_of_unfinished (unfinished_of_short hshort), feed_cons,
    step_held_of_rejected h]
  rfl

/-- **Chunks that complete a frame are handed over.** -/
theorem feed_of_complete {cs : List (List α)} (h : Complete R cs) :
    feed R .empty cs = (.empty, [cs.flatten]) := by
  obtain ⟨ds, c, rfl⟩ := exists_concat h.header_le
  have hunfinished := h.unfinished
  rw [List.dropLast_concat] at hunfinished
  rw [feed_append, feed_of_unfinished hunfinished, feed_cons, step_held_of_complete h]
  rfl

/-! ### The batch -/

/-- Take chunks until there is enough: what was gathered, and the chunks that remain unless
they ran out before. -/
def gatherUntil (enough : List α → Bool) :
    List α → List (List α) → List α × Option (List (List α))
  | acc, [] => (acc, if enough acc then some [] else none)
  | acc, c :: cs => if enough acc then (acc, some (c :: cs)) else gatherUntil enough (acc ++ c) cs

/-- When the chunks run out, all of them were gathered, and there is not enough. -/
theorem gatherUntil_eq_none {enough : List α → Bool} {acc acc' : List α} {cs : List (List α)}
    (h : gatherUntil enough acc cs = (acc', none)) :
    acc' = acc ++ cs.flatten ∧ enough acc' = false := by
  induction cs generalizing acc with
  | nil =>
      rw [gatherUntil] at h
      split at h
      · cases h
      · rename_i hnot
        cases h
        exact ⟨(List.append_nil _).symm, Bool.eq_false_iff.mpr hnot⟩
  | cons c cs ih =>
      rw [gatherUntil] at h
      split at h
      · cases h
      · obtain ⟨rfl, hnot⟩ := ih h
        rw [List.flatten_cons, ← List.append_assoc]
        exact ⟨rfl, hnot⟩

/-- When there is enough, it took the last chunk gathered. -/
theorem gatherUntil_eq_some {enough : List α → Bool} {acc acc' : List α}
    {cs rest : List (List α)} (h : gatherUntil enough acc cs = (acc', some rest)) :
    ∃ g, cs = g ++ rest ∧ acc' = acc ++ g.flatten ∧ enough acc' = true ∧
      (g = [] ∨ enough (acc ++ g.dropLast.flatten) = false) := by
  induction cs generalizing acc with
  | nil =>
      rw [gatherUntil] at h
      split at h
      · rename_i henough
        cases h
        exact ⟨[], rfl, (List.append_nil _).symm, henough, .inl rfl⟩
      · cases h
  | cons c cs ih =>
      rw [gatherUntil] at h
      split at h
      · rename_i henough
        cases h
        exact ⟨[], rfl, (List.append_nil _).symm, henough, .inl rfl⟩
      · rename_i hnot
        obtain ⟨g, rfl, rfl, henough, hlast⟩ := ih h
        refine ⟨c :: g, rfl, by simp, henough, .inr ?_⟩
        rcases hlast with rfl | hlast
        · simpa using hnot
        · cases g with
          | nil => simpa using hnot
          | cons d g => simpa using hlast

/-- Gathering takes reads away. -/
theorem length_le_of_gatherUntil {enough : List α → Bool} {acc acc' : List α}
    {cs rest : List (List α)} (h : gatherUntil enough acc cs = (acc', some rest)) :
    rest.length ≤ cs.length := by
  obtain ⟨g, rfl, -, -, -⟩ := gatherUntil_eq_some h
  rw [List.length_append]
  omega

/-- If there was not enough before, some chunks are taken. -/
theorem length_lt_of_gatherUntil {enough : List α → Bool} {acc acc' : List α}
    {cs rest : List (List α)} (h : gatherUntil enough acc cs = (acc', some rest))
    (hnot : enough acc = false) : rest.length < cs.length := by
  obtain ⟨g, rfl, rfl, henough, -⟩ := gatherUntil_eq_some h
  cases g with
  | nil => simp [hnot] at henough
  | cons c g =>
      rw [List.length_append, List.length_cons]
      omega

/-- What becomes of a group of chunks, with the symbols they hold: dropped, handed over as
a frame, or left over at the end. -/
inductive Group (α : Type u)
  | dropped (acc : List α)
  | frame (acc : List α)
  | pending (acc : List α)
  deriving DecidableEq, Repr

/-- The symbols of a group. -/
def Group.acc : Group α → List α
  | dropped acc => acc
  | frame acc => acc
  | pending acc => acc

/-- The frame of a group, if it is one. -/
def Group.frames : Group α → List (List α)
  | frame acc => [acc]
  | _ => []

/-- What is left over of a group. -/
def Group.left : Group α → List α
  | pending acc => acc
  | _ => []

variable (R)

/-- **The batch**: gather chunks until they hold a header; drop them if it is not accepted;
otherwise gather until they hold what it announces, and hand them over; start afresh with
the next chunk. -/
def batch (cs : List (List α)) : List (Group α) :=
  if cs = [] then []
  else
    match _hheader : gatherUntil (fun acc => R.headerLen ≤ acc.length) [] cs with
    | (acc, none) => [.pending acc]
    | (acc, some rest) =>
      if R.accept acc = false then .dropped acc :: batch rest
      else
        match _hcontent : gatherUntil (fun acc => R.need acc ≤ acc.length) acc rest with
        | (acc, none) => [.pending acc]
        | (acc, some rest) => .frame acc :: batch rest
termination_by cs.length
decreasing_by
  · exact length_lt_of_gatherUntil _hheader (decide_eq_false (Nat.not_le.mpr R.headerLen_pos))
  · have hlt := length_lt_of_gatherUntil _hheader
      (decide_eq_false (Nat.not_le.mpr R.headerLen_pos))
    exact Nat.lt_of_le_of_lt (length_le_of_gatherUntil _hcontent) hlt

variable {R}

/-- The chunks that hold a header for the first time: all but the last are too short. -/
theorem header_of_gatherUntil {cs rest : List (List α)} {acc : List α}
    (h : gatherUntil (fun acc => R.headerLen ≤ acc.length) [] cs = (acc, some rest)) :
    ∃ g, cs = g ++ rest ∧ acc = g.flatten ∧ R.headerLen ≤ g.flatten.length ∧
      g.dropLast.flatten.length < R.headerLen := by
  obtain ⟨g, hsplit, rfl, henough, hlast⟩ := gatherUntil_eq_some h
  rw [List.nil_append] at henough ⊢
  refine ⟨g, hsplit, rfl, of_decide_eq_true henough, ?_⟩
  rcases hlast with rfl | hlast
  · exact R.headerLen_pos
  · exact Nat.not_le.mp (of_decide_eq_false hlast)

/-- The chunks behind an accepted header, up to what it announces: with those before they are
the group of a frame. -/
theorem content_of_gatherUntil {g cs rest : List (List α)} {acc : List α}
    (hhead : R.headerLen ≤ g.flatten.length) (hshort : g.dropLast.flatten.length < R.headerLen)
    (hok : R.accept g.flatten = true)
    (h : gatherUntil (fun acc => R.need acc ≤ acc.length) g.flatten cs = (acc, some rest)) :
    ∃ g', cs = g' ++ rest ∧ acc = (g ++ g').flatten ∧ Complete R (g ++ g') := by
  obtain ⟨g', rfl, rfl, henough, hlast⟩ := gatherUntil_eq_some h
  have hneed := of_decide_eq_true henough
  rw [← List.flatten_append] at hneed ⊢
  have hhead' : R.headerLen ≤ (g ++ g').flatten.length := by
    rw [List.flatten_append, List.length_append]
    omega
  have hok' : R.accept (g ++ g').flatten = true := by
    rw [List.flatten_append, R.accept_append _ _ hhead, hok]
  refine ⟨g', rfl, rfl, ?_, hhead', hok', hneed⟩
  -- the last chunk is the one that completes the header, or one behind it
  rcases hlast with rfl | hlast
  · rw [List.append_nil]
    exact unfinished_of_short hshort
  · by_cases hnil : g' = []
    · rw [hnil, List.append_nil]
      exact unfinished_of_short hshort
    · rw [List.dropLast_append_of_ne_nil hnil]
      intro _
      have hneed' := Nat.not_le.mp (of_decide_eq_false hlast)
      rw [List.flatten_append, R.accept_append _ _ hhead]
      exact ⟨hok, hneed'⟩

/-- **What the batch does first**: nothing, or leave everything over, or drop a group, or hand
one over. -/
theorem batch_cases (cs : List (List α)) :
    (cs = [] ∧ batch R cs = []) ∨
    (Unfinished R cs ∧ batch R cs = [.pending cs.flatten]) ∨
    (∃ g rest, cs = g ++ rest ∧ rest.length < cs.length ∧ Rejected R g ∧
      batch R cs = .dropped g.flatten :: batch R rest) ∨
    (∃ g rest, cs = g ++ rest ∧ rest.length < cs.length ∧ Complete R g ∧
      batch R cs = .frame g.flatten :: batch R rest) := by
  rw [batch]
  split
  · rename_i hnil
    exact .inl ⟨hnil, rfl⟩
  right
  split
  · rename_i acc hheader
    obtain ⟨rfl, hnot⟩ := gatherUntil_eq_none hheader
    rw [List.nil_append] at hnot ⊢
    exact .inl ⟨unfinished_of_short (Nat.not_le.mp (of_decide_eq_false hnot)), rfl⟩
  · rename_i acc rest hheader
    have hlt := length_lt_of_gatherUntil hheader
      (decide_eq_false (Nat.not_le.mpr R.headerLen_pos))
    obtain ⟨g, rfl, rfl, hhead, hshort⟩ := header_of_gatherUntil hheader
    by_cases hbad : R.accept g.flatten = false
    · rw [if_pos hbad]
      exact .inr (.inl ⟨g, rest, rfl, hlt, ⟨hshort, hhead, hbad⟩, rfl⟩)
    · have hok : R.accept g.flatten = true := by simpa using hbad
      rw [if_neg hbad]
      split
      · rename_i acc hcontent
        obtain ⟨rfl, hnot⟩ := gatherUntil_eq_none hcontent
        have hneed := Nat.not_le.mp (of_decide_eq_false hnot)
        rw [← List.flatten_append] at hneed ⊢
        refine .inl ⟨fun _ => ⟨?_, hneed⟩, rfl⟩
        rw [List.flatten_append, R.accept_append _ _ hhead, hok]
      · rename_i acc rest' hcontent
        have hle := length_le_of_gatherUntil hcontent
        obtain ⟨g', rfl, rfl, hcomplete⟩ := content_of_gatherUntil hhead hshort hok hcontent
        exact .inr (.inr ⟨g ++ g', rest', (List.append_assoc _ _ _).symm, by omega, hcomplete,
          rfl⟩)

/-- **The receiver and the batch agree**: on every list of chunks they hand over the same
frames, and the receiver is left with what the batch leaves over. -/
theorem feed_eq_batch (cs : List (List α)) :
    (feed R .empty cs).2 = (batch R cs).flatMap Group.frames ∧
      (feed R .empty cs).1.acc = (batch R cs).flatMap Group.left := by
  induction hlen : cs.length using Nat.strongRecOn generalizing cs with
  | ind n ih =>
      rcases batch_cases (R := R) cs with
        ⟨rfl, hbatch⟩ | ⟨hunfinished, hbatch⟩ | ⟨g, rest, rfl, hlt, hrejected, hbatch⟩ |
        ⟨g, rest, rfl, hlt, hcomplete, hbatch⟩
      · rw [hbatch]
        exact ⟨rfl, rfl⟩
      · rw [hbatch, feed_of_unfinished hunfinished]
        exact ⟨rfl, (List.append_nil _).symm⟩
      · rw [hbatch, feed_append, feed_of_rejected hrejected]
        exact ih _ (hlen ▸ hlt) rest rfl
      · obtain ⟨hframes, hleft⟩ := ih _ (hlen ▸ hlt) rest rfl
        rw [hbatch, feed_append, feed_of_complete hcomplete]
        exact ⟨congrArg (g.flatten :: ·) hframes, hleft⟩

/-- Every symbol of a group is one of the chunks'. -/
theorem length_acc_le {cs : List (List α)} {g : Group α} (h : g ∈ batch R cs) :
    g.acc.length ≤ cs.flatten.length := by
  induction hlen : cs.length using Nat.strongRecOn generalizing cs with
  | ind n ih =>
      rcases batch_cases (R := R) cs with
        ⟨rfl, hbatch⟩ | ⟨-, hbatch⟩ | ⟨g', rest, rfl, hlt, -, hbatch⟩ |
        ⟨g', rest, rfl, hlt, -, hbatch⟩
      · rw [hbatch] at h
        cases h
      · rw [hbatch] at h
        obtain rfl := List.mem_singleton.mp h
        exact Nat.le_refl _
      all_goals
        rw [hbatch] at h
        rw [List.flatten_append, List.length_append]
        rcases List.mem_cons.mp h with rfl | h
        · exact Nat.le_add_right _ _
        · have := ih _ (hlen ▸ hlt) h rfl
          omega

/-- **The receiver never holds more than one of the groups.** -/
theorem within_of_batch {n : ℕ} {cs : List (List α)}
    (h : ∀ g ∈ batch R cs, g.acc.length ≤ n) : Within R n .empty cs := by
  have hgroup : ∀ g : List (List α), g.flatten.length ≤ n → Within R n .empty g := fun g hg =>
    within_of_length_le (by simpa only [State.empty, List.length_nil, Nat.zero_add] using hg)
  induction hlen : cs.length using Nat.strongRecOn generalizing cs with
  | ind m ih =>
      rcases batch_cases (R := R) cs with
        ⟨rfl, -⟩ | ⟨-, hbatch⟩ | ⟨g, rest, rfl, hlt, hrejected, hbatch⟩ |
        ⟨g, rest, rfl, hlt, hcomplete, hbatch⟩
      · trivial
      · rw [hbatch] at h
        exact hgroup cs (h _ (List.mem_singleton.mpr rfl))
      · rw [hbatch] at h
        rw [within_append, feed_of_rejected hrejected]
        exact ⟨hgroup g (h _ List.mem_cons_self),
          ih _ (hlen ▸ hlt) (fun g' hg' => h g' (List.mem_cons_of_mem _ hg')) rfl⟩
      · rw [hbatch] at h
        rw [within_append, feed_of_complete hcomplete]
        exact ⟨hgroup g (h _ List.mem_cons_self),
          ih _ (hlen ▸ hlt) (fun g' hg' => h g' (List.mem_cons_of_mem _ hg')) rfl⟩

end Gather
