import AsioChat.Lib.Machine
import Mathlib.Data.List.Nodup
import Mathlib.Logic.Function.Basic

/-!
# A Pool of Slots

Slots wait in a queue, one of them at a time is offered to the outside, a slot that is
taken is in use until it is released to the end of the queue, and the next one is
offered as soon as one is taken, or when one is released while none is offered. An
offer may also fail, and then nothing happens: the slot is gone and no other is offered
in its place. The slots are of an arbitrary type.

## Main results

* `Exclusive.step`: in every run, no slot is in two places, and at most one is offered.
* `places_of_run`: the slots are offered in the order in which they became free.
* `complete_iff`: in every run, every slot is accounted for and one is offered whenever
  one is free, **if and only if** no offer failed.
-/

universe u

/-- A pool: whether it counts as offering a slot, the slots offered, the queue of free
slots, and which slots are in use. -/
structure Pool (α : Type u) where
  offering : Bool
  pending : List α
  free : List α
  inUse : α → Bool

namespace Pool

/-- What can happen to a pool: the slot offered is taken, offering it fails, or a slot in
use is released. -/
inductive Event (α : Type u)
  | take (a : α)
  | fail (a : α)
  | release (a : α)

variable {α : Type u} [DecidableEq α]

omit [DecidableEq α] in
/-- Offer the slot at the front of the queue, if there is one. -/
def offer (p : Pool α) : Pool α :=
  match p.free with
  | [] => { p with offering := false }
  | a :: free => { p with offering := true, pending := p.pending ++ [a], free := free }

/-- The slot `a` is taken, and the next one offered. -/
def take (p : Pool α) (a : α) : Pool α :=
  offer { p with pending := p.pending.erase a, inUse := Function.update p.inUse a true }

/-- Offering the slot `a` fails. -/
def fail (p : Pool α) (a : α) : Pool α :=
  { p with pending := p.pending.erase a }

/-- The slot `a` is released, and the next one offered if none is. -/
def release (p : Pool α) (a : α) : Pool α :=
  let p' := { p with free := p.free ++ [a], inUse := Function.update p.inUse a false }
  if p.offering = false then p'.offer else p'

/-- All slots free, and the first one offered. -/
def initial (slots : List α) : Pool α :=
  offer ⟨false, [], slots, fun _ => false⟩

/-- Only an offered slot that is not in use is taken, only an offer fails, and only a slot
in use is released. -/
def Enabled (p : Pool α) : Event α → Prop
  | .take a => a ∈ p.pending ∧ p.inUse a = false
  | .fail a => a ∈ p.pending
  | .release a => p.inUse a = true

/-- One event. -/
def step (p : Pool α) : Event α → Pool α
  | .take a => p.take a
  | .fail a => p.fail a
  | .release a => p.release a

/-- The runs of a pool. -/
def machine (α : Type u) [DecidableEq α] : Machine (Pool α) (Event α) Empty where
  enabled := Enabled
  step p e := .ok (p.step e)

variable {slots : List α} {p q : Pool α} {a : α} {e : Event α} {es : List (Event α)}

/-- A step of the pool is an event that is possible. -/
theorem step_iff : (machine α).Step p e q ↔ p.Enabled e ∧ q = p.step e := by
  constructor
  · rintro ⟨henabled, hstep⟩
    exact ⟨henabled, (Except.ok.inj hstep).symm⟩
  · rintro ⟨henabled, rfl⟩
    exact ⟨henabled, rfl⟩

/-! ### Exclusion -/

/-- No slot is in two places, and at most one is offered, and none unless the pool counts
as offering. -/
structure Exclusive (slots : List α) (p : Pool α) : Prop where
  nodup : (p.pending ++ p.free).Nodup
  idle : ∀ a ∈ p.pending ++ p.free, p.inUse a = false
  length_le : p.pending.length ≤ 1
  pending : p.offering = false → p.pending = []
  mem : ∀ a, a ∈ p.pending ++ p.free ∨ p.inUse a = true → a ∈ slots

omit [DecidableEq α] in
/-- Offering a slot keeps the slots apart, if none is offered yet. -/
theorem Exclusive.offer (h : Exclusive slots p) (hnone : p.pending = []) :
    Exclusive slots p.offer := by
  obtain ⟨offering, pending, free, inUse⟩ := p
  obtain rfl : pending = [] := hnone
  cases free with
  | nil => exact ⟨h.nodup, h.idle, h.length_le, fun _ => rfl, h.mem⟩
  | cons a free => exact ⟨h.nodup, h.idle, Nat.le_refl 1, (fun h => nomatch h), h.mem⟩

omit [DecidableEq α] in
/-- With a slot offered, no other one is. -/
theorem Exclusive.pending_eq (h : Exclusive slots p) (ha : a ∈ p.pending) : p.pending = [a] := by
  have hlen := h.length_le
  obtain ⟨b, hb⟩ : ∃ b, p.pending = [b] :=
    List.length_eq_one_iff.mp (Nat.le_antisymm hlen (List.length_pos_of_mem ha))
  rw [hb, List.mem_singleton] at ha
  rw [hb, ha]

/-- A failed offer keeps the slots apart. -/
theorem Exclusive.fail (h : Exclusive slots p) (ha : a ∈ p.pending) :
    Exclusive slots (p.fail a) ∧ (p.fail a).pending = [] := by
  have hnone : p.pending.erase a = [] := by rw [h.pending_eq ha, List.erase_cons_head]
  have hsub : ∀ b, b ∈ p.pending.erase a ++ p.free → b ∈ p.pending ++ p.free := by
    intro b hb
    rw [hnone, List.nil_append] at hb
    exact List.mem_append_right _ hb
  refine ⟨⟨?_, fun b hb => h.idle b (hsub b hb), ?_, fun _ => hnone, ?_⟩, hnone⟩
  · simp only [Pool.fail, hnone, List.nil_append]
    exact (List.nodup_append.mp h.nodup).2.1
  · simp only [Pool.fail, hnone, List.length_nil]
    exact Nat.zero_le 1
  · exact fun b hb => h.mem b (hb.imp (hsub b) id)

/-- Taking the offered slot keeps the slots apart. -/
theorem Exclusive.take (h : Exclusive slots p) (ha : a ∈ p.pending) :
    Exclusive slots (p.take a) := by
  obtain ⟨hfail, hnone⟩ := h.fail ha
  have hother : ∀ b ∈ (p.fail a).pending ++ p.free, b ≠ a := by
    intro b hb
    rw [hnone, List.nil_append] at hb
    exact ((List.nodup_append.mp h.nodup).2.2 a ha b hb).symm
  refine Exclusive.offer ⟨hfail.nodup, fun b hb => ?_, hfail.length_le, hfail.pending,
    fun b hb => ?_⟩ hnone
  · simp only [Function.update_of_ne (hother b hb)]
    exact hfail.idle b hb
  · by_cases hne : b = a
    · subst hne
      exact h.mem b (.inl (List.mem_append_left _ ha))
    · simp only [Function.update_of_ne hne] at hb
      exact hfail.mem b hb

/-- Releasing a slot keeps the slots apart. -/
theorem Exclusive.release (h : Exclusive slots p) (huse : p.inUse a = true) :
    Exclusive slots (p.release a) := by
  have hfresh : a ∉ p.pending ++ p.free := fun ha => by
    have hidle := h.idle a ha
    rw [huse] at hidle
    cases hidle
  have hreleased : Exclusive slots
      { p with free := p.free ++ [a], inUse := Function.update p.inUse a false } := by
    refine ⟨?_, fun b hb => ?_, h.length_le, h.pending, fun b hb => ?_⟩
    · rw [← List.append_assoc]
      exact List.Nodup.append h.nodup (List.nodup_singleton a) (by simpa using hfresh)
    · by_cases hne : b = a
      · exact hne ▸ Function.update_self _ _ _
      · simp only [Function.update_of_ne hne]
        refine h.idle b ?_
        simpa [hne] using hb
    · by_cases hne : b = a
      · exact h.mem b (.inr (hne ▸ huse))
      · simp only [Function.update_of_ne hne] at hb
        refine h.mem b ?_
        simpa [hne] using hb
  simp only [Pool.release]
  split
  · rename_i hoffering
    exact hreleased.offer (h.pending hoffering)
  · exact hreleased

/-- **Every event keeps the slots apart.** -/
theorem Exclusive.step (h : Exclusive slots p) (henabled : p.Enabled e) :
    Exclusive slots (p.step e) := by
  cases e with
  | take a => exact h.take henabled.1
  | fail a => exact (h.fail henabled).1
  | release a => exact h.release henabled

/-- In every run the slots are kept apart. -/
theorem exclusive_of_run (hslots : slots.Nodup) (h : (machine α).Run (initial slots) es p) :
    Exclusive slots p := by
  refine h.invariant (fun _ _ _ hinv hstep => ?_) (Exclusive.offer ?_ rfl)
  · obtain ⟨henabled, rfl⟩ := step_iff.mp hstep
    exact hinv.step henabled
  · exact ⟨hslots, fun _ _ => rfl, Nat.zero_le _, fun _ => rfl, fun a ha => by simpa using ha⟩

/-! ### Order -/

/-- The slot that is no longer offered after an event. -/
def Event.left : Event α → Option α
  | take a | fail a => some a
  | release _ => none

/-- The slot that an event releases. -/
def Event.released : Event α → Option α
  | release a => some a
  | take _ | fail _ => none

/-- The slots that wait, the one that is offered first. -/
def places (p : Pool α) : List α := p.pending ++ p.free

omit [DecidableEq α] in
/-- Offering a slot leaves the slots in their order, if none is offered yet. -/
theorem places_offer (p : Pool α) (hnone : p.pending = []) : p.offer.places = p.free := by
  obtain ⟨offering, pending, free, inUse⟩ := p
  obtain rfl : pending = [] := hnone
  cases free <;> rfl

/-- **One event** takes the first slot of those that wait, or puts one behind the last. -/
theorem places_step (h : Exclusive slots p) (henabled : p.Enabled e) :
    e.left.toList ++ (p.step e).places = p.places ++ e.released.toList := by
  cases e with
  | take a =>
      have hpending := h.pending_eq henabled.1
      have hplaces : (p.take a).places = p.free := places_offer _ (h.fail henabled.1).2
      show [a] ++ (p.take a).places = p.places ++ []
      rw [hplaces, places, hpending, List.append_nil]
  | fail a =>
      have hpending := h.pending_eq henabled
      show [a] ++ ((p.fail a).pending ++ p.free) = p.places ++ []
      rw [(h.fail henabled).2, places, hpending, List.append_nil, List.nil_append]
  | release a =>
      show (p.release a).places = p.places ++ [a]
      simp only [Pool.release]
      split
      · rename_i hoffering
        have hnone := h.pending hoffering
        refine (places_offer _ (by exact hnone)).trans ?_
        rw [places, hnone, List.nil_append]
      · rw [places, places, List.append_assoc]

/-- **First come, first served**: in every run, the slots taken or lost are the first of those
that were there and those released since, and the slots that wait are the others, all of them
in order. -/
theorem places_of_run (hslots : slots.Nodup) (h : (machine α).Run (initial slots) es p) :
    es.filterMap Event.left ++ p.places = slots ++ es.filterMap Event.released := by
  refine h.history_induction (P := fun es p =>
    es.filterMap Event.left ++ p.places = slots ++ es.filterMap Event.released) ?_ ?_
  · exact (places_offer _ rfl).trans (List.append_nil _).symm
  · rintro es p e q hrun hp hstep
    obtain ⟨henabled, rfl⟩ := step_iff.mp hstep
    have hone := places_step (exclusive_of_run hslots hrun) henabled
    calc (es ++ [e]).filterMap Event.left ++ (p.step e).places
        = es.filterMap Event.left ++ (e.left.toList ++ (p.step e).places) := by
          rw [List.filterMap_append, List.append_assoc]
          cases e <;> rfl
      _ = (es.filterMap Event.left ++ p.places) ++ e.released.toList := by
          rw [hone, List.append_assoc]
      _ = slots ++ (es ++ [e]).filterMap Event.released := by
          rw [hp, List.append_assoc, List.filterMap_append]
          cases e <;> rfl

/-! ### Completeness -/

/-- Every slot is free, offered or in use, the pool counts as offering exactly when a slot
is offered, and a slot is offered if one is free. -/
structure Complete (slots : List α) (p : Pool α) : Prop where
  covered : ∀ a ∈ slots, a ∈ p.free ∨ a ∈ p.pending ∨ p.inUse a = true
  offering : p.offering = true ↔ p.pending ≠ []
  offers : p.free ≠ [] → p.pending ≠ []

/-- No slot is offered, but the pool counts as offering one. -/
def Deaf (p : Pool α) : Prop := p.offering = true ∧ p.pending = []

omit [DecidableEq α] in
/-- A complete pool is not deaf. -/
theorem Complete.not_deaf (h : Complete slots p) : ¬ p.Deaf :=
  fun hdeaf => h.offering.mp hdeaf.1 hdeaf.2

omit [DecidableEq α] in
/-- Offering a slot makes a pool complete, if all slots are accounted for. -/
theorem complete_offer (hnone : p.pending = [])
    (hcovered : ∀ a ∈ slots, a ∈ p.free ∨ p.inUse a = true) : Complete slots p.offer := by
  obtain ⟨offering, pending, free, inUse⟩ := p
  obtain rfl : pending = [] := hnone
  cases free with
  | nil =>
      refine ⟨fun a ha => ?_, by simp [Pool.offer], fun hfree => absurd rfl hfree⟩
      exact (hcovered a ha).imp id .inr
  | cons b free =>
      refine ⟨fun a ha => ?_, by simp [Pool.offer], fun _ => by simp [Pool.offer]⟩
      rcases hcovered a ha with hfree | huse
      · rcases List.mem_cons.mp hfree with rfl | hfree
        · exact .inr (.inl List.mem_cons_self)
        · exact .inl hfree
      · exact .inr (.inr huse)

/-- A take keeps a pool complete. -/
theorem Complete.take (h : Complete slots p) (hexclusive : Exclusive slots p)
    (ha : a ∈ p.pending) : Complete slots (p.take a) := by
  have hpending := hexclusive.pending_eq ha
  refine complete_offer (by simp [hpending]) fun b hb => ?_
  by_cases hne : b = a
  · exact .inr (by rw [hne]; exact Function.update_self _ _ _)
  · simp only [Function.update_of_ne hne]
    rcases h.covered b hb with hfree | hoffered | huse
    · exact .inl hfree
    · rw [hpending, List.mem_singleton] at hoffered
      exact absurd hoffered hne
    · exact .inr huse

/-- A release keeps a pool complete. -/
theorem Complete.release (h : Complete slots p) : Complete slots (p.release a) := by
  have hcovered : ∀ b ∈ slots, b ∈ p.free ++ [a] ∨ b ∈ p.pending ∨
      Function.update p.inUse a false b = true := by
    intro b hb
    by_cases hne : b = a
    · exact .inl (by simp [hne])
    · rw [Function.update_of_ne hne]
      exact (h.covered b hb).imp (List.mem_append_left _) id
  simp only [Pool.release]
  split
  · rename_i hoffering
    have hnone : p.pending = [] := by
      by_contra hne
      rw [h.offering.mpr hne] at hoffering
      cases hoffering
    refine complete_offer hnone fun b hb => ?_
    have := hcovered b hb
    rw [hnone] at this
    exact this.imp id fun h => h.resolve_left List.not_mem_nil
  · rename_i hoffering
    have htrue : p.offering = true := by simpa using hoffering
    exact ⟨hcovered, h.offering, fun _ => h.offering.mp htrue⟩

/-- A failed offer leaves no slot offered for good. -/
theorem Complete.deaf_fail (h : Complete slots p) (hexclusive : Exclusive slots p)
    (ha : a ∈ p.pending) : (p.fail a).Deaf := by
  have hpending := hexclusive.pending_eq ha
  exact ⟨h.offering.mpr (by simp [hpending]), by simp [fail, hpending]⟩

/-- Once no slot is offered for good, nothing changes it. -/
theorem Deaf.step (h : p.Deaf) (henabled : p.Enabled e) : (p.step e).Deaf := by
  obtain ⟨hoffering, hnone⟩ := h
  cases e with
  | take a => simp [Enabled, hnone] at henabled
  | fail a => simp [Enabled, hnone] at henabled
  | release a => simp [Pool.step, release, Deaf, hoffering, hnone]

/-- **A pool is complete if and only if no offer failed**, in every run. -/
theorem complete_iff (hslots : slots.Nodup) (h : (machine α).Run (initial slots) es p) :
    Complete slots p ↔ ∀ a, .fail a ∉ es := by
  have hinv : (Complete slots p ∧ ∀ a, Event.fail a ∉ es) ∨ (p.Deaf ∧ ∃ a, Event.fail a ∈ es) := by
    refine h.history_induction (P := fun es p =>
      (Complete slots p ∧ ∀ a, Event.fail a ∉ es) ∨ (p.Deaf ∧ ∃ a, Event.fail a ∈ es)) ?_ ?_
    · exact .inl ⟨complete_offer rfl fun a ha => .inl ha, by simp⟩
    · rintro es p e q hrun hp hstep
      have hexclusive := exclusive_of_run hslots hrun
      obtain ⟨henabled, rfl⟩ := step_iff.mp hstep
      rcases hp with ⟨hcomplete, hnever⟩ | ⟨hdeaf, a, ha⟩
      · cases e with
        | take a => exact .inl ⟨hcomplete.take hexclusive henabled.1, by simpa using hnever⟩
        | fail a => exact .inr ⟨hcomplete.deaf_fail hexclusive henabled, a, by simp⟩
        | release a => exact .inl ⟨hcomplete.release, by simpa using hnever⟩
      · exact .inr ⟨hdeaf.step henabled, a, List.mem_append_left _ ha⟩
  rcases hinv with ⟨hcomplete, hnever⟩ | ⟨hdeaf, a, ha⟩
  · exact iff_of_true hcomplete hnever
  · exact iff_of_false (fun hcomplete => hcomplete.not_deaf hdeaf) fun hnever => hnever a ha

end Pool
