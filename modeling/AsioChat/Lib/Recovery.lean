import AsioChat.Lib.Batch

/-!
# Recovering after a Rejected Frame

A receiver that rejects a header drops the symbols gathered so far and takes the next
chunk for the beginning of a frame, also where it is the rest of the rejected one. So the
frames behind a rejected one are handed over as they should be only if the receiver drops
the rest of it as well, and drops it up to its very end.

The chunks are given in one group for each frame sent, some of which are to be skipped. The
receiver is observed chunk by chunk, so that a frame is handed over when its last chunk
arrives and not by any other.

## Main results

* `calls_of_complete`, `calls_eq_replicate_iff`: the calls a group of chunks makes.
* `acc_eq_nil_of_calls`: only a receiver that holds nothing hands over the next frame as
  it was sent.
* `Recovers.within`: a receiver that recovers holds little at any time.
* `calls_eq_iff_recovers`: exactly the frames that are not skipped are handed over, each by
  its last chunk, if and only if the rest of every skipped frame is dropped up to its end.
-/

namespace Gather

universe u

variable {α : Type u} (R : Rules α)

/-! ### Calls, chunk by chunk -/

/-- The frames handed over at each chunk. -/
def calls : State α → List (List α) → List (List (List α))
  | _, [] => []
  | s, c :: cs => (step R s c).2.frames :: calls (step R s c).1 cs

/-- What some reads hand over, and some more after them. -/
theorem calls_append (s : State α) (cs ds : List (List α)) :
    calls R s (cs ++ ds) = calls R s cs ++ calls R (feed R s cs).1 ds := by
  induction cs generalizing s with
  | nil => rfl
  | cons c cs ih => rw [List.cons_append, calls, calls, ih, feed_cons, List.cons_append]

/-- There is one list for each read. -/
@[simp] theorem length_calls (s : State α) (cs : List (List α)) :
    (calls R s cs).length = cs.length := by
  induction cs generalizing s with
  | nil => rfl
  | cons c cs ih => rw [calls, List.length_cons, ih, List.length_cons]

/-- The frames handed over altogether. -/
theorem flatten_calls (s : State α) (cs : List (List α)) :
    (calls R s cs).flatten = (feed R s cs).2 := by
  induction cs generalizing s with
  | nil => rfl
  | cons c cs ih => rw [calls, List.flatten_cons, ih, feed_cons]

variable {R}

/-- There is no call exactly if nothing is handed over. -/
theorem calls_eq_replicate_iff {s : State α} {cs : List (List α)} :
    calls R s cs = List.replicate cs.length [] ↔ (feed R s cs).2 = [] := by
  rw [← flatten_calls, List.eq_replicate_iff, length_calls, List.flatten_eq_nil_iff]
  exact and_iff_right rfl

/-- The calls of a frame that is handed over by its last chunk. -/
theorem calls_of_complete {g : List (List α)} (h : Complete R g) :
    calls R .empty g = List.replicate (g.length - 1) [] ++ [[g.flatten]] := by
  obtain ⟨cs, c, rfl⟩ := exists_concat h.header_le
  have hunfinished := h.unfinished
  rw [List.dropLast_concat] at hunfinished
  have hfeed := feed_of_unfinished hunfinished
  have hsilent : calls R .empty cs = List.replicate cs.length [] :=
    calls_eq_replicate_iff.mpr (congrArg Prod.snd hfeed)
  rw [calls_append, hsilent, hfeed, calls, step_held_of_complete h]
  simp [calls]

/-- The nonempty chunks of a frame complete it. -/
theorem Rules.IsFrame.complete {g : List (List α)} (h : R.IsFrame g.flatten)
    (hne : ∀ c ∈ g, c ≠ []) : Complete R g := by
  obtain ⟨cs, c, rfl⟩ := exists_concat h.header_le
  have hpre : cs.flatten <+: (cs ++ [c]).flatten := ⟨c, by rw [List.flatten_concat]⟩
  have hlast : 0 < c.length := List.length_pos_of_ne_nil (hne c (by simp))
  refine ⟨fun hle => ?_, h.header_le, h.accept, Nat.le_of_eq h.need⟩
  rw [List.dropLast_concat] at hle ⊢
  obtain ⟨haccept, hneed⟩ := h.of_prefix hpre hle
  refine ⟨haccept, ?_⟩
  rw [hneed, List.flatten_concat, List.length_append]
  omega

/-- What a receiver holds after it handed over nothing: all that it held and was given, or,
if it dropped something, less than it was given. -/
theorem acc_of_silent {s : State α} {cs : List (List α)} (hne : ∀ c ∈ cs, c ≠ [])
    (h : (feed R s cs).2 = []) :
    (feed R s cs).1.acc = s.acc ++ cs.flatten ∨
      (feed R s cs).1.acc.length < cs.flatten.length := by
  induction cs generalizing s with
  | nil => exact .inl (List.append_nil _).symm
  | cons c cs ih =>
      have hc : 0 < c.length := List.length_pos_of_ne_nil (hne c List.mem_cons_self)
      have hcs : ∀ d ∈ cs, d ≠ [] := fun d hd => hne d (List.mem_cons_of_mem _ hd)
      rw [feed_cons] at h ⊢
      obtain ⟨hstep, hrest⟩ := List.append_eq_nil_iff.mp h
      rw [List.flatten_cons, List.length_append, ← List.append_assoc]
      rcases step_cases R s c with ⟨checked, hout⟩ | hout | ⟨-, -, hout⟩
      · rw [hout] at hrest ⊢
        rcases ih hcs hrest with hacc | hlt
        · exact .inl hacc
        · exact .inr (Nat.lt_of_lt_of_le hlt (Nat.le_add_left _ _))
      · rw [hout] at hrest ⊢
        right
        rcases ih hcs hrest with hacc | hlt
        · have hlen : (feed R .empty cs).1.acc.length = cs.flatten.length :=
            congrArg List.length hacc
          show (feed R .empty cs).1.acc.length < c.length + cs.flatten.length
          omega
        · exact Nat.lt_of_lt_of_le hlt (Nat.le_add_left _ _)
      · rw [hout] at hstep
        cases hstep

/-- **Only a receiver that holds nothing hands over a frame as it was sent**, by its last
chunk. -/
theorem acc_eq_nil_of_calls {s : State α} {g : List (List α)} (hne : ∀ c ∈ g, c ≠ [])
    (hpos : g ≠ []) (h : calls R s g = List.replicate (g.length - 1) [] ++ [[g.flatten]]) :
    s.acc = [] := by
  obtain ⟨cs, c, rfl⟩ := (List.eq_nil_or_concat' g).resolve_left hpos
  rw [calls_append, List.length_append, List.length_singleton, Nat.add_sub_cancel] at h
  obtain ⟨hsilent, hlast⟩ := List.append_inj h (by rw [length_calls, List.length_replicate])
  have hfeed := calls_eq_replicate_iff.mp hsilent
  rw [calls] at hlast
  have hframes := (List.cons.inj hlast).1
  have hacc : (feed R s cs).1.acc = cs.flatten := by
    rcases step_cases R (feed R s cs).1 c with ⟨checked, hout⟩ | hout | ⟨-, -, hout⟩
    · rw [hout] at hframes
      cases hframes
    · rw [hout] at hframes
      cases hframes
    · rw [hout, Outcome.frames_frame, List.flatten_concat] at hframes
      exact List.append_cancel_right (List.cons.inj hframes).1
  rcases acc_of_silent (fun d hd => hne d (by simp [hd])) hfeed with hkept | hlt
  · rw [hacc] at hkept
    exact List.self_eq_append_left.mp hkept
  · rw [hacc] at hlt
    exact absurd hlt (Nat.lt_irrefl _)

/-! ### Frames that are skipped -/

variable (R) (skip : List α → Prop) [DecidablePred skip]

/-- The calls there should be for the chunks of a frame: one by the last chunk, with the
frame, unless it is to be skipped. -/
def expectedCalls (g : List (List α)) : List (List (List α)) :=
  List.replicate (g.length - 1) [] ++ [if skip g.flatten then [] else [g.flatten]]

/-- What keeps skipped frames from damaging others: the chunks of a stretch of skipped
frames fall into groups each of which completes a rejected header with its last chunk, so
that nothing is left of them; and only behind the last frame that is not skipped something
may be left over that completes nothing. -/
inductive Recovers : List (List (List α)) → Prop
  | frame {g : List (List α)} {gs : List (List (List α))} :
      ¬ skip g.flatten → Recovers gs → Recovers (g :: gs)
  | stretch {block gs : List (List (List α))} (groups : List (List (List α))) :
      (∀ g ∈ block, skip g.flatten) → (∀ g ∈ groups, Rejected R g) →
      groups.flatten = block.flatten → Recovers gs → Recovers (block ++ gs)
  | last {block : List (List (List α))} (groups : List (List (List α))) (rest : List (List α)) :
      (∀ g ∈ block, skip g.flatten) → (∀ g ∈ groups, Rejected R g) → Unfinished R rest →
      groups.flatten ++ rest = block.flatten → Recovers block

variable {R} {skip}

/-- For skipped frames there should be no call. -/
theorem flatMap_expectedCalls_of_skip {block : List (List (List α))}
    (hne : ∀ g ∈ block, g ≠ []) (hskip : ∀ g ∈ block, skip g.flatten) :
    block.flatMap (expectedCalls skip) = List.replicate block.flatten.length [] := by
  induction block with
  | nil => rfl
  | cons g block ih =>
      have hpos : 0 < g.length := List.length_pos_of_ne_nil (hne g List.mem_cons_self)
      have hlen : g.length - 1 + 1 = g.length := by omega
      rw [List.flatMap_cons, ih (fun d hd => hne d (List.mem_cons_of_mem _ hd))
          (fun d hd => hskip d (List.mem_cons_of_mem _ hd)),
        expectedCalls, if_pos (hskip g List.mem_cons_self), List.flatten_cons, List.length_append,
        ← List.replicate_append_replicate, ← List.replicate_succ', hlen]

/-- Groups that are rejected leave nothing behind. -/
theorem feed_of_forall_rejected {groups : List (List (List α))}
    (h : ∀ g ∈ groups, Rejected R g) : feed R .empty groups.flatten = (.empty, []) := by
  induction groups with
  | nil => rfl
  | cons g groups ih =>
      rw [List.flatten_cons, feed_append, feed_of_rejected (h g List.mem_cons_self),
        ih fun d hd => h d (List.mem_cons_of_mem _ hd)]
      rfl

/-- Chunks of which nothing is handed over are rejected in groups, but for some that
complete nothing. -/
theorem exists_rejected_of_silent (cs : List (List α)) (h : (feed R .empty cs).2 = []) :
    ∃ (groups : List (List (List α))) (rest : List (List α)), groups.flatten ++ rest = cs ∧
      (∀ g ∈ groups, Rejected R g) ∧ Unfinished R rest ∧
      (feed R .empty cs).1 = held R rest := by
  induction hlen : cs.length using Nat.strongRecOn generalizing cs with
  | ind n ih =>
      rcases batch_cases (R := R) cs with
        ⟨rfl, -⟩ | ⟨hunfinished, -⟩ | ⟨g, rest, rfl, hlt, hrejected, -⟩ |
        ⟨g, rest, rfl, hlt, hcomplete, -⟩
      · exact ⟨[], [], rfl, fun _ h => absurd h List.not_mem_nil, unfinished_nil, (held_nil R).symm⟩
      · exact ⟨[], cs, rfl, fun _ h => absurd h List.not_mem_nil, hunfinished,
          congrArg Prod.fst (feed_of_unfinished hunfinished)⟩
      · rw [feed_append, feed_of_rejected hrejected] at h ⊢
        obtain ⟨groups, rest', rfl, hgroups, hunfinished, hheld⟩ := ih _ (hlen ▸ hlt) rest h rfl
        refine ⟨g :: groups, rest', List.append_assoc _ _ _, ?_, hunfinished, hheld⟩
        intro d hd
        rcases List.mem_cons.mp hd with rfl | hd
        · exact hrejected
        · exact hgroups d hd
      · rw [feed_append, feed_of_complete hcomplete] at h
        cases h

/-- **The frames that are not skipped are handed over, each by its last chunk, if the rest of
the skipped ones is dropped.** -/
theorem Recovers.calls_eq {gs : List (List (List α))} (h : Recovers R skip gs)
    (hframes : ∀ g ∈ gs, ¬ skip g.flatten → R.IsFrame g.flatten)
    (hne : ∀ g ∈ gs, g ≠ [] ∧ ∀ c ∈ g, c ≠ []) :
    calls R .empty gs.flatten = gs.flatMap (expectedCalls skip) := by
  induction h with
  | @frame g gs hskip _ ih =>
      have hcomplete := (hframes g List.mem_cons_self hskip).complete (hne g List.mem_cons_self).2
      rw [List.flatten_cons, calls_append, feed_of_complete hcomplete, calls_of_complete hcomplete,
        List.flatMap_cons, expectedCalls, if_neg hskip,
        ih (fun d hd => hframes d (List.mem_cons_of_mem _ hd))
          (fun d hd => hne d (List.mem_cons_of_mem _ hd))]
  | @stretch block gs groups hskip hrejected hflat _ ih =>
      have hfeed := feed_of_forall_rejected hrejected
      rw [hflat] at hfeed
      have hsilent := calls_eq_replicate_iff.mpr (congrArg Prod.snd hfeed)
      rw [List.flatten_append, calls_append, hsilent, hfeed, List.flatMap_append,
        flatMap_expectedCalls_of_skip
          (fun d hd => (hne d (List.mem_append_left _ hd)).1) hskip,
        ih (fun d hd => hframes d (List.mem_append_right _ hd))
          (fun d hd => hne d (List.mem_append_right _ hd))]
  | @last block groups rest hskip hrejected hunfinished hflat =>
      have hfeed : feed R .empty block.flatten = (held R rest, []) := by
        rw [← hflat, feed_append, feed_of_forall_rejected hrejected,
          feed_of_unfinished hunfinished]
        rfl
      rw [calls_eq_replicate_iff.mpr (congrArg Prod.snd hfeed),
        flatMap_expectedCalls_of_skip (fun d hd => (hne d hd).1) hskip]

/-- There is one list for each piece of a frame. -/
@[simp] theorem length_expectedCalls {g : List (List α)} (h : g ≠ []) :
    (expectedCalls skip g).length = g.length := by
  have hpos := List.length_pos_of_ne_nil h
  simp only [expectedCalls, List.length_append, List.length_replicate, List.length_singleton]
  omega

/-- There is one list for each piece. -/
theorem length_flatMap_expectedCalls {gs : List (List (List α))} (h : ∀ g ∈ gs, g ≠ []) :
    (gs.flatMap (expectedCalls skip)).length = gs.flatten.length := by
  induction gs with
  | nil => rfl
  | cons g gs ih =>
      rw [List.flatMap_cons, List.flatten_cons, List.length_append, List.length_append,
        length_expectedCalls (h g List.mem_cons_self),
        ih fun d hd => h d (List.mem_cons_of_mem _ hd)]

variable (skip) in
/-- The skipped frames in front, up to the first that is not skipped. -/
theorem exists_stretch (gs : List (List (List α))) :
    ∃ block gs', gs = block ++ gs' ∧ (∀ g ∈ block, skip g.flatten) ∧
      ∀ g ∈ gs'.head?, ¬ skip g.flatten := by
  induction gs with
  | nil => exact ⟨[], [], rfl, fun _ h => absurd h List.not_mem_nil, by simp⟩
  | cons g gs ih =>
      by_cases hskip : skip g.flatten
      · obtain ⟨block, gs', rfl, hblock, hhead⟩ := ih
        refine ⟨g :: block, gs', rfl, fun d hd => ?_, hhead⟩
        rcases List.mem_cons.mp hd with rfl | hd
        · exact hskip
        · exact hblock d hd
      · exact ⟨[], g :: gs, rfl, fun _ h => absurd h List.not_mem_nil, by simpa using hskip⟩

/-- **If the frames that are not skipped are handed over, each by its last chunk, then the
rest of the skipped ones was dropped.** Induction on the frames that are not skipped. -/
theorem recovers_of_calls_eq {gs : List (List (List α))}
    (hframes : ∀ g ∈ gs, ¬ skip g.flatten → R.IsFrame g.flatten)
    (hne : ∀ g ∈ gs, g ≠ [] ∧ ∀ c ∈ g, c ≠ [])
    (h : calls R .empty gs.flatten = gs.flatMap (expectedCalls skip)) : Recovers R skip gs := by
  induction hlen : gs.length using Nat.strongRecOn generalizing gs with
  | ind n ih =>
      obtain ⟨block, gs', rfl, hskip, hhead⟩ := exists_stretch skip gs
      have hblock : ∀ g ∈ block, g ≠ [] := fun g hg => (hne g (List.mem_append_left _ hg)).1
      rw [List.flatten_append, calls_append, List.flatMap_append] at h
      obtain ⟨hsilent, hcalls⟩ := List.append_inj h
        (by rw [length_calls, length_flatMap_expectedCalls hblock])
      rw [flatMap_expectedCalls_of_skip hblock hskip, calls_eq_replicate_iff] at hsilent
      obtain ⟨groups, rest, hflat, hgroups, hunfinished, hheld⟩ :=
        exists_rejected_of_silent block.flatten hsilent
      cases gs' with
      | nil =>
          rw [List.append_nil]
          exact .last groups rest hskip hgroups hunfinished hflat
      | cons g gs =>
          have hg : ¬ skip g.flatten := hhead g rfl
          have hmem : g ∈ block ++ g :: gs := List.mem_append_right _ List.mem_cons_self
          obtain ⟨hpos, hchunks⟩ := hne g hmem
          rw [hheld, List.flatten_cons, calls_append, List.flatMap_cons] at hcalls
          obtain ⟨hfirst, hothers⟩ := List.append_inj hcalls
            (by rw [length_calls, length_expectedCalls hpos])
          -- the frame is handed over as it was sent, so nothing was left of the stretch
          rw [expectedCalls, if_neg hg] at hfirst
          have hacc : rest.flatten = [] := acc_eq_nil_of_calls hchunks hpos hfirst
          have hrest : rest = [] := by
            cases rest with
            | nil => rfl
            | cons c rest =>
                have hc : c ∈ block.flatten := by
                  rw [← hflat]
                  exact List.mem_append_right _ List.mem_cons_self
                obtain ⟨d, hd, hcd⟩ := List.mem_flatten.mp hc
                have hnil := (List.append_eq_nil_iff.mp hacc).1
                exact absurd hnil ((hne d (List.mem_append_left _ hd)).2 c hcd)
          rw [hrest, List.append_nil] at hflat
          have hcomplete := (hframes g hmem hg).complete hchunks
          rw [hrest, held_nil, feed_of_complete hcomplete] at hothers
          refine .stretch groups hskip hgroups hflat (.frame hg (ih gs.length ?_ ?_ ?_ hothers rfl))
          · rw [← hlen, List.length_append, List.length_cons]
            omega
          · exact fun d hd => hframes d (List.mem_append_right _ (List.mem_cons_of_mem _ hd))
          · exact fun d hd => hne d (List.mem_append_right _ (List.mem_cons_of_mem _ hd))

/-- **A receiver recovers from skipped frames if and only if it drops all of them.** -/
theorem calls_eq_iff_recovers {gs : List (List (List α))}
    (hframes : ∀ g ∈ gs, ¬ skip g.flatten → R.IsFrame g.flatten)
    (hne : ∀ g ∈ gs, g ≠ [] ∧ ∀ c ∈ g, c ≠ []) :
    calls R .empty gs.flatten = gs.flatMap (expectedCalls skip) ↔ Recovers R skip gs :=
  ⟨recovers_of_calls_eq hframes hne, fun h => h.calls_eq hframes hne⟩

/-! ### Bounded memory -/

/-- A rejected group is not longer than a header and a chunk. -/
theorem Rejected.length_le {cs : List (List α)} {k : ℕ} (h : Rejected R cs)
    (hchunk : ∀ c ∈ cs, c.length ≤ k) : cs.flatten.length ≤ R.headerLen + k := by
  obtain ⟨ds, c, rfl⟩ := exists_concat h.header_le
  have hshort := h.short
  rw [List.dropLast_concat] at hshort
  have hc := hchunk c (by simp)
  rw [List.flatten_concat, List.length_append]
  omega

/-- Groups that are rejected one after another are never held together. -/
theorem within_of_forall_rejected {n : ℕ} {groups : List (List (List α))}
    (h : ∀ g ∈ groups, Rejected R g ∧ g.flatten.length ≤ n) :
    Within R n .empty groups.flatten := by
  induction groups with
  | nil => trivial
  | cons g groups ih =>
      obtain ⟨hrejected, hlen⟩ := h g List.mem_cons_self
      rw [List.flatten_cons, within_append, feed_of_rejected hrejected]
      refine ⟨within_of_length_le ?_, ih fun d hd => h d (List.mem_cons_of_mem _ hd)⟩
      simpa only [State.empty, List.length_nil, Nat.zero_add] using hlen

omit [DecidablePred skip] in
/-- A receiver that recovers never holds more than a frame, or a header and a chunk. -/
theorem Recovers.within {n k : ℕ} {gs : List (List (List α))} (h : Recovers R skip gs)
    (hframes : ∀ g ∈ gs, ¬ skip g.flatten → R.IsFrame g.flatten)
    (hne : ∀ g ∈ gs, ∀ c ∈ g, c ≠ [] ∧ c.length ≤ k) (hk : R.headerLen + k ≤ n)
    (hneed : ∀ acc, R.need acc ≤ n) : Within R n .empty gs.flatten := by
  have hempty : ∀ cs : List (List α), cs.flatten.length ≤ n → Within R n .empty cs := fun cs hcs =>
    within_of_length_le (by simpa only [State.empty, List.length_nil, Nat.zero_add] using hcs)
  have hshort : ∀ {block groups : List (List (List α))},
      (∀ g ∈ block, ∀ c ∈ g, c ≠ [] ∧ c.length ≤ k) →
      (∀ g ∈ groups, ∀ c ∈ g, c ∈ block.flatten) → (∀ g ∈ groups, Rejected R g) →
      Within R n .empty groups.flatten := by
    intro block groups hblock hsub hrejected
    refine within_of_forall_rejected fun g hg => ⟨hrejected g hg, ?_⟩
    refine Nat.le_trans ((hrejected g hg).length_le fun c hc => ?_) hk
    obtain ⟨d, hd, hcd⟩ := List.mem_flatten.mp (hsub g hg c hc)
    exact (hblock d hd c hcd).2
  induction h with
  | @frame g gs hskip _ ih =>
      have hframe := hframes g List.mem_cons_self hskip
      have hcomplete := hframe.complete fun c hc => (hne g List.mem_cons_self c hc).1
      rw [List.flatten_cons, within_append, feed_of_complete hcomplete]
      refine ⟨hempty g ?_, ih (fun d hd => hframes d (List.mem_cons_of_mem _ hd))
        fun d hd => hne d (List.mem_cons_of_mem _ hd)⟩
      rw [← hframe.need]
      exact hneed _
  | @stretch block gs groups _ hrejected hflat _ ih =>
      rw [List.flatten_append, within_append, ← hflat, feed_of_forall_rejected hrejected]
      refine ⟨hshort (fun d hd => hne d (List.mem_append_left _ hd)) (fun g hg c hc => ?_)
        hrejected, ih (fun d hd => hframes d (List.mem_append_right _ hd))
        fun d hd => hne d (List.mem_append_right _ hd)⟩
      rw [← hflat]
      exact List.mem_flatten.mpr ⟨g, hg, hc⟩
  | @last block groups rest _ hrejected hunfinished hflat =>
      rw [← hflat, within_append, feed_of_forall_rejected hrejected]
      refine ⟨hshort hne (fun g hg c hc => ?_) hrejected, hempty rest ?_⟩
      · rw [← hflat]
        exact List.mem_append_left _ (List.mem_flatten.mpr ⟨g, hg, hc⟩)
      · rcases Nat.lt_or_ge rest.flatten.length R.headerLen with hlt | hle
        · omega
        · have := (hunfinished hle).2
          have := hneed rest.flatten
          omega

end Gather
