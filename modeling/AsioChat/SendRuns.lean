import AsioChat.Lib.Machine
import AsioChat.Send

/-!
# Runs of a Sender

Every interleaving of posts and completions: of the server's session, whose handlers all
run on one thread, and of the client, whose input thread posts while the network thread
may be anywhere in `handle_write`. In both, the promise of the code is that what is
written is what was posted, once, whole and in order. Both keep it exactly as long as no
packet is posted while another is on its way.

## Main results

* `session_delivers_iff`: the server's session keeps the promise if and only if at most
  one posted packet is not completed.
* `client_delivers_iff`: while `handle_write` is not running, the client keeps it if and
  only if no write ever completed with another packet posted behind it.
-/

namespace AsioChat

/-- What can happen to a sender: a packet is posted, a write completes (for the client:
up to the end of the critical section of `handle_write`), or `handle_write` goes on after
its critical section. -/
inductive SendEvent
  | post (packet : List UInt8) (size : UInt32)
  | complete
  | resume
  deriving DecidableEq, Repr

namespace SendEvent

/-- The number of packets posted. -/
def posts (es : List SendEvent) : ℕ :=
  es.countP fun
    | post _ _ => true
    | _ => false

/-- The number of writes completed. -/
def completions (es : List SendEvent) : ℕ :=
  es.countP fun
    | complete => true
    | _ => false

/-- Whenever a write completed, its packet was the only one posted and not completed. -/
def NoOverlap (es : List SendEvent) : Prop :=
  ∀ before after, es = before ++ complete :: after → posts before = completions before + 1

/-- The posts in a run and one more event. -/
@[simp] theorem posts_snoc (es : List SendEvent) (e : SendEvent) :
    posts (es ++ [e]) = posts es + posts [e] := List.countP_append

/-- The completions in a run and one more event. -/
@[simp] theorem completions_snoc (es : List SendEvent) (e : SendEvent) :
    completions (es ++ [e]) = completions es + completions [e] := List.countP_append

/-- A post is one. -/
@[simp] theorem posts_post (packet : List UInt8) (size : UInt32) :
    posts [post packet size] = 1 := rfl

/-- A completion is no post. -/
@[simp] theorem posts_complete : posts [complete] = 0 := rfl

/-- What `handle_write` does after it is no post from outside. -/
@[simp] theorem posts_resume : posts [resume] = 0 := rfl

/-- A post is no completion. -/
@[simp] theorem completions_post (packet : List UInt8) (size : UInt32) :
    completions [post packet size] = 0 := rfl

/-- A completion is one. -/
@[simp] theorem completions_complete : completions [complete] = 1 := rfl

/-- What `handle_write` does after it is no completion. -/
@[simp] theorem completions_resume : completions [resume] = 0 := rfl

/-- Before anything happens no posts overlap. -/
theorem noOverlap_nil : NoOverlap [] := by
  intro before after h
  simp at h

/-- Only a completion can add an overlap. -/
theorem noOverlap_snoc {es : List SendEvent} {e : SendEvent} :
    NoOverlap (es ++ [e]) ↔ NoOverlap es ∧ (e = complete → posts es = completions es + 1) :=
  Machine.forall_before_snoc_iff

end SendEvent

open SendEvent

/-! ### The server's session -/

/-- A completion is possible while a write is in flight. `handle_write` runs to its end
before anything else does. -/
def Session.SendEnabled (s : Sender) : SendEvent → Prop
  | .post _ _ => True
  | .complete => s.completed < s.started.length
  | .resume => False

instance (s : Sender) (e : SendEvent) : Decidable (Session.SendEnabled s e) := by
  cases e <;> unfold Session.SendEnabled <;> infer_instance

/-- One event at the send side of a session. -/
def Session.sendStep (s : Sender) : SendEvent → Except Fault Sender
  | .post packet size => .ok (Session.postSend false size (some packet) s)
  | .complete => Session.handleWrite { s with completed := s.completed + 1 }
  | .resume => .ok s

/-- The runs of the send side of a session. -/
def sessionSendMachine : Machine Sender SendEvent Fault where
  enabled := Session.SendEnabled
  step := Session.sendStep

instance (s : Sender) (e : SendEvent) : Decidable (sessionSendMachine.enabled s e) :=
  inferInstanceAs (Decidable (Session.SendEnabled s e))

namespace Session

variable {s t : Sender} {es : List SendEvent}

/-- **What a completion does**: it empties the queue, or it dereferences a null packet if
another packet is waiting. -/
theorem sendStep_complete (h : s.Inv) (henabled : s.completed < s.started.length) :
    (s.sendDataQueue.length = 1 ∧
      sendStep s .complete = .ok { s with sendDataQueue := [], completed := s.completed + 1 }) ∨
    (1 < s.sendDataQueue.length ∧ sendStep s .complete = .error .nullDereference) := by
  obtain ⟨-, queue, hqueue⟩ := h.of_outstanding henabled
  cases hrest : queue with
  | nil =>
      left
      simp [sendStep, handleWrite, Sender.popFront, hqueue, hrest, bind, Except.bind, pure,
        Except.pure]
  | cons data rest =>
      obtain rfl := h.null data (by simp [hqueue, hrest])
      right
      simp [sendStep, handleWrite, Sender.popFront, hqueue, hrest, bind, Except.bind]

/-- The invariant of a session's send side, with the events taken so far. -/
structure SendInv (es : List SendEvent) (s : Sender) : Prop where
  inv : s.Inv
  flowing : s.Flowing
  posts : s.posted.length = posts es
  completions : s.completed = completions es

/-- **Every step preserves the invariant.** -/
theorem SendInv.step {e : SendEvent} (h : SendInv es s) (hstep : sessionSendMachine.Step s e t) :
    SendInv (es ++ [e]) t := by
  obtain ⟨henabled, hstep⟩ := hstep
  cases e with
  | post packet size =>
      cases hstep
      obtain ⟨hinv, hflow⟩ := h.inv.postSend size (some packet)
      refine ⟨hinv, hflow.mpr h.flowing, ?_, ?_⟩
      · rw [posts_snoc, posts_post, ← h.posts, Sender.posted_postSend, List.length_append]
        rfl
      · rw [completions_snoc, completions_post, Nat.add_zero, ← h.completions,
          Sender.completed_postSend]
  | complete =>
      rcases sendStep_complete h.inv henabled with ⟨hone, hok⟩ | ⟨-, herror⟩
      · obtain ⟨hflow, queue, hqueue⟩ := h.inv.of_outstanding henabled
        have hnil : queue = [] := by
          rw [hqueue, List.length_cons] at hone
          exact List.eq_nil_of_length_eq_zero (by omega)
        subst hnil
        obtain ⟨hinv, hiff⟩ := h.inv.complete hflow hqueue
        cases hok.symm.trans hstep
        exact ⟨hinv, hiff.mpr rfl, by simp [h.posts], by simp [h.completions]⟩
      · cases herror.symm.trans hstep
  | resume => exact henabled.elim

/-- The invariant holds in every run. -/
theorem sendInv_of_run (h : sessionSendMachine.Run .initial es s) : SendInv es s :=
  h.history_induction ⟨Sender.inv_initial, rfl, rfl, rfl⟩
    fun _ _ _ _ _ hinv hstep => hinv.step hstep

/-- The promise of a session's send side in a state: the completion of a write does not
dereference a null packet, what was written is a prefix of what was posted, and all of
it when no write is in flight. -/
structure Delivers (s : Sender) : Prop where
  no_null : sessionSendMachine.enabled s .complete →
    sessionSendMachine.step s .complete ≠ .error .nullDereference
  started : s.started <+: s.posted
  all : s.outstanding = 0 → s.started = s.posted

end Session

/-- **A session delivers if and only if at most one packet is not completed**, in every
state of every run. -/
theorem session_delivers_iff {es : List SendEvent} {s : Sender}
    (h : sessionSendMachine.Run .initial es s) :
    Session.Delivers s ↔ posts es ≤ completions es + 1 := by
  have hinv := Session.sendInv_of_run h
  have hposted := hinv.inv.posted
  have hflow := hinv.flowing
  rw [← hinv.posts, ← hinv.completions, hposted]
  unfold Sender.Flowing at hflow
  constructor
  · intro hdelivers
    by_contra hmany
    have henabled : s.completed < s.started.length := by omega
    rcases Session.sendStep_complete hinv.inv henabled with ⟨hone, -⟩ | ⟨-, herror⟩
    · omega
    · exact hdelivers.no_null henabled herror
  · intro hfew
    refine ⟨fun henabled => ?_, hinv.inv.started,
      fun hout => (hinv.inv.of_flowing hinv.flowing hout).2⟩
    rcases Session.sendStep_complete hinv.inv henabled with ⟨-, hok⟩ | ⟨hmany, -⟩
    · intro herror
      cases hok.symm.trans herror
    · omega

/-- A notice, as `process_packet` builds it. -/
def chatNotice : List UInt8 := packetOf (fun _ => 0) 7 [34, 0, 42, 2, 104, 105]

/-- One notice is written, and after it another. -/
theorem session_delivers_one_by_one :
    ∃ s, sessionSendMachine.Run .initial
      [.post chatNotice 18, .complete, .post chatNotice 18] s ∧ Session.Delivers s := by
  obtain ⟨s, hrun, -⟩ := Machine.exists_run_of_exec sessionSendMachine .initial
    [.post chatNotice 18, .complete, .post chatNotice 18] (fun _ => ()) (b := ())
    (by decide +kernel)
  exact ⟨s, hrun, (session_delivers_iff hrun).mpr (by decide)⟩

/-- Two notices are posted, and the first write completes. -/
theorem session_null_dereference :
    ∃ s, sessionSendMachine.Run .initial [.post chatNotice 18, .post chatNotice 18] s ∧
      sessionSendMachine.enabled s .complete ∧
      sessionSendMachine.step s .complete = .error .nullDereference := by
  obtain ⟨s, hrun, hbad⟩ := Machine.exists_run_of_exec sessionSendMachine .initial
    [.post chatNotice 18, .post chatNotice 18]
    (fun s => decide (sessionSendMachine.enabled s .complete) &&
      (sessionSendMachine.step s .complete matches .error .nullDereference)) (b := true)
    (by decide +kernel)
  rw [Bool.and_eq_true, decide_eq_true_eq] at hbad
  refine ⟨s, hrun, hbad.1, ?_⟩
  have herror := hbad.2
  split at herror
  · assumption
  · cases herror

/-! ### The client -/

/-- The send side of the client, and what `handle_write` keeps in `data` between its
critical section and its end. -/
structure ClientSender extends Sender where
  handler : Option SharedByte
  deriving DecidableEq, Repr

namespace ChatClient

/-- Nothing sent yet, and `handle_write` not running. -/
def initialSender : ClientSender := ⟨.initial, none⟩

/-- The input thread posts at any time. The network thread runs one handler at a time. -/
def SendEnabled (c : ClientSender) : SendEvent → Prop
  | .post _ _ => True
  | .complete => c.handler = none ∧ c.completed < c.started.length
  | .resume => c.handler ≠ none

instance (c : ClientSender) (e : SendEvent) : Decidable (SendEnabled c e) := by
  cases e <;> unfold SendEnabled <;> infer_instance

/-- One event at the send side of the client. -/
def sendStep (c : ClientSender) : SendEvent → Except Fault ClientSender
  | .post packet size => .ok { c with toSender := postSend false size (some packet) c.toSender }
  | .complete => do
    let (data, s) ← handleWrite { c.toSender with completed := c.completed + 1 }
    return ⟨s, some data⟩
  | .resume =>
    match c.handler with
    | none => .ok c
    | some data => .ok ⟨resumeWrite data c.toSender, none⟩

end ChatClient

/-- The runs of the send side of the client. -/
def clientSendMachine : Machine ClientSender SendEvent Fault where
  enabled := ChatClient.SendEnabled
  step := ChatClient.sendStep

instance (c : ClientSender) (e : SendEvent) : Decidable (clientSendMachine.enabled c e) :=
  inferInstanceAs (Decidable (ChatClient.SendEnabled c e))

namespace ChatClient

variable {c d : ClientSender} {es : List SendEvent}

/-- **What a completion does**: it takes the front entry off the queue and finds null,
whether another packet is waiting or not. -/
theorem sendStep_complete (h : c.toSender.Inv) (henabled : clientSendMachine.enabled c .complete) :
    c.toSender.Flowing ∧ ∃ queue, c.sendDataQueue = none :: queue ∧
      sendStep c .complete =
        .ok ⟨{ c.toSender with sendDataQueue := queue, completed := c.completed + 1 },
          some none⟩ := by
  obtain ⟨hflow, queue, hqueue⟩ := h.of_outstanding henabled.2
  refine ⟨hflow, queue, hqueue, ?_⟩
  cases hrest : queue with
  | nil =>
      simp [sendStep, handleWrite, Sender.popFront, hqueue, hrest, bind, Except.bind, pure,
        Except.pure]
  | cons data rest =>
      obtain rfl := h.null data (by simp [hqueue, hrest])
      simp [sendStep, handleWrite, Sender.popFront, hqueue, hrest, bind, Except.bind, pure,
        Except.pure]

/-- The invariant of the client's send side, with the events taken so far: `handle_write`
never has a packet to resume with, and the sender flows as long as nothing overlapped. -/
structure SendInv (es : List SendEvent) (c : ClientSender) : Prop where
  inv : c.toSender.Inv
  handler : ∀ data, c.handler = some data → data = none
  flowing : c.toSender.Flowing ↔ NoOverlap es
  posts : c.posted.length = posts es
  completions : c.completed = completions es

/-- **Every step preserves the invariant.** -/
theorem SendInv.step {e : SendEvent} (h : SendInv es c) (hstep : clientSendMachine.Step c e d) :
    SendInv (es ++ [e]) d := by
  obtain ⟨henabled, hstep⟩ := hstep
  cases e with
  | post packet size =>
      cases hstep
      rw [postSend_eq]
      obtain ⟨hinv, hflow⟩ := h.inv.postSend size (some packet)
      refine ⟨hinv, h.handler, ?_, ?_, ?_⟩
      · rw [hflow, h.flowing, noOverlap_snoc]
        simp
      · rw [posts_snoc, posts_post, ← h.posts, Sender.posted_postSend, List.length_append]
        rfl
      · rw [completions_snoc, completions_post, Nat.add_zero, ← h.completions,
          Sender.completed_postSend]
  | complete =>
      obtain ⟨hflow, queue, hqueue, hok⟩ := sendStep_complete h.inv henabled
      obtain ⟨hinv, hiff⟩ := h.inv.complete hflow hqueue
      have hposted := h.inv.posted
      rw [hqueue, List.length_cons, h.posts, h.completions] at hposted
      cases hok.symm.trans hstep
      refine ⟨hinv, fun data hdata => (Option.some.inj hdata).symm, ?_, ?_, ?_⟩
      · rw [hiff, noOverlap_snoc, ← List.length_eq_zero_iff]
        constructor
        · intro hnil
          exact ⟨h.flowing.mp hflow, fun _ => by omega⟩
        · rintro ⟨-, halone⟩
          have := halone rfl
          omega
      · simp [h.posts]
      · simp [h.completions]
  | resume =>
      have hnull : c.handler = some none := by
        obtain ⟨data, hdata⟩ := Option.ne_none_iff_exists'.mp henabled
        rw [hdata, h.handler data hdata]
      simp only [clientSendMachine, sendStep, hnull, resumeWrite] at hstep
      cases hstep
      refine ⟨h.inv, fun _ hdata => (Option.some_ne_none _ hdata.symm).elim, ?_, ?_, ?_⟩
      · rw [h.flowing, noOverlap_snoc]
        simp
      · simp [h.posts]
      · simp [h.completions]

/-- The invariant holds in every run. -/
theorem sendInv_of_run (h : clientSendMachine.Run initialSender es c) : SendInv es c :=
  h.history_induction
    ⟨Sender.inv_initial, fun _ hdata => (Option.some_ne_none _ hdata.symm).elim,
      iff_of_true rfl noOverlap_nil, rfl, rfl⟩
    fun _ _ _ _ _ hinv hstep => hinv.step hstep

/-- The promise of the client's send side in a state: what was written is a prefix of
what was posted; and when `handle_write` is not running and no write is in flight, the
queue is empty, everything was written, and the next packet posted is written at once. -/
structure Delivers (c : ClientSender) : Prop where
  started : c.started <+: c.posted
  idle : c.handler = none → c.outstanding = 0 →
    c.sendDataQueue = [] ∧ c.started = c.posted ∧
      ∀ size data, (postSend false size data c.toSender).started = c.started ++ [⟨data, size⟩]

end ChatClient

/-- **The client delivers if and only if no write completed with another packet posted
behind it**, in every state of every run. While `handle_write` is running after such a
completion, nothing is promised yet. -/
theorem client_delivers_iff {es : List SendEvent} {c : ClientSender}
    (h : clientSendMachine.Run ChatClient.initialSender es c) :
    ChatClient.Delivers c ↔ (NoOverlap es ∨ c.handler ≠ none) := by
  have hinv := ChatClient.sendInv_of_run h
  constructor
  · intro hdelivers
    by_cases hhandler : c.handler = none
    · left
      rw [← hinv.flowing]
      refine hinv.inv.flow.resolve_right fun hstalled => hstalled.2 ?_
      exact (hdelivers.idle hhandler (by rw [Sender.outstanding, hstalled.1, Nat.sub_self])).1
    · exact .inr hhandler
  · intro hcond
    refine ⟨hinv.inv.started, fun hhandler hout => ?_⟩
    have hflow := hinv.flowing.mpr (hcond.resolve_right (not_not_intro hhandler))
    obtain ⟨hnil, hall⟩ := hinv.inv.of_flowing hflow hout
    refine ⟨hnil, hall, fun size data => ?_⟩
    rw [ChatClient.postSend_eq, Sender.postSend_of_nil hnil]

/-- A chat request, as `main` builds it. -/
def chatRequest : List UInt8 := packetOf (fun _ => 0) 6 [26, 2, 104, 105]

/-- A packet is posted while `handle_write` runs after the write of another. -/
theorem client_delivers_one_by_one :
    ∃ c, clientSendMachine.Run ChatClient.initialSender
      [.post chatRequest 16, .complete, .post chatRequest 16, .resume, .complete, .resume] c ∧
      c.outstanding = 0 ∧ ChatClient.Delivers c := by
  obtain ⟨c, hrun, hout⟩ := Machine.exists_run_of_exec clientSendMachine
    ChatClient.initialSender
    [.post chatRequest 16, .complete, .post chatRequest 16, .resume, .complete, .resume]
    (fun c => c.outstanding) (b := 0) (by decide +kernel)
  refine ⟨c, hrun, hout, (client_delivers_iff hrun).mpr (.inl ?_)⟩
  have hsnoc : NoOverlap ([] ++ [.post chatRequest 16] ++ [.complete] ++ [.post chatRequest 16] ++
      [.resume] ++ [.complete] ++ [.resume]) := by
    simp only [noOverlap_snoc, posts_snoc, completions_snoc]
    simp [noOverlap_nil, posts, completions]
  exact hsnoc

/-- Two requests are posted; when the first write has completed, the second is left in the
queue, and nothing is in flight. -/
theorem client_stalls :
    ∃ c, clientSendMachine.Run ChatClient.initialSender
      [.post chatRequest 16, .post chatRequest 16, .complete, .resume] c ∧
      c.handler = none ∧ c.outstanding = 0 ∧ c.sendDataQueue ≠ [] ∧ c.started ≠ c.posted := by
  obtain ⟨c, hrun, hbad⟩ := Machine.exists_run_of_exec clientSendMachine
    ChatClient.initialSender
    [.post chatRequest 16, .post chatRequest 16, .complete, .resume]
    (fun c => decide (c.handler = none ∧ c.outstanding = 0 ∧ c.sendDataQueue ≠ [] ∧
      c.started ≠ c.posted)) (b := true) (by decide +kernel)
  exact ⟨c, hrun, of_decide_eq_true hbad⟩

end AsioChat
