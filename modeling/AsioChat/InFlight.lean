import AsioChat.Client
import AsioChat.ServerNames
import AsioChat.ServerSessions

/-!
# The Write in Flight

`post_send` starts a write only if the queue holds nothing but the entry it has just pushed,
and `handle_write` takes an entry off the queue before it starts another. So a socket never
has two writes in flight, whose bytes would mix, and `handle_write` never finds the queue
empty: in both programs, under any order of posts and completions, and on a session also
when it is closed and accepted again before the completion comes.

The entry at the front of the queue is also meant to keep the memory of the packet alive, as
`async_write` is given no more than its address. But it is null, in both programs and in
every state in which a write is in flight.

## Main results

* `Sender.Inv.oneWrite`, `Sender.Inv.owns_iff_outstanding`: what the invariant of both
  programs says of the write in flight.
* `one_write_in_flight`: at most one write, and an entry for it, in every state of every run.
* `owns_iff`: the front of the queue owns the packet being written if and only if none is.
-/

namespace AsioChat

namespace Sender

variable {s t : Sender}

/-- At most one write is in flight, with an entry in the queue for it to take off. -/
structure OneWrite (s : Sender) : Prop where
  completed_le : s.completed ≤ s.started.length
  le_one : s.outstanding ≤ 1
  le_queue : s.outstanding ≤ s.sendDataQueue.length
  pop : s.completed < s.started.length → s.popFront ≠ .error .outOfRange

/-- A step starts no write, or one while no other is in flight. -/
def StartsAlone (s t : Sender) : Prop :=
  t.started = s.started ∨
    ∃ write, t.started = s.started ++ [write] ∧ t.completed = s.started.length

/-- While a write is in flight, the front of the queue is the memory it was given, and behind
it are the packets posted since and not started. -/
def Owns (s : Sender) : Prop :=
  0 < s.outstanding → ∃ write rest, s.started.getLast? = some write ∧
    s.sendDataQueue = write.data :: rest ∧
    rest = (s.posted.drop s.started.length).map Write.data

/-- The invariant of both programs allows one write. -/
theorem Inv.oneWrite (h : s.Inv) : s.OneWrite := by
  have hflow : s.started.length = s.completed + min 1 s.sendDataQueue.length ∨
      s.started.length = s.completed := h.flow.imp id And.left
  refine ⟨by omega, ?_, ?_, fun hout => ?_⟩
  · rw [outstanding]
    omega
  · rw [outstanding]
    omega
  · obtain ⟨-, queue, hqueue⟩ := h.of_outstanding hout
    rw [popFront, hqueue]
    intro herror
    cases herror

/-- Posting starts a write only where none is in flight. -/
theorem Inv.startsAlone_postSend (h : s.Inv) (size : UInt32) (data : SharedByte) :
    s.StartsAlone (Session.postSend false size data s) := by
  by_cases hqueue : s.sendDataQueue = []
  · have hflow : s.Flowing := h.flow.resolve_right fun hstalled => hstalled.2 hqueue
    rw [Flowing, hqueue] at hflow
    rw [postSend_of_nil hqueue]
    exact .inr ⟨⟨data, size⟩, rfl, hflow.symm⟩
  · rw [postSend_of_ne_nil hqueue]
    exact .inl rfl

/-- **The front of the queue owns nothing**: as it is null, it is the packet being written only
where none is. -/
theorem Inv.owns_iff_outstanding (h : s.Inv) (hdata : ∀ write ∈ s.posted, write.data ≠ none) :
    s.Owns ↔ s.outstanding = 0 := by
  constructor
  · intro howns
    by_contra hout
    obtain ⟨write, rest, hlast, hqueue, -⟩ := howns (Nat.pos_of_ne_zero hout)
    have hmem : write ∈ s.posted := h.started.subset (List.mem_of_getLast? hlast)
    refine hdata write hmem (h.null write.data ?_)
    rw [hqueue]
    exact List.mem_cons_self
  · intro hnone hpos
    omega

/-- A packet that is posted is one. -/
theorem data_ne_none_postSend (h : ∀ write ∈ s.posted, write.data ≠ none) (size : UInt32)
    (packet : List UInt8) :
    ∀ write ∈ (Session.postSend false size (some packet) s).posted, write.data ≠ none := by
  rw [posted_postSend]
  exact List.forall_mem_append.mpr ⟨h, List.forall_mem_singleton.mpr (Option.some_ne_none packet)⟩

end Sender

open SendEvent

/-! ### Steps and runs -/

namespace Session

variable {es : List SendEvent} {s t : Sender} {e : SendEvent}

/-- **What a step of a session's send side does**: it posts a packet, or empties the queue. -/
theorem sendStep_cases (h : SendInv es s) (hstep : sessionSendMachine.Step s e t) :
    (∃ packet size, t = Session.postSend false size (some packet) s) ∨
    t = { s with sendDataQueue := [], completed := s.completed + 1 } := by
  obtain ⟨henabled, hok⟩ := hstep
  cases e with
  | post packet size => exact .inl ⟨packet, size, (Except.ok.inj hok).symm⟩
  | complete =>
      rcases sendStep_complete h.inv henabled with ⟨-, hsend⟩ | ⟨-, herror⟩
      · exact .inr (Except.ok.inj (hok.symm.trans hsend))
      · cases herror.symm.trans hok
  | resume => exact henabled.elim

/-- Every packet posted to a session is one. -/
theorem data_ne_none_of_run (h : sessionSendMachine.Run .initial es s) :
    ∀ write ∈ s.posted, write.data ≠ none := by
  refine h.history_induction (P := fun _ s => ∀ write ∈ s.posted, write.data ≠ none)
    (List.forall_mem_nil _) ?_
  intro es s e t hrun hdata hstep
  rcases sendStep_cases (sendInv_of_run hrun) hstep with ⟨packet, size, rfl⟩ | rfl
  · exact Sender.data_ne_none_postSend hdata size packet
  · exact hdata

/-- A step of a session starts no write but the only one. -/
theorem startsAlone_of_step (h : sessionSendMachine.Run .initial es s)
    (hstep : sessionSendMachine.Step s e t) : s.StartsAlone t := by
  have hinv := sendInv_of_run h
  rcases sendStep_cases hinv hstep with ⟨packet, size, rfl⟩ | rfl
  · exact hinv.inv.startsAlone_postSend size (some packet)
  · exact .inl rfl

end Session

namespace ChatClient

variable {es : List SendEvent} {c d : ClientSender} {e : SendEvent}

/-- **What a step of the client's send side does**: it posts a packet, takes the front entry
off the queue, or nothing. -/
theorem sendStep_cases (h : SendInv es c) (hstep : clientSendMachine.Step c e d) :
    (∃ packet size, d.toSender = Session.postSend false size (some packet) c.toSender) ∨
    (∃ queue, d.toSender =
      { c.toSender with sendDataQueue := queue, completed := c.completed + 1 }) ∨
    d.toSender = c.toSender := by
  obtain ⟨henabled, hok⟩ := hstep
  cases e with
  | post packet size =>
      cases hok
      exact .inl ⟨packet, size, postSend_eq _ _ _ _⟩
  | complete =>
      obtain ⟨-, queue, -, hsend⟩ := sendStep_complete h.inv henabled
      cases hsend.symm.trans hok
      exact .inr (.inl ⟨queue, rfl⟩)
  | resume =>
      obtain ⟨data, hhandler⟩ := Option.ne_none_iff_exists'.mp henabled
      obtain rfl := h.handler data hhandler
      simp only [clientSendMachine, sendStep, hhandler, resumeWrite] at hok
      cases hok
      exact .inr (.inr rfl)

/-- Every packet the client posts is one. -/
theorem data_ne_none_of_run (h : clientSendMachine.Run initialSender es c) :
    ∀ write ∈ c.posted, write.data ≠ none := by
  refine h.history_induction (P := fun _ c => ∀ write ∈ c.posted, write.data ≠ none)
    (List.forall_mem_nil _) ?_
  intro es c e d hrun hdata hstep
  rcases sendStep_cases (sendInv_of_run hrun) hstep with ⟨packet, size, hd⟩ | ⟨queue, hd⟩ | hd
  · rw [hd]
    exact Sender.data_ne_none_postSend hdata size packet
  · rw [hd]
    exact hdata
  · rw [hd]
    exact hdata

/-- A step of the client starts no write but the only one. -/
theorem startsAlone_of_step (h : clientSendMachine.Run initialSender es c)
    (hstep : clientSendMachine.Step c e d) : c.toSender.StartsAlone d.toSender := by
  have hinv := sendInv_of_run h
  rcases sendStep_cases hinv hstep with ⟨packet, size, hd⟩ | ⟨queue, hd⟩ | hd
  · rw [hd]
    exact hinv.inv.startsAlone_postSend size (some packet)
  · rw [hd]
    exact .inl rfl
  · rw [hd]
    exact .inl rfl

end ChatClient

/-- **At most one write is in flight per socket, and no pop finds the queue empty**: for a
session and for the client under any posts and completions, where no step starts a write
while another is in flight; for every session in every run of the server; and in every run of
the client. -/
theorem one_write_in_flight :
    (∀ (es : List SendEvent) (s : Sender), sessionSendMachine.Run .initial es s →
      s.OneWrite ∧ ∀ e t, sessionSendMachine.Step s e t → s.StartsAlone t) ∧
    (∀ (es : List SendEvent) (c : ClientSender),
      clientSendMachine.Run ChatClient.initialSender es c →
      c.toSender.OneWrite ∧
        ∀ e d, clientSendMachine.Step c e d → c.toSender.StartsAlone d.toSender) ∧
    (∀ (mark : ℕ → UInt32) (n : ℕ) (es : List ServerEvent) (s : ChatServer) (i : ℕ)
      (session : Session), chatMachine.Run (.started mark n) es s →
      s.sessionList[i]? = some session → session.toSender.OneWrite) ∧
    (∀ (mark : UInt32) (es : List ClientEvent) (c : ChatClient),
      clientMachine.Run (.launched mark) es c → c.toSender.OneWrite) := by
  refine ⟨fun es s h => ?_, fun es c h => ?_, fun mark n es s i session h hsession => ?_,
    fun mark es c h => ?_⟩
  · exact ⟨(Session.sendInv_of_run h).inv.oneWrite,
      fun _ _ hstep => Session.startsAlone_of_step h hstep⟩
  · exact ⟨(ChatClient.sendInv_of_run h).inv.oneWrite,
      fun _ _ hstep => ChatClient.startsAlone_of_step h hstep⟩
  · obtain ⟨es', q, hrun, hsends⟩ :=
      ChatServer.exists_sender_run h (ChatServer.lt_of_sessionList h hsession)
    rw [ChatServer.Sends, hsession] at hsends
    cases hsends
    exact (Session.sendInv_of_run hrun).inv.oneWrite
  · obtain ⟨es', hrun⟩ := ChatClient.exists_send_run h
    exact (ChatClient.sendInv_of_run hrun).inv.oneWrite

/-- Two notices are posted to a session, and two requests by the client, where the first
completes; a session is closed while a write is in flight, and accepted again before it
completes; and a client has posted a login. -/
theorem one_write_of_runs :
    (∃ s, sessionSendMachine.Run .initial [.post chatNotice 18, .post chatNotice 18] s ∧
      s.outstanding = 1 ∧ s.OneWrite) ∧
    (∃ c, clientSendMachine.Run ChatClient.initialSender
        [.post chatRequest 16, .post chatRequest 16, .complete] c ∧ c.toSender.OneWrite) ∧
    (∃ s session, chatMachine.Run (.started (fun _ => 0) 1)
        (.acceptDone 0 false :: readsOf 0 (loginPacket [66, 111, 98]) ++
          [.readFailed 0, .acceptDone 0 false]) s ∧
      s.sessionList[0]? = some session ∧ session.outstanding = 1 ∧ session.toSender.OneWrite) ∧
    ∃ c, clientMachine.Run (.launched 0)
        [.getline (some [66, 111, 98]), .branch, .send fun _ => 0] c ∧ c.toSender.OneWrite := by
  refine ⟨?_, ?_, ?_, ?_⟩
  · obtain ⟨s, hrun, hone⟩ := Machine.exists_run_of_exec sessionSendMachine .initial
      [.post chatNotice 18, .post chatNotice 18] (fun s => s.outstanding) (b := 1)
      (by decide +kernel)
    exact ⟨s, hrun, hone, (one_write_in_flight.1 _ s hrun).1⟩
  · obtain ⟨c, hrun, -⟩ := Machine.exists_run_of_exec clientSendMachine
      ChatClient.initialSender [.post chatRequest 16, .post chatRequest 16, .complete]
      (fun _ => ()) (b := ()) (by decide +kernel)
    exact ⟨c, hrun, (one_write_in_flight.2.1 _ c hrun).1⟩
  · obtain ⟨s, hrun, hs⟩ := Machine.exists_run_of_exec chatMachine (.started (fun _ => 0) 1)
      (.acceptDone 0 false :: readsOf 0 (loginPacket [66, 111, 98]) ++
        [.readFailed 0, .acceptDone 0 false])
      (fun s => s.sessionList[0]?.map fun session => session.outstanding) (b := some 1)
      (by decide +kernel)
    obtain ⟨session, hsession, hone⟩ := Option.map_eq_some_iff.mp hs
    exact ⟨s, session, hrun, hsession, hone,
      one_write_in_flight.2.2.1 (fun _ => 0) 1 _ s 0 session hrun hsession⟩
  · obtain ⟨c, hrun, -⟩ := Machine.exists_run_of_exec clientMachine (.launched 0)
      [.getline (some [66, 111, 98]), .branch, .send fun _ => 0] (fun _ => ()) (b := ())
      (by decide +kernel)
    exact ⟨c, hrun, one_write_in_flight.2.2.2 0 _ c hrun⟩

/-- **The front of the queue owns the packet being written if and only if none is being
written**, in every state of every run: for a session when everything posted has completed,
and for the client also when a write has completed with another packet posted behind it, as
nothing is written from then on. -/
theorem owns_iff (es : List SendEvent) :
    (∀ s : Sender, sessionSendMachine.Run .initial es s →
      (s.Owns ↔ posts es = completions es)) ∧
    (∀ c : ClientSender, clientSendMachine.Run ChatClient.initialSender es c →
      (c.toSender.Owns ↔ posts es = completions es ∨ ¬ NoOverlap es)) := by
  constructor
  · intro s h
    have hinv := Session.sendInv_of_run h
    have hposted := hinv.inv.posted
    have hflow := hinv.flowing
    rw [Sender.Flowing] at hflow
    rw [hinv.inv.owns_iff_outstanding (Session.data_ne_none_of_run h), ← hinv.posts,
      ← hinv.completions, Sender.outstanding]
    omega
  · intro c h
    have hinv := ChatClient.sendInv_of_run h
    have hposted := hinv.inv.posted
    have hflow := hinv.inv.flow
    rw [Sender.Flowing, Sender.Stalled, ← List.length_pos_iff] at hflow
    rw [hinv.inv.owns_iff_outstanding (ChatClient.data_ne_none_of_run h), ← hinv.posts,
      ← hinv.completions, ← hinv.flowing, Sender.outstanding, Sender.Flowing]
    omega

/-- A notice, and a request, is written and completes. -/
theorem owns_when_completed :
    (∃ s, sessionSendMachine.Run .initial [.post chatNotice 18, .complete] s ∧ s.Owns) ∧
    ∃ c, clientSendMachine.Run ChatClient.initialSender [.post chatRequest 16, .complete] c ∧
      c.toSender.Owns := by
  constructor
  · obtain ⟨s, hrun, -⟩ := Machine.exists_run_of_exec sessionSendMachine .initial
      [.post chatNotice 18, .complete] (fun _ => ()) (b := ()) (by decide +kernel)
    exact ⟨s, hrun, ((owns_iff _).1 s hrun).mpr rfl⟩
  · obtain ⟨c, hrun, -⟩ := Machine.exists_run_of_exec clientSendMachine
      ChatClient.initialSender [.post chatRequest 16, .complete] (fun _ => ()) (b := ())
      (by decide +kernel)
    exact ⟨c, hrun, ((owns_iff _).2 c hrun).mpr (.inl rfl)⟩

/-- A packet is posted, and its write is in flight: the front of the queue is null. -/
theorem null_while_writing :
    (∃ s, sessionSendMachine.Run .initial [.post chatNotice 18] s ∧
      s.outstanding = 1 ∧ s.sendDataQueue = [none] ∧ ¬ s.Owns) ∧
    (∃ c, clientSendMachine.Run ChatClient.initialSender [.post chatRequest 16] c ∧
      c.outstanding = 1 ∧ c.sendDataQueue = [none] ∧ ¬ c.toSender.Owns) := by
  have hfails : ∀ s : Sender, s.outstanding = 1 → s.sendDataQueue = [none] →
      (∀ write ∈ s.started, write.data ≠ none) → ¬ s.Owns := by
    intro s hone hnull hdata howns
    obtain ⟨write, rest, hlast, hqueue, -⟩ := howns (by omega)
    rw [hnull] at hqueue
    exact hdata write (List.mem_of_getLast? hlast) (List.cons.inj hqueue).1.symm
  constructor
  · obtain ⟨s, hrun, hs⟩ := Machine.exists_run_of_exec sessionSendMachine .initial
      [.post chatNotice 18] (fun s => decide (s.outstanding = 1 ∧ s.sendDataQueue = [none] ∧
        ∀ write ∈ s.started, write.data ≠ none)) (b := true) (by decide +kernel)
    obtain ⟨hone, hnull, hdata⟩ := of_decide_eq_true hs
    exact ⟨s, hrun, hone, hnull, hfails s hone hnull hdata⟩
  · obtain ⟨c, hrun, hc⟩ := Machine.exists_run_of_exec clientSendMachine
      ChatClient.initialSender [.post chatRequest 16]
      (fun c => decide (c.outstanding = 1 ∧ c.sendDataQueue = [none] ∧
        ∀ write ∈ c.started, write.data ≠ none)) (b := true) (by decide +kernel)
    obtain ⟨hone, hnull, hdata⟩ := of_decide_eq_true hc
    exact ⟨c, hrun, hone, hnull, hfails c.toSender hone hnull hdata⟩

end AsioChat
