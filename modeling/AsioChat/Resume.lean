import AsioChat.Broadcast
import AsioChat.Client
import AsioChat.ServerSessions

/-!
# Resuming from the Queue

When a write completes and packets are waiting, `handle_write` goes on with the next one by
`post_send(true, ..)`, until the queue is empty. The size it passes is read from the header
of the packet, and it is `content_size_`, where the callers that post a packet pass header
and content together. So every packet that waited is written without its last twelve bytes.

No run of the server or the client comes so far: as the entries of the queue are null
(`Send`), nothing is ever resumed, and every write that is started is one of a whole packet.

## Main results

* `Completes.exists_drained`: completions write what is waiting, in order and each packet cut
  short, until the queue is empty.
* `Write.size_resumed_packetOf`: what a packet is cut short by.
* `resumesInFull_iff`: they write it in full if and only if nothing is waiting.
* `direct_of_run`: in every run, the writes that are started are of whole packets.
-/

namespace AsioChat

/-! ### The size of a write -/

namespace Write

/-- The write of a packet in full: of `get_packet_size` bytes. -/
def full (packet : List UInt8) : Write :=
  ⟨some packet, (PacketHeader.ofBytes packet).getPacketSize⟩

/-- The write with which `handle_write` resumes: of `content_size_` bytes. -/
def resumed (packet : List UInt8) : Write :=
  ⟨some packet, (PacketHeader.ofBytes packet).contentSize⟩

/-- The write of a packet in full, which has that many bytes. -/
def Direct (w : Write) : Prop :=
  ∃ packet, w = full packet ∧ packet.length = w.size.toNat

/-- The size of the header makes a difference, also where the sum wraps. -/
theorem full_ne_resumed (packet : List UInt8) : full packet ≠ resumed packet := by
  intro heq
  have hsize := congrArg (fun w => w.size.toNat) heq
  simp only [full, resumed, PacketHeader.toNat_getPacketSize] at hsize
  have hlt := (PacketHeader.ofBytes packet).contentSize.toNat_lt
  omega

/-- Packets are resumed in full only if there are none. -/
theorem map_full_eq_map_resumed_iff {packets : List (List UInt8)} :
    packets.map full = packets.map resumed ↔ packets = [] := by
  constructor
  · intro heq
    cases packets with
    | nil => rfl
    | cons packet packets => exact absurd (List.cons.inj heq).1 (full_ne_resumed packet)
  · rintro rfl
    rfl

variable {content : List UInt8} (fresh : ℕ → UInt8) (id : UInt32)

/-- **Header and content together**, as every caller of `post_send` passes them, are the size
that the header announces and that the packet has. -/
theorem direct_packetOf (hfit : content.length + 12 < 2 ^ 32) :
    Direct ⟨some (packetOf fresh id content), headerSize + UInt32.ofNat content.length⟩ := by
  have hfull : (⟨some (packetOf fresh id content), headerSize + UInt32.ofNat content.length⟩ :
      Write) = full (packetOf fresh id content) := by
    rw [full, ofBytes_packetOf fresh id hfit, PacketHeader.getPacketSize, builtHeader_contentSize,
      UInt32.add_comm]
  rw [hfull]
  exact ⟨_, rfl, (getPacketSize_packetOf fresh id hfit).symm⟩

/-- A packet is resumed without its last twelve bytes. -/
theorem size_resumed_packetOf (hfit : content.length + 12 < 2 ^ 32) :
    (resumed (packetOf fresh id content)).size.toNat + 12 = (packetOf fresh id content).length := by
  rw [length_packetOf fresh id hfit, resumed, contentSize_packetOf fresh id hfit]

end Write

open SendEvent

/-! ### Packets waiting -/

namespace Sender

variable {s t u : Sender} {packet next : List UInt8} {waiting : List (List UInt8)}

/-- The queue holds packets, none of them null: one whose write is in flight, the only one,
and those waiting behind it. -/
structure Waiting (s : Sender) (packet : List UInt8) (waiting : List (List UInt8)) : Prop where
  queue : s.sendDataQueue = (packet :: waiting).map some
  writing : ∃ started size, s.started = started ++ [⟨some packet, size⟩] ∧
    s.completed = started.length

/-- From one state to another these writes were started, and there is nothing left to write. -/
structure Drained (s t : Sender) (writes : List Write) : Prop where
  started : t.started = s.started ++ writes
  queue : t.sendDataQueue = []
  idle : t.outstanding = 0

/-- A write that is in flight can complete. -/
theorem Waiting.completed_lt (h : s.Waiting packet waiting) :
    s.completed < s.started.length := by
  obtain ⟨started, size, hstarted, hcompleted⟩ := h.writing
  rw [hstarted, hcompleted, List.length_append, List.length_singleton]
  exact Nat.lt_succ_self _

/-- What is started once is started in the end. -/
theorem Drained.trans {writes writes' : List Write} (hst : t.started = s.started ++ writes)
    (h : t.Drained u writes') : s.Drained u (writes ++ writes') := by
  refine ⟨?_, h.queue, h.idle⟩
  rw [h.started, hst, List.append_assoc]

/-- **The last completion** leaves nothing behind. -/
theorem Waiting.handleWrite_nil (h : s.Waiting packet []) :
    ∃ t, Session.handleWrite { s with completed := s.completed + 1 } = .ok t ∧
      s.Drained t [] := by
  refine ⟨{ s with sendDataQueue := [], completed := s.completed + 1 }, ?_, ?_, rfl, ?_⟩
  · rw [Session.handleWrite, popFront, h.queue]
    rfl
  · rw [List.append_nil]
  · have hlt := h.completed_lt
    obtain ⟨started, size, hstarted, hcompleted⟩ := h.writing
    simp only [outstanding, hstarted, hcompleted, List.length_append, List.length_singleton]
    omega

/-- **A completion resumes with the next packet**, for as many bytes as its content has. -/
theorem Waiting.handleWrite_cons (h : s.Waiting packet (next :: waiting)) :
    ∃ t, Session.handleWrite { s with completed := s.completed + 1 } = .ok t ∧
      t.Waiting next waiting ∧ t.started = s.started ++ [Write.resumed next] := by
  refine ⟨{ s with
    sendDataQueue := (next :: waiting).map some, completed := s.completed + 1,
    started := s.started ++ [Write.resumed next] }, ?_, ⟨rfl, s.started, _, rfl, ?_⟩, rfl⟩
  · rw [Session.handleWrite, popFront, h.queue]
    rfl
  · obtain ⟨started, size, hstarted, hcompleted⟩ := h.writing
    rw [hstarted, hcompleted, List.length_append, List.length_singleton]

end Sender

/-! ### Completions without posts -/

/-- The runs in which nothing is posted. -/
def undisturbed {σ : Type} (M : Machine σ SendEvent Fault) : Machine σ SendEvent Fault :=
  M.restrict fun _ e => posts [e] = 0

/-- Where `handle_write` of a session does not fault, the two parts of the client's do the
same. -/
theorem ChatClient.resumeWrite_handleWrite {s t : Sender} (h : Session.handleWrite s = .ok t) :
    ∃ data s', ChatClient.handleWrite s = .ok (data, s') ∧ ChatClient.resumeWrite data s' = t := by
  obtain ⟨popped, hpop, h⟩ := Except.exists_of_bind_eq_ok h
  simp only [ChatClient.handleWrite, hpop, bind, Except.bind]
  split at h
  · rename_i hqueue
    cases h
    rw [hqueue]
    exact ⟨none, t, rfl, rfl⟩
  · cases h
  · rename_i packet queue hqueue
    cases h
    rw [hqueue]
    exact ⟨some packet, popped, rfl, ChatClient.postSend_eq true _ (some packet) popped⟩

/-- A machine that has a sender in it: a completion takes it through `handle_write`, and it is
at rest when nothing is in flight. -/
structure Completes {σ : Type} (M : Machine σ SendEvent Fault) (embed : Sender → σ) : Prop where
  complete : ∀ s t, s.completed < s.started.length →
    Session.handleWrite { s with completed := s.completed + 1 } = .ok t →
    ∃ es, M.Run (embed s) es (embed t)
  rest : ∀ s, s.outstanding = 0 → ∀ e, ¬ M.enabled (embed s) e

/-- **Completions write what is waiting**, in order and each packet cut short, until the queue
is empty. The induction is on the packets that wait. -/
theorem Completes.exists_drained {σ : Type} {M : Machine σ SendEvent Fault} {embed : Sender → σ}
    (hM : Completes M embed) {s : Sender} {packet : List UInt8} {waiting : List (List UInt8)}
    (h : s.Waiting packet waiting) :
    ∃ t, M.Settles (embed s) (embed t) ∧ s.Drained t (waiting.map Write.resumed) := by
  induction waiting generalizing s packet with
  | nil =>
      obtain ⟨t, hwrite, hdrained⟩ := h.handleWrite_nil
      obtain ⟨es, hrun⟩ := hM.complete s t h.completed_lt hwrite
      exact ⟨t, (Machine.settles_self (hM.rest t hdrained.idle)).of_run hrun, hdrained⟩
  | cons next waiting ih =>
      obtain ⟨t, hwrite, hwaiting, hstarted⟩ := h.handleWrite_cons
      obtain ⟨es, hrun⟩ := hM.complete s t h.completed_lt hwrite
      obtain ⟨u, hsettles, hdrained⟩ := ih hwaiting
      exact ⟨u, hsettles.of_run hrun, hdrained.trans hstarted⟩

/-- **What is waiting is written in full only if nothing is**, as there is one way to go on. -/
theorem Completes.drained_full_iff {σ : Type} {M : Machine σ SendEvent Fault} {embed : Sender → σ}
    (hM : Completes M embed) (hdet : ∀ x e e', M.enabled x e → M.enabled x e' → e = e')
    {π : σ → Sender} (hπ : ∀ s, π (embed s) = s) {s : Sender} {packet : List UInt8}
    {waiting : List (List UInt8)} (h : s.Waiting packet waiting) {x : σ} {es : List SendEvent}
    (hrun : M.Run x es (embed s)) :
    (∃ y, M.Settles x y ∧ s.Drained (π y) (waiting.map Write.full)) ↔ waiting = [] := by
  obtain ⟨t, hsettles, hdrained⟩ := hM.exists_drained h
  have hsettles := hsettles.of_run hrun
  constructor
  · rintro ⟨y, hy, hfull⟩
    obtain rfl := hy.unique hdet hsettles
    rw [hπ] at hfull
    have heq := hfull.started.symm.trans hdrained.started
    exact Write.map_full_eq_map_resumed_iff.mp (List.append_cancel_left heq)
  · rintro rfl
    exact ⟨embed t, hsettles, (hπ t).symm ▸ hdrained⟩

namespace Session

/-- Without posts, the only event at a session is a completion. -/
theorem eq_complete_of_enabled {s : Sender} {e : SendEvent}
    (h : (undisturbed sessionSendMachine).enabled s e) : e = .complete := by
  obtain ⟨henabled, hquiet⟩ := h
  cases e with
  | post packet size => cases hquiet
  | complete => rfl
  | resume => exact henabled.elim

/-- A session completes its writes. -/
theorem completes : Completes (undisturbed sessionSendMachine) id := by
  constructor
  · intro s t hlt hwrite
    exact ⟨[.complete], .cons ⟨⟨hlt, rfl⟩, hwrite⟩ (.nil t)⟩
  · intro s hidle e h
    obtain rfl := eq_complete_of_enabled h
    exact absurd h.1 (Nat.not_lt.mpr (Nat.sub_eq_zero_iff_le.mp hidle))

/-- With nothing posted any more, a session writes the waiting packets in order and in full,
and then comes to rest with an empty queue. -/
def ResumesInFull (s : Sender) (waiting : List (List UInt8)) : Prop :=
  ∃ t, (undisturbed sessionSendMachine).Settles s t ∧ s.Drained t (waiting.map Write.full)

/-- A session writes in full what is waiting only if nothing is. -/
theorem resumesInFull_iff_eq_nil {s : Sender} {packet : List UInt8} {waiting : List (List UInt8)}
    (h : s.Waiting packet waiting) : ResumesInFull s waiting ↔ waiting = [] := by
  refine completes.drained_full_iff (fun x e e' he he' => ?_) (fun _ => rfl) h (.nil s)
  rw [eq_complete_of_enabled he, eq_complete_of_enabled he']

end Session

namespace ChatClient

/-- Without posts, the event at the client is a completion, or the end of `handle_write`. -/
theorem eq_of_enabled {c : ClientSender} {e : SendEvent}
    (h : (undisturbed clientSendMachine).enabled c e) :
    e = if c.handler = none then .complete else .resume := by
  obtain ⟨henabled, hquiet⟩ := h
  cases e with
  | post packet size => cases hquiet
  | complete => rw [if_pos henabled.1]
  | resume => rw [if_neg henabled]

/-- The client completes its writes. -/
theorem completes :
    Completes (undisturbed clientSendMachine) fun s => (⟨s, none⟩ : ClientSender) := by
  constructor
  · intro s t hlt hwrite
    obtain ⟨data, s', hhandle, rfl⟩ := resumeWrite_handleWrite hwrite
    have hcomplete : (undisturbed clientSendMachine).Step ⟨s, none⟩ .complete ⟨s', some data⟩ := by
      refine ⟨⟨⟨rfl, hlt⟩, rfl⟩, ?_⟩
      simp only [undisturbed, Machine.restrict, clientSendMachine, sendStep, hhandle, bind,
        Except.bind]
      rfl
    have hresume : (undisturbed clientSendMachine).Step ⟨s', some data⟩ .resume
        ⟨resumeWrite data s', none⟩ := ⟨⟨Option.some_ne_none data, rfl⟩, rfl⟩
    exact ⟨[.complete, .resume], .cons hcomplete (.cons hresume (.nil _))⟩
  · intro s hidle e h
    obtain rfl := eq_of_enabled h
    exact absurd h.1.2 (Nat.not_lt.mpr (Nat.sub_eq_zero_iff_le.mp hidle))

/-- With nothing posted any more, the client writes the waiting packets in order and in full,
and then comes to rest with an empty queue. -/
def ResumesInFull (c : ClientSender) (waiting : List (List UInt8)) : Prop :=
  ∃ d, (undisturbed clientSendMachine).Settles c d ∧
    c.toSender.Drained d.toSender (waiting.map Write.full)

/-- A `handle_write` that found nothing to resume with may return first. -/
theorem exists_run_of_handler {c : ClientSender} (h : ∀ data, c.handler = some data → data = none) :
    ∃ es, (undisturbed clientSendMachine).Run c es ⟨c.toSender, none⟩ := by
  obtain ⟨s, handler⟩ := c
  cases handler with
  | none => exact ⟨[], .nil _⟩
  | some data =>
      obtain rfl := h data rfl
      exact ⟨[.resume], .cons ⟨⟨Option.some_ne_none _, rfl⟩, rfl⟩ (.nil _)⟩

/-- The client writes in full what is waiting only if nothing is. -/
theorem resumesInFull_iff_eq_nil {c : ClientSender} {packet : List UInt8}
    {waiting : List (List UInt8)} (h : c.toSender.Waiting packet waiting)
    (hhandler : ∀ data, c.handler = some data → data = none) :
    ResumesInFull c waiting ↔ waiting = [] := by
  obtain ⟨es, hrun⟩ := exists_run_of_handler hhandler
  refine completes.drained_full_iff (fun x e e' he he' => ?_) (fun _ => rfl) h hrun
  rw [eq_of_enabled he, eq_of_enabled he']

end ChatClient

/-- **The waiting packets are written in full if and only if there are none**: on a session and
by the client, for every content of the queue, with its first packet being written. On the
client `handle_write` may be about to return, with nothing to resume. -/
theorem resumesInFull_iff (packet : List UInt8) (waiting : List (List UInt8)) :
    (∀ s : Sender, s.Waiting packet waiting →
      (Session.ResumesInFull s waiting ↔ waiting = [])) ∧
    (∀ c : ClientSender, c.toSender.Waiting packet waiting →
      (∀ data, c.handler = some data → data = none) →
      (ChatClient.ResumesInFull c waiting ↔ waiting = [])) := by
  constructor
  · intro s hwaiting
    exact Session.resumesInFull_iff_eq_nil hwaiting
  · intro c hwaiting hhandler
    exact ChatClient.resumesInFull_iff_eq_nil hwaiting hhandler

/-- A sender with copies of a packet in its queue, the first of them being written. -/
def Sender.queued (packet : List UInt8) (size : UInt32) (copies : ℕ) : Sender where
  sendDataQueue := (packet :: List.replicate copies packet).map some
  started := [⟨some packet, size⟩]
  completed := 0
  posted := List.replicate (copies + 1) ⟨some packet, size⟩

/-- The copies in such a queue wait. -/
theorem Sender.waiting_queued (packet : List UInt8) (size : UInt32) (copies : ℕ) :
    (queued packet size copies).Waiting packet (List.replicate copies packet) :=
  ⟨rfl, [], size, rfl, rfl⟩

/-- A notice, and a request, is the only packet in the queue. -/
theorem resumesInFull_last :
    Session.ResumesInFull (.queued chatNotice 18 0) [] ∧
      ChatClient.ResumesInFull ⟨.queued chatRequest 16 0, none⟩ [] := by
  constructor
  · exact ((resumesInFull_iff chatNotice []).1 _ (Sender.waiting_queued _ _ 0)).mpr rfl
  · exact ((resumesInFull_iff chatRequest []).2 _ (Sender.waiting_queued _ _ 0)
      (fun _ hdata => (Option.some_ne_none _ hdata.symm).elim)).mpr rfl

/-- A second notice of 18 bytes is waiting, of which 6 are written, and a second request of 16
bytes, of which 4 are. -/
theorem second_packet_cut_short :
    ((Sender.queued chatNotice 18 1).Waiting chatNotice [chatNotice] ∧
      (∃ t, (undisturbed sessionSendMachine).Settles (.queued chatNotice 18 1) t ∧
        t.started = [⟨some chatNotice, 18⟩, ⟨some chatNotice, 6⟩]) ∧
      ¬ Session.ResumesInFull (.queued chatNotice 18 1) [chatNotice]) ∧
    ((Sender.queued chatRequest 16 1).Waiting chatRequest [chatRequest] ∧
      (∃ t, (undisturbed clientSendMachine).Settles ⟨.queued chatRequest 16 1, none⟩ t ∧
        t.started = [⟨some chatRequest, 16⟩, ⟨some chatRequest, 4⟩]) ∧
      ¬ ChatClient.ResumesInFull ⟨.queued chatRequest 16 1, none⟩ [chatRequest]) := by
  have hnotices : (Sender.queued chatNotice 18 1).Waiting chatNotice [chatNotice] :=
    Sender.waiting_queued _ _ 1
  have hrequests : (Sender.queued chatRequest 16 1).Waiting chatRequest [chatRequest] :=
    Sender.waiting_queued _ _ 1
  refine ⟨⟨hnotices, ?_, ?_⟩, hrequests, ?_, ?_⟩
  · obtain ⟨t, hsettles, hdrained⟩ := Session.completes.exists_drained hnotices
    refine ⟨t, hsettles, hdrained.started.trans ?_⟩
    decide +kernel
  · rw [Session.resumesInFull_iff_eq_nil hnotices]
    exact List.cons_ne_nil _ _
  · obtain ⟨t, hsettles, hdrained⟩ := ChatClient.completes.exists_drained hrequests
    refine ⟨_, hsettles, hdrained.started.trans ?_⟩
    decide +kernel
  · rw [ChatClient.resumesInFull_iff_eq_nil hrequests
      (fun _ hdata => (Option.some_ne_none _ hdata.symm).elim)]
    exact List.cons_ne_nil _ _

/-! ### The writes of the runs -/

/-- A list that grows by direct writes holds only direct writes. -/
theorem Write.direct_of_mem {writes writes' : List Write} (h : ∀ w ∈ writes, w.Direct)
    (hstep : writes' = writes ∨ ∃ w, Direct w ∧ writes' = writes ++ [w]) :
    ∀ w ∈ writes', w.Direct := by
  rcases hstep with rfl | ⟨w, hw, rfl⟩
  · exact h
  · exact List.forall_mem_append.mpr ⟨h, List.forall_mem_singleton.mpr hw⟩

namespace ChatServer

variable {s t : ChatServer} {e : ServerEvent} {mark : ℕ → UInt32} {n : ℕ} {es : List ServerEvent}

/-- `process_packet` posts whole packets. -/
theorem direct_of_processPacket {id : ℕ} {data : List UInt8} {fresh : ℕ → UInt8}
    (h : s.processPacket id data fresh = .ok t) (i : ℕ) :
    t.postedTo i = s.postedTo i ∨
      ∃ w, Write.Direct w ∧ t.postedTo i = s.postedTo i ++ [w] := by
  rcases postedTo_processPacket_cases h i with
    hsame | ⟨-, hreply⟩ | ⟨-, notice, hsize, hnotice⟩
  · exact .inl hsame
  · exact .inr ⟨_, Write.direct_packetOf fresh _ (by decide), hreply⟩
  · obtain ⟨hname, hmessage⟩ := ChatNotify.lengths_lt hsize
    have hlength := ChatNotify.length_serialize hname hmessage
    rw [← hlength] at hnotice
    exact .inr ⟨_, Write.direct_packetOf fresh _ (by omega), hnotice⟩

/-- Every step of the server posts whole packets. -/
theorem direct_of_step (hstep : chatMachine.Step s e t) (i : ℕ) :
    t.postedTo i = s.postedTo i ∨
      ∃ w, Write.Direct w ∧ t.postedTo i = s.postedTo i ++ [w] := by
  rcases postedTo_of_step hstep i with
    hsame | ⟨id, bytes, fresh, buffer, data, u, -, hreceived, hprocess, hu⟩
  · exact .inl hsame
  · rw [hu, ← hreceived]
    exact direct_of_processPacket hprocess i

/-- **The server posts whole packets**, in every run. -/
theorem direct_of_mem_postedTo (h : chatMachine.Run (started mark n) es s) (i : ℕ) :
    ∀ w ∈ s.postedTo i, w.Direct := by
  refine h.invariant (I := fun s => ∀ w ∈ s.postedTo i, w.Direct)
    (fun s e t hdirect hstep => Write.direct_of_mem hdirect (direct_of_step hstep i)) ?_
  have hnone : (started mark n).postedTo i = [] := by
    rw [postedTo]
    cases hsession : (started mark n).sessionList[i]? with
    | none => rfl
    | some session =>
        have hi := lt_of_sessionList (.nil (started mark n)) hsession
        rw [getElem?_sessionList_started mark hi] at hsession
        cases hsession
        rfl
  rw [hnone]
  exact List.forall_mem_nil _

end ChatServer

namespace ChatClient

variable {c d : ChatClient} {e : ClientEvent}

/-- Every step of the client posts whole packets. -/
theorem direct_of_step (hstep : clientMachine.Step c e d) :
    d.posted = c.posted ∨ ∃ w, Write.Direct w ∧ d.posted = c.posted ++ [w] := by
  have hquiet : e.Quiet → d.posted = c.posted := fun hquiet =>
    (sameDialogue_of_step hstep hquiet).posted
  cases e with
  | connectDone error => exact .inl (hquiet trivial)
  | readFailed => exact .inl (hquiet trivial)
  | writeDone => exact .inl (hquiet trivial)
  | writeResumed => exact .inl (hquiet trivial)
  | readDone bytes =>
      obtain ⟨buffer, exit, u, -, hu, rfl⟩ := step_readDone hstep
      rcases hu with ⟨-, rfl⟩ | ⟨data, -, hprocess⟩
      · exact .inl rfl
      · rcases processPacket_cases hprocess with
          ⟨-, response, parsed, -, rfl⟩ | ⟨-, rfl | ⟨notify, parsed, rfl⟩⟩ <;>
          exact .inl rfl
  | getline line =>
      cases hstep.2
      rcases getline_cases line c with heq | heq | ⟨inputMsg, -, -, -, heq⟩
      all_goals exact .inl (congrArg (fun c => c.posted) heq :)
  | branch =>
      obtain ⟨inputMsg, -, rfl⟩ := step_branch hstep
      exact .inl rfl
  | send fresh =>
      obtain ⟨inputMsg, loggedIn, pkt, size, -, hbuild, rfl⟩ := step_send hstep
      have hdirect : Write.Direct ⟨some pkt, size⟩ := by
        obtain ⟨content, hfit, rfl, rfl⟩ := exists_packetOf_of_build hbuild
        exact Write.direct_packetOf fresh _ (by omega)
      exact .inr ⟨_, hdirect, posted_post size pkt c⟩

/-- **The client posts whole packets**, in every run. -/
theorem direct_of_mem_posted {mark : UInt32} {es : List ClientEvent}
    (h : clientMachine.Run (.launched mark) es c) : ∀ w ∈ c.posted, w.Direct := by
  refine h.invariant (I := fun c => ∀ w ∈ c.posted, w.Direct)
    (fun c e d hdirect hstep => Write.direct_of_mem hdirect (direct_of_step hstep)) ?_
  exact List.forall_mem_nil _

end ChatClient

/-- **No run reaches a write that is cut short**: in every run of the server and of the client,
the writes started are of whole packets, as none of them is resumed. -/
theorem direct_of_run :
    (∀ (mark : ℕ → UInt32) (n : ℕ) (es : List ServerEvent) (s : ChatServer) (i : ℕ)
      (session : Session), chatMachine.Run (.started mark n) es s →
      s.sessionList[i]? = some session → ∀ w ∈ session.started, w.Direct) ∧
    (∀ (mark : UInt32) (es : List ClientEvent) (c : ChatClient),
      clientMachine.Run (.launched mark) es c → ∀ w ∈ c.started, w.Direct) := by
  constructor
  · intro mark n es s i session h hsession w hmem
    have hstarted := (started_prefix_posted_of_run h hsession).1
    refine ChatServer.direct_of_mem_postedTo h i w ?_
    rw [ChatServer.postedTo, hsession]
    exact hstarted.subset hmem
  · intro mark es c h w hmem
    obtain ⟨es', hrun⟩ := ChatClient.exists_send_run h
    have hstarted := (ChatClient.sendInv_of_run hrun).inv.started
    exact ChatClient.direct_of_mem_posted h w (hstarted.subset hmem)

end AsioChat
