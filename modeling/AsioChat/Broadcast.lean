import AsioChat.ServerNames
import AsioChat.ServerSlots

/-!
# The Broadcasts

What a `REQUEST_CHAT` leads to at the send sides of all sessions. The loop of
`process_packet` calls `post_send` once for every session whose socket is open, so two
sessions that stay open are handed the same notices in the same order, and a session
whose socket is closed is handed nothing.

## Main results

* `noticed_of_step`: what one step hands to a session that is open.
* `postedTo_processPacket_cases`, `postedTo_of_step`: what a step hands to any session.
* `postedTo_of_closed`: a step hands nothing to a session that is closed.
* `requested_of_run`: the chats recorded are the requests in the packets that were received.
* `broadcasts_agree`: the agreement of two sessions over an interval of a run.
-/

namespace AsioChat

/-- A write of a `NOTICE_CHAT` packet. -/
def Write.isNotice (w : Write) : Bool :=
  match w.data with
  | none => false
  | some packet => (PacketHeader.ofBytes packet).id = Packets.noticeChat.toId

/-- The notices of the chats recorded, each with the length of its packet. -/
def chatWrites (calls : List Call) : List Write :=
  calls.filterMap fun
    | .chat _ _ packet => some ⟨some packet, UInt32.ofNat packet.length⟩
    | _ => none

/-- Every chat recorded has a notice that carries the message of the request. -/
def CarryMessages (calls : List Call) : Prop :=
  ∀ id request packet, .chat id request packet ∈ calls → noticeMessage packet = request.message

/-- The notices of some calls and of some more. -/
theorem chatWrites_append (calls calls' : List Call) :
    chatWrites (calls ++ calls') = chatWrites calls ++ chatWrites calls' :=
  List.filterMap_append ..

/-- A notice, posted with the length of its packet. -/
theorem isNotice_noticePacket {notice : ChatNotify} (hsize : notice.byteSize < 2 ^ 31)
    (fresh : ℕ → UInt8) :
    (noticePacket fresh notice).length = 12 + notice.byteSize ∧
      ∀ size, Write.isNotice ⟨some (noticePacket fresh notice), size⟩ = true := by
  obtain ⟨hname, hmessage⟩ := ChatNotify.lengths_lt hsize
  have hlength := ChatNotify.length_serialize hname hmessage
  have hfit : notice.serialize.length + 12 < 2 ^ 32 := by omega
  constructor
  · rw [noticePacket, length_packetOf fresh _ hfit, hlength, Nat.add_comm]
  · intro size
    simp only [Write.isNotice, noticePacket, ofBytes_packetOf fresh _ hfit, builtHeader_id]
    rfl

/-- A reply to a login is no notice. -/
theorem isNotice_replyPacket (fresh : ℕ → UInt8) (size : UInt32) :
    Write.isNotice ⟨some (replyPacket fresh), size⟩ = false := by
  have hfit : (LoginResponse.cleared.setSuccess true).serialize.length + 12 < 2 ^ 32 := by decide
  simp only [Write.isNotice, replyPacket, ofBytes_packetOf fresh _ hfit, builtHeader_id]
  rfl

/-- `handle_write` posts nothing. -/
theorem Session.posted_handleWrite {s s' : Sender} (h : Session.handleWrite s = .ok s') :
    s'.posted = s.posted := by
  obtain ⟨popped, hpop, h⟩ := Except.exists_of_bind_eq_ok h
  rw [← Sender.posted_popFront hpop]
  split at h
  · cases h
    rfl
  · cases h
  · cases h
    rfl

namespace ChatServer

variable {s t : ChatServer} {e : ServerEvent} {i : ℕ}

/-- The packets passed to `post_send` of a session so far. -/
def postedTo (s : ChatServer) (i : ℕ) : List Write :=
  (s.sessionList[i]?.map fun session => session.posted).getD []

/-- What was posted on a session is apart from its connection and buffer. -/
theorem inert_posted : Inert fun session => session.posted := fun _ _ _ _ => rfl

/-- What a step hands to a session and what it records: the notices of the chats it
records, once each. -/
def Noticed (i : ℕ) (s t : ChatServer) : Prop :=
  ∃ new posts, t.calls = s.calls ++ new ∧ t.postedTo i = s.postedTo i ++ posts ∧
    posts.filter Write.isNotice = chatWrites new ∧ CarryMessages new

/-- Where nothing happens, nothing is handed over. -/
theorem Noticed.refl (s : ChatServer) : Noticed i s s :=
  ⟨[], [], (List.append_nil _).symm, (List.append_nil _).symm, rfl, by simp [CarryMessages]⟩

/-- What two steps after one another hand to a session. -/
theorem Noticed.trans {u : ChatServer} (h₁ : Noticed i s t) (h₂ : Noticed i t u) :
    Noticed i s u := by
  obtain ⟨new₁, posts₁, hcalls₁, hposted₁, hfilter₁, hcarry₁⟩ := h₁
  obtain ⟨new₂, posts₂, hcalls₂, hposted₂, hfilter₂, hcarry₂⟩ := h₂
  refine ⟨new₁ ++ new₂, posts₁ ++ posts₂, ?_, ?_, ?_, fun id request packet hmem => ?_⟩
  · rw [hcalls₂, hcalls₁, List.append_assoc]
  · rw [hposted₂, hposted₁, List.append_assoc]
  · rw [List.filter_append, hfilter₁, hfilter₂, chatWrites_append]
  · rcases List.mem_append.mp hmem with hmem | hmem
    · exact hcarry₁ id request packet hmem
    · exact hcarry₂ id request packet hmem

/-- A step that posts nothing to the session and records no chat. -/
theorem noticed_of_eq {new : List Call} (hcalls : t.calls = s.calls ++ new)
    (hposted : t.sessionList[i]?.map (fun session => session.posted) =
      s.sessionList[i]?.map fun session => session.posted)
    (hnone : chatWrites new = []) : Noticed i s t := by
  refine ⟨new, [], hcalls, ?_, hnone.symm, fun id request packet hmem => ?_⟩
  · rw [postedTo, postedTo, hposted, List.append_nil]
  · have hwrite : (⟨some packet, UInt32.ofNat packet.length⟩ : Write) ∈ chatWrites new :=
      List.mem_filterMap.mpr ⟨_, hmem, rfl⟩
    rw [hnone] at hwrite
    exact absurd hwrite List.not_mem_nil

/-- `post_send` of a session adds to what was posted on it. -/
theorem posted_post (size : UInt32) (packet : List UInt8) (session : Session) :
    (session.post size packet).posted = session.posted ++ [⟨some packet, size⟩] :=
  Sender.posted_postSend _

/-- `process_packet` hands an open session the notice of a chat, once. -/
theorem noticed_processPacket {id : ℕ} {data : List UInt8} {fresh : ℕ → UInt8}
    (hopen : s.Has i (·.isOpen = true)) (h : s.processPacket id data fresh = .ok t) :
    Noticed i s t := by
  obtain ⟨target, htarget, htargetOpen⟩ := hopen
  rcases processPacket_cases h with
    ⟨-, rfl⟩ | ⟨request, -, rfl⟩ | ⟨session, request, -, -, hsize, rfl⟩
  · exact .refl _
  · by_cases hid : id = i
    · refine ⟨[.login id request], [⟨some (replyPacket fresh), 14⟩], calls_loggedIn request,
        ?_, ?_, ?_⟩
      · simp only [postedTo, getElem?_loggedIn, htarget, Option.map_some, if_pos hid, posted_post,
          Option.getD_some]
        rfl
      · simp only [List.filter_cons, isNotice_replyPacket]
        rfl
      · simp [CarryMessages]
    · refine noticed_of_eq (calls_loggedIn request) ?_ rfl
      simp only [getElem?_loggedIn, htarget, Option.map_some, if_neg hid]
  · obtain ⟨hlength, hnotice⟩ := isNotice_noticePacket hsize fresh
    refine ⟨[.chat id request (noticePacket fresh (session.notice request))],
      [⟨some (noticePacket fresh (session.notice request)),
        headerSize + UInt32.ofNat (session.notice request).byteSize⟩],
      calls_notified request _, ?_, ?_, ?_⟩
    · simp only [postedTo, getElem?_notified, htarget, Option.map_some, if_pos htargetOpen,
        posted_post, Option.getD_some]
    · have hwrite : headerSize + UInt32.ofNat (session.notice request).byteSize =
          UInt32.ofNat (noticePacket fresh (session.notice request)).length := by
        rw [hlength, UInt32.ofNat_add]
        rfl
      simp only [List.filter_cons, hnotice, List.filter_nil, if_true, hwrite]
      rfl
    · intro id' request' packet' hmem
      obtain ⟨rfl, rfl, rfl⟩ := Call.chat.inj (List.mem_singleton.mp hmem)
      exact (notice_fields hsize fresh).2

/-- Putting a read into the buffer closes and opens nothing. -/
theorem has_isOpen_received (id : ℕ) (buffer : PacketBuffer) :
    (s.received id buffer).Has i (·.isOpen = true) ↔ s.Has i (·.isOpen = true) := by
  have hopen : (s.received id buffer).sessionList[i]?.map Session.isOpen =
      s.sessionList[i]?.map Session.isOpen :=
    (map_modifySession Session.isOpen (s.readCompleted id) id
        (f := fun session => { session with toPacketBuffer := buffer }) (fun _ => rfl) i).trans
      (map_modifySession Session.isOpen s id
        (f := fun session => { session with reading := session.reading - 1 }) (fun _ => rfl) i)
  have hiff : ∀ u : ChatServer, u.Has i (·.isOpen = true) ↔
      u.sessionList[i]?.map Session.isOpen = some true := fun u => Option.map_eq_some_iff.symm
  rw [hiff, hiff, hopen]

/-- **What a step hands to a session that is open.** -/
theorem noticed_of_step (hopen : s.Has i (·.isOpen = true)) (hstep : chatMachine.Step s e t) :
    Noticed i s t := by
  cases e with
  | acceptDone id error =>
      obtain ⟨-, hstep⟩ := hstep
      cases hstep
      refine noticed_of_eq (calls_acceptDone s id error) (inert_posted.acceptDone s id error i) ?_
      cases error <;> rfl
  | readDone id bytes fresh =>
      obtain ⟨_, buffer, _, u, -, -, hu, rfl⟩ := step_readDone hstep
      have hreceived : Noticed i s (s.received id buffer) :=
        noticed_of_eq (List.append_nil _).symm (inert_posted.received s id buffer i) rfl
      have hstarted : Noticed i u (u.postReceive id) :=
        noticed_of_eq (List.append_nil _).symm (inert_posted.postReceive u id i) rfl
      rcases hu with ⟨-, rfl⟩ | ⟨data, -, hprocess⟩
      · exact hreceived.trans hstarted
      · have hopen' := (has_isOpen_received id buffer).mpr hopen
        exact hreceived.trans ((noticed_processPacket hopen' hprocess).trans hstarted)
  | readFailed id =>
      obtain ⟨-, hstep⟩ := hstep
      cases hstep
      exact noticed_of_eq (calls_readFailed s id) (inert_posted.readFailed s id i) rfl
  | writeDone id =>
      obtain ⟨session, sender, hsession, hwrite, rfl⟩ := step_writeDone hstep
      refine noticed_of_eq (List.append_nil _).symm ?_ rfl
      have hposted := Session.posted_handleWrite hwrite
      rw [getElem?_modifySession]
      by_cases hid : id = i
      · subst hid
        simp only [hsession, Option.map_some, if_true, hposted]
      · simp only [if_neg hid, Option.map_id']

/-- What an interval of a run hands to a session that stays open. -/
theorem noticed_of_run {C : ChatServer → ServerEvent → Prop} {es : List ServerEvent}
    (hC : ∀ s e, C s e → s.Has i (·.isOpen = true)) (h : (chatMachine.restrict C).Run s es t) :
    Noticed i s t := by
  induction h with
  | nil s => exact .refl s
  | cons hstep _ ih =>
      obtain ⟨hstep, hopen⟩ := Machine.step_restrict_iff.mp hstep
      exact (noticed_of_step (hC _ _ hopen) hstep).trans ih

/-- **What `process_packet` hands to a session**: nothing, the reply to a login on it, or a
notice if it is open. -/
theorem postedTo_processPacket_cases {id : ℕ} {data : List UInt8} {fresh : ℕ → UInt8}
    (h : s.processPacket id data fresh = .ok t) (i : ℕ) :
    t.postedTo i = s.postedTo i ∨
    (id = i ∧ t.postedTo i = s.postedTo i ++ [⟨some (replyPacket fresh), 14⟩]) ∨
    (s.Has i (·.isOpen = true) ∧ ∃ notice : ChatNotify, notice.byteSize < 2 ^ 31 ∧
      t.postedTo i = s.postedTo i ++
        [⟨some (noticePacket fresh notice), headerSize + UInt32.ofNat notice.byteSize⟩]) := by
  rcases processPacket_cases h with
    ⟨-, rfl⟩ | ⟨request, -, rfl⟩ | ⟨session, request, -, -, hsize, rfl⟩
  · exact .inl rfl
  · cases htarget : s.sessionList[i]? with
    | none => exact .inl (by simp only [postedTo, getElem?_loggedIn, htarget, Option.map_none])
    | some target =>
        simp only [postedTo, getElem?_loggedIn, htarget, Option.map_some, Option.getD_some]
        by_cases hid : id = i
        · rw [if_pos hid, posted_post]
          exact .inr (.inl ⟨hid, rfl⟩)
        · rw [if_neg hid]
          exact .inl rfl
  · cases htarget : s.sessionList[i]? with
    | none => exact .inl (by simp only [postedTo, getElem?_notified, htarget, Option.map_none])
    | some target =>
        simp only [postedTo, getElem?_notified, htarget, Option.map_some, Option.getD_some]
        by_cases hopen : target.isOpen = true
        · rw [if_pos hopen, posted_post]
          exact .inr (.inr ⟨⟨target, htarget, hopen⟩, _, hsize, rfl⟩)
        · rw [if_neg hopen]
          exact .inl rfl

/-- **What a step hands to a session**: nothing, or what `process_packet` hands to it. -/
theorem postedTo_of_step (hstep : chatMachine.Step s e t) (i : ℕ) :
    t.postedTo i = s.postedTo i ∨ ∃ id bytes fresh buffer data u,
      e = .readDone id bytes fresh ∧ (s.received id buffer).postedTo i = s.postedTo i ∧
      (s.received id buffer).processPacket id data fresh = .ok u ∧
      t.postedTo i = u.postedTo i := by
  cases e with
  | acceptDone id error =>
      obtain ⟨-, hstep⟩ := hstep
      cases hstep
      left
      rw [postedTo, inert_posted.acceptDone, postedTo]
  | readDone id bytes fresh =>
      obtain ⟨_, buffer, _, u, -, -, hu, rfl⟩ := step_readDone hstep
      have hreceived : (s.received id buffer).postedTo i = s.postedTo i := by
        rw [postedTo, inert_posted.received, postedTo]
      have hstarted : (u.postReceive id).postedTo i = u.postedTo i := by
        rw [postedTo, inert_posted.postReceive, postedTo]
      rcases hu with ⟨-, rfl⟩ | ⟨data, -, hprocess⟩
      · exact .inl (hstarted.trans hreceived)
      · exact .inr ⟨id, bytes, fresh, buffer, data, u, rfl, hreceived, hprocess, hstarted⟩
  | readFailed id =>
      obtain ⟨-, hstep⟩ := hstep
      cases hstep
      left
      rw [postedTo, inert_posted.readFailed, postedTo]
  | writeDone id =>
      obtain ⟨session, sender, hsession, hwrite, rfl⟩ := step_writeDone hstep
      have hposted := Session.posted_handleWrite hwrite
      left
      rw [postedTo, postedTo, getElem?_modifySession]
      by_cases hid : id = i
      · subst hid
        simp only [hsession, Option.map_some, if_true, hposted]
      · simp only [if_neg hid, Option.map_id']

/-- **A step hands nothing to a session that is closed**, in every state of every run. -/
theorem postedTo_of_closed {mark : ℕ → UInt32} {n : ℕ} {es : List ServerEvent}
    (h : chatMachine.Run (started mark n) es s) (hstep : chatMachine.Step s e t)
    (hclosed : ¬ s.Has i (·.isOpen = true)) : t.postedTo i = s.postedTo i := by
  rcases postedTo_of_step hstep i with
    hsame | ⟨id, bytes, fresh, buffer, data, u, rfl, hreceived, hprocess, hu⟩
  · exact hsame
  · rw [hu, ← hreceived]
    rcases postedTo_processPacket_cases hprocess i with hsame | ⟨rfl, -⟩ | ⟨hopen, -⟩
    · exact hsame
    · exact absurd (isOpen_of_reading h id hstep.1.1) hclosed
    · exact absurd ((has_isOpen_received id buffer).mp hopen) hclosed

/-! ### Where the chats come from -/

/-- A chat was requested on a session in an interval: it is in a packet that a read of the interval
completes there. -/
def RequestedIn (s : ChatServer) (es : List ServerEvent) (id : ℕ) (request : ChatRequest) : Prop :=
  ∃ before bytes fresh after u session buffer data,
    es = before ++ .readDone id bytes fresh :: after ∧ chatMachine.Run s before u ∧
    u.sessionList[id]? = some session ∧
    session.toPacketBuffer.receive .server bytes = .ok (buffer, .processed data) ∧
    Request.ofPacket data = some (.chat request)

/-- A chat requested in an interval was requested in every longer one. -/
theorem RequestedIn.cons {es : List ServerEvent} {id : ℕ} {request : ChatRequest}
    (h : t.RequestedIn es id request) (hstep : chatMachine.Step s e t) :
    s.RequestedIn (e :: es) id request := by
  obtain ⟨before, bytes, fresh, after, u, session, buffer, data, rfl, hrun, hreceive⟩ := h
  exact ⟨e :: before, bytes, fresh, after, u, session, buffer, data, rfl, .cons hstep hrun,
    hreceive⟩

/-- A chat that a step records was requested in it. -/
theorem Records.requestedIn {new : List Call} (h : s.Records e new) {id : ℕ}
    {request : ChatRequest} {packet : List UInt8} (hmem : .chat id request packet ∈ new)
    (es : List ServerEvent) : s.RequestedIn (e :: es) id request := by
  cases h with
  | nothing e => cases hmem
  | accepted id => cases List.mem_singleton.mp hmem
  | closed id => cases List.mem_singleton.mp hmem
  | login id bytes fresh session buffer data request => cases List.mem_singleton.mp hmem
  | chat id bytes fresh session buffer data request packet hsession hreceive hrequest =>
      cases List.mem_singleton.mp hmem
      exact ⟨[], bytes, fresh, es, s, session, buffer, data, rfl, .nil s, hsession, hreceive,
        hrequest⟩

/-- **The chats that are recorded in an interval were requested in it.** -/
theorem requested_of_run {es : List ServerEvent} (h : chatMachine.Run s es t) :
    ∃ new, t.calls = s.calls ++ new ∧ ∀ id request packet, .chat id request packet ∈ new →
      s.RequestedIn es id request := by
  induction h with
  | nil s => exact ⟨[], (List.append_nil _).symm, fun _ _ _ => List.not_mem_nil.elim⟩
  | @cons s u t e es hstep _ ih =>
      obtain ⟨first, hfirst, hrecords⟩ := records_of_step hstep
      obtain ⟨rest, hrest, hrequested⟩ := ih
      refine ⟨first ++ rest, ?_, fun id request packet hmem => ?_⟩
      · rw [hrest, hfirst, List.append_assoc]
      · rcases List.mem_append.mp hmem with hmem | hmem
        · exact hrecords.requestedIn hmem es
        · exact (hrequested id request packet hmem).cons hstep

/-- The condition on the steps of an interval that two sockets stay open. -/
def BothOpen (i j : ℕ) (s : ChatServer) (_ : ServerEvent) : Prop :=
  s.Has i (·.isOpen = true) ∧ s.Has j (·.isOpen = true)

instance (i j : ℕ) (s : ChatServer) (e : ServerEvent) : Decidable (BothOpen i j s e) :=
  inferInstanceAs (Decidable (_ ∧ _))

end ChatServer

/-- **Broadcasts are exactly-once and totally ordered.** From every state `s` of every run:
over an interval in which two sockets stay open, both sessions are handed the same
notices, one for every chat recorded in the interval, in that order, each with the
message of its request, which was in a packet received in the interval; and no step hands a
packet to a session whose socket is closed. -/
theorem broadcasts_agree {mark : ℕ → UInt32} {n : ℕ} {es : List ServerEvent} {s : ChatServer}
    (h : chatMachine.Run (.started mark n) es s) :
    (∀ (i j : ℕ) (es' : List ServerEvent) (t : ChatServer),
      (chatMachine.restrict (ChatServer.BothOpen i j)).Run s es' t →
      ∃ new postsI postsJ, t.calls = s.calls ++ new ∧
        t.postedTo i = s.postedTo i ++ postsI ∧ t.postedTo j = s.postedTo j ++ postsJ ∧
        postsI.filter Write.isNotice = postsJ.filter Write.isNotice ∧
        postsI.filter Write.isNotice = chatWrites new ∧ CarryMessages new ∧
        ∀ id request packet, .chat id request packet ∈ new → s.RequestedIn es' id request) ∧
    (∀ (e : ServerEvent) (t : ChatServer) (i : ℕ), chatMachine.Step s e t →
      ¬ s.Has i (·.isOpen = true) → t.postedTo i = s.postedTo i) := by
  refine ⟨fun i j es' t hrun => ?_,
    fun e t i hstep hclosed => ChatServer.postedTo_of_closed h hstep hclosed⟩
  obtain ⟨new, postsI, hcalls, hpostsI, hfilterI, hcarry⟩ :=
    ChatServer.noticed_of_run (i := i) (fun _ _ hopen => hopen.1) hrun
  obtain ⟨new', postsJ, hcalls', hpostsJ, hfilterJ, -⟩ :=
    ChatServer.noticed_of_run (i := j) (fun _ _ hopen => hopen.2) hrun
  obtain rfl : new = new' := List.append_cancel_left (hcalls.symm.trans hcalls')
  obtain ⟨new', hcalls', hrequested⟩ := ChatServer.requested_of_run hrun.of_restrict
  obtain rfl : new = new' := List.append_cancel_left (hcalls.symm.trans hcalls')
  exact ⟨new, postsI, postsJ, hcalls, hpostsI, hpostsJ, hfilterI.trans hfilterJ.symm, hfilterI,
    hcarry, hrequested⟩

/-- Two of three sessions are connected, and the client of the first says `hi`. -/
theorem broadcasts_agree_two_of_three : ∃ s t,
    chatMachine.Run (.started (fun _ => 0) 3) [.acceptDone 0 false, .acceptDone 1 false] s ∧
    (chatMachine.restrict (ChatServer.BothOpen 0 1)).Run s (readsOf 0 (chatPacket [104, 105])) t ∧
    (∃ new postsI postsJ, t.calls = s.calls ++ new ∧
      t.postedTo 0 = s.postedTo 0 ++ postsI ∧ t.postedTo 1 = s.postedTo 1 ++ postsJ ∧
      postsI.filter Write.isNotice = postsJ.filter Write.isNotice ∧
      postsI.filter Write.isNotice = chatWrites new ∧ CarryMessages new ∧
      ∀ id request packet, .chat id request packet ∈ new →
        s.RequestedIn (readsOf 0 (chatPacket [104, 105])) id request) ∧
    (t.postedTo 0).length = 1 ∧
    ∀ e u, chatMachine.Step s e u → u.postedTo 2 = s.postedTo 2 := by
  obtain ⟨s, hrun, hs⟩ := Machine.exists_run_of_exec chatMachine (.started (fun _ => 0) 3)
    [.acceptDone 0 false, .acceptDone 1 false]
    (fun s => (decide (s.Has 2 (·.isOpen = true)),
      ((chatMachine.restrict (ChatServer.BothOpen 0 1)).exec s
        (readsOf 0 (chatPacket [104, 105]))).map fun t => (t.postedTo 0).length))
    (b := (false, some 1)) (by decide +kernel)
  obtain ⟨hclosed, hexec⟩ := Prod.mk.inj hs
  obtain ⟨t, hrun', hone⟩ := Machine.exists_run_of_exec _ s _ _ hexec
  obtain ⟨hagree, hnothing⟩ := broadcasts_agree hrun
  exact ⟨s, t, hrun, hrun', hagree 0 1 _ t hrun', hone,
    fun e u hstep => hnothing e u 2 hstep (of_decide_eq_false hclosed)⟩

end AsioChat
