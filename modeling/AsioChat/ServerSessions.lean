import AsioChat.Receiver
import AsioChat.SendRuns
import AsioChat.ServerSlots

/-!
# One Session of the Server

`Receiver` and `SendRuns` look at the two sides of a session on their own: the receive
side under any sequence of connections and reads, the send side under any sequence of
posts and completions. Here the server is brought down to them: every run of the server,
seen from one session, is a run of that session's receive side and of its send side. What
was proved of the two sides therefore holds of every session in every run of the server.

## Main results

* `exists_receiver_run`: the receive side; and the requests the server records for the
  session are those in the packets its receive side dispatched, in order.
* `exists_sender_run`: the send side.
* `packetBufferMark_le_of_run`, `started_prefix_posted_of_run`: two consequences, for
  every session in every run.
-/

namespace AsioChat

/-! ### The receive side -/

/-- The receive side of a session. -/
def Session.receiveSide (session : Session) : PacketBuffer × Bool :=
  (session.toPacketBuffer, session.isOpen)

/-- What a completion is to the receive side of one session. -/
def receiverEvent (i : ℕ) : ServerEvent → Option ReceiverEvent
  | .acceptDone id false => if id = i then some .connect else none
  | .readDone id bytes _ => if id = i then some (.read bytes) else none
  | .readFailed id => if id = i then some .disconnect else none
  | _ => none

/-- The request a call records, if it is one of the session. -/
def Call.request (i : ℕ) : Call → Option Request
  | login id request => if id = i then some (.login request) else none
  | chat id request _ => if id = i then some (.chat request) else none
  | _ => none

/-- The request in a dispatched packet. -/
def Dispatch.request (d : Dispatch) : Option Request := Request.ofPacket d.data

namespace ChatServer

variable {s t : ChatServer} {e : ServerEvent} {i : ℕ}

/-- The receiver is the receive side of the session, and the requests recorded for the
session are those the receiver dispatched. -/
structure Receives (i : ℕ) (s : ChatServer) (r : Receiver) : Prop where
  side : s.sessionList[i]?.map Session.receiveSide = some (r.buffer, r.isOpen)
  requests : s.calls.filterMap (Call.request i) = r.dispatched.filterMap Dispatch.request

/-- A step that leaves the receive side of the session and its requests alone. -/
theorem Receives.of_eq {r : Receiver} (h : Receives i s r)
    (hside : t.sessionList[i]?.map Session.receiveSide =
      s.sessionList[i]?.map Session.receiveSide)
    (hrequests : t.calls.filterMap (Call.request i) = s.calls.filterMap (Call.request i)) :
    Receives i t r :=
  ⟨hside.trans h.side, hrequests.trans h.requests⟩

/-- A change to the session of which its receive side is the image. -/
theorem Receives.side_modifySession {r : Receiver} (h : Receives i s r)
    {f : Session → Session} {g : PacketBuffer × Bool → PacketBuffer × Bool}
    (hf : ∀ session, (f session).receiveSide = g session.receiveSide) :
    (s.modifySession i f).sessionList[i]?.map Session.receiveSide =
      some (g (r.buffer, r.isOpen)) := by
  rw [map_modifySession_eq Session.receiveSide s i hf, h.side, Option.map_some, if_pos rfl]

/-- A change to another session. -/
theorem map_modifySession_of_ne {β : Type} (π : Session → β) (s : ChatServer) {id : ℕ}
    (f : Session → Session) (hid : id ≠ i) :
    (s.modifySession id f).sessionList[i]?.map π = s.sessionList[i]?.map π := by
  simp only [getElem?_modifySession, if_neg hid, Option.map_id']

/-- What `process_packet` records: the request in the packet. -/
theorem filterMap_request_processPacket {id : ℕ} {data : List UInt8} {fresh : ℕ → UInt8}
    (h : s.processPacket id data fresh = .ok t) :
    t.calls.filterMap (Call.request i) = s.calls.filterMap (Call.request i) ++
      if id = i then (Request.ofPacket data).toList else [] := by
  rcases processPacket_cases h with
    ⟨hnone, rfl⟩ | ⟨request, hlogin, rfl⟩ | ⟨session, request, hchat, -, -, rfl⟩
  · simp [hnone]
  · rw [hlogin, calls_loggedIn, List.filterMap_append]
    by_cases hid : id = i <;> simp [Call.request, hid]
  · rw [hchat, calls_notified, List.filterMap_append]
    by_cases hid : id = i <;> simp [Call.request, hid]

/-- A step records a request for a session only when it reads from it. -/
theorem requests_of_step (hstep : chatMachine.Step s e t)
    (hread : ∀ bytes fresh, e ≠ .readDone i bytes fresh) :
    t.calls.filterMap (Call.request i) = s.calls.filterMap (Call.request i) := by
  obtain ⟨new, hcalls, hrecords⟩ := records_of_step hstep
  rw [hcalls, List.filterMap_append, List.append_right_eq_self]
  cases hrecords with
  | nothing e => rfl
  | accepted id => rfl
  | closed id => rfl
  | login id bytes fresh session buffer data request =>
      have hid : id ≠ i := fun heq => hread bytes fresh (heq ▸ rfl)
      simp [Call.request, hid]
  | chat id bytes fresh session buffer data request packet =>
      have hid : id ≠ i := fun heq => hread bytes fresh (heq ▸ rfl)
      simp [Call.request, hid]

/-- A read that completed, up to the next one: its bytes are in the buffer, and the packet
it completes is processed. -/
theorem receiveSide_readDone {u : ChatServer} {id : ℕ} {fresh : ℕ → UInt8}
    {buffer : PacketBuffer} {exit : ReceiveExit}
    (hu : (exit.packets = [] ∧ u = s.received id buffer) ∨ ∃ data, exit = .processed data ∧
      (s.received id buffer).processPacket id data fresh = .ok u) :
    (∀ i : ℕ, (u.postReceive id).sessionList[i]?.map Session.receiveSide =
      (s.sessionList[i]?.map Session.receiveSide).map fun side =>
        if id = i then (buffer, side.2) else side) ∧
    (u.postReceive id).calls.filterMap (Call.request i) = s.calls.filterMap (Call.request i) ++
      if id = i then exit.packets.filterMap Request.ofPacket else [] := by
  have hreceived : ∀ i : ℕ, (s.received id buffer).sessionList[i]?.map Session.receiveSide =
      (s.sessionList[i]?.map Session.receiveSide).map fun side =>
        if id = i then (buffer, side.2) else side := fun i => by
    have hdone := map_modifySession Session.receiveSide s id
      (f := fun session => { session with reading := session.reading - 1 }) (fun _ => rfl) i
    rw [received, map_modifySession_eq Session.receiveSide _ id
      (g := fun side => (buffer, side.2)) (fun _ => rfl), readCompleted, hdone]
  have hnext : ∀ i : ℕ, (u.postReceive id).sessionList[i]?.map Session.receiveSide =
      u.sessionList[i]?.map Session.receiveSide :=
    map_modifySession Session.receiveSide u id fun _ => rfl
  rcases hu with ⟨hnone, rfl⟩ | ⟨data, rfl, hprocess⟩
  · refine ⟨fun i => (hnext i).trans (hreceived i), ?_⟩
    rw [hnone, List.filterMap_nil, ite_self, List.append_nil]
    rfl
  · have hside := map_processPacket Session.receiveSide (fun _ _ => rfl) (fun _ _ _ => rfl) hprocess
    refine ⟨fun i => (hnext i).trans ((hside i).trans (hreceived i)), ?_⟩
    refine (filterMap_request_processPacket hprocess).trans ?_
    rw [ReceiveExit.packets, List.filterMap_cons, List.filterMap_nil]
    cases Request.ofPacket data <;> rfl

/-- The session agrees with the receiver. -/
theorem Receives.side_eq {r : Receiver} (h : Receives i s r) {session : Session}
    (hsession : s.sessionList[i]? = some session) :
    session.toPacketBuffer = r.buffer ∧ session.isOpen = r.isOpen := by
  have hside := h.side
  rw [hsession] at hside
  exact Prod.mk.inj (Option.some.inj hside)

/-- Whether the session is open is whether the receiver is. -/
theorem Receives.isOpen_eq {r : Receiver} (h : Receives i s r) {b : Bool}
    (hhas : s.Has i (·.isOpen = b)) : r.isOpen = b := by
  obtain ⟨session, hsession, hopen⟩ := hhas
  exact (h.side_eq hsession).2.symm.trans hopen

/-- A completed `async_accept` connects the receiver, if it is the session's. -/
theorem Receives.acceptDone {r : Receiver} (h : Receives i s r) {id : ℕ} {error : Bool}
    (hstep : chatMachine.Step s (.acceptDone id error) t) :
    ∃ q, (receiverMachine .server).Run r (receiverEvent i (.acceptDone id error)).toList q ∧
      Receives i t q := by
  obtain ⟨⟨-, hclosed⟩, hstep⟩ := hstep
  cases hstep
  have hrequests : ((s.acceptCompleted id error).handleAccept id error).calls.filterMap
      (Call.request i) = s.calls.filterMap (Call.request i) := by
    rw [calls_acceptDone, List.filterMap_append]
    cases error <;> exact List.append_nil _
  cases error with
  | true => exact ⟨r, .nil r, h.of_eq rfl hrequests⟩
  | false =>
      by_cases hid : id = i
      · subst hid
        have hisOpen := h.isOpen_eq (hclosed rfl)
        rw [receiverEvent, if_pos rfl]
        refine ⟨_, .cons ⟨⟨hisOpen, fun h => nomatch h⟩, rfl⟩ (.nil _), ?_,
          hrequests.trans h.requests⟩
        rw [sessionList_acceptDone]
        exact h.side_modifySession (g := fun side => (side.1.init, true)) fun _ => rfl
      · rw [receiverEvent, if_neg hid]
        refine ⟨r, .nil r, h.of_eq ?_ hrequests⟩
        rw [sessionList_acceptDone]
        exact map_modifySession_of_ne Session.receiveSide s _ hid

/-- A completed read is one of the receiver, if it is the session's. -/
theorem Receives.readDone {r : Receiver} (h : Receives i s r) {id : ℕ} {bytes : List UInt8}
    {fresh : ℕ → UInt8} (hopen : s.Has id (·.isOpen = true))
    (hstep : chatMachine.Step s (.readDone id bytes fresh) t) :
    ∃ q, (receiverMachine .server).Run r (receiverEvent i (.readDone id bytes fresh)).toList q ∧
      Receives i t q := by
  have hlength : bytes.length ≤ Side.server.receiveBufferLen := hstep.1.2
  obtain ⟨session, buffer, exit, u, hsession, hreceive, hu, rfl⟩ := step_readDone hstep
  obtain ⟨hsides, hrequests⟩ := receiveSide_readDone (i := i) hu
  have hside := hsides i
  rw [h.side, Option.map_some] at hside
  by_cases hid : id = i
  · subst hid
    have hread : (receiverMachine .server).Step r (.read bytes) (r.record bytes buffer exit) := by
      refine ⟨⟨h.isOpen_eq hopen, hlength⟩, ?_⟩
      rw [(h.side_eq hsession).1] at hreceive
      simp only [receiverMachine, Receiver.step, hreceive, bind, Except.bind, pure, Except.pure]
    have hrecord : (r.record bytes buffer exit).buffer = buffer := by cases exit <;> rfl
    rw [receiverEvent, if_pos rfl]
    refine ⟨_, .cons hread (.nil _), ?_, ?_⟩
    · rw [hside, if_pos rfl, hrecord, Receiver.isOpen_record]
    · rw [hrequests, if_pos rfl, Receiver.dispatched_record, List.filterMap_append,
        List.filterMap_map, h.requests]
      rfl
  · rw [receiverEvent, if_neg hid]
    rw [if_neg hid] at hside hrequests
    exact ⟨r, .nil r, hside, hrequests.trans ((List.append_nil _).trans h.requests)⟩

/-- A failed read disconnects the receiver, if it is the session's. -/
theorem Receives.readFailed {r : Receiver} (h : Receives i s r) {id : ℕ}
    (hopen : s.Has id (·.isOpen = true)) (hstep : chatMachine.Step s (.readFailed id) t) :
    ∃ q, (receiverMachine .server).Run r (receiverEvent i (.readFailed id)).toList q ∧
      Receives i t q := by
  obtain ⟨-, hstep⟩ := hstep
  cases hstep
  have hrequests : ((s.readCompleted id).handleReceiveError id).calls.filterMap
      (Call.request i) = s.calls.filterMap (Call.request i) := by
    rw [calls_readFailed, List.filterMap_append]
    exact List.append_nil _
  by_cases hid : id = i
  · subst hid
    rw [receiverEvent, if_pos rfl]
    refine ⟨_, .cons ⟨h.isOpen_eq hopen, rfl⟩ (.nil _), ?_, hrequests.trans h.requests⟩
    rw [sessionList_readFailed]
    exact h.side_modifySession (g := fun side => (side.1, false)) fun _ => rfl
  · rw [receiverEvent, if_neg hid]
    refine ⟨r, .nil r, h.of_eq ?_ hrequests⟩
    rw [sessionList_readFailed]
    exact map_modifySession_of_ne Session.receiveSide s _ hid

/-- **Every step of the server is a step of the session's receive side, or none.** -/
theorem Receives.step {r : Receiver} (h : Receives i s r)
    (hreading : ∀ id, s.Has id (0 < ·.reading) → s.Has id (·.isOpen = true))
    (hstep : chatMachine.Step s e t) :
    ∃ q, (receiverMachine .server).Run r (receiverEvent i e).toList q ∧ Receives i t q := by
  cases e with
  | acceptDone id error => exact h.acceptDone hstep
  | readDone id bytes fresh => exact h.readDone (hreading id hstep.1.1) hstep
  | readFailed id => exact h.readFailed (hreading id hstep.1) hstep
  | writeDone id =>
      obtain ⟨-, sender, -, -, rfl⟩ := step_writeDone hstep
      have hside := map_modifySession Session.receiveSide s id
        (f := fun session => { session with toSender := sender }) (fun _ => rfl) i
      exact ⟨r, .nil r, h.of_eq hside rfl⟩

/-- The sessions that `init` constructs. -/
theorem getElem?_sessionList_started (mark : ℕ → UInt32) {n : ℕ} (hi : i < n) :
    (started mark n).sessionList[i]? = some (.constructed (mark i)) := by
  rw [started, start, sessionList_postAccept]
  simp [constructed, init, hi]

/-- **Every run of the server is a run of the receive side of each session.** -/
theorem exists_receiver_run {mark : ℕ → UInt32} {n : ℕ} {es : List ServerEvent}
    (h : chatMachine.Run (started mark n) es s) (hi : i < n) :
    ∃ r, (receiverMachine .server).Run (.initial (mark i)) (es.filterMap (receiverEvent i)) r ∧
      Receives i s r := by
  refine h.simulation (R := Receives i) ⟨?_, ?_⟩ ?_
  · rw [getElem?_sessionList_started mark hi]
    rfl
  · rw [started, start, calls_postAccept]
    rfl
  · intro _ s e t _ r hrun _ hrel hstep
    exact hrel.step (fun id => isOpen_of_reading hrun id) hstep

/-! ### The send side -/

/-- The sender is the send side of the session. -/
def Sends (i : ℕ) (s : ChatServer) (q : Sender) : Prop :=
  s.sessionList[i]?.map Session.toSender = some q

/-- The send side of a session is apart from its connection and buffer. -/
theorem inert_toSender : Inert Session.toSender := fun _ _ _ _ => rfl

/-- What `process_packet` posts to the session. -/
theorem Sends.processPacket {q : Sender} (h : Sends i s q) {id : ℕ} {data : List UInt8}
    {fresh : ℕ → UInt8} (hprocess : s.processPacket id data fresh = .ok t) :
    ∃ es q', sessionSendMachine.Run q es q' ∧ Sends i t q' := by
  have hpost : ∀ size packet, sessionSendMachine.Run q [.post packet size]
      (Session.postSend false size (some packet) q) := fun _ _ => .cons ⟨trivial, rfl⟩ (.nil _)
  obtain ⟨target, htarget, rfl⟩ := Option.map_eq_some_iff.mp h
  rcases processPacket_cases hprocess with
    ⟨-, rfl⟩ | ⟨request, -, rfl⟩ | ⟨session, request, -, -, -, rfl⟩
  · exact ⟨[], _, .nil _, h⟩
  · by_cases hid : id = i
    · refine ⟨_, _, hpost 14 (replyPacket fresh), ?_⟩
      simp only [Sends, getElem?_loggedIn, htarget, Option.map_some, if_pos hid]
      rfl
    · refine ⟨[], _, .nil _, ?_⟩
      simp only [Sends, getElem?_loggedIn, htarget, Option.map_some, if_neg hid]
  · by_cases hopen : target.isOpen = true
    · refine ⟨_, _, hpost (headerSize + UInt32.ofNat (session.notice request).byteSize)
        (noticePacket fresh (session.notice request)), ?_⟩
      simp only [Sends, getElem?_notified, htarget, Option.map_some, if_pos hopen]
      rfl
    · refine ⟨[], _, .nil _, ?_⟩
      simp only [Sends, getElem?_notified, htarget, Option.map_some, if_neg hopen]

/-- **Every step of the server is some steps of the session's send side.** -/
theorem Sends.step {q : Sender} (h : Sends i s q) (hstep : chatMachine.Step s e t) :
    ∃ es q', sessionSendMachine.Run q es q' ∧ Sends i t q' := by
  cases e with
  | acceptDone id error =>
      obtain ⟨-, hstep⟩ := hstep
      cases hstep
      exact ⟨[], q, .nil q, (inert_toSender.acceptDone s id error i).trans h⟩
  | readDone id bytes fresh =>
      obtain ⟨_, buffer, _, u, -, -, hu, rfl⟩ := step_readDone hstep
      have hreceived : Sends i (s.received id buffer) q :=
        (inert_toSender.received s id buffer i).trans h
      rcases hu with ⟨-, rfl⟩ | ⟨data, -, hprocess⟩
      · exact ⟨[], q, .nil q, (inert_toSender.postReceive _ id i).trans hreceived⟩
      · obtain ⟨es, q', hrun, hsends⟩ := hreceived.processPacket hprocess
        exact ⟨es, q', hrun, (inert_toSender.postReceive u id i).trans hsends⟩
  | readFailed id =>
      obtain ⟨-, hstep⟩ := hstep
      cases hstep
      exact ⟨[], q, .nil q, (inert_toSender.readFailed s id i).trans h⟩
  | writeDone id =>
      obtain ⟨target, htarget, henabled⟩ := hstep.1
      obtain ⟨session, sender, hsession, hwrite, rfl⟩ := step_writeDone hstep
      rw [hsession] at htarget
      cases htarget
      by_cases hid : id = i
      · subst hid
        rw [Sends, hsession] at h
        cases h
        refine ⟨[.complete], sender, .cons ⟨henabled, hwrite⟩ (.nil _), ?_⟩
        simp only [Sends, getElem?_modifySession, hsession, Option.map_some, if_true]
      · exact ⟨[], q, .nil q, (map_modifySession_of_ne Session.toSender s _ hid).trans h⟩

/-- **Every run of the server is a run of the send side of each session.** -/
theorem exists_sender_run {mark : ℕ → UInt32} {n : ℕ} {es : List ServerEvent}
    (h : chatMachine.Run (started mark n) es s) (hi : i < n) :
    ∃ es' q, sessionSendMachine.Run .initial es' q ∧ Sends i s q := by
  refine h.exists_run (R := Sends i) ?_ fun _ _ _ _ hsends hstep => hsends.step hstep
  rw [Sends, getElem?_sessionList_started mark hi]
  rfl

end ChatServer

/-! ### Every session in every run -/

variable {mark : ℕ → UInt32} {n i : ℕ} {es : List ServerEvent} {s : ChatServer} {session : Session}

/-- **A read never inserts outside the buffer**: in every run, the mark of an open session
lies within its buffer. -/
theorem packetBufferMark_le_of_run (h : chatMachine.Run (.started mark n) es s)
    (hsession : s.sessionList[i]? = some session) (hopen : session.isOpen = true) :
    session.packetBufferMark.toNat ≤ session.packetBuffer.length := by
  obtain ⟨r, hrun, hrel⟩ :=
    ChatServer.exists_receiver_run h (ChatServer.lt_of_sessionList h hsession)
  obtain ⟨hbuffer, hisOpen⟩ := hrel.side_eq hsession
  obtain ⟨stale, hholds⟩ := (Receiver.inv_of_run hrun).holds (hisOpen.symm.trans hopen)
  rw [hbuffer, hholds.mark, hholds.buffer, List.length_append]
  exact Nat.le_add_right _ _

/-- **What is written to a client is what was posted to its session**, in order and whole,
up to some point; and a write is in flight exactly when the queue is not empty. -/
theorem started_prefix_posted_of_run (h : chatMachine.Run (.started mark n) es s)
    (hsession : s.sessionList[i]? = some session) :
    session.started <+: session.posted ∧ session.toSender.Flowing := by
  obtain ⟨es', q, hrun, hsends⟩ :=
    ChatServer.exists_sender_run h (ChatServer.lt_of_sessionList h hsession)
  rw [ChatServer.Sends, hsession] at hsends
  cases hsends
  have hinv := Session.sendInv_of_run hrun
  exact ⟨hinv.inv.started, hinv.flowing⟩

end AsioChat
