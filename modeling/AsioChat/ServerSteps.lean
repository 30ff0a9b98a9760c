import AsioChat.Server

/-!
# The Steps of the Server

What each step of the server does, once for all proofs about runs: an inversion of
`process_packet` and of the handlers, which says everything they do, and frame lemmas for
the parts of a session they leave alone.

## Main results

* `ChatServer.processPacket_cases`: everything `process_packet` does, for the three
  kinds of packets.
* `ChatServer.broadcast_eq`: the loop over `session_list_` posts to every session that
  is open, once.
* `ChatServer.step_readDone`, `ChatServer.step_writeDone`: the completions that can fault.
-/

namespace AsioChat

namespace ChatServer

variable {s t : ChatServer} {id : ℕ}

/-! ### Sessions change one at a time -/

/-- Changing one session leaves the others alone. -/
@[simp] theorem getElem?_modifySession (f : Session → Session) (i : ℕ) :
    (s.modifySession id f).sessionList[i]? =
      s.sessionList[i]?.map fun session => if id = i then f session else session :=
  List.getElem?_modify ..

/-- How a change to one session shows in some part of the sessions. -/
theorem map_modifySession_eq {β : Type} (π : Session → β) (s : ChatServer) (id : ℕ)
    {f : Session → Session} {g : β → β} (hf : ∀ session, π (f session) = g (π session)) (i : ℕ) :
    (s.modifySession id f).sessionList[i]?.map π =
      (s.sessionList[i]?.map π).map fun x => if id = i then g x else x := by
  rw [getElem?_modifySession, Option.map_map, Option.map_map]
  congr 1
  funext session
  simp only [Function.comp_apply]
  split
  · exact hf session
  · rfl

/-- A change that leaves some part of a session alone. -/
theorem map_modifySession {β : Type} (π : Session → β) (s : ChatServer) (id : ℕ)
    {f : Session → Session} (hf : ∀ session, π (f session) = π session) (i : ℕ) :
    (s.modifySession id f).sessionList[i]?.map π = s.sessionList[i]?.map π := by
  rw [map_modifySession_eq π s id (g := fun x => x) hf]
  simp only [ite_self, Option.map_id']

/-- `post_accept` changes no session. -/
@[simp] theorem sessionList_postAccept (s : ChatServer) :
    s.postAccept.sessionList = s.sessionList := by
  unfold postAccept
  split <;> rfl

/-- `post_accept` records no call. -/
@[simp] theorem calls_postAccept (s : ChatServer) : s.postAccept.calls = s.calls := by
  unfold postAccept
  split <;> rfl

/-- The loop over `session_list_`, with any change to a session in its body. -/
theorem foldl_modifySession (f : Session → Session) (s : ChatServer) :
    (List.range s.sessionList.length).foldl (fun s i => s.modifySession i f) s =
      { s with sessionList := s.sessionList.map f } := by
  -- after `k` rounds the first `k` sessions are changed
  have hrounds : ∀ k, ∃ l, (List.range k).foldl (fun s i => s.modifySession i f) s =
      { s with sessionList := l } ∧
      ∀ i, l[i]? = s.sessionList[i]?.map fun session => if i < k then f session else session := by
    intro k
    induction k with
    | zero => exact ⟨s.sessionList, rfl, fun i => by simp⟩
    | succ k ih =>
        obtain ⟨l, hfold, hl⟩ := ih
        refine ⟨l.modify k f, ?_, fun i => ?_⟩
        · rw [List.range_succ, List.foldl_append, hfold]
          rfl
        · rw [List.getElem?_modify, hl]
          cases s.sessionList[i]? with
          | none => rfl
          | some session =>
              simp only [Option.map_some, Option.map_eq_map, Option.some.injEq]
              by_cases hlt : i < k
              · rw [if_neg (by omega), if_pos hlt, if_pos (by omega)]
              · by_cases heq : k = i
                · rw [if_pos heq, if_neg hlt, if_pos (by omega)]
                · rw [if_neg heq, if_neg hlt, if_neg (by omega)]
  obtain ⟨l, hfold, hl⟩ := hrounds s.sessionList.length
  rw [hfold]
  congr 1
  refine List.ext_getElem? fun i => ?_
  rw [hl, List.getElem?_map]
  by_cases hlt : i < s.sessionList.length
  · simp only [if_pos hlt]
  · rw [List.getElem?_eq_none (Nat.le_of_not_lt hlt)]
    rfl

/-- **The loop posts to every open session once.** -/
theorem broadcast_eq (size : UInt32) (packet : List UInt8) (s : ChatServer) :
    s.broadcast size packet =
      { s with sessionList := s.sessionList.map fun session =>
        if session.isOpen = true then session.post size packet else session } :=
  foldl_modifySession _ s

/-- A session is found at its index. -/
theorem sessionAt_eq_ok {session : Session} :
    s.sessionAt id = .ok session ↔ s.sessionList[id]? = some session := by
  rw [sessionAt]
  split
  · rename_i h
    simp [h]
  · rename_i h
    simp [h]

end ChatServer

/-! ### What `process_packet` does -/

/-- A request as `process_packet` reads it from a packet. -/
inductive Request
  | login (request : LoginRequest)
  | chat (request : ChatRequest)
  deriving DecidableEq, Repr

/-- The request in a packet, as it is read from there, unless that goes wrong. -/
def Request.ofPacket (data : List UInt8) : Option Request :=
  let header := PacketHeader.ofBytes data
  if header.id = Packets.requestLogin.toId then
    (parseContent LoginRequest.messageType data).toOption.map fun r => .login r.1
  else if header.id = Packets.requestChat.toId then
    (parseContent ChatRequest.messageType data).toOption.map fun r => .chat r.1
  else none

/-- The request in a packet says its identifier. -/
theorem Request.id_of_ofPacket {data : List UInt8} :
    (∀ request, Request.ofPacket data = some (.login request) →
      (PacketHeader.ofBytes data).id = Packets.requestLogin.toId) ∧
    (∀ request, Request.ofPacket data = some (.chat request) →
      (PacketHeader.ofBytes data).id = Packets.requestChat.toId) := by
  simp only [Request.ofPacket]
  split
  · rename_i hlogin
    refine ⟨fun _ _ => hlogin, fun _ h => ?_⟩
    obtain ⟨_, -, hr⟩ := Option.map_eq_some_iff.mp h
    cases hr
  · split
    · rename_i hchat
      refine ⟨fun _ h => ?_, fun _ _ => hchat⟩
      obtain ⟨_, -, hr⟩ := Option.map_eq_some_iff.mp h
      cases hr
    · exact ⟨fun _ h => (nomatch h), fun _ h => (nomatch h)⟩

/-- A session after it was accepted and its first read was started. -/
def Session.accepted (session : Session) : Session :=
  { session with
    toPacketBuffer := session.toPacketBuffer.init, isOpen := true, reading := session.reading + 1 }

/-- A session after a read on it failed and its socket was closed. -/
def Session.closed (session : Session) : Session :=
  { session with isOpen := false, reading := session.reading - 1 }

/-- The `ChatNotify` that answers a chat request on a session. -/
def Session.notice (session : Session) (request : ChatRequest) : ChatNotify :=
  (ChatNotify.cleared.setName session.getName).setMessage request.message

/-- A `REPLY_LOGIN`. -/
def replyPacket (fresh : ℕ → UInt8) : List UInt8 :=
  packetOf fresh Packets.replyLogin.toId.toUInt32 (LoginResponse.cleared.setSuccess true).serialize

/-- A `NOTICE_CHAT`. -/
def noticePacket (fresh : ℕ → UInt8) (notice : ChatNotify) : List UInt8 :=
  packetOf fresh Packets.noticeChat.toId.toUInt32 notice.serialize

/-- The strings of a notice whose size fits into an `int` can be read back. -/
theorem ChatNotify.lengths_lt {notice : ChatNotify} (h : notice.byteSize < 2 ^ 31) :
    notice.name.length < maxStringLen ∧ notice.message.length < maxStringLen := by
  obtain ⟨_ | name, _ | message⟩ := notice
  all_goals
    simp only [byteSize, stringFieldSize, Wire.stringSize] at h
    simp only [ChatNotify.name, ChatNotify.message, Option.getD_none, Option.getD_some,
      List.length_nil, maxStringLen]
    omega

namespace ChatServer

variable {s t : ChatServer} {id : ℕ} {data : List UInt8} {fresh : ℕ → UInt8}

/-- The server after it answered a login: the login is recorded, the name set, the reply
posted. -/
def loggedIn (id : ℕ) (request : LoginRequest) (fresh : ℕ → UInt8) (s : ChatServer) :
    ChatServer :=
  ((s.record (.login id request)).modifySession id (·.setName request.name)).postSend id 14
    (replyPacket fresh)

/-- A login is recorded. -/
@[simp] theorem calls_loggedIn (request : LoginRequest) :
    (s.loggedIn id request fresh).calls = s.calls ++ [.login id request] := rfl

/-- A login changes its own session. -/
theorem getElem?_loggedIn (request : LoginRequest) (i : ℕ) :
    (s.loggedIn id request fresh).sessionList[i]? = s.sessionList[i]?.map fun session =>
      if id = i then (session.setName request.name).post 14 (replyPacket fresh) else session := by
  rw [loggedIn, postSend, getElem?_modifySession, getElem?_modifySession, Option.map_map]
  congr 1
  funext session
  by_cases hid : id = i
  · simp only [Function.comp_apply, if_pos hid]
  · simp only [Function.comp_apply, if_neg hid]

/-- The server after it answered a chat: the chat is recorded, the notice posted to every
open session. -/
def notified (id : ℕ) (request : ChatRequest) (notice : ChatNotify) (fresh : ℕ → UInt8)
    (s : ChatServer) : ChatServer :=
  (s.record (.chat id request (noticePacket fresh notice))).broadcast
    (headerSize + UInt32.ofNat notice.byteSize) (noticePacket fresh notice)

/-- The broadcast, session by session. -/
theorem notified_eq (request : ChatRequest) (notice : ChatNotify) :
    s.notified id request notice fresh = { s with
      sessionList := s.sessionList.map fun session =>
        if session.isOpen = true then
          session.post (headerSize + UInt32.ofNat notice.byteSize) (noticePacket fresh notice)
        else session
      calls := s.calls ++ [.chat id request (noticePacket fresh notice)] } :=
  broadcast_eq _ _ _

/-- A chat is recorded, with its notice. -/
@[simp] theorem calls_notified (request : ChatRequest) (notice : ChatNotify) :
    (s.notified id request notice fresh).calls =
      s.calls ++ [.chat id request (noticePacket fresh notice)] := by
  rw [notified_eq]

/-- A chat changes the open sessions. -/
theorem getElem?_notified (request : ChatRequest) (notice : ChatNotify) (i : ℕ) :
    (s.notified id request notice fresh).sessionList[i]? =
      s.sessionList[i]?.map fun session =>
        if session.isOpen = true then
          session.post (headerSize + UInt32.ofNat notice.byteSize) (noticePacket fresh notice)
        else session := by
  rw [notified_eq, List.getElem?_map]

/-- A chat leaves everything of a session alone but its send side. -/
theorem map_notified {β : Type} (π : Session → β)
    (hpost : ∀ size packet (session : Session), π (session.post size packet) = π session)
    (request : ChatRequest) (notice : ChatNotify) (i : ℕ) :
    (s.notified id request notice fresh).sessionList[i]?.map π = s.sessionList[i]?.map π := by
  rw [getElem?_notified, Option.map_map]
  congr 1
  funext session
  simp only [Function.comp_apply]
  split
  · exact hpost _ _ session
  · rfl

/-- A `REQUEST_LOGIN` sets the name of its session and is answered. -/
theorem processLogin_eq_ok (h : s.processLogin id data fresh = .ok t) :
    ∃ request parsed, parseContent LoginRequest.messageType data = .ok (request, parsed) ∧
      t = s.loggedIn id request fresh := by
  simp only [processLogin, bind, pure, Except.pure] at h
  obtain ⟨r, hparse, h⟩ := Except.exists_of_bind_eq_ok h
  cases h
  exact ⟨r.1, r.2, hparse, rfl⟩

/-- A `REQUEST_CHAT` is answered by a notice to every open session. -/
theorem processChat_eq_ok (h : s.processChat id data fresh = .ok t) :
    ∃ session request parsed,
      parseContent ChatRequest.messageType data = .ok (request, parsed) ∧
      s.sessionList[id]? = some session ∧
      (session.notice request).byteSize < 2 ^ 31 ∧
      t = s.notified id request (session.notice request) fresh := by
  simp only [processChat, bind, pure, Except.pure] at h
  obtain ⟨r, hparse, h⟩ := Except.exists_of_bind_eq_ok h
  obtain ⟨session, hsession, h⟩ := Except.exists_of_bind_eq_ok h
  obtain ⟨n, hsize, h⟩ := Except.exists_of_bind_eq_ok h
  obtain ⟨hlt, rfl⟩ := intSize_eq_ok.mp hsize
  obtain ⟨hname, hmessage⟩ := ChatNotify.lengths_lt hlt
  have hlength := ChatNotify.length_serialize hname hmessage
  refine ⟨session, r.1, r.2, hparse, sessionAt_eq_ok.mp hsession, hlt, ?_⟩
  cases h
  rw [notified, noticePacket, packetOf, Session.notice, hlength]

/-- **What `process_packet` does**: nothing, answer a login, or broadcast a chat. -/
theorem processPacket_cases (h : s.processPacket id data fresh = .ok t) :
    (Request.ofPacket data = none ∧ t = s) ∨
    (∃ request, Request.ofPacket data = some (.login request) ∧
      t = s.loggedIn id request fresh) ∨
    (∃ session request, Request.ofPacket data = some (.chat request) ∧
      s.sessionList[id]? = some session ∧
      (session.notice request).byteSize < 2 ^ 31 ∧
      t = s.notified id request (session.notice request) fresh) := by
  simp only [processPacket] at h
  split at h
  · rename_i hlogin
    obtain ⟨request, parsed, hparse, ht⟩ := processLogin_eq_ok h
    refine .inr (.inl ⟨request, (if_pos hlogin).trans ?_, ht⟩)
    rw [hparse]
    rfl
  · rename_i hlogin
    split at h
    · rename_i hchat
      obtain ⟨session, request, parsed, hparse, hrest⟩ := processChat_eq_ok h
      refine .inr (.inr ⟨session, request, ((if_neg hlogin).trans (if_pos hchat)).trans ?_, hrest⟩)
      rw [hparse]
      rfl
    · rename_i hchat
      exact .inl ⟨(if_neg hlogin).trans (if_neg hchat), (Except.ok.inj h).symm⟩

/-- `process_packet` leaves everything of a session alone but its name and its send side. -/
theorem map_processPacket {β : Type} (π : Session → β)
    (hname : ∀ name (session : Session), π (session.setName name) = π session)
    (hpost : ∀ size packet (session : Session), π (session.post size packet) = π session)
    (h : s.processPacket id data fresh = .ok t) (i : ℕ) :
    t.sessionList[i]?.map π = s.sessionList[i]?.map π := by
  rcases processPacket_cases h with ⟨-, rfl⟩ | ⟨request, -, rfl⟩ | ⟨session, request, -, -, -, rfl⟩
  · rfl
  · rw [getElem?_loggedIn, Option.map_map]
    congr 1
    funext session
    simp only [Function.comp_apply]
    split
    · rw [hpost, hname]
    · rfl
  · exact map_notified π hpost request _ i

/-! ### What the handlers do -/

/-- The server while it handles a successful read: the read is no longer outstanding, and
its bytes are in the buffer. -/
def received (id : ℕ) (buffer : PacketBuffer) (s : ChatServer) : ChatServer :=
  (s.readCompleted id).modifySession id fun session => { session with toPacketBuffer := buffer }

/-- **A successful read** is put into the buffer, the packet it completes is processed, if
it completes one, and the next read is started. -/
theorem step_readDone {bytes : List UInt8} (h : chatMachine.Step s (.readDone id bytes fresh) t) :
    ∃ session buffer exit u, s.sessionList[id]? = some session ∧
      session.toPacketBuffer.receive .server bytes = .ok (buffer, exit) ∧
      ((exit.packets = [] ∧ u = s.received id buffer) ∨
        ∃ data, exit = .processed data ∧
          (s.received id buffer).processPacket id data fresh = .ok u) ∧
      t = u.postReceive id := by
  obtain ⟨⟨⟨session, hsession, -⟩, -⟩, h⟩ := h
  have hat : (s.readCompleted id).sessionAt id =
      .ok { session with reading := session.reading - 1 } :=
    sessionAt_eq_ok.mpr (by
      rw [readCompleted, getElem?_modifySession, hsession, Option.map_some, if_pos rfl])
  simp only [chatMachine, step, handleReceive, hat, bind, pure, Except.pure] at h
  obtain ⟨_, hsession', h⟩ := Except.exists_of_bind_eq_ok h
  cases hsession'
  obtain ⟨⟨buffer, exit⟩, hreceive, h⟩ := Except.exists_of_bind_eq_ok h
  refine ⟨session, buffer, exit, ?_⟩
  cases exit with
  | waiting => exact ⟨_, hsession, hreceive, .inl ⟨rfl, rfl⟩, (Except.ok.inj h).symm⟩
  | dropped => exact ⟨_, hsession, hreceive, .inl ⟨rfl, rfl⟩, (Except.ok.inj h).symm⟩
  | processed data =>
      obtain ⟨u, hprocess, h⟩ := Except.exists_of_bind_eq_ok h
      exact ⟨u, hsession, hreceive, .inr ⟨data, rfl, hprocess⟩, (Except.ok.inj h).symm⟩

/-- **A completed write** changes nothing but the send side of its session. -/
theorem step_writeDone (h : chatMachine.Step s (.writeDone id) t) :
    ∃ session sender, s.sessionList[id]? = some session ∧
      Session.handleWrite { session.toSender with completed := session.completed + 1 } =
        .ok sender ∧
      t = s.modifySession id fun session => { session with toSender := sender } := by
  obtain ⟨-, h⟩ := h
  simp only [chatMachine, step, handleWrite, bind, pure, Except.pure] at h
  obtain ⟨session, hsession, h⟩ := Except.exists_of_bind_eq_ok h
  obtain ⟨sender, hwrite, h⟩ := Except.exists_of_bind_eq_ok h
  exact ⟨session, sender, sessionAt_eq_ok.mp hsession, hwrite, (Except.ok.inj h).symm⟩

/-- The sessions before `handle_accept` calls `post_accept`. -/
theorem sessionList_accepted (s : ChatServer) (id : ℕ) :
    (postReceive id (((s.acceptCompleted id false).record (.accepted id)).modifySession id
      fun session => { session with toPacketBuffer := session.toPacketBuffer.init })).sessionList =
      (s.modifySession id Session.accepted).sessionList := by
  simp only [postReceive, record, modifySession, acceptCompleted, if_true, List.modify_modify_eq]
  rfl

/-- A completed `async_accept` that succeeded changes its session. -/
theorem sessionList_acceptDone (s : ChatServer) (id : ℕ) :
    ((s.acceptCompleted id false).handleAccept id false).sessionList =
      (s.modifySession id Session.accepted).sessionList := by
  rw [handleAccept, if_pos rfl, sessionList_postAccept, sessionList_accepted]

/-- The sessions before `close_session` looks whether to call `post_accept`. -/
theorem sessionList_closeSocket (s : ChatServer) (id : ℕ) :
    ((s.readCompleted id).closeSocket id).sessionList =
      (s.modifySession id Session.closed).sessionList := by
  simp only [closeSocket, record, modifySession, readCompleted, List.modify_modify_eq]
  rfl

/-- A failed read changes its session. -/
theorem sessionList_readFailed (s : ChatServer) (id : ℕ) :
    ((s.readCompleted id).handleReceiveError id).sessionList =
      (s.modifySession id Session.closed).sessionList := by
  simp only [handleReceiveError, closeSession]
  split
  · rw [sessionList_postAccept, sessionList_closeSocket]
  · rw [sessionList_closeSocket]

/-! ### What connecting and reading leave alone -/

/-- A part of a session that neither its connection nor its receive buffer is part of. -/
def Inert {β : Type} (π : Session → β) : Prop :=
  ∀ (session : Session) (buffer : PacketBuffer) (isOpen : Bool) (reading : ℕ),
    π { session with toPacketBuffer := buffer, isOpen := isOpen, reading := reading } = π session

variable {β : Type} {π : Session → β}

/-- Starting a read leaves it alone. -/
theorem Inert.postReceive (hπ : Inert π) (s : ChatServer) (id i : ℕ) :
    (s.postReceive id).sessionList[i]?.map π = s.sessionList[i]?.map π :=
  map_modifySession π s id (fun session => hπ session session.toPacketBuffer _ _) i

/-- Putting a read into the buffer leaves it alone. -/
theorem Inert.received (hπ : Inert π) (s : ChatServer) (id : ℕ) (buffer : PacketBuffer) (i : ℕ) :
    (s.received id buffer).sessionList[i]?.map π = s.sessionList[i]?.map π :=
  (map_modifySession π _ id (fun session => hπ session _ _ _) i).trans
    (map_modifySession π s id (fun session => hπ session session.toPacketBuffer _ _) i)

/-- A completed `async_accept` leaves the rest of the sessions alone. -/
theorem Inert.acceptDone (hπ : Inert π) (s : ChatServer) (id : ℕ) (error : Bool) (i : ℕ) :
    ((s.acceptCompleted id error).handleAccept id error).sessionList[i]?.map π =
      s.sessionList[i]?.map π := by
  cases error with
  | true => rfl
  | false =>
      rw [sessionList_acceptDone]
      exact map_modifySession π s id (fun session => hπ session _ _ _) i

/-- A failed read leaves the rest of the sessions alone. -/
theorem Inert.readFailed (hπ : Inert π) (s : ChatServer) (id i : ℕ) :
    ((s.readCompleted id).handleReceiveError id).sessionList[i]?.map π =
      s.sessionList[i]?.map π := by
  rw [sessionList_readFailed]
  exact map_modifySession π s id (fun session => hπ session session.toPacketBuffer _ _) i

/-- A completed `async_accept` records an accept if it succeeded. -/
theorem calls_acceptDone (s : ChatServer) (id : ℕ) (error : Bool) :
    ((s.acceptCompleted id error).handleAccept id error).calls =
      s.calls ++ if error = false then [.accepted id] else [] := by
  cases error with
  | true => exact (List.append_nil _).symm
  | false =>
      simp only [handleAccept, acceptCompleted, if_true, calls_postAccept]
      rfl

/-- A failed read records a close. -/
theorem calls_readFailed (s : ChatServer) (id : ℕ) :
    ((s.readCompleted id).handleReceiveError id).calls = s.calls ++ [.closed id] := by
  simp only [handleReceiveError, closeSession]
  split
  · rw [calls_postAccept]
    rfl
  · rfl

/-- What a step can record: nothing, an accept, the end of a connection, or the request in the
packet that a read completes. -/
inductive Records (s : ChatServer) : ServerEvent → List Call → Prop
  | nothing (e : ServerEvent) : Records s e []
  | accepted (id : ℕ) : Records s (.acceptDone id false) [.accepted id]
  | closed (id : ℕ) : Records s (.readFailed id) [.closed id]
  | login (id : ℕ) (bytes : List UInt8) (fresh : ℕ → UInt8) (session : Session)
      (buffer : PacketBuffer) (data : List UInt8) (request : LoginRequest)
      (hsession : s.sessionList[id]? = some session)
      (hreceive : session.toPacketBuffer.receive .server bytes = .ok (buffer, .processed data))
      (hrequest : Request.ofPacket data = some (.login request)) :
      Records s (.readDone id bytes fresh) [.login id request]
  | chat (id : ℕ) (bytes : List UInt8) (fresh : ℕ → UInt8) (session : Session)
      (buffer : PacketBuffer) (data : List UInt8) (request : ChatRequest) (packet : List UInt8)
      (hsession : s.sessionList[id]? = some session)
      (hreceive : session.toPacketBuffer.receive .server bytes = .ok (buffer, .processed data))
      (hrequest : Request.ofPacket data = some (.chat request)) :
      Records s (.readDone id bytes fresh) [.chat id request packet]

/-- **What a step records.** -/
theorem records_of_step {e : ServerEvent} (h : chatMachine.Step s e t) :
    ∃ new, t.calls = s.calls ++ new ∧ s.Records e new := by
  cases e with
  | acceptDone id error =>
      obtain ⟨-, h⟩ := h
      cases h
      refine ⟨_, calls_acceptDone s id error, ?_⟩
      cases error with
      | true => exact .nothing _
      | false => exact .accepted id
  | readDone id bytes fresh =>
      obtain ⟨session, buffer, _, u, hsession, hreceive, hu, rfl⟩ := step_readDone h
      have hnone : ∃ new, (s.received id buffer).calls = s.calls ++ new ∧
          s.Records (.readDone id bytes fresh) new :=
        ⟨[], (List.append_nil _).symm, .nothing _⟩
      rcases hu with ⟨-, rfl⟩ | ⟨data, rfl, hprocess⟩
      · exact hnone
      · rcases processPacket_cases hprocess with
          ⟨-, rfl⟩ | ⟨request, hrequest, rfl⟩ | ⟨speaker, request, hrequest, -, -, rfl⟩
        · exact hnone
        · have hcalls : ((s.received id buffer).loggedIn id request fresh).calls =
              s.calls ++ [.login id request] := calls_loggedIn request
          exact ⟨_, hcalls,
            .login id bytes fresh session buffer data request hsession hreceive hrequest⟩
        · have hcalls : ((s.received id buffer).notified id request (speaker.notice request)
              fresh).calls = s.calls ++
                [.chat id request (noticePacket fresh (speaker.notice request))] :=
            calls_notified request _
          exact ⟨_, hcalls,
            .chat id bytes fresh session buffer data request _ hsession hreceive hrequest⟩
  | readFailed id =>
      obtain ⟨-, h⟩ := h
      cases h
      exact ⟨_, calls_readFailed s id, .closed id⟩
  | writeDone id =>
      obtain ⟨session, sender, -, -, rfl⟩ := step_writeDone h
      exact ⟨[], (List.append_nil _).symm, .nothing _⟩

/-- **Calls are only added.** -/
theorem calls_prefix_of_step {e : ServerEvent} (h : chatMachine.Step s e t) :
    s.calls <+: t.calls := by
  obtain ⟨new, hcalls, -⟩ := records_of_step h
  exact ⟨new, hcalls.symm⟩

end ChatServer

end AsioChat
