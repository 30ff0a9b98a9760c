import AsioChat.Broadcast

/-!
# Bodies That Do Not Parse

`process_packet` throws away what `ParseFromArray` returns. A `REQUEST_LOGIN` whose body is
malformed, truncated or without its name is therefore answered like any other: whatever was
read of the name becomes the name of the session, and the reply says success. A
`REQUEST_CHAT` of that kind goes out as a notice, to every session that is open.

## Main results

* `untouched_iff`: such a request leaves the sessions alone only if it is a chat and no
  session is open.
* `touched_of_step`: in no run of the server it does.
-/

namespace AsioChat

/-- A request with a body on which `ParseFromArray` returns false. -/
def Unparsed (data : List UInt8) : Prop :=
  let header := PacketHeader.ofBytes data
  (header.id = Packets.requestLogin.toId ∧
    (parseContent LoginRequest.messageType data).toOption.map Prod.snd = some false) ∨
  (header.id = Packets.requestChat.toId ∧
    (parseContent ChatRequest.messageType data).toOption.map Prod.snd = some false)

instance (data : List UInt8) : Decidable (Unparsed data) :=
  inferInstanceAs (Decidable (_ ∨ _))

/-- A request is one that does not parse only if it is a request. -/
theorem Unparsed.exists_request {data : List UInt8} (h : Unparsed data) :
    ∃ request, Request.ofPacket data = some request := by
  rcases h with ⟨hlogin, hparse⟩ | ⟨hchat, hparse⟩
  · obtain ⟨r, hr, -⟩ := Option.map_eq_some_iff.mp hparse
    exact ⟨_, (if_pos hlogin).trans (Option.map_eq_some_iff.mpr ⟨r, hr, rfl⟩)⟩
  · obtain ⟨r, hr, -⟩ := Option.map_eq_some_iff.mp hparse
    refine ⟨_, (if_neg ?_).trans ((if_pos hchat).trans (Option.map_eq_some_iff.mpr ⟨r, hr, rfl⟩))⟩
    rw [hchat]
    decide

namespace ChatServer

variable {s t : ChatServer} {id : ℕ} {data : List UInt8} {fresh : ℕ → UInt8}

/-- The name and the send side of a session: its queue, the writes started on its socket and
the packets passed to `post_send`. -/
def nameAndSender (session : Session) : List UInt8 × Sender := (session.name, session.toSender)

/-- No session has another name, another queue, a new write or a new packet. -/
def Untouched (s t : ChatServer) : Prop :=
  ∀ i : ℕ, t.sessionList[i]?.map nameAndSender = s.sessionList[i]?.map nameAndSender

/-- The name and the send side of a session are apart from connection and buffer. -/
theorem inert_nameAndSender : Inert nameAndSender := fun _ _ _ _ => rfl

/-- A session that was handed a packet is not as it was. -/
theorem nameAndSender_post_ne (size : UInt32) (packet : List UInt8) (session session' : Session)
    (hposted : session'.posted = session.posted) :
    nameAndSender (session'.post size packet) ≠ nameAndSender session := by
  intro heq
  have hlength := congrArg (fun x => x.2.posted.length) heq
  simp only [nameAndSender, posted_post, hposted, List.length_append] at hlength
  exact absurd hlength (by simp)

/-- A notice touches the sessions exactly if one of them is open. -/
theorem untouched_notified_iff (request : ChatRequest) (notice : ChatNotify) :
    s.Untouched (s.notified id request notice fresh) ↔
      ∀ session ∈ s.sessionList, session.isOpen = false := by
  constructor
  · intro huntouched session hmem
    obtain ⟨i, hi⟩ := List.mem_iff_getElem?.mp hmem
    have hi' := huntouched i
    rw [getElem?_notified, hi] at hi'
    by_contra hopen
    simp only [Option.map_some, if_pos (Bool.not_eq_false _ ▸ hopen), Option.some.injEq] at hi'
    exact nameAndSender_post_ne _ _ session session rfl hi'
  · intro hclosed i
    rw [getElem?_notified]
    cases hi : s.sessionList[i]? with
    | none => rfl
    | some session =>
        have hsession := hclosed session (List.mem_of_getElem? hi)
        rw [Option.map_some, if_neg (by simp [hsession])]

/-- What a request leaves alone: everything if it is a chat and no session is open, and
otherwise not. -/
theorem untouched_processPacket_iff {session : Session} {request : Request}
    (hsession : s.sessionList[id]? = some session) (hrequest : Request.ofPacket data = some request)
    (h : s.processPacket id data fresh = .ok t) :
    s.Untouched t ↔ (PacketHeader.ofBytes data).id = Packets.requestChat.toId ∧
      ∀ session ∈ s.sessionList, session.isOpen = false := by
  rcases processPacket_cases h with
    ⟨hnone, -⟩ | ⟨request, hlogin, rfl⟩ | ⟨session, request, hchat, -, -, rfl⟩
  · rw [hnone] at hrequest
    cases hrequest
  · have hid := Request.id_of_ofPacket.1 request hlogin
    refine iff_of_false (fun huntouched => ?_) fun ⟨hchat, _⟩ => ?_
    · have hi := huntouched id
      rw [getElem?_loggedIn, hsession, Option.map_some, if_pos rfl] at hi
      exact nameAndSender_post_ne _ _ session (session.setName request.name) rfl
        (Option.some.inj hi)
    · rw [hid] at hchat
      exact absurd hchat (by decide)
  · rw [untouched_notified_iff]
    exact (and_iff_right (Request.id_of_ofPacket.2 request hchat)).symm

end ChatServer

/-- **A request that does not parse leaves the sessions alone only if it is a chat and no
session is open.** -/
theorem untouched_iff {s t : ChatServer} {id : ℕ} {session : Session} {data : List UInt8}
    {fresh : ℕ → UInt8} (hsession : s.sessionList[id]? = some session) (hdata : Unparsed data)
    (h : s.processPacket id data fresh = .ok t) :
    s.Untouched t ↔ (PacketHeader.ofBytes data).id = Packets.requestChat.toId ∧
      ∀ session ∈ s.sessionList, session.isOpen = false := by
  obtain ⟨request, hrequest⟩ := hdata.exists_request
  exact ChatServer.untouched_processPacket_iff hsession hrequest h

/-- **In no run of the server a request that does not parse leaves the sessions alone**: the
socket of the session it came in on is open. -/
theorem touched_of_step {mark : ℕ → UInt32} {n : ℕ} {es : List ServerEvent} {s t : ChatServer}
    (h : chatMachine.Run (.started mark n) es s) {id : ℕ} {bytes data : List UInt8}
    {fresh : ℕ → UInt8} {session : Session} {buffer : PacketBuffer}
    (hstep : chatMachine.Step s (.readDone id bytes fresh) t)
    (hsession : s.sessionList[id]? = some session)
    (hcompletes : session.toPacketBuffer.receive .server bytes = .ok (buffer, .processed data))
    (hdata : Unparsed data) : ¬ s.Untouched t := by
  have hopen := ChatServer.isOpen_of_reading h id hstep.1.1
  obtain ⟨_, buffer, _, u, hsession', hreceive, hu, rfl⟩ := ChatServer.step_readDone hstep
  rw [hsession] at hsession'
  cases hsession'
  rw [hcompletes] at hreceive
  cases hreceive
  obtain ⟨hnone, -⟩ | ⟨_, hexit, hprocess⟩ := hu
  · cases hnone
  cases hexit
  obtain ⟨session', hsession', hopen'⟩ := (ChatServer.has_isOpen_received id buffer).mpr hopen
  intro huntouched
  have hprocessed : (s.received id buffer).Untouched u := fun i => by
    rw [ChatServer.inert_nameAndSender.received, ← huntouched i,
      ChatServer.inert_nameAndSender.postReceive]
  obtain ⟨request, hrequest⟩ := hdata.exists_request
  obtain ⟨-, hclosed⟩ :=
    (ChatServer.untouched_processPacket_iff hsession' hrequest hprocess).mp hprocessed
  rw [hclosed session' (List.mem_of_getElem? hsession')] at hopen'
  cases hopen'

/-- A login without a name. -/
def namelessLogin : List UInt8 := packetOf (fun _ => 0) 1 []

/-- A chat without a message. -/
def emptyChat : List UInt8 := packetOf (fun _ => 0) 6 []

/-- A chat without a message, on a server without a connection. -/
theorem untouched_of_closed : ∃ t,
    (ChatServer.started (fun _ => 0) 1).processPacket 0 emptyChat (fun _ => 0) = .ok t ∧
    (ChatServer.started (fun _ => 0) 1).Untouched t := by
  have hsession : (ChatServer.started (fun _ => 0) 1).sessionList[0]? =
      some (.constructed 0) := rfl
  have hdata : Unparsed emptyChat := by decide +kernel
  refine ⟨_, rfl, (untouched_iff hsession hdata rfl).mpr ?_⟩
  decide +kernel

/-- `Bob` has logged in, and a login without a name comes in on the same connection: the name
is gone, and the reply says success. -/
theorem nameless_login_touches : ∃ s t,
    chatMachine.Run (.started (fun _ => 0) 1)
      (.acceptDone 0 false :: readsOf 0 (loginPacket [66, 111, 98]) ++ [.writeDone 0]) s ∧
    Unparsed namelessLogin ∧ s.processPacket 0 namelessLogin (fun _ => 0) = .ok t ∧
    s.sessionList[0]?.map Session.name = some [66, 111, 98] ∧
    t.sessionList[0]?.map Session.name = some [] ∧
    t.postedTo 0 = s.postedTo 0 ++ [⟨some (replyPacket fun _ => 0), 14⟩] ∧ ¬ s.Untouched t := by
  obtain ⟨s, hrun, hname⟩ := Machine.exists_run_of_exec chatMachine (.started (fun _ => 0) 1)
    (.acceptDone 0 false :: readsOf 0 (loginPacket [66, 111, 98]) ++ [.writeDone 0])
    (fun s => s.sessionList[0]?.map Session.name) (b := some [66, 111, 98]) (by decide +kernel)
  obtain ⟨session, hsession, -⟩ := Option.map_eq_some_iff.mp hname
  have hprocess : s.processPacket 0 namelessLogin (fun _ => 0) =
      .ok (s.loggedIn 0 ⟨none⟩ fun _ => 0) := rfl
  have hdata : Unparsed namelessLogin := by decide +kernel
  have hrefused : (PacketHeader.ofBytes namelessLogin).id ≠ Packets.requestChat.toId := by
    decide +kernel
  obtain ⟨request, hrequest⟩ := hdata.exists_request
  refine ⟨s, _, hrun, hdata, hprocess, hname, ?_, ?_, fun huntouched => hrefused
    ((ChatServer.untouched_processPacket_iff hsession hrequest hprocess).mp huntouched).1⟩
  · rw [ChatServer.getElem?_loggedIn, hsession]
    rfl
  · simp only [ChatServer.postedTo, ChatServer.getElem?_loggedIn, hsession, Option.map_some,
      if_true, ChatServer.posted_post, Option.getD_some]
    rfl

end AsioChat
