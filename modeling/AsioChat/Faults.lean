import AsioChat.Delivery

/-!
# Faults

What can end a run of the server or of the client: every fault, the steps it can happen at, and
the exact condition for it, in every state that a run can reach, whatever the peers send and
however the steps interleave. Most of what could go wrong never does: no index is out of range, no
queue is empty when an entry is taken off, and a packet that is processed is there as far as its
header says, unless its size is negative as an `int`. Then the parser does not know where to stop.
It may be stopped by what it reads, for example by a zero byte (`parseFromArray_zero`), or it reads
outside the buffer, or it goes on to append a negative number of bytes to a string.

What `asio` reads when a packet is freed under it is not looked at here (`Disturbances`), nor are
the threads of the client in `calculate_crc` at once.

## Main results

* `PacketBuffer.Holds.le_of_completes`: a packet that is processed is there, unless its size is
  negative.
* `PacketBuffer.Holds.size_of_parse_eq_error`: so parsing one faults only if it is.
* `server_faults_iff`, `client_faults_iff`: when a step of the server or of the client faults.
-/

namespace AsioChat

/-- `ByteSize` faults by overflow. -/
theorem intSize_eq_error_iff {size : ℕ} {f : Fault} :
    intSize size = .error f ↔ f = .intOverflow ∧ 2 ^ 31 ≤ size := by
  rw [intSize]
  split
  · rename_i hsize
    exact ⟨fun h => (by cases h), fun h => absurd h.2 (Nat.not_le.mpr hsize)⟩
  · rename_i hsize
    exact ⟨fun h => ⟨(Except.error.inj h).symm, Nat.le_of_not_lt hsize⟩, fun h => h.1 ▸ rfl⟩

/-! ### What a read completes -/

namespace PacketBuffer

variable {side : Side} {s : PacketBuffer} {g : Gather.State UInt8} {stale bytes data : List UInt8}
  {f : Fault}

/-- A read completes a packet: `process_packet` is called with `data`. -/
def Completes (side : Side) (s : PacketBuffer) (bytes data : List UInt8) : Prop :=
  ∃ buffer, s.receive side bytes = .ok (buffer, .processed data)

/-- **The buffer faults only by growing larger than a vector can be.** -/
theorem Holds.receive_eq_error_iff (h : s.Holds g stale) :
    s.receive side bytes = .error f ↔
      f = .lengthError ∧ vectorMaxSize < s.packetBuffer.length + bytes.length := by
  by_cases hfit : s.packetBuffer.length + bytes.length ≤ vectorMaxSize
  · obtain ⟨s', hreceive, -⟩ := h.receive side hfit
    rw [hreceive]
    exact ⟨fun heq => (by cases heq), fun h => absurd hfit (Nat.not_le.mpr h.2)⟩
  · rw [h.receive_of_lt (Nat.lt_of_not_le hfit)]
    exact ⟨fun heq => ⟨(Except.error.inj heq).symm, Nat.lt_of_not_le hfit⟩,
      fun h => h.1 ▸ rfl⟩

/-- **A completed packet is there** as far as its header says, if its size is not negative as an
`int`. -/
theorem Holds.le_of_completes (h : s.Holds g stale) (hcompletes : s.Completes side bytes data)
    (hsize : (PacketHeader.ofBytes data).contentSize.toNat < 2 ^ 31) :
    (PacketHeader.ofBytes data).contentSize.toNat ≤ (data.drop 12).length := by
  obtain ⟨buffer, hreceive⟩ := hcompletes
  obtain ⟨hexit, -, -⟩ := h.of_receive_eq hreceive
  rcases Gather.step_cases (gatherRules side) g bytes with
    ⟨checked, hout⟩ | hout | ⟨hhead, hneed, hout⟩
  · rw [hout] at hexit
    cases hexit
  · rw [hout] at hexit
    cases hexit
  · rw [hout] at hexit
    cases hexit
    have hhead' : 12 ≤ (g.acc ++ bytes).length := hhead
    rw [PacketHeader.ofBytes_append hhead'] at hsize ⊢
    have hfits : (PacketHeader.ofBytes (g.acc ++ bytes)).getPacketSize.toNat ≤
        (g.acc ++ bytes).length := hneed
    rw [PacketHeader.toNat_getPacketSize_of_lt (by omega)] at hfits
    rw [List.length_drop, List.length_append]
    omega

/-- **Parsing the content of a completed packet faults only if its size is negative** as an
`int`. -/
theorem Holds.size_of_parse_eq_error {M : Type} {message : Wire.Message M} (h : s.Holds g stale)
    (hcompletes : s.Completes side bytes data) (hparse : parseContent message data = .error f) :
    2 ^ 31 ≤ (PacketHeader.ofBytes data).contentSize.toNat := by
  by_contra hsize
  have hlt := Nat.lt_of_not_le hsize
  rw [parseContent, parseFromArray_eq message hlt (h.le_of_completes hcompletes hlt)] at hparse
  cases hparse

end PacketBuffer

/-! ### The server -/

namespace ChatServer

variable {s : ChatServer} {e : ServerEvent} {f : Fault} {id : ℕ} {data : List UInt8}
  {fresh : ℕ → UInt8} {session : Session}

/-- Parsing the request in a packet goes wrong. -/
def ParseFaults (data : List UInt8) (f : Fault) : Prop :=
  let header := PacketHeader.ofBytes data
  (header.id = Packets.requestLogin.toId ∧ parseContent LoginRequest.messageType data = .error f) ∨
    (header.id = Packets.requestChat.toId ∧ parseContent ChatRequest.messageType data = .error f)

/-- **What can go wrong in the server**: a buffer larger than a vector can be, the parsing of a
request of a negative size, a notice too long for an `int`, and a packet waiting in the queue of a
session when a write on it completes. -/
inductive Faults (s : ChatServer) : ServerEvent → Fault → Prop
  | buffer (id : ℕ) (bytes : List UInt8) (fresh : ℕ → UInt8)
      (hbig : s.Has id fun session => vectorMaxSize < session.packetBuffer.length + bytes.length) :
      Faults s (.readDone id bytes fresh) .lengthError
  | content (id : ℕ) (bytes : List UInt8) (fresh : ℕ → UInt8) (data : List UInt8) (f : Fault)
      (hcompletes : s.Has id (·.toPacketBuffer.Completes .server bytes data))
      (hsize : 2 ^ 31 ≤ (PacketHeader.ofBytes data).contentSize.toNat)
      (hparse : ParseFaults data f) : Faults s (.readDone id bytes fresh) f
  | notice (id : ℕ) (bytes : List UInt8) (fresh : ℕ → UInt8) (data : List UInt8)
      (request : ChatRequest)
      (hcompletes : s.Has id fun session => session.toPacketBuffer.Completes .server bytes data ∧
        2 ^ 31 ≤ (session.notice request).byteSize)
      (hrequest : Request.ofPacket data = some (.chat request)) :
      Faults s (.readDone id bytes fresh) .intOverflow
  | null (id : ℕ) (hwaiting : s.Has id (1 < ·.sendDataQueue.length)) :
      Faults s (.writeDone id) .nullDereference

/-- The reply to a login is short. -/
theorem processLogin_eq_error_iff :
    s.processLogin id data fresh = .error f ↔
      parseContent LoginRequest.messageType data = .error f := by
  simp only [processLogin, bind, pure, Except.pure, Except.bind_eq_error_iff, parseContent]
  refine or_iff_left ?_
  rintro ⟨r, -, h | ⟨_, -, h⟩⟩
  · cases h
  · cases h

/-- A chat faults when it is parsed, or when the notice is too long. -/
theorem processChat_eq_error_iff (hsession : s.sessionList[id]? = some session) :
    s.processChat id data fresh = .error f ↔
      parseContent ChatRequest.messageType data = .error f ∨
      ∃ request parsed, parseContent ChatRequest.messageType data = .ok (request, parsed) ∧
        f = .intOverflow ∧ 2 ^ 31 ≤ (session.notice request).byteSize := by
  simp only [processChat, sessionAt_eq_ok.mpr hsession, bind, pure, Except.pure,
    Except.bind_eq_error_iff, parseContent]
  refine or_congr_right ⟨?_, ?_⟩
  · rintro ⟨⟨request, parsed⟩, hparse, h⟩
    rcases h with h | ⟨_, hat, h⟩
    · cases h
    · cases hat
      rcases h with h | ⟨_, _, h⟩
      · exact ⟨request, parsed, hparse, intSize_eq_error_iff.mp h⟩
      · cases h
  · rintro ⟨request, parsed, hparse, hlong⟩
    exact ⟨(request, parsed), hparse, .inr ⟨session, rfl, .inl (intSize_eq_error_iff.mpr hlong)⟩⟩

/-- **When `process_packet` faults.** -/
theorem processPacket_eq_error_iff (hsession : s.sessionList[id]? = some session) :
    s.processPacket id data fresh = .error f ↔ ParseFaults data f ∨
      ∃ request, Request.ofPacket data = some (.chat request) ∧ f = .intOverflow ∧
        2 ^ 31 ≤ (session.notice request).byteSize := by
  by_cases hlogin : (PacketHeader.ofBytes data).id = Packets.requestLogin.toId
  · have hchat : (PacketHeader.ofBytes data).id ≠ Packets.requestChat.toId := by
      rw [hlogin]
      decide
    rw [processPacket, if_pos hlogin, processLogin_eq_error_iff, ParseFaults]
    simp only [hlogin, true_and]
    constructor
    · exact fun hparse => .inl (.inl hparse)
    · rintro ((hparse | ⟨heq, -⟩) | ⟨request, hrequest, -⟩)
      · exact hparse
      · exact absurd (hlogin.trans heq) hchat
      · exact absurd (Request.id_of_ofPacket.2 request hrequest) hchat
  by_cases hchat : (PacketHeader.ofBytes data).id = Packets.requestChat.toId
  · have hrequest : Request.ofPacket data =
        (parseContent ChatRequest.messageType data).toOption.map fun r => .chat r.1 :=
      (if_neg hlogin).trans (if_pos hchat)
    have hfaults : ParseFaults data f ↔
        parseContent ChatRequest.messageType data = .error f := by
      rw [ParseFaults]
      simp only [hlogin, false_and, false_or]
      exact and_iff_right hchat
    rw [processPacket, if_neg hlogin, if_pos hchat, processChat_eq_error_iff hsession, hfaults]
    refine or_congr_right ⟨?_, ?_⟩
    · rintro ⟨request, parsed, hparse, hlong⟩
      rw [hrequest, hparse]
      exact ⟨request, rfl, hlong⟩
    · rintro ⟨request, hsome, hlong⟩
      rw [hrequest] at hsome
      cases hparse : parseContent ChatRequest.messageType data with
      | error f' =>
          rw [hparse] at hsome
          cases hsome
      | ok r =>
          rw [hparse] at hsome
          cases hsome
          exact ⟨r.1, r.2, rfl, hlong⟩
  · have hnone : Request.ofPacket data = none := (if_neg hlogin).trans (if_neg hchat)
    rw [processPacket, if_neg hlogin, if_neg hchat, ParseFaults, hnone]
    simp [hlogin, hchat]

/-- What a successful read does, in terms of its session. -/
theorem step_readDone_eq {bytes : List UInt8} (hsession : s.sessionList[id]? = some session) :
    chatMachine.step s (.readDone id bytes fresh) =
      (session.toPacketBuffer.receive .server bytes).bind fun r =>
        (match r.2 with
          | .processed data => (s.received id r.1).processPacket id data fresh
          | _ => .ok (s.received id r.1)).bind fun t => .ok (t.postReceive id) := by
  have hat : (s.readCompleted id).sessionAt id =
      .ok { session with reading := session.reading - 1 } :=
    sessionAt_eq_ok.mpr (by
      rw [readCompleted, getElem?_modifySession, hsession, Option.map_some, if_pos rfl])
  simp only [chatMachine, step, handleReceive, hat, bind, Except.bind]
  cases session.toPacketBuffer.receive .server bytes with
  | error f => rfl
  | ok r =>
      obtain ⟨buffer, exit⟩ := r
      cases exit <;> rfl

/-- **When a successful read faults.** -/
theorem readDone_eq_error_iff {bytes : List UInt8} {g : Gather.State UInt8} {stale : List UInt8}
    (hsession : s.sessionList[id]? = some session) (hholds : session.toPacketBuffer.Holds g stale) :
    chatMachine.step s (.readDone id bytes fresh) = .error f ↔
      s.Faults (.readDone id bytes fresh) f := by
  have hhas : ∀ {P : Session → Prop}, s.Has id P ↔ P session := by
    intro P
    refine ⟨?_, fun h => ⟨session, hsession, h⟩⟩
    rintro ⟨session', hsession', h⟩
    cases hsession.symm.trans hsession'
    exact h
  have hreceived : ∀ buffer, (s.received id buffer).sessionList[id]? =
      some { session with toPacketBuffer := buffer, reading := session.reading - 1 } := by
    intro buffer
    rw [received, getElem?_modifySession, readCompleted, getElem?_modifySession, hsession,
      Option.map_some, Option.map_some, if_pos rfl, if_pos rfl]
  rw [step_readDone_eq hsession, Except.bind_eq_error_iff, hholds.receive_eq_error_iff]
  constructor
  · rintro (⟨rfl, hbig⟩ | ⟨⟨buffer, exit⟩, hreceive, h⟩)
    · exact .buffer id bytes fresh (hhas.mpr hbig)
    · cases exit with
      | waiting => cases h
      | dropped => cases h
      | processed data =>
          have hcompletes : session.toPacketBuffer.Completes .server bytes data :=
            ⟨buffer, hreceive⟩
          rcases Except.bind_eq_error_iff.mp h with h | ⟨_, -, h⟩
          · rcases (processPacket_eq_error_iff (hreceived buffer)).mp h with
              hparse | ⟨request, hrequest, rfl, hlong⟩
            · refine .content id bytes fresh data f (hhas.mpr hcompletes) ?_ hparse
              rcases hparse with ⟨-, hparse⟩ | ⟨-, hparse⟩
              · exact hholds.size_of_parse_eq_error hcompletes hparse
              · exact hholds.size_of_parse_eq_error hcompletes hparse
            · exact .notice id bytes fresh data request (hhas.mpr ⟨hcompletes, hlong⟩) hrequest
          · cases h
  · intro h
    cases h with
    | buffer _ _ _ hbig => exact .inl ⟨rfl, hhas.mp hbig⟩
    | content _ _ _ data _ hcompletes _ hparse =>
        obtain ⟨buffer, hreceive⟩ := hhas.mp hcompletes
        refine .inr ⟨_, hreceive, Except.bind_eq_error_iff.mpr (.inl ?_)⟩
        exact (processPacket_eq_error_iff (hreceived buffer)).mpr (.inl hparse)
    | notice _ _ _ data request hboth hrequest =>
        obtain ⟨⟨buffer, hreceive⟩, hlong⟩ := hhas.mp hboth
        refine .inr ⟨_, hreceive, Except.bind_eq_error_iff.mpr (.inl ?_)⟩
        exact (processPacket_eq_error_iff (hreceived buffer)).mpr
          (.inr ⟨request, hrequest, rfl, hlong⟩)

/-- **When a completed write faults.** -/
theorem writeDone_eq_error_iff (hsession : s.sessionList[id]? = some session)
    (hinv : session.toSender.Inv) (henabled : session.completed < session.started.length) :
    chatMachine.step s (.writeDone id) = .error f ↔ s.Faults (.writeDone id) f := by
  have hstep : chatMachine.step s (.writeDone id) =
      (Session.sendStep session.toSender .complete).bind fun sender =>
        .ok (s.modifySession id fun session => { session with toSender := sender }) := by
    simp only [chatMachine, step, handleWrite, sessionAt_eq_ok.mpr hsession, bind]
    rfl
  rw [hstep]
  rcases Session.sendStep_complete hinv henabled with ⟨hone, hok⟩ | ⟨hmany, herror⟩
  · rw [hok]
    constructor
    · intro h
      cases h
    · intro h
      cases h with
      | null _ hwaiting =>
          obtain ⟨session', hsession', hmany⟩ := hwaiting
          cases hsession.symm.trans hsession'
          omega
  · rw [herror]
    constructor
    · intro h
      cases h
      exact .null id ⟨session, hsession, hmany⟩
    · intro h
      cases h with
      | null _ _ => rfl

/-- The buffer of a session on which a read is outstanding holds what was received. -/
theorem exists_holds_of_reading {mark : ℕ → UInt32} {n : ℕ} {es : List ServerEvent}
    (h : chatMachine.Run (started mark n) es s) (hreading : s.Has id (0 < ·.reading)) :
    ∃ session g stale, s.sessionList[id]? = some session ∧
      session.toPacketBuffer.Holds g stale := by
  obtain ⟨session, hsession, hisOpen⟩ := isOpen_of_reading h id hreading
  obtain ⟨r, hrun, hreceives⟩ := exists_receiver_run h (lt_of_sessionList h hsession)
  have hside := hreceives.side
  rw [hsession, Option.map_some, Option.some.injEq] at hside
  obtain ⟨hbuffer, hopen⟩ := Prod.mk.inj hside
  obtain ⟨stale, hholds⟩ := (Receiver.inv_of_run hrun).holds (hopen.symm.trans hisOpen)
  exact ⟨session, r.gathered, stale, hsession, hbuffer ▸ hholds⟩

/-- The send side of a session keeps its invariant. -/
theorem inv_of_sessionList {mark : ℕ → UInt32} {n : ℕ} {es : List ServerEvent}
    (h : chatMachine.Run (started mark n) es s) (hsession : s.sessionList[id]? = some session) :
    session.toSender.Inv := by
  obtain ⟨_, q, hrun, hsends⟩ := exists_sender_run h (lt_of_sessionList h hsession)
  obtain ⟨session', hsession', rfl⟩ := Option.map_eq_some_iff.mp hsends
  cases hsession.symm.trans hsession'
  exact (Session.sendInv_of_run hrun).inv

end ChatServer

/-- **When a step of the server faults**, in every state that it can reach. -/
theorem server_faults_iff {mark : ℕ → UInt32} {n : ℕ} {es : List ServerEvent} {s : ChatServer}
    {e : ServerEvent} {f : Fault} (h : chatMachine.Run (.started mark n) es s)
    (henabled : chatMachine.enabled s e) :
    chatMachine.step s e = .error f ↔ s.Faults e f := by
  cases e with
  | acceptDone id error =>
      constructor
      · intro herror
        cases herror
      · intro hfaults
        cases hfaults
  | readDone id bytes fresh =>
      obtain ⟨session, g, stale, hsession, hholds⟩ :=
        ChatServer.exists_holds_of_reading h henabled.1
      exact ChatServer.readDone_eq_error_iff hsession hholds
  | readFailed id =>
      constructor
      · intro herror
        cases herror
      · intro hfaults
        cases hfaults
  | writeDone id =>
      obtain ⟨session, hsession, hcompleted⟩ := henabled
      exact ChatServer.writeDone_eq_error_iff hsession (ChatServer.inv_of_sessionList h hsession)
        hcompleted

/-- `Bob` says `hi` before the reply to his login is written. -/
def loginAndChat : List ServerEvent :=
  .acceptDone 0 false ::
    (readsOf 0 (loginPacket [66, 111, 98]) ++ readsOf 0 (chatPacket [104, 105]))

/-- The completion of the write of the reply then faults. -/
theorem faults_of_loginAndChat : ∃ s,
    chatMachine.Run (.started (fun _ => 0) 1) loginAndChat s ∧
    chatMachine.enabled s (.writeDone 0) ∧
    chatMachine.step s (.writeDone 0) = .error .nullDereference := by
  obtain ⟨s, hrun, hwaiting⟩ := Machine.exists_run_of_exec chatMachine (.started (fun _ => 0) 1)
    loginAndChat (fun s => decide (chatMachine.enabled s (.writeDone 0)) &&
      decide (s.Has 0 (1 < ·.sendDataQueue.length))) (b := true) (by decide +kernel)
  rw [Bool.and_eq_true, decide_eq_true_eq, decide_eq_true_eq] at hwaiting
  exact ⟨s, hrun, hwaiting.1,
    (server_faults_iff hrun hwaiting.1).mpr (.null 0 hwaiting.2)⟩

/-! ### The client -/

namespace ChatClient

variable {c d : ChatClient} {e : ClientEvent} {f : Fault} {data : List UInt8} {fresh : ℕ → UInt8}

/-- Parsing the message in a packet of the server goes wrong. -/
def ParseFaults (data : List UInt8) (f : Fault) : Prop :=
  let header := PacketHeader.ofBytes data
  (header.id = Packets.replyLogin.toId ∧ parseContent LoginResponse.messageType data = .error f) ∨
    (header.id = Packets.noticeChat.toId ∧ parseContent ChatNotify.messageType data = .error f)

/-- **What can go wrong in the client**: a buffer larger than a vector can be, the parsing of a
packet of a negative size, and a line too long for an `int`. -/
inductive Faults (c : ChatClient) : ClientEvent → Fault → Prop
  | buffer (bytes : List UInt8) (hbig : vectorMaxSize < c.packetBuffer.length + bytes.length) :
      Faults c (.readDone bytes) .lengthError
  | content (bytes data : List UInt8) (f : Fault)
      (hcompletes : c.toPacketBuffer.Completes .client bytes data)
      (hsize : 2 ^ 31 ≤ (PacketHeader.ofBytes data).contentSize.toNat)
      (hparse : ParseFaults data f) : Faults c (.readDone bytes) f
  | line (fresh : ℕ → UInt8) (inputMsg : List UInt8) (loggedIn : Bool)
      (hinput : c.input = .branching inputMsg loggedIn)
      (hlong : 2 ^ 31 ≤ Wire.stringSize inputMsg) : Faults c (.send fresh) .intOverflow

/-- The client's buffer holds the front of a packet and nothing else, in every run. -/
theorem holds_of_run {mark : UInt32} {es : List ClientEvent}
    (h : clientMachine.Run (.launched mark) es c) : ∃ g, c.toPacketBuffer.Holds g [] := by
  refine h.invariant (I := fun c => ∃ g, c.toPacketBuffer.Holds g []) ?_
    ⟨.empty, PacketBuffer.holds_constructed_init mark⟩
  rintro c e d ⟨g, hholds⟩ hstep
  cases e with
  | readDone bytes =>
      obtain ⟨buffer, exit, u, hreceive, hu, rfl⟩ := step_readDone hstep
      obtain ⟨-, -, hnext⟩ := hholds.of_receive_eq hreceive
      rw [staleAfter_nil] at hnext
      rcases hu with ⟨-, rfl⟩ | ⟨data, -, hprocess⟩
      · exact ⟨_, hnext⟩
      · have hbuffer : u.toPacketBuffer = buffer := (calls_of_processPacket hprocess).2
        rw [← hbuffer] at hnext
        exact ⟨_, hnext⟩
  | _ => exact ⟨g, (heard_of_step rfl hstep).1 ▸ hholds⟩

/-- **When the client's `process_packet` faults.** -/
theorem processPacket_eq_error_iff : c.processPacket data = .error f ↔ ParseFaults data f := by
  simp only [processPacket, ParseFaults, bind, pure, Except.pure, parseContent]
  by_cases hreply : (PacketHeader.ofBytes data).id = Packets.replyLogin.toId
  · have hnotice : (PacketHeader.ofBytes data).id ≠ Packets.noticeChat.toId := by
      rw [hreply]
      decide
    rw [if_pos hreply, Except.bind_eq_error_iff]
    simp [hreply, hreply ▸ hnotice]
  · by_cases hnotice : (PacketHeader.ofBytes data).id = Packets.noticeChat.toId
    · rw [if_neg hreply, if_pos hnotice, Except.bind_eq_error_iff]
      simp [hnotice, hnotice ▸ hreply]
    · rw [if_neg hreply, if_neg hnotice]
      simp [hreply, hnotice]

/-- **When a successful read faults.** -/
theorem readDone_eq_error_iff {bytes : List UInt8} {g : Gather.State UInt8} {stale : List UInt8}
    (hholds : c.toPacketBuffer.Holds g stale) :
    clientMachine.step c (.readDone bytes) = .error f ↔ c.Faults (.readDone bytes) f := by
  have hstep : clientMachine.step c (.readDone bytes) =
      (c.toPacketBuffer.receive .client bytes).bind fun r =>
        (match r.2 with
          | .processed data => (c.received r.1).processPacket data
          | _ => .ok (c.received r.1)).bind fun d => .ok d.postReceive := by
    simp only [clientMachine, step, handleReceive, bind, Except.bind]
    cases c.toPacketBuffer.receive .client bytes with
    | error f => rfl
    | ok r =>
        obtain ⟨buffer, exit⟩ := r
        cases exit <;> rfl
  rw [hstep, Except.bind_eq_error_iff, hholds.receive_eq_error_iff]
  constructor
  · rintro (⟨rfl, hbig⟩ | ⟨⟨buffer, exit⟩, hreceive, h⟩)
    · exact .buffer bytes hbig
    · cases exit with
      | waiting => cases h
      | dropped => cases h
      | processed data =>
          rcases Except.bind_eq_error_iff.mp h with h | ⟨_, -, h⟩
          · have hcompletes : c.toPacketBuffer.Completes .client bytes data := ⟨buffer, hreceive⟩
            have hparse := processPacket_eq_error_iff.mp h
            refine .content bytes data f hcompletes ?_ hparse
            rcases hparse with ⟨-, hparse⟩ | ⟨-, hparse⟩
            · exact hholds.size_of_parse_eq_error hcompletes hparse
            · exact hholds.size_of_parse_eq_error hcompletes hparse
          · cases h
  · intro h
    cases h with
    | buffer _ hbig => exact .inl ⟨rfl, hbig⟩
    | content _ data _ hcompletes _ hparse =>
        obtain ⟨buffer, hreceive⟩ := hcompletes
        refine .inr ⟨_, hreceive, Except.bind_eq_error_iff.mpr (.inl ?_)⟩
        exact processPacket_eq_error_iff.mpr hparse

/-- **When posting a line faults.** -/
theorem send_eq_error_iff :
    clientMachine.step c (.send fresh) = .error f ↔ c.Faults (.send fresh) f := by
  have hbuild : ∀ (id : Packets) (byteSize : ℕ) (serialized : List UInt8),
      buildRequest fresh id byteSize serialized = .error f ↔
        f = .intOverflow ∧ 2 ^ 31 ≤ byteSize := by
    intro id byteSize serialized
    simp only [buildRequest, bind, pure, Except.pure, Except.bind_eq_error_iff,
      intSize_eq_error_iff]
    refine or_iff_left ?_
    rintro ⟨_, -, h⟩
    cases h
  simp only [clientMachine, step, send, buildLogin, buildChat, bind, pure, Except.pure]
  constructor
  · intro h
    split at h
    · rename_i inputMsg loggedIn hinput
      cases loggedIn <;>
      · rcases Except.bind_eq_error_iff.mp h with h | ⟨_, -, h⟩
        · obtain ⟨rfl, hlong⟩ := (hbuild _ _ _).mp h
          exact .line fresh inputMsg _ hinput hlong
        · cases h
    · cases h
  · intro h
    cases h with
    | line _ inputMsg loggedIn hinput hlong =>
        rw [hinput]
        cases loggedIn <;>
          exact Except.bind_eq_error_iff.mpr (.inl ((hbuild _ _ _).mpr ⟨rfl, hlong⟩))

/-- **The other steps never fault.** In particular the queue is not empty when a write
completes. -/
theorem exists_step {mark : UInt32} {es : List ClientEvent}
    (h : clientMachine.Run (.launched mark) es c) (henabled : clientMachine.enabled c e)
    (hread : ∀ bytes, e ≠ .readDone bytes) (hsend : ∀ fresh, e ≠ .send fresh) :
    ∃ d, clientMachine.step c e = .ok d := by
  cases e with
  | readDone bytes => exact absurd rfl (hread bytes)
  | send fresh => exact absurd rfl (hsend fresh)
  | writeDone =>
      obtain ⟨es', hrun⟩ := exists_send_run h
      obtain ⟨-, queue, -, hok⟩ := sendStep_complete (sendInv_of_run hrun).inv henabled
      simp only [clientMachine, step, hok]
      exact ⟨_, rfl⟩
  | writeResumed =>
      simp only [clientMachine, step, sendStep]
      cases c.handler <;> exact ⟨_, rfl⟩
  | connectDone error => exact ⟨_, rfl⟩
  | readFailed => exact ⟨_, rfl⟩
  | getline line => exact ⟨_, rfl⟩
  | branch => exact ⟨_, rfl⟩

end ChatClient

/-- **When a step of the client faults**, in every state that it can reach. -/
theorem client_faults_iff {mark : UInt32} {es : List ClientEvent} {c : ChatClient}
    {e : ClientEvent} {f : Fault} (h : clientMachine.Run (.launched mark) es c)
    (henabled : clientMachine.enabled c e) :
    clientMachine.step c e = .error f ↔ c.Faults e f := by
  by_cases hread : ∃ bytes, e = .readDone bytes
  · obtain ⟨bytes, rfl⟩ := hread
    obtain ⟨g, hholds⟩ := ChatClient.holds_of_run h
    exact ChatClient.readDone_eq_error_iff hholds
  by_cases hsend : ∃ fresh, e = .send fresh
  · obtain ⟨fresh, rfl⟩ := hsend
    exact ChatClient.send_eq_error_iff
  obtain ⟨d, hok⟩ := ChatClient.exists_step h henabled (fun bytes heq => hread ⟨bytes, heq⟩)
    fun fresh heq => hsend ⟨fresh, heq⟩
  constructor
  · intro herror
    cases hok.symm.trans herror
  · intro hfaults
    cases hfaults with
    | buffer bytes => exact absurd ⟨bytes, rfl⟩ hread
    | content bytes => exact absurd ⟨bytes, rfl⟩ hread
    | line fresh => exact absurd ⟨fresh, rfl⟩ hsend

/-- The header of a `REPLY_LOGIN` announcing so much content that the packet size wraps. -/
def wrappingReply : List UInt8 :=
  (builtHeader (fun _ => 0) Packets.replyLogin.toId.toUInt32 (UInt32.ofNat (2 ^ 32 - 12))).toBytes

/-- A server sends it, and the client reads outside its buffer. -/
theorem faults_of_wrappingReply : ∃ c,
    clientMachine.Run (.launched 0) [.connectDone false, .readDone (wrappingReply.take 10)] c ∧
    clientMachine.enabled c (.readDone (wrappingReply.drop 10)) ∧
    clientMachine.step c (.readDone (wrappingReply.drop 10)) = .error .outOfRange := by
  obtain ⟨c, hrun, hc⟩ := Machine.exists_run_of_exec clientMachine (.launched 0)
    [.connectDone false, .readDone (wrappingReply.take 10)]
    (fun c => (decide (clientMachine.enabled c (.readDone (wrappingReply.drop 10))),
      c.toPacketBuffer)) (b := (true, ⟨10, wrappingReply.take 10, false⟩)) (by decide +kernel)
  obtain ⟨henabled, hbuffer⟩ := Prod.mk.inj hc
  have henabled := of_decide_eq_true henabled
  have hcompletes : c.toPacketBuffer.Completes .client (wrappingReply.drop 10) wrappingReply := by
    rw [hbuffer]
    exact ⟨⟨0, [], false⟩, by decide +kernel⟩
  have hparse : parseContent LoginResponse.messageType wrappingReply = .error .outOfRange :=
    parseFromArray_nil _ (by decide +kernel)
  exact ⟨c, hrun, henabled, (client_faults_iff hrun henabled).mpr
    (.content _ wrappingReply _ hcompletes (by decide +kernel) (.inl ⟨by decide +kernel, hparse⟩))⟩

/-- With a zero byte behind it, it is read, as a reply that says nothing. -/
example : parseContent LoginResponse.messageType (wrappingReply ++ [0]) =
    .ok (LoginResponse.cleared, false) := by
  have hcontent : (wrappingReply ++ [0]).drop 12 = [0] := by decide +kernel
  rw [parseContent, hcontent]
  exact parseFromArray_zero _ (by decide +kernel) []

end AsioChat
