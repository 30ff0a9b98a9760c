import AsioChat.PacketPb
import AsioChat.SendRuns

/-!
# The Client

`ChatClient` and the loop of `main`. Two threads share the client: the network thread runs
the handlers of completed operations, and the input thread reads lines and posts a request
for each of them. What a line becomes is decided when the input thread asks `is_logged_in`,
so the loop is cut at every access to what the threads share: `is_connecting`,
`is_logged_in`, `post_send`.

`async_connect` opens the socket at once, so that `is_connecting` holds before there is a
connection. The lines accepted, the packets posted and the messages read from packets are
recorded.

## Main definitions

* `ChatClient.buildLogin`, `ChatClient.buildChat`: the requests `main` builds from a line.
* `ChatClient.processPacket`, `ChatClient.handleReceive`, `ChatClient.handleConnect`: the
  functions of the source.
* `clientMachine`: the runs of the client, against any server and any input.

## Main results

* `ChatClient.buildLogin_eq_ok`, `ChatClient.buildChat_eq_ok`: a request is posted with its
  size, and has the line in it.
* `ChatClient.processPacket_cases`, `ChatClient.step_readDone`, `ChatClient.step_send`: what
  the steps of the client do.
* `ChatClient.exists_send_run`: every run of the client is one of its send side.
-/

namespace AsioChat

/-- Where the input thread is in the loop of `main`: in `getline`, behind the test of
`is_connecting`, behind the test of `is_logged_in` with its result, or behind the loop. -/
inductive InputThread
  | reading
  | connected (inputMsg : List UInt8)
  | branching (inputMsg : List UInt8) (loggedIn : Bool)
  | stopped
  deriving DecidableEq, Repr

/-- What the client is recorded to have done: accepted a line, posted a packet, and processed
a `REPLY_LOGIN` or a `NOTICE_CHAT` with the message read from it and what `ParseFromArray`
returned. -/
inductive ClientCall
  | typed (inputMsg : List UInt8)
  | posted (packet : List UInt8)
  | replied (response : LoginResponse) (parsed : Bool)
  | noticed (notify : ChatNotify) (parsed : Bool)
  deriving DecidableEq, Repr

/-- `ChatClient`, whether an `async_connect` is outstanding on its socket and how many
`async_read_some`, the input thread, and the calls recorded. -/
structure ChatClient extends PacketBuffer, ClientSender where
  isOpen : Bool
  isLoggedIn : Bool
  connecting : Bool
  reading : ℕ
  input : InputThread
  calls : List ClientCall
  deriving DecidableEq, Repr

namespace ChatClient

/-- `ChatClient::ChatClient`: `packet_buffer_mark_` is not initialised. -/
def constructed (mark : UInt32) : ChatClient :=
  { PacketBuffer.constructed mark, initialSender with
    isOpen := false, isLoggedIn := false, connecting := false, reading := 0, input := .reading,
    calls := [] }

/-- Record a call. -/
def record (call : ClientCall) (c : ChatClient) : ChatClient :=
  { c with calls := c.calls ++ [call] }

/-- `ChatClient::connect`. -/
def connect (c : ChatClient) : ChatClient :=
  { c with toPacketBuffer := c.toPacketBuffer.init, isOpen := true, connecting := true }

/-- `ChatClient::close`. -/
def close (c : ChatClient) : ChatClient :=
  if c.isOpen = true then { c with isOpen := false } else c

/-- `ChatClient::post_login`. -/
def postLogin (c : ChatClient) : ChatClient := { c with isLoggedIn := true }

/-- `ChatClient::post_send` on the client. -/
def post (size : UInt32) (packet : List UInt8) (c : ChatClient) : ChatClient :=
  { c with toClientSender :=
    { c.toClientSender with toSender := postSend false size (some packet) c.toSender } }

/-- `ChatClient::post_receive`. -/
def postReceive (c : ChatClient) : ChatClient := { c with reading := c.reading + 1 }

/-! ### The network thread -/

/-- `ChatClient::process_packet`. Whether a reply says success is only printed. -/
def processPacket (data : List UInt8) (c : ChatClient) : Except Fault ChatClient :=
  let header := PacketHeader.ofBytes data
  if header.id = Packets.replyLogin.toId then do
    let (loginResponse, parsed) ←
      parseFromArray LoginResponse.messageType (data.drop 12) header.contentSize
    let c := c.postLogin
    return c.record (.replied loginResponse parsed)
  else if header.id = Packets.noticeChat.toId then do
    let (chatNotify, parsed) ←
      parseFromArray ChatNotify.messageType (data.drop 12) header.contentSize
    return c.record (.noticed chatNotify parsed)
  else .ok c

/-- `ChatClient::handle_connect`. -/
def handleConnect (error : Bool) (c : ChatClient) : ChatClient :=
  if error = false then c.postReceive else c

/-- `ChatClient::handle_receive` for a read that succeeded. -/
def handleReceive (bytes : List UInt8) (c : ChatClient) : Except Fault ChatClient := do
  let (buffer, exit) ← c.toPacketBuffer.receive .client bytes
  let c := { c with toPacketBuffer := buffer }
  let c ← match exit with
    | .processed data => c.processPacket data
    | _ => pure c
  return c.postReceive

/-- `ChatClient::handle_receive` for a read that failed. -/
def handleReceiveError (c : ChatClient) : ChatClient := c.close

/-! ### The input thread -/

/-- The part of `main` that both branches share: `build_packet` for the size of a message, the
message written behind the header, and the size that `post_send` is called with. -/
def buildRequest (fresh : ℕ → UInt8) (id : Packets) (byteSize : ℕ) (serialized : List UInt8) :
    Except Fault (List UInt8 × UInt32) := do
  let contentSize ← intSize byteSize
  let pkt := buildPacket fresh id.toId.toUInt32 contentSize
  let pkt := writeContent pkt serialized
  return (pkt, headerSize + contentSize)

/-- The login branch of `main`. -/
def buildLogin (fresh : ℕ → UInt8) (inputMsg : List UInt8) : Except Fault (List UInt8 × UInt32) :=
  let loginRequest := LoginRequest.cleared.setName inputMsg
  buildRequest fresh .requestLogin loginRequest.byteSize loginRequest.serialize

/-- The chat branch of `main`. The length of the message is not looked at. -/
def buildChat (fresh : ℕ → UInt8) (inputMsg : List UInt8) : Except Fault (List UInt8 × UInt32) :=
  let chatRequest := ChatRequest.cleared.setMessage inputMsg
  buildRequest fresh .requestChat chatRequest.byteSize chatRequest.serialize

/-- `getline` and the tests of the line and of `is_connecting`. Without a line, or with an
empty one, the loop ends, and the socket is closed. -/
def getline (line : Option (List UInt8)) (c : ChatClient) : ChatClient :=
  match line with
  | none => { c.close with input := .stopped }
  | some inputMsg =>
    if inputMsg.length < 1 then { c.close with input := .stopped }
    else if c.isOpen = false then c
    else { c.record (.typed inputMsg) with input := .connected inputMsg }

/-- The test of `is_logged_in`. -/
def branch (c : ChatClient) : ChatClient :=
  match c.input with
  | .connected inputMsg => { c with input := .branching inputMsg c.isLoggedIn }
  | _ => c

/-- A branch of `main`, up to the end of `post_send`. -/
def send (fresh : ℕ → UInt8) (c : ChatClient) : Except Fault ChatClient :=
  match c.input with
  | .branching inputMsg loggedIn => do
    let (pkt, size) ←
      if loggedIn = false then buildLogin fresh inputMsg else buildChat fresh inputMsg
    let c := c.post size pkt
    return { c.record (.posted pkt) with input := .reading }
  | _ => .ok c

end ChatClient

/-- A step of one of the two threads. The network thread: a completion of the
`async_connect`, of an `async_read_some`, with the bytes read, or with an error, or of an
`async_write` (up to the end of the critical section of `handle_write`), or what
`handle_write` does behind it. The input thread: up to the test of `is_connecting`, the test
of `is_logged_in`, and the rest of the loop body. -/
inductive ClientEvent
  | connectDone (error : Bool)
  | readDone (bytes : List UInt8)
  | readFailed
  | writeDone
  | writeResumed
  | getline (line : Option (List UInt8))
  | branch
  | send (fresh : ℕ → UInt8)

/-- A step of the network thread that completes no read. -/
def ClientEvent.Quiet : ClientEvent → Prop
  | connectDone _ | readFailed | writeDone | writeResumed => True
  | _ => False

namespace ChatClient

/-- An operation completes if it is outstanding and no handler is running; also after the
loop of `main`, as a handler may have begun before. -/
def Enabled (c : ChatClient) : ClientEvent → Prop
  | .connectDone _ => c.handler = none ∧ c.connecting = true
  | .readDone bytes =>
    c.handler = none ∧ 0 < c.reading ∧ bytes.length ≤ Side.client.receiveBufferLen
  | .readFailed => c.handler = none ∧ 0 < c.reading
  | .writeDone => SendEnabled c.toClientSender .complete
  | .writeResumed => SendEnabled c.toClientSender .resume
  | .getline _ => c.input = .reading
  | .branch => (c.input matches .connected _) = true
  | .send _ => (c.input matches .branching _ _) = true

instance (c : ChatClient) (e : ClientEvent) : Decidable (c.Enabled e) := by
  cases e <;> unfold Enabled <;> infer_instance

/-- One step of one of the threads. -/
def step (c : ChatClient) : ClientEvent → Except Fault ChatClient
  | .connectDone error => .ok ({ c with connecting := false }.handleConnect error)
  | .readDone bytes => { c with reading := c.reading - 1 }.handleReceive bytes
  | .readFailed => .ok { c with reading := c.reading - 1 }.handleReceiveError
  | .writeDone => do return { c with toClientSender := ← sendStep c.toClientSender .complete }
  | .writeResumed => do return { c with toClientSender := ← sendStep c.toClientSender .resume }
  | .getline line => .ok (c.getline line)
  | .branch => .ok c.branch
  | .send fresh => c.send fresh

/-- The client when `main` has called `connect`. -/
def launched (mark : UInt32) : ChatClient := (constructed mark).connect

end ChatClient

/-- The runs of the client. -/
def clientMachine : Machine ChatClient ClientEvent Fault where
  enabled := ChatClient.Enabled
  step := ChatClient.step

instance (c : ChatClient) (e : ClientEvent) : Decidable (clientMachine.enabled c e) :=
  inferInstanceAs (Decidable (c.Enabled e))

/-- The packet of a login, as the client builds it. -/
def loginPacket (name : List UInt8) : List UInt8 :=
  packetOf (fun _ => 0) 1 (LoginRequest.cleared.setName name).serialize

/-- The packet of a chat line, as the client builds it. -/
def chatPacket (message : List UInt8) : List UInt8 :=
  packetOf (fun _ => 0) 6 (ChatRequest.cleared.setMessage message).serialize

namespace ChatClient

variable {c d : ChatClient} {fresh : ℕ → UInt8} {inputMsg : List UInt8}

/-! ### What `main` builds -/

/-- A request is a packet with the message as its content, posted with its size. -/
theorem buildRequest_eq_ok {id : Packets} {byteSize : ℕ} {serialized : List UInt8}
    {r : List UInt8 × UInt32} (hlength : byteSize < 2 ^ 31 → serialized.length = byteSize) :
    buildRequest fresh id byteSize serialized = .ok r ↔ byteSize < 2 ^ 31 ∧
      r = (packetOf fresh id.toId.toUInt32 serialized, headerSize + UInt32.ofNat byteSize) := by
  simp only [buildRequest, bind, pure, Except.pure]
  constructor
  · intro h
    obtain ⟨n, hsize, hr⟩ := Except.exists_of_bind_eq_ok h
    obtain ⟨hlt, rfl⟩ := intSize_eq_ok.mp hsize
    cases hr
    refine ⟨hlt, ?_⟩
    rw [packetOf, hlength hlt]
  · rintro ⟨hlt, rfl⟩
    rw [intSize_eq_ok.mpr ⟨hlt, rfl⟩, Except.bind, packetOf, hlength hlt]

/-- **The login request for a line.** -/
theorem buildLogin_eq_ok {r : List UInt8 × UInt32} :
    buildLogin fresh inputMsg = .ok r ↔
      (LoginRequest.cleared.setName inputMsg).byteSize < 2 ^ 31 ∧
      r = (packetOf fresh Packets.requestLogin.toId.toUInt32
          (LoginRequest.cleared.setName inputMsg).serialize,
        headerSize + UInt32.ofNat (LoginRequest.cleared.setName inputMsg).byteSize) :=
  buildRequest_eq_ok fun h => LoginRequest.length_serialize (length_lt_of_stringFieldSize h)

/-- **The chat request for a line.** -/
theorem buildChat_eq_ok {r : List UInt8 × UInt32} :
    buildChat fresh inputMsg = .ok r ↔
      (ChatRequest.cleared.setMessage inputMsg).byteSize < 2 ^ 31 ∧
      r = (packetOf fresh Packets.requestChat.toId.toUInt32
          (ChatRequest.cleared.setMessage inputMsg).serialize,
        headerSize + UInt32.ofNat (ChatRequest.cleared.setMessage inputMsg).byteSize) :=
  buildRequest_eq_ok fun h => ChatRequest.length_serialize (length_lt_of_stringFieldSize h)

/-- **The request for a line** is a packet, of a login or of a chat, posted with the size of
header and content together. -/
theorem exists_packetOf_of_build {pkt : List UInt8} {loggedIn : Bool} {size : UInt32}
    (hbuild : (if loggedIn = false then buildLogin fresh inputMsg
      else buildChat fresh inputMsg) = .ok (pkt, size)) :
    ∃ content, content.length < 2 ^ 31 ∧
      pkt = packetOf fresh (if loggedIn = false then Packets.requestLogin
        else Packets.requestChat).toId.toUInt32 content ∧
      size = headerSize + UInt32.ofNat content.length := by
  cases loggedIn with
  | false =>
      obtain ⟨hsize, hpkt⟩ := buildLogin_eq_ok.mp hbuild
      cases hpkt
      have hlength := LoginRequest.length_serialize (length_lt_of_stringFieldSize hsize)
      exact ⟨_, by omega, rfl, by rw [hlength]⟩
  | true =>
      obtain ⟨hsize, hpkt⟩ := buildChat_eq_ok.mp hbuild
      cases hpkt
      have hlength := ChatRequest.length_serialize (length_lt_of_stringFieldSize hsize)
      exact ⟨_, by omega, rfl, by rw [hlength]⟩

/-! ### What the steps do -/

/-- **What `process_packet` does**: a `REPLY_LOGIN` logs the client in, whatever it says; no
other packet does. -/
theorem processPacket_cases {data : List UInt8} (h : c.processPacket data = .ok d) :
    ((PacketHeader.ofBytes data).id = Packets.replyLogin.toId ∧ ∃ response parsed,
      parseContent LoginResponse.messageType data = .ok (response, parsed) ∧
      d = c.postLogin.record (.replied response parsed)) ∨
    ((PacketHeader.ofBytes data).id ≠ Packets.replyLogin.toId ∧
      (d = c ∨ ∃ notify parsed, d = c.record (.noticed notify parsed))) := by
  simp only [processPacket, bind, pure, Except.pure] at h
  split at h
  · rename_i hreply
    obtain ⟨⟨response, parsed⟩, hparse, hd⟩ := Except.exists_of_bind_eq_ok h
    cases hd
    exact .inl ⟨hreply, response, parsed, hparse, rfl⟩
  · rename_i hreply
    refine .inr ⟨hreply, ?_⟩
    split at h
    · obtain ⟨⟨notify, parsed⟩, -, hd⟩ := Except.exists_of_bind_eq_ok h
      cases hd
      exact .inr ⟨notify, parsed, rfl⟩
    · exact .inl (Except.ok.inj h).symm

/-- The client while it handles a successful read. -/
def received (buffer : PacketBuffer) (c : ChatClient) : ChatClient :=
  { c with toPacketBuffer := buffer, reading := c.reading - 1 }

/-- **A successful read** is put into the buffer, the packet it completes is processed, if
it completes one, and the next read is started. -/
theorem step_readDone {bytes : List UInt8} (h : clientMachine.Step c (.readDone bytes) d) :
    ∃ buffer exit u, c.toPacketBuffer.receive .client bytes = .ok (buffer, exit) ∧
      ((exit.packets = [] ∧ u = c.received buffer) ∨
        ∃ data, exit = .processed data ∧ (c.received buffer).processPacket data = .ok u) ∧
      d = u.postReceive := by
  obtain ⟨-, h⟩ := h
  simp only [clientMachine, step, handleReceive, bind, pure, Except.pure] at h
  obtain ⟨⟨buffer, exit⟩, hreceive, h⟩ := Except.exists_of_bind_eq_ok h
  cases exit with
  | waiting => exact ⟨_, _, _, hreceive, .inl ⟨rfl, rfl⟩, (Except.ok.inj h).symm⟩
  | dropped => exact ⟨_, _, _, hreceive, .inl ⟨rfl, rfl⟩, (Except.ok.inj h).symm⟩
  | processed data =>
      obtain ⟨u, hprocess, hd⟩ := Except.exists_of_bind_eq_ok h
      exact ⟨_, _, u, hreceive, .inr ⟨data, rfl, hprocess⟩, (Except.ok.inj hd).symm⟩

/-- Closing a socket that is closed already changes nothing. -/
theorem close_eq (c : ChatClient) : c.close = { c with isOpen := false } := by
  cases hopen : c.isOpen with
  | true => rw [close, if_pos hopen]
  | false =>
      rw [close, if_neg (by simp [hopen]), ← hopen]

/-- **What `getline` leads to**: the end of the loop, the next line, or a line accepted. -/
theorem getline_cases (line : Option (List UInt8)) (c : ChatClient) :
    c.getline line = { c with isOpen := false, input := .stopped } ∨
    c.getline line = c ∨
    ∃ inputMsg, line = some inputMsg ∧ inputMsg ≠ [] ∧ c.isOpen = true ∧
      c.getline line = { c.record (.typed inputMsg) with input := .connected inputMsg } := by
  cases line with
  | none => exact .inl (by rw [getline, close_eq])
  | some inputMsg =>
      simp only [getline]
      split
      · exact .inl (by rw [close_eq])
      · rename_i hlength
        split
        · exact .inr (.inl rfl)
        · rename_i hopen
          refine .inr (.inr ⟨inputMsg, rfl, ?_, Bool.not_eq_false _ ▸ hopen, rfl⟩)
          rintro rfl
          exact hlength Nat.one_pos

/-- **The test of `is_logged_in`** is kept with the line. -/
theorem step_branch (h : clientMachine.Step c .branch d) :
    ∃ inputMsg, c.input = .connected inputMsg ∧
      d = { c with input := .branching inputMsg c.isLoggedIn } := by
  obtain ⟨henabled, h⟩ := h
  simp only [clientMachine, step, branch] at h
  simp only [clientMachine, Enabled] at henabled
  split at h
  · rename_i inputMsg hinput
    exact ⟨inputMsg, hinput, (Except.ok.inj h).symm⟩
  · rename_i hinput
    split at henabled
    · rename_i inputMsg hconnected
      exact absurd hconnected (hinput inputMsg)
    · cases henabled

/-- **The rest of the loop body** posts the request that was chosen. -/
theorem step_send (h : clientMachine.Step c (.send fresh) d) :
    ∃ inputMsg loggedIn pkt size, c.input = .branching inputMsg loggedIn ∧
      (if loggedIn = false then buildLogin fresh inputMsg else buildChat fresh inputMsg) =
        .ok (pkt, size) ∧
      d = { (c.post size pkt).record (.posted pkt) with input := .reading } := by
  obtain ⟨henabled, h⟩ := h
  simp only [clientMachine, step, send, bind, pure, Except.pure] at h
  simp only [clientMachine, Enabled] at henabled
  split at h
  · rename_i inputMsg loggedIn hinput
    cases loggedIn with
    | false =>
        obtain ⟨⟨pkt, size⟩, hbuild, hd⟩ := Except.exists_of_bind_eq_ok h
        exact ⟨inputMsg, false, pkt, size, hinput, hbuild, (Except.ok.inj hd).symm⟩
    | true =>
        obtain ⟨⟨pkt, size⟩, hbuild, hd⟩ := Except.exists_of_bind_eq_ok h
        exact ⟨inputMsg, true, pkt, size, hinput, hbuild, (Except.ok.inj hd).symm⟩
  · rename_i hinput
    split at henabled
    · rename_i inputMsg loggedIn hbranching
      exact absurd hbranching (hinput inputMsg loggedIn)
    · cases henabled

/-- `handle_write` posts nothing. -/
theorem posted_handleWrite {s s' : Sender} {data : SharedByte}
    (h : handleWrite s = .ok (data, s')) : s'.posted = s.posted := by
  obtain ⟨popped, hpop, h⟩ := Except.exists_of_bind_eq_ok h
  rw [← Sender.posted_popFront hpop]
  split at h
  · cases h
    rfl
  · cases h
    rfl

/-- What `handle_write` does after its critical section posts nothing. -/
theorem posted_resumeWrite (data : SharedByte) (s : Sender) :
    (resumeWrite data s).posted = s.posted := by
  cases data with
  | none => rfl
  | some packet =>
      simp only [resumeWrite, postSend, Sender.record, Bool.true_eq_false, if_false, true_or,
        if_true]
      rfl

/-- A packet passed to `post_send` is recorded. -/
theorem posted_post (size : UInt32) (packet : List UInt8) (c : ChatClient) :
    (c.post size packet).posted = c.posted ++ [⟨some packet, size⟩] := by
  simp only [post, postSend_eq, Sender.posted_postSend]

/-- What the input thread and the packets read from the server decide: whether the client is
logged in, where the input thread is, and what was recorded and posted. -/
structure SameDialogue (c d : ChatClient) : Prop where
  isLoggedIn : d.isLoggedIn = c.isLoggedIn
  input : d.input = c.input
  calls : d.calls = c.calls
  posted : d.posted = c.posted

/-- **The other steps of the network thread** leave all of that alone. -/
theorem sameDialogue_of_step {e : ClientEvent} (h : clientMachine.Step c e d)
    (hquiet : e.Quiet) : SameDialogue c d := by
  obtain ⟨-, h⟩ := h
  cases e with
  | connectDone error =>
      cases h
      cases error <;> exact ⟨rfl, rfl, rfl, rfl⟩
  | readFailed =>
      cases h
      rw [handleReceiveError, close_eq]
      exact ⟨rfl, rfl, rfl, rfl⟩
  | writeDone =>
      obtain ⟨q, hsend, hd⟩ := Except.exists_of_bind_eq_ok h
      obtain ⟨⟨data, s⟩, hwrite, hq⟩ := Except.exists_of_bind_eq_ok hsend
      cases hd
      cases hq
      have hposted := posted_handleWrite hwrite
      exact ⟨rfl, rfl, rfl, hposted⟩
  | writeResumed =>
      obtain ⟨q, hsend, hd⟩ := Except.exists_of_bind_eq_ok h
      cases hd
      refine ⟨rfl, rfl, rfl, ?_⟩
      simp only [sendStep] at hsend
      split at hsend
      · cases hsend
        rfl
      · cases hsend
        exact posted_resumeWrite _ _
  | readDone bytes => exact hquiet.elim
  | getline line => exact hquiet.elim
  | branch => exact hquiet.elim
  | send fresh => exact hquiet.elim

/-! ### The send side -/

/-- A step of the client is one of its send side, or none. -/
theorem exists_send_run_of_step (hstep : clientMachine.Step c e d) :
    ∃ es', clientSendMachine.Run c.toClientSender es' d.toClientSender := by
  -- only posting and the two parts of `handle_write` are steps of the send side
  have hstutter : d.toClientSender = c.toClientSender →
      ∃ es', clientSendMachine.Run c.toClientSender es' d.toClientSender :=
    fun heq => ⟨[], heq ▸ .nil _⟩
  cases e with
  | connectDone error =>
      cases hstep.2
      cases error <;> exact hstutter rfl
  | readDone bytes =>
      obtain ⟨buffer, exit, u, -, hu, rfl⟩ := step_readDone hstep
      rcases hu with ⟨-, rfl⟩ | ⟨data, -, hprocess⟩
      · exact hstutter rfl
      · rcases processPacket_cases hprocess with
          ⟨-, response, parsed, -, rfl⟩ | ⟨-, rfl | ⟨notify, parsed, rfl⟩⟩ <;>
          exact hstutter rfl
  | readFailed =>
      cases hstep.2
      refine hstutter ?_
      rw [handleReceiveError, close_eq]
  | writeDone =>
      obtain ⟨q, hsend, hd⟩ := Except.exists_of_bind_eq_ok hstep.2
      cases hd
      exact ⟨[.complete], .cons ⟨hstep.1, hsend⟩ (.nil _)⟩
  | writeResumed =>
      obtain ⟨q, hsend, hd⟩ := Except.exists_of_bind_eq_ok hstep.2
      cases hd
      exact ⟨[.resume], .cons ⟨hstep.1, hsend⟩ (.nil _)⟩
  | getline line =>
      cases hstep.2
      refine hstutter ?_
      rcases getline_cases line c with heq | heq | ⟨inputMsg, -, -, -, heq⟩
      all_goals exact (congrArg ChatClient.toClientSender heq :)
  | branch =>
      obtain ⟨inputMsg, -, rfl⟩ := step_branch hstep
      exact hstutter rfl
  | send fresh =>
      obtain ⟨inputMsg, loggedIn, pkt, size, -, -, rfl⟩ := step_send hstep
      exact ⟨[.post pkt size], .cons ⟨trivial, rfl⟩ (.nil _)⟩

/-- Over any interval the client runs as its send side does. -/
theorem exists_send_run_of_run {es : List ClientEvent} (h : clientMachine.Run c es d) :
    ∃ es', clientSendMachine.Run c.toClientSender es' d.toClientSender := by
  obtain ⟨es', q, hrun, hq⟩ := h.exists_run (R := fun d q => d.toClientSender = q) rfl
    fun c e d q hq hstep => by
      obtain ⟨es', hrun⟩ := exists_send_run_of_step hstep
      exact ⟨es', _, hq ▸ hrun, rfl⟩
  exact ⟨es', hq ▸ hrun⟩

/-- **Every run of the client is a run of its send side.** -/
theorem exists_send_run {mark : UInt32} {es : List ClientEvent}
    (h : clientMachine.Run (.launched mark) es c) :
    ∃ es', clientSendMachine.Run initialSender es' c.toClientSender :=
  exists_send_run_of_run h

end ChatClient

end AsioChat
