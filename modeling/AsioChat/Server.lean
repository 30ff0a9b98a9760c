import AsioChat.Lib.Machine
import AsioChat.PacketPb
import AsioChat.Send

/-!
# The Server

`chat_server` and its sessions: the pool of sessions with one `async_accept` at a time,
the handlers of completed operations, and `process_packet`, which answers a
`REQUEST_LOGIN` and sends a `NOTICE_CHAT` to every open session for a `REQUEST_CHAT`. All
handlers run on the one thread that runs the `io_service`, each to its end before the
next.

A session is named by its `session_id_`, which `init` makes its index in
`session_list_`. Accepting, closing and the packets processed are recorded.

## Main definitions

* `ChatServer.processPacket`, `ChatServer.handleReceive`, `ChatServer.handleWrite`,
  `ChatServer.handleAccept`, `ChatServer.closeSession`: the functions of the source.
* `ChatServer.step`: one completion of an operation and its handler.
* `chatMachine`: the runs of the server.
-/

namespace AsioChat

/-- A `session`: its receive buffer and send side, `name_`, whether its socket is open, and
how many `async_read_some` are outstanding on it. -/
structure Session extends PacketBuffer, Sender where
  name : List UInt8
  isOpen : Bool
  reading : ℕ
  deriving DecidableEq, Repr

/-- A string up to its first NUL byte. -/
def cString (s : List UInt8) : List UInt8 := s.takeWhile (· ≠ 0)

namespace Session

/-- `session::session`: `packet_buffer_mark_` is not initialised. -/
def constructed (mark : UInt32) : Session :=
  { PacketBuffer.constructed mark, Sender.initial with name := [], isOpen := false, reading := 0 }

/-- `session::set_name`. -/
def setName (name : List UInt8) (s : Session) : Session := { s with name := name }

/-- `session::get_name`, which returns a C string. -/
def getName (s : Session) : List UInt8 := cString s.name

/-- `session::post_send` on a session. -/
def post (size : UInt32) (packet : List UInt8) (s : Session) : Session :=
  { s with toSender := Session.postSend false size (some packet) s.toSender }

end Session

/-- What the server is recorded to have done: accepted a connection, closed one, and
processed a `REQUEST_LOGIN` or a `REQUEST_CHAT` with the message read from it, and in the
latter case the packet built for it. -/
inductive Call
  | accepted (id : ℕ)
  | closed (id : ℕ)
  | login (id : ℕ) (request : LoginRequest)
  | chat (id : ℕ) (request : ChatRequest) (packet : List UInt8)
  deriving DecidableEq, Repr

/-- `chat_server`: `is_accepting_`, the sessions of the outstanding `async_accept`s of
`acceptor_`, `session_list_`, `session_queue_`, and the calls recorded. -/
structure ChatServer where
  isAccepting : Bool
  acceptor : List ℕ
  sessionList : List Session
  sessionQueue : List ℕ
  calls : List Call
  deriving DecidableEq, Repr

namespace ChatServer

/-- `chat_server::chat_server`. -/
def constructed : ChatServer := ⟨false, [], [], [], []⟩

/-- The session with an identifier. -/
def sessionAt (s : ChatServer) (id : ℕ) : Except Fault Session :=
  match s.sessionList[id]? with
  | none => .error .outOfRange
  | some session => .ok session

/-- Change the session with an identifier. -/
def modifySession (id : ℕ) (f : Session → Session) (s : ChatServer) : ChatServer :=
  { s with sessionList := s.sessionList.modify id f }

/-- Record a call. -/
def record (call : Call) (s : ChatServer) : ChatServer :=
  { s with calls := s.calls ++ [call] }

/-- `chat_server::init`; `mark` is what the marks of the new sessions happen to be. -/
def init (mark : ℕ → UInt32) (maxSessionCount : ℕ) (s : ChatServer) : ChatServer :=
  { s with
    sessionList := s.sessionList ++ (List.range maxSessionCount).map fun i => .constructed (mark i)
    sessionQueue := s.sessionQueue ++ List.range maxSessionCount }

/-- `chat_server::post_accept`. -/
def postAccept (s : ChatServer) : ChatServer :=
  match s.sessionQueue with
  | [] => { s with isAccepting := false }
  | id :: queue => { s with
      isAccepting := true, sessionQueue := queue, acceptor := s.acceptor ++ [id] }

/-- `chat_server::start`. -/
def start (s : ChatServer) : ChatServer := s.postAccept

/-- `session::post_receive`. -/
def postReceive (id : ℕ) (s : ChatServer) : ChatServer :=
  s.modifySession id fun session => { session with reading := session.reading + 1 }

/-- The first part of `chat_server::close_session`: close the socket and queue the
session. -/
def closeSocket (id : ℕ) (s : ChatServer) : ChatServer :=
  let s := s.record (.closed id)
  let s := s.modifySession id fun session => { session with isOpen := false }
  { s with sessionQueue := s.sessionQueue ++ [id] }

/-- `chat_server::close_session`. -/
def closeSession (id : ℕ) (s : ChatServer) : ChatServer :=
  let s := s.closeSocket id
  if s.isAccepting = false then s.postAccept else s

/-- `chat_server::handle_accept`. -/
def handleAccept (id : ℕ) (error : Bool) (s : ChatServer) : ChatServer :=
  if error = false then
    let s := s.record (.accepted id)
    let s := s.modifySession id fun session =>
      { session with toPacketBuffer := session.toPacketBuffer.init }
    let s := s.postReceive id
    s.postAccept
  else s

/-- Post a packet to a session. -/
def postSend (id : ℕ) (size : UInt32) (packet : List UInt8) (s : ChatServer) : ChatServer :=
  s.modifySession id (·.post size packet)

/-- The loop of `process_packet` over `session_list_`: post a packet to every session whose
socket is open. -/
def broadcast (size : UInt32) (packet : List UInt8) (s : ChatServer) : ChatServer :=
  (List.range s.sessionList.length).foldl (fun s i =>
    s.modifySession i fun session =>
      if session.isOpen = true then session.post size packet else session) s

/-- `process_packet` for a `REQUEST_LOGIN`. -/
def processLogin (id : ℕ) (data : List UInt8) (fresh : ℕ → UInt8) (s : ChatServer) :
    Except Fault ChatServer := do
  let recvHeader := PacketHeader.ofBytes data
  let (loginRequest, _) ←
    parseFromArray LoginRequest.messageType (data.drop 12) recvHeader.contentSize
  let s := s.record (.login id loginRequest)
  let s := s.modifySession id (·.setName loginRequest.name)
  let loginResponse := LoginResponse.cleared.setSuccess true
  let contentSize ← intSize loginResponse.byteSize
  let packet := buildPacket fresh Packets.replyLogin.toId.toUInt32 contentSize
  let packet := writeContent packet loginResponse.serialize
  return s.postSend id (headerSize + contentSize) packet

/-- `process_packet` for a `REQUEST_CHAT`. -/
def processChat (id : ℕ) (data : List UInt8) (fresh : ℕ → UInt8) (s : ChatServer) :
    Except Fault ChatServer := do
  let recvHeader := PacketHeader.ofBytes data
  let (chatRequest, _) ←
    parseFromArray ChatRequest.messageType (data.drop 12) recvHeader.contentSize
  let session ← s.sessionAt id
  let notification := ChatNotify.cleared.setName session.getName
  let notification := notification.setMessage chatRequest.message
  let contentSize ← intSize notification.byteSize
  let pkt := buildPacket fresh Packets.noticeChat.toId.toUInt32 contentSize
  let pkt := writeContent pkt notification.serialize
  let s := s.record (.chat id chatRequest pkt)
  return s.broadcast (headerSize + contentSize) pkt

/-- `chat_server::process_packet`; `fresh` is what the memory of the packet it builds
happens to hold. -/
def processPacket (id : ℕ) (data : List UInt8) (fresh : ℕ → UInt8) (s : ChatServer) :
    Except Fault ChatServer :=
  let recvHeader := PacketHeader.ofBytes data
  if recvHeader.id = Packets.requestLogin.toId then s.processLogin id data fresh
  else if recvHeader.id = Packets.requestChat.toId then s.processChat id data fresh
  else .ok s

/-- `session::handle_receive` for a read that succeeded. -/
def handleReceive (id : ℕ) (bytes : List UInt8) (fresh : ℕ → UInt8) (s : ChatServer) :
    Except Fault ChatServer := do
  let session ← s.sessionAt id
  let (buffer, exit) ← session.toPacketBuffer.receive .server bytes
  let s := s.modifySession id fun session => { session with toPacketBuffer := buffer }
  let s ← match exit with
    | .processed data => s.processPacket id data fresh
    | _ => pure s
  return s.postReceive id

/-- `session::handle_receive` for a read that failed. -/
def handleReceiveError (id : ℕ) (s : ChatServer) : ChatServer := s.closeSession id

/-- `session::handle_write`. -/
def handleWrite (id : ℕ) (s : ChatServer) : Except Fault ChatServer := do
  let session ← s.sessionAt id
  let sender ← Session.handleWrite { session.toSender with completed := session.completed + 1 }
  return s.modifySession id fun session => { session with toSender := sender }

end ChatServer

/-- A completion, with its session: of the `async_accept`, with or without an error; of an
`async_read_some`, with the bytes read, or with an error; of an `async_write`. -/
inductive ServerEvent
  | acceptDone (id : ℕ) (error : Bool)
  | readDone (id : ℕ) (bytes : List UInt8) (fresh : ℕ → UInt8)
  | readFailed (id : ℕ)
  | writeDone (id : ℕ)

namespace ChatServer

/-- The session with an identifier exists and has a property. -/
def Has (s : ChatServer) (id : ℕ) (P : Session → Prop) : Prop :=
  ∃ session, s.sessionList[id]? = some session ∧ P session

instance (s : ChatServer) (id : ℕ) (P : Session → Prop) [DecidablePred P] :
    Decidable (s.Has id P) :=
  match h : s.sessionList[id]? with
  | none => .isFalse fun ⟨_, hsome, _⟩ => by rw [h] at hsome; cases hsome
  | some session => decidable_of_iff (P session) (by simp [Has, h])

/-- An operation completes if it is outstanding. An `async_accept` succeeds only into a
closed socket, and a read delivers at most what fits into `receive_buffer_`. -/
def Enabled (s : ChatServer) : ServerEvent → Prop
  | .acceptDone id error => id ∈ s.acceptor ∧ (error = false → s.Has id (·.isOpen = false))
  | .readDone id bytes _ =>
    s.Has id (0 < ·.reading) ∧ bytes.length ≤ Side.server.receiveBufferLen
  | .readFailed id => s.Has id (0 < ·.reading)
  | .writeDone id => s.Has id fun session => session.completed < session.started.length

instance (s : ChatServer) (e : ServerEvent) : Decidable (s.Enabled e) := by
  cases e <;> unfold Enabled <;> infer_instance

/-- A completed `async_accept` opens the socket if it succeeded. -/
def acceptCompleted (id : ℕ) (error : Bool) (s : ChatServer) : ChatServer :=
  let s := { s with acceptor := s.acceptor.erase id }
  if error = false then s.modifySession id fun session => { session with isOpen := true } else s

/-- A completed `async_read_some` is no longer outstanding. -/
def readCompleted (id : ℕ) (s : ChatServer) : ChatServer :=
  s.modifySession id fun session => { session with reading := session.reading - 1 }

/-- One completion and its handler. -/
def step (s : ChatServer) : ServerEvent → Except Fault ChatServer
  | .acceptDone id error => .ok ((s.acceptCompleted id error).handleAccept id error)
  | .readDone id bytes fresh => (s.readCompleted id).handleReceive id bytes fresh
  | .readFailed id => .ok ((s.readCompleted id).handleReceiveError id)
  | .writeDone id => s.handleWrite id

/-- The server after `init` and `start`. -/
def started (mark : ℕ → UInt32) (maxSessionCount : ℕ) : ChatServer :=
  (constructed.init mark maxSessionCount).start

end ChatServer

/-- The runs of the server. -/
def chatMachine : Machine ChatServer ServerEvent Fault where
  enabled := ChatServer.Enabled
  step := ChatServer.step

instance (s : ChatServer) (e : ServerEvent) : Decidable (chatMachine.enabled s e) :=
  inferInstanceAs (Decidable (s.Enabled e))

end AsioChat
