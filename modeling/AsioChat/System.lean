import AsioChat.ChatRoom
import AsioChat.Conversation
import AsioChat.Disturbances
import AsioChat.Lib.Pipe
import Mathlib.Data.Fintype.Defs

/-!
# The System

The server and any number of clients, each on a connection of its own, down to the bytes. What
a client or a session writes goes into a pipe, and what is read comes from the front of the
pipe, in pieces of any size: TCP keeps the bytes and their order, and nothing else. All steps
of the clients and of the server interleave. Besides the clients there may be others on
the other sessions, who send what they like.

A client that has called `connect` gets a connection at some time, or none; what it writes
before, or after it has closed its socket, is lost. The connection is accepted into a session at
some time, and the bytes that the client has written by then are waiting; it is over when the
server closes the socket. The client connects only once.

A step can be disturbed (`Disturbances`): by the other thread of a client in `calculate_crc`, or
by something else in the memory of the packets that are written. The event says what it was
disturbed by. Everything that is proved about the system is about the runs in which nothing is.

## Main definitions

* `Peer`: a client with the two pipes of its connection.
* `System.step`: one step of a client or of the server.
* `systemMachine`: the runs of the system.
* `System.Tidy`: the condition on a step under which nothing gets lost.
* `System.PeerStep`: what a tidy step of the system is to one of the clients.

## Main results

* `System.Reached.step`: the server and each client run as they do alone, and sessions belong to
  one client each.
* `System.peerStep_of_step`, `System.server_of_step`: what a step is to each client and to the
  server.
* `ChatServer.startedOn_of_step`, `ChatClient.started_of_step`: writes are only added.
-/

namespace AsioChat

/-- The writes started on a session so far. -/
def ChatServer.startedOn (s : ChatServer) (i : ℕ) : List Write :=
  (s.sessionList[i]?.map fun session => session.started).getD []

/-! ### The parties -/

/-- A connection that was accepted: its session, how many requests had been recorded for the
session and how many packets posted to it before, and how many requests had been recorded when
the server closed it, if it has. -/
structure Connection where
  id : ℕ
  requestsBefore : ℕ
  postedBefore : ℕ
  requestsAtEnd : Option ℕ
  deriving DecidableEq, Repr

namespace Connection

/-- A connection that is accepted as a session. -/
def accepted (s : ChatServer) (id : ℕ) : Connection where
  id := id
  requestsBefore := (s.calls.filterMap (Call.request id)).length
  postedBefore := (s.postedTo id).length
  requestsAtEnd := none

/-- The connection when the server closes it. -/
def closed (s : ChatServer) (κ : Connection) : Connection :=
  { κ with requestsAtEnd := some (s.calls.filterMap (Call.request κ.id)).length }

/-- Whether the server has not closed it. -/
def isLive (κ : Connection) : Bool := κ.requestsAtEnd.isNone

/-- A connection that is accepted is not closed. -/
@[simp] theorem isLive_accepted (s : ChatServer) (id : ℕ) : (accepted s id).isLive = true := rfl

/-- A connection that the server closes is closed. -/
@[simp] theorem isLive_closed (s : ChatServer) (κ : Connection) : (κ.closed s).isLive = false := rfl

end Connection

/-- The requests the server has recorded for a connection, until it has closed it. -/
def ChatServer.requestsSince (s : ChatServer) (κ : Connection) : List Request :=
  let requests := s.calls.filterMap (Call.request κ.id)
  (requests.take (κ.requestsAtEnd.getD requests.length)).drop κ.requestsBefore

/-- A client with its connection: the bytes underway in both directions, write by write, the
writes the server has started for it, the connection since it was accepted, and whether there is
one. -/
structure Peer where
  client : ChatClient
  toServer : List (List UInt8)
  toClient : List (List UInt8)
  handed : List Write
  connection : Option Connection
  isUp : Bool
  deriving DecidableEq, Repr

namespace Peer

/-- A client that has called `connect`. -/
def launched (mark : UInt32) : Peer := ⟨.launched mark, [], [], [], none, false⟩

/-- The socket of the client has a connection. -/
def IsConnected (p : Peer) : Prop := p.isUp = true ∧ p.client.isOpen = true

instance (p : Peer) : Decidable p.IsConnected := inferInstanceAs (Decidable (_ ∧ _))

/-- The client takes a step: what it writes is underway, if it has a connection. -/
def advance (freed : Option (ℕ → UInt8)) (c : ChatClient) (p : Peer) : Peer :=
  let new := if p.IsConnected then c.started.drop p.client.started.length else []
  { p with client := c, toServer := p.toServer ++ new.map (Write.bytesFrom freed) }

/-- The server takes a step: what it writes on the session of the connection is underway. -/
def feed (freed : Option (ℕ → UInt8)) (s t : ChatServer) (p : Peer) : Peer :=
  match p.connection with
  | none => p
  | some κ =>
    if κ.isLive = true then
      let new := (t.startedOn κ.id).drop (s.startedOn κ.id).length
      { p with
        handed := p.handed ++ new
        toClient := p.toClient ++ new.map (Write.bytesFrom freed) }
    else p

/-- The connection was accepted, the server has not closed it, and something holds of it. -/
def On (p : Peer) (P : Connection → Prop) : Prop :=
  ∃ κ, p.connection = some κ ∧ κ.isLive = true ∧ P κ

instance (p : Peer) (P : Connection → Prop) [DecidablePred P] : Decidable (p.On P) :=
  match h : p.connection with
  | none => .isFalse fun ⟨_, hsome, _⟩ => by rw [h] at hsome; cases hsome
  | some κ => decidable_of_iff (κ.isLive = true ∧ P κ) (by simp [On, h])

/-- A read of the server that is one of this connection. -/
def Owns (p : Peer) : ServerEvent → Prop
  | .readDone id _ _ => p.On (·.id = id)
  | .readFailed id => p.On (·.id = id)
  | _ => False

instance (p : Peer) : (e : ServerEvent) → Decidable (p.Owns e)
  | .readDone id _ _ => inferInstanceAs (Decidable (p.On (·.id = id)))
  | .readFailed id => inferInstanceAs (Decidable (p.On (·.id = id)))
  | .acceptDone _ _ | .writeDone _ => instDecidableFalse

/-- The `async_connect` completes as the connection is: without an error only if there is one, and
with one only if there is none or the client has closed its socket. -/
def Connects (p : Peer) : ClientEvent → Prop
  | .connectDone error => if error = true then ¬ p.IsConnected else p.isUp = true
  | _ => True

instance (p : Peer) : (e : ClientEvent) → Decidable (p.Connects e)
  | .connectDone error =>
    inferInstanceAs (Decidable (if error = true then ¬ p.IsConnected else p.isUp = true))
  | .readDone _ | .readFailed | .writeDone | .writeResumed | .getline _ | .branch | .send _ =>
    instDecidableTrue

end Peer

/-- The server and the clients. -/
structure System (ι : Type) where
  server : ChatServer
  peer : ι → Peer

/-- A step of the system: a client gets its connection; it takes a step other than a successful
read; the server takes one that reads from none of these clients; the server accepts the
connection of a client; it reads some bytes from a client; some bytes arrive at a client; the
server finds the connection of a client broken. -/
inductive SystemAction (ι : Type)
  | establish (k : ι)
  | client (k : ι) (e : ClientEvent)
  | server (e : ServerEvent)
  | accept (k : ι) (id : ℕ)
  | serve (k : ι) (n : ℕ) (fresh : ℕ → UInt8)
  | arrive (k : ι) (n : ℕ)
  | hangUp (k : ι)

/-- A step of the system, with what `calculate_crc` returns in it, if the other thread of the
client is in it too, and with what the memory of the packets holds that are written to or by each
client in it, if that is something else when their bytes are taken. -/
structure SystemEvent (ι : Type) where
  action : SystemAction ι
  raced : Option UInt32
  freed : Option (ι → ℕ → UInt8)

/-- A step that nothing disturbs. -/
def SystemEvent.calm {ι : Type} (action : SystemAction ι) : SystemEvent ι := ⟨action, none, none⟩

/-- Nothing disturbs the step. -/
def SystemEvent.IsCalm {ι : Type} (e : SystemEvent ι) : Prop :=
  e.raced.isNone = true ∧ e.freed.isNone = true

instance {ι : Type} (e : SystemEvent ι) : Decidable e.IsCalm :=
  inferInstanceAs (Decidable (_ ∧ _))

/-- A step that nothing disturbs is only its action. -/
theorem SystemEvent.IsCalm.exists_eq {ι : Type} {e : SystemEvent ι} (h : e.IsCalm) :
    ∃ action, e = .calm action := by
  obtain ⟨action, raced, freed⟩ := e
  obtain ⟨hraced, hfreed⟩ := h
  obtain rfl := Option.isNone_iff_eq_none.mp hraced
  obtain rfl := Option.isNone_iff_eq_none.mp hfreed
  exact ⟨action, rfl⟩

namespace System

variable {ι : Type} [DecidableEq ι]

/-- The system before anything happens: `mark` and `marks` are what the marks of the sessions
and of the clients happen to be. -/
def initial (mark : ℕ → UInt32) (maxSessionCount : ℕ) (marks : ι → UInt32) : System ι :=
  ⟨.started mark maxSessionCount, fun k => .launched (marks k)⟩

/-- Change what belongs to one client. -/
def setPeer (k : ι) (p : Peer) (w : System ι) : System ι :=
  { w with peer := Function.update w.peer k p }

/-- A step of the server, with the bytes it writes. -/
def serverStep (freed : Option (ι → ℕ → UInt8)) (e : ServerEvent) (w : System ι) :
    Except Fault (System ι) := do
  let t ← chatMachine.step w.server e
  return ⟨t, fun k => (w.peer k).feed (freed.map (· k)) w.server t⟩

/-- What the server reads from a client: up to `n` of the bytes underway. -/
def upBytes (w : System ι) (k : ι) (n : ℕ) : List UInt8 := (w.peer k).toServer.flatten.take n

/-- What a client reads from the server: up to `n` of the bytes underway. -/
def downBytes (w : System ι) (k : ι) (n : ℕ) : List UInt8 := (w.peer k).toClient.flatten.take n

/-- What is possible for the client or the server. A connection is accepted once. -/
def Enabled (w : System ι) : SystemAction ι → Prop
  | .establish k =>
    (w.peer k).isUp = false ∧ (w.peer k).client.connecting = true ∧
      (w.peer k).client.isOpen = true
  | .client k e =>
    clientMachine.enabled (w.peer k).client e ∧ (e matches .readDone _) = false ∧
      (w.peer k).Connects e
  | .server e => chatMachine.enabled w.server e ∧ ∀ k, ¬ (w.peer k).Owns e
  | .accept k id =>
    (w.peer k).connection = none ∧ (w.peer k).isUp = true ∧
      chatMachine.enabled w.server (.acceptDone id false)
  | .serve k n fresh =>
    (w.peer k).On fun κ => chatMachine.enabled w.server (.readDone κ.id (w.upBytes k n) fresh)
  | .arrive k n => clientMachine.enabled (w.peer k).client (.readDone (w.downBytes k n))
  | .hangUp k => (w.peer k).On fun κ => chatMachine.enabled w.server (.readFailed κ.id)

instance [Fintype ι] (w : System ι) (action : SystemAction ι) : Decidable (w.Enabled action) := by
  cases action <;> unfold Enabled <;> infer_instance

/-- One step of a client or of the server. -/
def step (w : System ι) (e : SystemEvent ι) : Except Fault (System ι) :=
  match e.action with
  | .establish k => .ok (w.setPeer k { w.peer k with isUp := true })
  | .client k e' => do
    let c ← (w.peer k).client.stepRaced e.raced e'
    return w.setPeer k ((w.peer k).advance (e.freed.map (· k)) c)
  | .server e' => w.serverStep e.freed e'
  | .accept k id => do
    let w' ← w.serverStep e.freed (.acceptDone id false)
    return w'.setPeer k { w'.peer k with connection := some (.accepted w.server id) }
  | .serve k n fresh =>
    match (w.peer k).connection with
    | none => .ok w
    | some κ => do
      let w' ← w.serverStep e.freed (.readDone κ.id (w.upBytes k n) fresh)
      return w'.setPeer k { w'.peer k with toServer := Pipe.drop n (w.peer k).toServer }
  | .arrive k n => do
    let c ← (w.peer k).client.stepRaced e.raced (.readDone (w.downBytes k n))
    return w.setPeer k { (w.peer k).advance (e.freed.map (· k)) c with
      toClient := Pipe.drop n (w.peer k).toClient }
  | .hangUp k =>
    match (w.peer k).connection with
    | none => .ok w
    | some κ => do
      let w' ← w.serverStep e.freed (.readFailed κ.id)
      return w'.setPeer k { w'.peer k with connection := some (κ.closed w.server) }

end System

/-- The runs of the system. -/
def systemMachine (ι : Type) [DecidableEq ι] : Machine (System ι) (SystemEvent ι) Fault where
  enabled w e := w.Enabled e.action
  step := System.step

instance {ι : Type} [DecidableEq ι] [Fintype ι] (w : System ι) (e : SystemEvent ι) :
    Decidable ((systemMachine ι).enabled w e) :=
  inferInstanceAs (Decidable (w.Enabled e.action))

/-! ### Tidy steps -/

/-- The line that the input thread is about to post as a chat. -/
def InputThread.chatLine : InputThread → Option (List UInt8)
  | branching line true => some line
  | _ => none

namespace System

variable {ι : Type}

/-- No read holds bytes of two packets, and a client posts a request only when it has a
connection, and a chat line only if the server accepts its length. -/
def Orderly (w : System ι) : SystemAction ι → Prop
  | .client k e => (e matches .send _) = true → (w.peer k).IsConnected ∧
    ∀ line ∈ (w.peer k).client.input.chatLine,
      (ChatRequest.cleared.setMessage line).byteSize ≤ maxChatMessageLen.toNat
  | .serve k n _ => Pipe.Fits n (w.peer k).toServer
  | .arrive k n => Pipe.Fits n (w.peer k).toClient
  | .establish _ | .server _ | .accept _ _ | .hangUp _ => True

instance (w : System ι) : (action : SystemAction ι) → Decidable (w.Orderly action)
  | .client _ _ => inferInstanceAs (Decidable (_ → _))
  | .serve k n _ => inferInstanceAs (Decidable (Pipe.Fits n (w.peer k).toServer))
  | .arrive k n => inferInstanceAs (Decidable (Pipe.Fits n (w.peer k).toClient))
  | .establish _ | .server _ | .accept _ _ | .hangUp _ => instDecidableTrue

/-- **The condition on a step under which nothing gets lost.** Nothing disturbs it: the threads of
a client are not in `calculate_crc` at once, and the packets that are written still are what they
were when their bytes are taken. No read holds bytes of two packets. And a client posts a request
only when it has a connection, and a chat line only if the server accepts its length. -/
def Tidy (w : System ι) (e : SystemEvent ι) : Prop := e.IsCalm ∧ w.Orderly e.action

instance (w : System ι) (e : SystemEvent ι) : Decidable (w.Tidy e) :=
  inferInstanceAs (Decidable (_ ∧ _))

end System

/-! ### Writes are only added -/

/-- **What a step of a session's send side starts**: nothing, or one write, and that only if
everything posted was started. -/
theorem Session.SendInv.started_step {es : List SendEvent} {e : SendEvent} {s t : Sender}
    (h : SendInv es s) (hstep : sessionSendMachine.Step s e t) :
    (t.started = s.started ∧ s.posted.length ≤ t.posted.length) ∨
      (s.started.length = s.posted.length ∧ s.started <+: t.started) := by
  obtain ⟨henabled, hstep⟩ := hstep
  cases e with
  | post packet size =>
      cases hstep
      by_cases hqueue : s.sendDataQueue = []
      · right
        have hposted := h.inv.posted
        have hflow := h.flowing
        rw [Sender.Flowing, hqueue] at hflow
        rw [hqueue] at hposted
        rw [Sender.postSend_of_nil hqueue]
        exact ⟨hflow.trans hposted.symm, List.prefix_append _ _⟩
      · left
        rw [Sender.postSend_of_ne_nil hqueue]
        exact ⟨rfl, by simp⟩
  | complete =>
      rcases sendStep_complete h.inv henabled with ⟨-, hok⟩ | ⟨-, herror⟩
      · cases hok.symm.trans hstep
        exact .inl ⟨rfl, Nat.le_refl _⟩
      · cases herror.symm.trans hstep
  | resume => exact henabled.elim

/-- Over a run, writes are only added on a session, and none if something posted was not
started. -/
theorem Session.SendInv.started_run {es es' : List SendEvent} {s t : Sender} (h : SendInv es s)
    (hrun : sessionSendMachine.Run s es' t) :
    ∃ new, t.started = s.started ++ new ∧ (s.started.length < s.posted.length → new = []) := by
  induction hrun generalizing es with
  | nil s => exact ⟨[], (List.append_nil _).symm, fun _ => rfl⟩
  | cons hstep _ ih =>
      obtain ⟨new, hnew, hnone⟩ := ih (h.step hstep)
      rcases h.started_step hstep with ⟨hsame, hposted⟩ | ⟨hall, hprefix⟩
      · rw [hsame] at hnew hnone
        exact ⟨new, hnew, fun hlt => hnone (Nat.lt_of_lt_of_le hlt hposted)⟩
      · obtain ⟨first, hfirst⟩ := hprefix
        refine ⟨first ++ new, ?_, fun hlt => absurd hall (Nat.ne_of_lt hlt)⟩
        rw [hnew, ← hfirst, List.append_assoc]

namespace ChatServer

variable {s t : ChatServer} {e : ServerEvent} {mark : ℕ → UInt32} {n : ℕ} {es : List ServerEvent}
  {i : ℕ}

/-- **A step only adds writes on a session**, and none if a packet posted was not written. -/
theorem startedOn_of_step (h : chatMachine.Run (started mark n) es s)
    (hstep : chatMachine.Step s e t) (hi : i < n) :
    ∃ new, t.startedOn i = s.startedOn i ++ new ∧
      ((s.startedOn i).length < (s.postedTo i).length → new = []) := by
  obtain ⟨_, q, hrun, hsends⟩ := exists_sender_run h hi
  obtain ⟨_, q', hrun', hsends'⟩ := hsends.step hstep
  obtain ⟨session, hsession, rfl⟩ := Option.map_eq_some_iff.mp hsends
  obtain ⟨target, htarget, rfl⟩ := Option.map_eq_some_iff.mp hsends'
  simp only [startedOn, postedTo, hsession, htarget, Option.map_some, Option.getD_some]
  exact (Session.sendInv_of_run hrun).started_run hrun'

/-- A socket that is open stays open, unless a read on it fails. -/
theorem has_isOpen_of_step (hopen : s.Has i (·.isOpen = true)) (hstep : chatMachine.Step s e t)
    (hfailed : e ≠ .readFailed i) : t.Has i (·.isOpen = true) := by
  have hiff : ∀ u : ChatServer, u.Has i (·.isOpen = true) ↔
      u.sessionList[i]?.map Session.isOpen = some true := fun u => Option.map_eq_some_iff.symm
  have hsome := (hiff s).mp hopen
  cases e with
  | acceptDone id error =>
      obtain ⟨-, hstep⟩ := hstep
      cases hstep
      cases error with
      | true => exact hopen
      | false =>
          rw [hiff, sessionList_acceptDone,
            map_modifySession_eq Session.isOpen s id (g := fun _ => true) (fun _ => rfl), hsome,
            Option.map_some, ite_self]
  | readDone id bytes fresh =>
      obtain ⟨_, buffer, _, u, -, -, hu, rfl⟩ := step_readDone hstep
      have hreceived := (has_isOpen_received id buffer).mpr hopen
      have hprocessed : u.Has i (·.isOpen = true) := by
        rcases hu with ⟨-, rfl⟩ | ⟨data, -, hprocess⟩
        · exact hreceived
        · rw [hiff, map_processPacket Session.isOpen (fun _ _ => rfl) (fun _ _ _ => rfl) hprocess]
          exact (hiff _).mp hreceived
      have hsame := map_modifySession Session.isOpen u id
        (f := fun session => { session with reading := session.reading + 1 }) (fun _ => rfl) i
      exact (hiff _).mpr (hsame.trans ((hiff u).mp hprocessed))
  | readFailed id =>
      obtain ⟨-, hstep⟩ := hstep
      cases hstep
      have hid : id ≠ i := fun heq => hfailed (heq ▸ rfl)
      rw [hiff, sessionList_readFailed, map_modifySession_of_ne Session.isOpen s _ hid, hsome]
  | writeDone id =>
      obtain ⟨session, sender, -, -, rfl⟩ := step_writeDone hstep
      refine (hiff _).mpr ((map_modifySession Session.isOpen s id ?_ i).trans hsome)
      exact fun _ => rfl

end ChatServer

namespace ChatClient

variable {c d : ChatClient} {e : ClientEvent}

/-- `post_send` only adds writes. -/
theorem started_postSend (size : UInt32) (data : SharedByte) (s : Sender) :
    s.started <+: (postSend false size data s).started := by
  rw [postSend_eq]
  by_cases hqueue : s.sendDataQueue = []
  · rw [Sender.postSend_of_nil hqueue]
    exact List.prefix_append _ _
  · rw [Sender.postSend_of_ne_nil hqueue]

/-- **Only `main` starts writes**: `handle_write` never finds a packet that it could go on with. -/
theorem started_eq_of_step {mark : UInt32} {es : List ClientEvent}
    (h : clientMachine.Run (.launched mark) es c) (hstep : clientMachine.Step c e d)
    (hsend : ∀ fresh, e ≠ .send fresh) : d.started = c.started := by
  obtain ⟨_, hrun⟩ := exists_send_run h
  have hinv := sendInv_of_run hrun
  cases e with
  | connectDone error =>
      cases hstep.2
      cases error <;> rfl
  | readDone bytes =>
      obtain ⟨buffer, exit, u, -, hu, rfl⟩ := step_readDone hstep
      rcases hu with ⟨-, rfl⟩ | ⟨data, -, hprocess⟩
      · rfl
      · rcases processPacket_cases hprocess with
          ⟨-, response, parsed, -, rfl⟩ | ⟨-, rfl | ⟨notify, parsed, rfl⟩⟩ <;> rfl
  | readFailed =>
      cases hstep.2
      rw [handleReceiveError, close_eq]
  | writeDone =>
      obtain ⟨henabled, hstep⟩ := hstep
      obtain ⟨-, queue, -, hok⟩ := sendStep_complete hinv.inv henabled
      simp only [clientMachine, step, hok] at hstep
      cases hstep
      rfl
  | writeResumed =>
      obtain ⟨henabled, hstep⟩ := hstep
      cases hhandler : c.handler with
      | none => exact absurd hhandler henabled
      | some data =>
          obtain rfl := hinv.handler data hhandler
          simp only [clientMachine, step, sendStep, hhandler, resumeWrite] at hstep
          cases hstep
          rfl
  | getline line =>
      cases hstep.2
      show (c.getline line).started = c.started
      rcases getline_cases line c with heq | heq | ⟨inputMsg, -, -, -, heq⟩
      all_goals exact (congrArg (fun c => c.started) heq :)
  | branch =>
      obtain ⟨inputMsg, -, rfl⟩ := step_branch hstep
      rfl
  | send fresh => exact absurd rfl (hsend fresh)

/-- **A step of the client only adds writes.** -/
theorem started_of_step {mark : UInt32} {es : List ClientEvent}
    (h : clientMachine.Run (.launched mark) es c) (hstep : clientMachine.Step c e d) :
    c.started <+: d.started := by
  by_cases hsend : ∃ fresh, e = .send fresh
  · obtain ⟨fresh, rfl⟩ := hsend
    obtain ⟨inputMsg, loggedIn, pkt, size, -, -, rfl⟩ := step_send hstep
    exact started_postSend size (some pkt) c.toSender
  · rw [started_eq_of_step h hstep fun fresh heq => hsend ⟨fresh, heq⟩]

end ChatClient

/-! ### What the steps do -/

namespace Peer

/-- The client takes a step, and all that it writes is underway. -/
def written (c : ChatClient) (p : Peer) : Peer :=
  { p with
    client := c
    toServer := p.toServer ++ (c.started.drop p.client.started.length).map Write.bytes }

/-- **What a tidy step of the client puts underway**: all that it writes, which is nothing or
written on a connection. -/
theorem advance_eq_written {c : ChatClient} {p : Peer}
    (h : c.started = p.client.started ∨ p.IsConnected) : p.advance none c = p.written c := by
  rcases h with hsame | hconnected
  · simp [advance, written, hsame]
  · rw [advance, if_pos hconnected, Write.bytesFrom_none]
    rfl

/-- What the server writes leaves the connection. -/
@[simp] theorem connection_feed (freed : Option (ℕ → UInt8)) (s t : ChatServer) (p : Peer) :
    (p.feed freed s t).connection = p.connection := by
  unfold feed
  split
  · rfl
  · split <;> rfl

/-- What the server writes leaves the client, until it arrives. -/
@[simp] theorem client_feed (freed : Option (ℕ → UInt8)) (s t : ChatServer) (p : Peer) :
    (p.feed freed s t).client = p.client := by
  unfold feed
  split
  · rfl
  · split <;> rfl

/-- What the server writes leaves what is underway to it. -/
@[simp] theorem toServer_feed (freed : Option (ℕ → UInt8)) (s t : ChatServer) (p : Peer) :
    (p.feed freed s t).toServer = p.toServer := by
  unfold feed
  split
  · rfl
  · split <;> rfl

/-- Nothing new is underway if the server starts no write. -/
theorem feed_eq_self {s t : ChatServer} (p : Peer) (h : ∀ i, t.startedOn i = s.startedOn i) :
    p.feed none s t = p := by
  unfold feed
  split
  · rfl
  · split
    · simp [h]
    · rfl

end Peer

/-- A completed `async_accept` opens the socket. -/
theorem ChatServer.has_isOpen_accepted {s t : ChatServer} {id : ℕ}
    (hstep : chatMachine.Step s (.acceptDone id false) t) : t.Has id (·.isOpen = true) := by
  obtain ⟨⟨-, hclosed⟩, hstep⟩ := hstep
  cases hstep
  obtain ⟨session, hsession, -⟩ := hclosed rfl
  refine ⟨session.accepted, ?_, rfl⟩
  rw [sessionList_acceptDone, getElem?_modifySession, hsession, Option.map_some, if_pos rfl]

namespace System

variable {ι : Type} {w w' : System ι} {e : SystemEvent ι} {action : SystemAction ι} {j : ι}

/-- A step of the server goes on with what it writes underway. -/
theorem serverStep_eq_ok {freed : Option (ι → ℕ → UInt8)} {e : ServerEvent}
    (h : w.serverStep freed e = .ok w') :
    chatMachine.step w.server e = .ok w'.server ∧
      ∀ j, w'.peer j = (w.peer j).feed (freed.map (· j)) w.server w'.server := by
  obtain ⟨t, hstep, h⟩ := Except.exists_of_bind_eq_ok h
  cases h
  exact ⟨hstep, fun _ => rfl⟩

/-- Sessions belong to one client each: that of a connection the server has not closed is open,
and no other such connection has it. -/
structure Exclusive (w : System ι) : Prop where
  isOpen : ∀ k, ∀ κ, (w.peer k).connection = some κ → κ.isLive = true →
    w.server.Has κ.id (·.isOpen = true)
  unique : ∀ j k κ κ', (w.peer j).connection = some κ → κ.isLive = true →
    (w.peer k).connection = some κ' → κ'.isLive = true → κ.id = κ'.id → j = k

/-- What a tidy step of the system is to a client: a step of its own; some bytes that arrive; a
step of another client, or getting the connection; a step of the server that does not read from
it; its accept; a read of the server from it; the end of its connection. -/
inductive PeerStep (w w' : System ι) (j : ι) : SystemAction ι → Prop
  | client (e : ClientEvent) (c : ChatClient) (hread : (e matches .readDone _) = false)
      (hstep : clientMachine.Step (w.peer j).client e c) (hserver : w'.server = w.server)
      (hpeer : w'.peer j = (w.peer j).written c) : PeerStep w w' j (.client j e)
  | arrive (n : ℕ) (c : ChatClient)
      (hstep : clientMachine.Step (w.peer j).client (.readDone (w.downBytes j n)) c)
      (hserver : w'.server = w.server)
      (hpeer : w'.peer j =
        { (w.peer j).written c with toClient := Pipe.drop n (w.peer j).toClient }) :
      PeerStep w w' j (.arrive j n)
  | other (action : SystemAction ι) (isUp : Bool) (hserver : w'.server = w.server)
      (hpeer : w'.peer j = { w.peer j with isUp := isUp }) : PeerStep w w' j action
  | server (action : SystemAction ι) (e' : ServerEvent)
      (hstep : chatMachine.Step w.server e' w'.server) (howns : ¬ (w.peer j).Owns e')
      (hpeer : w'.peer j = (w.peer j).feed none w.server w'.server) : PeerStep w w' j action
  | accept (id : ℕ) (hnone : (w.peer j).connection = none)
      (hstep : chatMachine.Step w.server (.acceptDone id false) w'.server)
      (hpeer : w'.peer j = { (w.peer j).feed none w.server w'.server with
        connection := some (.accepted w.server id) }) : PeerStep w w' j (.accept j id)
  | serve (n : ℕ) (fresh : ℕ → UInt8) (κ : Connection) (hκ : (w.peer j).connection = some κ)
      (hlive : κ.isLive = true)
      (hstep : chatMachine.Step w.server (.readDone κ.id (w.upBytes j n) fresh) w'.server)
      (hpeer : w'.peer j = { (w.peer j).feed none w.server w'.server with
        toServer := Pipe.drop n (w.peer j).toServer }) : PeerStep w w' j (.serve j n fresh)
  | hangUp (κ : Connection) (hκ : (w.peer j).connection = some κ) (hlive : κ.isLive = true)
      (hstep : chatMachine.Step w.server (.readFailed κ.id) w'.server)
      (hpeer : w'.peer j = { (w.peer j).feed none w.server w'.server with
        connection := some (κ.closed w.server) }) : PeerStep w w' j (.hangUp j)

/-- A read from another client's session is none of this one's. -/
theorem Exclusive.not_owns (h : w.Exclusive) {j k : ι} {κ : Connection}
    (hκ : (w.peer k).connection = some κ) (hlive : κ.isLive = true) (hj : j ≠ k) :
    ¬ (w.peer j).On (·.id = κ.id) := by
  rintro ⟨κ', hκ', hlive', hid⟩
  exact hj (h.unique j k κ' κ hκ' hlive' hκ hlive hid)

/-- A connection that is there after a step was there before, or it was accepted. -/
theorem PeerStep.connection (h : PeerStep w w' j action) {κ : Connection}
    (hκ : (w'.peer j).connection = some κ) (hlive : κ.isLive = true) :
    (w.peer j).connection = some κ ∨ ∃ id, action = .accept j id ∧ κ = .accepted w.server id ∧
      chatMachine.Step w.server (.acceptDone id false) w'.server := by
  cases h with
  | client e c hread hstep hserver hpeer =>
      rw [hpeer] at hκ
      exact .inl hκ
  | arrive n c hstep hserver hpeer =>
      rw [hpeer] at hκ
      exact .inl hκ
  | other action isUp hserver hpeer =>
      rw [hpeer] at hκ
      exact .inl hκ
  | server action e' hstep howns hpeer =>
      rw [hpeer, Peer.connection_feed] at hκ
      exact .inl hκ
  | accept id hnone hstep hpeer =>
      rw [hpeer] at hκ
      exact .inr ⟨id, rfl, (Option.some.inj hκ).symm, hstep⟩
  | serve n fresh κ' hκ' hlive' hstep hpeer =>
      rw [hpeer] at hκ
      exact .inl ((Peer.connection_feed ..).symm.trans hκ)
  | hangUp κ' hκ' hlive' hstep hpeer =>
      rw [hpeer] at hκ
      cases hκ
      cases hlive

/-- A socket into which a connection is accepted is none of a connection that is there. -/
theorem Exclusive.ne_of_accept (h : w.Exclusive) {id : ℕ} {k : ι} {κ : Connection}
    {t : ChatServer} (hstep : chatMachine.Step w.server (.acceptDone id false) t)
    (hκ : (w.peer k).connection = some κ) (hlive : κ.isLive = true) : id ≠ κ.id := by
  rintro rfl
  obtain ⟨session, hsession, hclosed⟩ := hstep.1.2 rfl
  obtain ⟨session', hsession', hopen⟩ := h.isOpen k κ hκ hlive
  rw [hsession] at hsession'
  cases hsession'
  rw [hclosed] at hopen
  cases hopen

/-- A step of the system is one of a client, or leaves it alone. -/
theorem PeerStep.client_step (h : PeerStep w w' j action) :
    (w'.peer j).client = (w.peer j).client ∨
      ∃ e', clientMachine.Step (w.peer j).client e' (w'.peer j).client := by
  cases h with
  | client e c hread hstep hserver hpeer =>
      rw [hpeer]
      exact .inr ⟨e, hstep⟩
  | arrive n c hstep hserver hpeer =>
      rw [hpeer]
      exact .inr ⟨_, hstep⟩
  | other action isUp hserver hpeer =>
      rw [hpeer]
      exact .inl rfl
  | server action e' hstep howns hpeer =>
      exact .inl ((congrArg Peer.client hpeer).trans (Peer.client_feed ..))
  | accept id hnone hstep hpeer =>
      exact .inl ((congrArg Peer.client hpeer).trans (Peer.client_feed ..))
  | serve n fresh κ hκ hlive hstep hpeer =>
      exact .inl ((congrArg Peer.client hpeer).trans (Peer.client_feed ..))
  | hangUp κ hκ hlive hstep hpeer =>
      exact .inl ((congrArg Peer.client hpeer).trans (Peer.client_feed ..))

variable {mark : ℕ → UInt32} {n : ℕ} {marks : ι → UInt32}

/-- The system was reached: the server and every client ran as they do alone, and the sessions
belong to one client each. -/
structure Reached (mark : ℕ → UInt32) (n : ℕ) (marks : ι → UInt32) (w : System ι) : Prop where
  exclusive : w.Exclusive
  server : ∃ es, chatMachine.Run (.started mark n) es w.server
  client : ∀ k, ∃ es, clientMachine.Run (.launched (marks k)) es (w.peer k).client

/-- The system is reached before anything happens. -/
theorem reached_initial (mark : ℕ → UInt32) (n : ℕ) (marks : ι → UInt32) :
    (initial mark n marks).Reached mark n marks := by
  refine ⟨⟨fun k κ hκ => ?_, fun j k κ κ' hκ => ?_⟩, ⟨[], .nil _⟩, fun k => ⟨[], .nil _⟩⟩
  · cases hκ
  · cases hκ

variable [DecidableEq ι]

/-- What belongs to a client after a change of what belongs to a client. -/
theorem peer_setPeer (k : ι) (p : Peer) (w : System ι) (j : ι) :
    (w.setPeer k p).peer j = if j = k then p else w.peer j := by
  by_cases hj : j = k
  · subst hj
    rw [if_pos rfl]
    exact Function.update_self j p w.peer
  · rw [if_neg hj]
    exact Function.update_of_ne hj p w.peer

/-- **What a tidy step of the system is to each client.** -/
theorem peerStep_of_step (h : w.Reached mark n marks) (hstep : (systemMachine ι).Step w e w')
    (htidy : w.Tidy e) (j : ι) : PeerStep w w' j e.action := by
  obtain ⟨hcalm, horderly⟩ := htidy
  obtain ⟨action, rfl⟩ := hcalm.exists_eq
  obtain ⟨henabled, hstep⟩ := hstep
  cases action with
  | establish k =>
      cases hstep
      refine .other _ (if j = k then true else (w.peer j).isUp) rfl ?_
      rw [peer_setPeer]
      by_cases hj : j = k
      · subst hj
        rw [if_pos rfl, if_pos rfl]
      · rw [if_neg hj, if_neg hj]
  | client k e' =>
      obtain ⟨c, hclient, hstep⟩ := Except.exists_of_bind_eq_ok hstep
      cases hstep
      replace hclient : clientMachine.Step (w.peer k).client e' c :=
        ⟨henabled.1, (ChatClient.stepRaced_none _ _).symm.trans hclient⟩
      have hwritten : c.started = (w.peer k).client.started ∨ (w.peer k).IsConnected := by
        by_cases hsend : ∃ fresh, e' = .send fresh
        · obtain ⟨fresh, rfl⟩ := hsend
          exact .inr (horderly rfl).1
        · obtain ⟨es, hrun⟩ := h.client k
          exact .inl (ChatClient.started_eq_of_step hrun hclient
            fun fresh heq => hsend ⟨fresh, heq⟩)
      by_cases hj : j = k
      · subst hj
        refine .client e' c henabled.2.1 hclient rfl ((peer_setPeer ..).trans ?_)
        rw [if_pos rfl]
        exact Peer.advance_eq_written hwritten
      · exact .other _ (w.peer j).isUp rfl ((peer_setPeer ..).trans (if_neg hj))
  | server e' =>
      obtain ⟨hserver, hpeer⟩ := serverStep_eq_ok hstep
      exact .server _ e' ⟨henabled.1, hserver⟩ (henabled.2 j) (hpeer j)
  | accept k id =>
      obtain ⟨hnone, -, henabled⟩ := henabled
      simp only [systemMachine, step, SystemEvent.calm] at hstep
      obtain ⟨u, hu, hstep⟩ := Except.exists_of_bind_eq_ok hstep
      obtain ⟨hserver, hpeer⟩ := serverStep_eq_ok hu
      cases hstep
      by_cases hj : j = k
      · subst hj
        refine .accept id hnone ⟨henabled, hserver⟩ ?_
        rw [peer_setPeer, if_pos rfl, hpeer]
        rfl
      · refine .server _ (.acceptDone id false) ⟨henabled, hserver⟩ (fun howns => howns) ?_
        rw [peer_setPeer, if_neg hj, hpeer]
        rfl
  | serve k n fresh =>
      obtain ⟨κ, hκ, hlive, henabled⟩ := henabled
      simp only [systemMachine, step, SystemEvent.calm, hκ] at hstep
      obtain ⟨u, hu, hstep⟩ := Except.exists_of_bind_eq_ok hstep
      obtain ⟨hserver, hpeer⟩ := serverStep_eq_ok hu
      cases hstep
      by_cases hj : j = k
      · subst hj
        refine .serve n fresh κ hκ hlive ⟨henabled, hserver⟩ ?_
        rw [peer_setPeer, if_pos rfl, hpeer]
        rfl
      · refine .server _ _ ⟨henabled, hserver⟩ (h.exclusive.not_owns hκ hlive hj) ?_
        rw [peer_setPeer, if_neg hj, hpeer]
        rfl
  | arrive k n =>
      obtain ⟨c, hclient, hstep⟩ := Except.exists_of_bind_eq_ok hstep
      cases hstep
      replace hclient : clientMachine.Step (w.peer k).client (.readDone (w.downBytes k n)) c :=
        ⟨henabled, (ChatClient.stepRaced_none _ _).symm.trans hclient⟩
      by_cases hj : j = k
      · subst hj
        obtain ⟨es, hrun⟩ := h.client j
        have hsame := ChatClient.started_eq_of_step hrun hclient fun _ => ClientEvent.noConfusion
        have hwritten := Peer.advance_eq_written (p := w.peer j) (.inl hsame)
        refine .arrive n c hclient rfl ((peer_setPeer ..).trans ?_)
        rw [if_pos rfl, ← hwritten]
        rfl
      · exact .other _ (w.peer j).isUp rfl ((peer_setPeer ..).trans (if_neg hj))
  | hangUp k =>
      obtain ⟨κ, hκ, hlive, henabled⟩ := henabled
      simp only [systemMachine, step, SystemEvent.calm, hκ] at hstep
      obtain ⟨u, hu, hstep⟩ := Except.exists_of_bind_eq_ok hstep
      obtain ⟨hserver, hpeer⟩ := serverStep_eq_ok hu
      cases hstep
      by_cases hj : j = k
      · subst hj
        refine .hangUp κ hκ hlive ⟨henabled, hserver⟩ ?_
        rw [peer_setPeer, if_pos rfl, hpeer]
        rfl
      · refine .server _ _ ⟨henabled, hserver⟩ (h.exclusive.not_owns hκ hlive hj) ?_
        rw [peer_setPeer, if_neg hj, hpeer]
        rfl

omit [DecidableEq ι] in
/-- **Sessions keep belonging to one client each.** -/
theorem Exclusive.step (h : w.Exclusive) (hsteps : ∀ j, PeerStep w w' j action) :
    w'.Exclusive := by
  constructor
  · intro k κ hκ hlive
    have hstays : ∀ e', (w.peer k).connection = some κ → chatMachine.Step w.server e' w'.server →
        e' ≠ .readFailed κ.id → w'.server.Has κ.id (·.isOpen = true) := fun e' hold hserver =>
      ChatServer.has_isOpen_of_step (h.isOpen k κ hold hlive) hserver
    rcases (hsteps k).connection hκ hlive with hold | ⟨id, -, rfl, haccept⟩
    · cases hsteps k with
      | client e c hread hclient hserver hpeer => exact hserver ▸ h.isOpen k κ hold hlive
      | arrive n c hclient hserver hpeer => exact hserver ▸ h.isOpen k κ hold hlive
      | other action isUp hserver hpeer => exact hserver ▸ h.isOpen k κ hold hlive
      | server action e' hserver howns hpeer =>
          refine hstays e' hold hserver ?_
          rintro rfl
          exact howns ⟨κ, hold, hlive, rfl⟩
      | accept id hnone hserver hpeer => exact hstays _ hold hserver ServerEvent.noConfusion
      | serve n fresh κ' hκ' hlive' hserver hpeer =>
          exact hstays _ hold hserver ServerEvent.noConfusion
      | hangUp κ' hκ' hlive' hserver hpeer =>
          rw [hpeer] at hκ
          cases hκ
          cases hlive
    · exact ChatServer.has_isOpen_accepted haccept
  · intro j k κ κ' hκ hlive hκ' hlive' hid
    rcases (hsteps j).connection hκ hlive with hold | ⟨id, rfl, rfl, haccept⟩
    · rcases (hsteps k).connection hκ' hlive' with hold' | ⟨id', rfl, rfl, haccept'⟩
      · exact h.unique j k κ κ' hold hlive hold' hlive' hid
      · exact absurd hid.symm (h.ne_of_accept haccept' hold hlive)
    · rcases (hsteps k).connection hκ' hlive' with hold' | ⟨id', heq, -, -⟩
      · exact absurd hid (h.ne_of_accept haccept hold' hlive')
      · cases heq
        rfl

/-- The server reads from a client, whose connection stays. -/
def ReadsFrom (w w' : System ι) (k : ι) (e : ServerEvent) : Prop :=
  ∃ κ bytes fresh, (w.peer k).connection = some κ ∧ κ.isLive = true ∧
    (w'.peer k).connection = some κ ∧ e = .readDone κ.id bytes fresh

/-- **What a step of the system is to the server**: nothing, or a step, and if that is a read,
it is one of the others or from a client. -/
theorem server_of_step (hstep : (systemMachine ι).Step w e w') :
    w'.server = w.server ∨ ∃ e', chatMachine.Step w.server e' w'.server ∧
      ((∀ id bytes fresh, e' ≠ .readDone id bytes fresh) ∨ e.action = .server e' ∨
        ∃ k, ReadsFrom w w' k e') := by
  obtain ⟨action, raced, freed⟩ := e
  obtain ⟨henabled, hstep⟩ := hstep
  cases action with
  | establish k =>
      cases hstep
      exact .inl rfl
  | client k e' =>
      obtain ⟨c, -, hstep⟩ := Except.exists_of_bind_eq_ok hstep
      cases hstep
      exact .inl rfl
  | server e' =>
      exact .inr ⟨e', ⟨henabled.1, (serverStep_eq_ok hstep).1⟩, .inr (.inl rfl)⟩
  | accept k id =>
      simp only [systemMachine, step] at hstep
      obtain ⟨u, hu, hstep⟩ := Except.exists_of_bind_eq_ok hstep
      cases hstep
      exact .inr ⟨_, ⟨henabled.2.2, (serverStep_eq_ok hu).1⟩,
        .inl fun _ _ _ => ServerEvent.noConfusion⟩
  | serve k n fresh =>
      obtain ⟨κ, hκ, hlive, henabled⟩ := henabled
      simp only [systemMachine, step, hκ] at hstep
      obtain ⟨u, hu, hstep⟩ := Except.exists_of_bind_eq_ok hstep
      obtain ⟨hserver, hpeer⟩ := serverStep_eq_ok hu
      cases hstep
      refine .inr ⟨_, ⟨henabled, hserver⟩, .inr (.inr ⟨k, κ, _, fresh, hκ, hlive, ?_, rfl⟩)⟩
      rw [peer_setPeer, if_pos rfl, hpeer]
      exact (Peer.connection_feed ..).trans hκ
  | arrive k n =>
      obtain ⟨c, -, hstep⟩ := Except.exists_of_bind_eq_ok hstep
      cases hstep
      exact .inl rfl
  | hangUp k =>
      obtain ⟨κ, hκ, -, henabled⟩ := henabled
      simp only [systemMachine, step, hκ] at hstep
      obtain ⟨u, hu, hstep⟩ := Except.exists_of_bind_eq_ok hstep
      cases hstep
      exact .inr ⟨_, ⟨henabled, (serverStep_eq_ok hu).1⟩,
        .inl fun _ _ _ => ServerEvent.noConfusion⟩

/-- **The server and each client run as they do alone.** -/
theorem Reached.step (h : w.Reached mark n marks) (hstep : (systemMachine ι).Step w e w')
    (htidy : w.Tidy e) : w'.Reached mark n marks := by
  have hsteps := peerStep_of_step h hstep htidy
  refine ⟨h.exclusive.step hsteps, ?_, fun k => ?_⟩
  · obtain ⟨es, hrun⟩ := h.server
    rcases server_of_step hstep with heq | ⟨e', hserver, -⟩
    · exact ⟨es, heq ▸ hrun⟩
    · exact ⟨es ++ [e'], hrun.append (.cons hserver (.nil _))⟩
  · obtain ⟨es, hrun⟩ := h.client k
    rcases (hsteps k).client_step with heq | ⟨e', hclient⟩
    · exact ⟨es, heq ▸ hrun⟩
    · exact ⟨es ++ [e'], hrun.append (.cons hclient (.nil _))⟩

end System

end AsioChat
