import AsioChat.Broadcast
import AsioChat.ClientLogin

/-!
# What the Typed Lines Become

One client and the server, over a connection that delivers packets in order. The input
thread of the client asks `is_logged_in` for every line, and the answer changes when the
`REPLY_LOGIN` to the first line has gone around. A line typed before that is taken for a
login once more, and the server takes it for a new name.

Below the client and the server a packet is either underway or was processed: how it is cut
into reads is a question of `Framing`, and how it is written one of `SendRuns`. The server
also processes packets of other sessions, whose notices reach the client at any time.

## Main results

* `ConversationInv.step`: what every step of the conversation preserves.
* `interpreted_iff`: the lines become one login and then chats, if and only if every line
  but the first is looked at behind the arrival of the reply.
-/

namespace AsioChat

/-! ### Lines and requests -/

/-- What a sequence of lines is meant to become: the first one a login, the others chats. -/
def interpretation : List (List UInt8) → List Request
  | [] => []
  | name :: lines => .login ⟨some name⟩ :: lines.map fun line => .chat ⟨some line⟩

/-- The request `main` builds from a line. -/
def requestFor (loggedIn : Bool) (line : List UInt8) : Request :=
  if loggedIn = false then .login ⟨some line⟩ else .chat ⟨some line⟩

/-- One more line becomes a login if it is the first. -/
theorem interpretation_snoc (lines : List (List UInt8)) (line : List UInt8) :
    interpretation (lines ++ [line]) =
      interpretation lines ++ [requestFor (!lines.isEmpty) line] := by
  cases lines with
  | nil => rfl
  | cons name lines => simp [interpretation, requestFor]

/-- A line is one kind of request or the other. -/
theorem requestFor_inj {loggedIn loggedIn' : Bool} {line : List UInt8} :
    requestFor loggedIn line = requestFor loggedIn' line ↔ loggedIn = loggedIn' := by
  cases loggedIn <;> cases loggedIn' <;> simp [requestFor]

/-- The lines accepted. -/
def typedLines (calls : List ClientCall) : List (List UInt8) :=
  calls.filterMap fun
    | .typed line => some line
    | _ => none

/-- The lines of some calls and of some more. -/
theorem typedLines_append (calls calls' : List ClientCall) :
    typedLines (calls ++ calls') = typedLines calls ++ typedLines calls' :=
  List.filterMap_append ..

/-- The request in a packet passed to `post_send`. -/
def Write.request (w : Write) : Option Request := w.data.bind Request.ofPacket

/-- **The request in the packet `main` builds from a line.** -/
theorem request_of_build {fresh : ℕ → UInt8} {line pkt : List UInt8} {loggedIn : Bool}
    {size : UInt32} (hbuild : (if loggedIn = false then ChatClient.buildLogin fresh line
      else ChatClient.buildChat fresh line) = .ok (pkt, size)) :
    Write.request ⟨some pkt, size⟩ = some (requestFor loggedIn line) := by
  have hid := ChatClient.id_of_build hbuild
  cases loggedIn with
  | false =>
      obtain ⟨hsize, hpkt⟩ := ChatClient.buildLogin_eq_ok.mp hbuild
      cases hpkt
      have hname := length_lt_of_stringFieldSize hsize
      have hlength := LoginRequest.length_serialize hname
      have hparse := parseContent_packetOf LoginRequest.messageType fresh
        Packets.requestLogin.toId.toUInt32 []
        (show (LoginRequest.cleared.setName line).serialize.length < 2 ^ 31 from hlength ▸ hsize)
      rw [List.append_nil] at hparse
      refine (if_pos hid).trans ?_
      rw [hparse, LoginRequest.parse_messageType, LoginRequest.parse_serialize rfl hname]
      rfl
  | true =>
      obtain ⟨hsize, hpkt⟩ := ChatClient.buildChat_eq_ok.mp hbuild
      cases hpkt
      have hmessage := length_lt_of_stringFieldSize hsize
      have hlength := ChatRequest.length_serialize hmessage
      have hparse := parseContent_packetOf ChatRequest.messageType fresh
        Packets.requestChat.toId.toUInt32 []
        (show (ChatRequest.cleared.setMessage line).serialize.length < 2 ^ 31 from hlength ▸ hsize)
      rw [List.append_nil] at hparse
      refine ((if_neg ?_).trans (if_pos hid)).trans ?_
      · rw [hid]
        decide
      rw [hparse, ChatRequest.parse_messageType, ChatRequest.parse_serialize rfl hmessage]
      rfl

/-! ### The conversation -/

/-- A client, the server, and how far they are: how many of the client's packets the server
has processed, and how many of the packets posted to the client's session have arrived. -/
structure Conversation where
  client : ChatClient
  server : ChatServer
  served : ℕ
  arrived : ℕ

/-- A step of the client other than a successful read; the server processes the next packet
of the client, or a packet of another session; the next packet for the client arrives. -/
inductive ConversationEvent
  | client (e : ClientEvent)
  | serve (data : List UInt8) (fresh : ℕ → UInt8)
  | serveOther (id' : ℕ) (data : List UInt8) (fresh : ℕ → UInt8)
  | arrive (data : List UInt8)

namespace Conversation

/-- The conversation begins when `main` has called `connect`. What was posted to the session
before was not meant for this client. -/
def initial (mark : UInt32) (server : ChatServer) (id : ℕ) : Conversation :=
  ⟨.launched mark, server, 0, (server.postedTo id).length⟩

/-- Packets are processed in the order in which they were passed to `post_send`, those of the
client once they are being written. -/
def Enabled (id : ℕ) (w : Conversation) : ConversationEvent → Prop
  | .client e => clientMachine.enabled w.client e ∧ (e matches .readDone _) = false
  | .serve data _ => w.served < w.client.started.length ∧
    w.client.posted[w.served]?.bind Write.data = some data
  | .serveOther id' _ _ => id' ≠ id
  | .arrive data => (w.server.postedTo id)[w.arrived]?.bind Write.data = some data

instance (id : ℕ) (w : Conversation) (e : ConversationEvent) : Decidable (w.Enabled id e) := by
  cases e <;> unfold Enabled <;> infer_instance

/-- One step of the client or the server. -/
def step (id : ℕ) (w : Conversation) : ConversationEvent → Except Fault Conversation
  | .client e => do return { w with client := ← clientMachine.step w.client e }
  | .serve data fresh => do
    return { w with server := ← w.server.processPacket id data fresh, served := w.served + 1 }
  | .serveOther id' data fresh => do
    return { w with server := ← w.server.processPacket id' data fresh }
  | .arrive data => do
    return { w with client := ← w.client.processPacket data, arrived := w.arrived + 1 }

end Conversation

/-- The runs of a conversation on one session. -/
def conversationMachine (id : ℕ) : Machine Conversation ConversationEvent Fault where
  enabled := Conversation.Enabled id
  step := Conversation.step id

instance (id : ℕ) (w : Conversation) (e : ConversationEvent) :
    Decidable ((conversationMachine id).enabled w e) :=
  inferInstanceAs (Decidable (w.Enabled id e))

/-! ### The condition -/

/-- The input thread has looked at a line. -/
def Begun (es : List ConversationEvent) : Prop := .client .branch ∈ es

/-- A `REPLY_LOGIN` has arrived. -/
def ReplyArrived (es : List ConversationEvent) : Prop :=
  ∃ data, .arrive data ∈ es ∧ (PacketHeader.ofBytes data).id = Packets.replyLogin.toId

/-- Whenever the input thread looks at a line that is not the first, a `REPLY_LOGIN` has
arrived before. -/
def LoginAwaited (es : List ConversationEvent) : Prop :=
  ∀ before after, es = before ++ .client .branch :: after → Begun before → ReplyArrived before

/-- Nothing was typed before anything happens. -/
theorem loginAwaited_nil : LoginAwaited [] := by
  intro before after h
  simp at h

/-- The reply is awaited in a run and in one more step, if that does not branch too early. -/
theorem loginAwaited_snoc {es : List ConversationEvent} {e : ConversationEvent} :
    LoginAwaited (es ++ [e]) ↔
      LoginAwaited es ∧ (e = .client .branch → Begun es → ReplyArrived es) :=
  Machine.forall_before_snoc_iff

/-- Behind the arrival of a reply every line is awaited. -/
theorem LoginAwaited.append {es : List ConversationEvent} (h : LoginAwaited es)
    (hreply : ReplyArrived es) (fs : List ConversationEvent) : LoginAwaited (es ++ fs) := by
  induction fs using List.reverseRecOn with
  | nil =>
      rw [List.append_nil]
      exact h
  | append_singleton fs e ih =>
      obtain ⟨data, hmem, hid⟩ := hreply
      rw [← List.append_assoc, loginAwaited_snoc]
      exact ⟨ih, fun _ _ => ⟨data, List.mem_append_left _ hmem, hid⟩⟩

/-- The first line need not wait. -/
theorem loginAwaited_of_first {before after : List ConversationEvent} (hbefore : ¬ Begun before)
    (hafter : ¬ Begun after) : LoginAwaited (before ++ .client .branch :: after) := by
  induction after using List.reverseRecOn with
  | nil =>
      refine loginAwaited_snoc.mpr ⟨fun before' after' heq => ?_, fun _ hbegun => ?_⟩
      · exact absurd (by simp [Begun, heq]) hbefore
      · exact absurd hbegun hbefore
  | append_singleton after e ih =>
      simp only [Begun, List.mem_append, List.mem_singleton, not_or] at hafter
      rw [← List.cons_append, ← List.append_assoc, loginAwaited_snoc]
      exact ⟨ih hafter.1, fun he => absurd he.symm hafter.2⟩

/-- A run and one more step have begun. -/
theorem begun_snoc {es : List ConversationEvent} {e : ConversationEvent} :
    Begun (es ++ [e]) ↔ Begun es ∨ e = .client .branch := by
  rw [Begun, List.mem_append, List.mem_singleton, eq_comm (a := e)]
  rfl

/-- The reply has arrived in a run and one more step. -/
theorem replyArrived_snoc {es : List ConversationEvent} {e : ConversationEvent} :
    ReplyArrived (es ++ [e]) ↔ ReplyArrived es ∨ ∃ data, e = .arrive data ∧
      (PacketHeader.ofBytes data).id = Packets.replyLogin.toId := by
  simp only [ReplyArrived, List.mem_append, List.mem_singleton, or_and_right, exists_or,
    eq_comm (b := e)]

/-! ### What the server posts -/

/-- A write of a `REPLY_LOGIN` packet. -/
def Write.isReply (w : Write) : Prop :=
  ∃ packet, w.data = some packet ∧ (PacketHeader.ofBytes packet).id = Packets.replyLogin.toId

/-- A notice is no reply. -/
theorem not_isReply_of_isNotice {w : Write} (h : w.isNotice = true) : ¬ w.isReply := by
  rintro ⟨packet, hdata, hid⟩
  simp only [Write.isNotice, hdata, hid] at h
  cases h

/-- A packet of another session hands the session at most a notice. -/
theorem ChatServer.postedTo_processPacket_of_ne {s t : ChatServer} {id id' : ℕ}
    {data : List UInt8} {fresh : ℕ → UInt8} (hid : id' ≠ id)
    (h : s.processPacket id' data fresh = .ok t) :
    ∃ new, t.postedTo id = s.postedTo id ++ new ∧ ∀ w ∈ new, w.isNotice = true := by
  rcases postedTo_processPacket_cases h id with hsame | ⟨hsame, -⟩ | ⟨-, notice, hsize, hnotice⟩
  · exact ⟨[], hsame.trans (List.append_nil _).symm, fun w hw => absurd hw List.not_mem_nil⟩
  · exact absurd hsame hid
  · refine ⟨_, hnotice, fun w hw => ?_⟩
    rw [List.mem_singleton.mp hw]
    exact (isNotice_noticePacket hsize fresh).2 _

/-! ### The invariant -/

namespace ChatClient

/-- What the lines looked at so far have become: the requests posted, and the one that was
chosen and not yet posted. -/
def decided (c : ChatClient) : List (Option Request) :=
  c.posted.map Write.request ++ match c.input with
    | .branching line loggedIn => [some (requestFor loggedIn line)]
    | _ => []

/-- The line that was accepted and not yet looked at. -/
def pending (c : ChatClient) : List (List UInt8) :=
  match c.input with
  | .connected line => [line]
  | _ => []

end ChatClient

/-- The invariant of a conversation, with the events taken so far and the lines looked at:
`base` packets had been posted to the session before the client connected. -/
structure ConversationInv (id base : ℕ) (es : List ConversationEvent) (w : Conversation)
    (lines : List (List UInt8)) : Prop where
  typed : typedLines w.client.calls = lines ++ w.client.pending
  length : w.client.decided.length = lines.length
  begun : lines ≠ [] ↔ Begun es
  decided : w.client.decided = (interpretation lines).map some ↔ LoginAwaited es
  loggedIn : w.client.isLoggedIn = true ↔ ReplyArrived es
  answered : ReplyArrived es → w.client.posted ≠ []
  replies : ∀ write ∈ (w.server.postedTo id).drop base, write.isReply → w.client.posted ≠ []
  arrived : base ≤ w.arrived

variable {id base : ℕ} {es : List ConversationEvent} {w w' : Conversation}
  {lines : List (List UInt8)}

/-- It holds before anything happens. -/
theorem conversationInv_initial (mark : UInt32) (server : ChatServer) (id : ℕ) :
    ConversationInv id (server.postedTo id).length [] (.initial mark server id) [] := by
  have hnone : ¬ ReplyArrived [] := by
    rintro ⟨data, hmem, -⟩
    exact List.not_mem_nil hmem
  refine ⟨rfl, rfl, ?_, iff_of_true rfl loginAwaited_nil, ?_, fun h => absurd h hnone, ?_,
    Nat.le_refl _⟩
  · exact iff_of_false (fun h => h rfl) List.not_mem_nil
  · exact iff_of_false (fun h => nomatch h) hnone
  · intro write hmem
    simp [Conversation.initial] at hmem

/-- A step that neither looks at a line nor brings a reply, and posts and accepts nothing. -/
theorem ConversationInv.of_eq {e : ConversationEvent} (h : ConversationInv id base es w lines)
    (hbranch : e ≠ .client .branch)
    (harrive : ∀ data, e = .arrive data →
      (PacketHeader.ofBytes data).id ≠ Packets.replyLogin.toId)
    (htyped : typedLines w'.client.calls = lines ++ w'.client.pending)
    (hdecided : w'.client.decided = w.client.decided)
    (hloggedIn : w'.client.isLoggedIn = w.client.isLoggedIn)
    (hposted : w.client.posted ≠ [] → w'.client.posted ≠ [])
    (hreplies : ∀ write ∈ (w'.server.postedTo id).drop base, write.isReply →
      w'.client.posted ≠ [])
    (harrived : w.arrived ≤ w'.arrived) : ConversationInv id base (es ++ [e]) w' lines := by
  have hreply : ReplyArrived (es ++ [e]) ↔ ReplyArrived es := by
    rw [replyArrived_snoc, or_iff_left]
    rintro ⟨data, he, hid⟩
    exact harrive data he hid
  refine ⟨htyped, ?_, ?_, ?_, ?_, ?_, hreplies, h.arrived.trans harrived⟩
  · rw [hdecided, h.length]
  · rw [h.begun, begun_snoc, or_iff_left hbranch]
  · rw [hdecided, h.decided, loginAwaited_snoc]
    exact (and_iff_left fun he => absurd he hbranch).symm
  · rw [hloggedIn, h.loggedIn, hreply]
  · rw [hreply]
    exact fun harrived => hposted (h.answered harrived)

/-- Looking at the next line decides what becomes of it. -/
theorem ConversationInv.branch (h : ConversationInv id base es w lines) {line : List UInt8}
    (hinput : w.client.input = .connected line) :
    ConversationInv id base (es ++ [.client .branch])
      { w with client := { w.client with input := .branching line w.client.isLoggedIn } }
      (lines ++ [line]) := by
  have hdecided : w.client.decided = w.client.posted.map Write.request := by
    rw [ChatClient.decided, hinput, List.append_nil]
  have hpending : w.client.pending = [line] := by rw [ChatClient.pending, hinput]
  have hreply : ReplyArrived (es ++ [.client .branch]) ↔ ReplyArrived es := by
    rw [replyArrived_snoc, or_iff_left]
    rintro ⟨data, he, -⟩
    cases he
  -- who is logged in has posted something, so the line is not the first
  have hloggedIn : w.client.isLoggedIn = true → Begun es := fun hlog => by
    rw [← h.begun]
    rintro rfl
    have hlength := h.length
    rw [hdecided, List.length_map, List.length_nil] at hlength
    exact h.answered (h.loggedIn.mp hlog) (List.eq_nil_of_length_eq_zero hlength)
  have hkind : w.client.isLoggedIn = !lines.isEmpty ↔ (Begun es → ReplyArrived es) := by
    rw [← h.loggedIn, ← h.begun]
    rw [← h.begun] at hloggedIn
    cases lines with
    | nil => simpa using hloggedIn
    | cons line lines => simp
  refine ⟨?_, ?_, ?_, ?_, ?_, ?_, h.replies, h.arrived⟩
  · have htyped := h.typed
    rw [hpending] at htyped
    exact htyped.trans (List.append_nil _).symm
  · have hlength := h.length
    rw [hdecided] at hlength
    simp only [ChatClient.decided, List.length_append, List.length_singleton, hlength]
  · rw [begun_snoc]
    exact iff_of_true (by simp) (.inr rfl)
  · have hiff : w.client.posted.map Write.request ++
          [some (requestFor w.client.isLoggedIn line)] =
        (interpretation lines).map some ++ [some (requestFor (!lines.isEmpty) line)] ↔
          w.client.decided = (interpretation lines).map some ∧
            w.client.isLoggedIn = !lines.isEmpty := by
      rw [hdecided]
      constructor
      · intro heq
        obtain ⟨hinit, hlast⟩ := List.append_inj' heq rfl
        exact ⟨hinit, requestFor_inj.mp (Option.some.inj (List.cons.inj hlast).1)⟩
      · rintro ⟨hinit, hlast⟩
        rw [hinit, hlast]
    have hself : ConversationEvent.client .branch = .client .branch := rfl
    rw [loginAwaited_snoc, ← h.decided, imp_iff_right hself, ← hkind, interpretation_snoc,
      List.map_append, List.map_singleton]
    exact hiff
  · rw [hreply]
    exact h.loggedIn
  · rw [hreply]
    exact h.answered

/-- Posting the request that was chosen leaves what the lines have become. -/
theorem ConversationInv.send (h : ConversationInv id base es w lines) {fresh : ℕ → UInt8}
    {line pkt : List UInt8} {loggedIn : Bool} {size : UInt32}
    (hinput : w.client.input = .branching line loggedIn)
    (hbuild : (if loggedIn = false then ChatClient.buildLogin fresh line
      else ChatClient.buildChat fresh line) = .ok (pkt, size)) :
    ConversationInv id base (es ++ [.client (.send fresh)]) { w with client :=
      { (w.client.post size pkt).record (.posted pkt) with input := .reading } } lines := by
  have hposted := ChatClient.posted_post size pkt w.client
  have hne : (w.client.post size pkt).posted ≠ [] := by simp [hposted]
  refine h.of_eq (fun he => nomatch he) (fun _ he => nomatch he) ?_ ?_ rfl (fun _ => hne)
    (fun _ _ _ => hne) (Nat.le_refl _)
  · have htyped := h.typed
    rw [ChatClient.pending, hinput] at htyped
    simp only [ChatClient.pending, ChatClient.record, typedLines_append]
    exact (List.append_nil _).trans htyped
  · simp only [ChatClient.decided, ChatClient.record, hposted, hinput, List.map_append,
      List.map_singleton, request_of_build hbuild, List.append_nil]

/-- The arrival of a reply logs the client in. -/
theorem ConversationInv.arrive (h : ConversationInv id base es w lines) {data : List UInt8}
    {response : LoginResponse} {parsed : Bool}
    (hid : (PacketHeader.ofBytes data).id = Packets.replyLogin.toId)
    (hposted : w.client.posted ≠ []) :
    ConversationInv id base (es ++ [.arrive data]) { w with
      client := w.client.postLogin.record (.replied response parsed), arrived := w.arrived + 1 }
      lines := by
  have harrived : ReplyArrived (es ++ [.arrive data]) :=
    replyArrived_snoc.mpr (.inr ⟨data, rfl, hid⟩)
  refine ⟨?_, h.length, ?_, ?_, iff_of_true rfl harrived, fun _ => hposted,
    fun _ _ _ => hposted, Nat.le_succ_of_le h.arrived⟩
  · simp only [ChatClient.record, typedLines_append]
    exact (List.append_nil _).trans h.typed
  · rw [h.begun, begun_snoc, or_iff_left fun he => nomatch he]
  · rw [loginAwaited_snoc]
    exact h.decided.trans (and_iff_left fun he => nomatch he).symm

/-- A step of the client that leaves its dialogue alone. -/
theorem ConversationInv.quiet (h : ConversationInv id base es w lines) {e : ClientEvent}
    {d : ChatClient} (hsame : ChatClient.SameDialogue w.client d) (hbranch : e ≠ .branch) :
    ConversationInv id base (es ++ [.client e]) { w with client := d } lines := by
  refine h.of_eq ?_ (fun _ he => nomatch he) ?_ ?_ hsame.isLoggedIn ?_ ?_ (Nat.le_refl _)
  · rintro ⟨⟩
    exact hbranch rfl
  · rw [hsame.calls, h.typed, ChatClient.pending, ChatClient.pending, hsame.input]
  · rw [ChatClient.decided, ChatClient.decided, hsame.posted, hsame.input]
  · exact fun hne => hsame.posted ▸ hne
  · exact hsame.posted ▸ h.replies

/-- Accepting a line, which is then pending, or none. -/
theorem ConversationInv.getline (h : ConversationInv id base es w lines)
    (hreading : w.client.input = .reading) (line : Option (List UInt8)) :
    ConversationInv id base (es ++ [.client (.getline line)])
      { w with client := w.client.getline line } lines := by
  have htyped := h.typed
  rw [ChatClient.pending, hreading] at htyped
  rcases ChatClient.getline_cases line w.client with heq | heq | ⟨line, -, -, -, heq⟩
  all_goals
    rw [heq]
    refine h.of_eq (fun he => nomatch he) (fun _ he => nomatch he) ?_ ?_ rfl
      (fun hne => hne) h.replies (Nat.le_refl _)
  · exact htyped
  · simp only [ChatClient.decided, hreading]
  · exact h.typed
  · rfl
  · simp only [ChatClient.pending, ChatClient.record, typedLines_append, htyped, List.append_nil]
    rfl
  · simp only [ChatClient.decided, ChatClient.record, hreading]

/-- **Every step of the client preserves the invariant**; looking at a line adds it to the
lines. -/
theorem ConversationInv.client (h : ConversationInv id base es w lines) {e : ClientEvent}
    {d : ChatClient} (hread : (e matches .readDone _) = false)
    (hstep : clientMachine.Step w.client e d) :
    ∃ lines', ConversationInv id base (es ++ [.client e]) { w with client := d } lines' := by
  have hquiet : e.Quiet → e ≠ .branch → ∃ lines',
      ConversationInv id base (es ++ [.client e]) { w with client := d } lines' :=
    fun hquiet hbranch => ⟨lines, h.quiet (ChatClient.sameDialogue_of_step hstep hquiet) hbranch⟩
  cases e with
  | connectDone error => exact hquiet trivial fun he => nomatch he
  | readDone bytes => cases hread
  | readFailed => exact hquiet trivial fun he => nomatch he
  | writeDone => exact hquiet trivial fun he => nomatch he
  | writeResumed => exact hquiet trivial fun he => nomatch he
  | getline line =>
      obtain ⟨henabled, hd⟩ := hstep
      cases hd
      exact ⟨lines, h.getline henabled line⟩
  | branch =>
      obtain ⟨line, hinput, rfl⟩ := ChatClient.step_branch hstep
      exact ⟨_, h.branch hinput⟩
  | send fresh =>
      obtain ⟨line, loggedIn, pkt, size, hinput, hbuild, rfl⟩ := ChatClient.step_send hstep
      exact ⟨lines, h.send hinput hbuild⟩

/-- The server may process a packet of the client once one is posted. -/
theorem ConversationInv.serve (h : ConversationInv id base es w lines) {data : List UInt8}
    {fresh : ℕ → UInt8} (hnext : w.Enabled id (.serve data fresh)) (server : ChatServer) :
    ConversationInv id base (es ++ [.serve data fresh])
      { w with server := server, served := w.served + 1 } lines := by
  have hne : w.client.posted ≠ [] := by
    intro hnil
    have hdata := hnext.2
    rw [hnil] at hdata
    cases hdata
  exact h.of_eq (fun he => nomatch he) (fun _ he => nomatch he) h.typed rfl rfl (fun _ => hne)
    (fun _ _ _ => hne) (Nat.le_refl _)

/-- A packet of another session brings no reply under way. -/
theorem ConversationInv.serveOther (h : ConversationInv id base es w lines) {id' : ℕ}
    {data : List UInt8} {fresh : ℕ → UInt8} {server : ChatServer} (hid : id' ≠ id)
    (hprocess : w.server.processPacket id' data fresh = .ok server) :
    ConversationInv id base (es ++ [.serveOther id' data fresh]) { w with server := server }
      lines := by
  obtain ⟨new, hnew, hnotices⟩ := ChatServer.postedTo_processPacket_of_ne hid hprocess
  refine h.of_eq (fun he => nomatch he) (fun _ he => nomatch he) h.typed rfl rfl
    (fun hne => hne) (fun write hmem hreply => ?_) (Nat.le_refl _)
  rw [hnew, List.drop_append, List.mem_append] at hmem
  rcases hmem with hmem | hmem
  · exact h.replies write hmem hreply
  · exact absurd hreply (not_isReply_of_isNotice (hnotices write (List.mem_of_mem_drop hmem)))

/-- The next packet for the client arrives: a reply, which logs it in, or another. -/
theorem ConversationInv.arriveNext (h : ConversationInv id base es w lines) {data : List UInt8}
    {d : ChatClient} (hnext : w.Enabled id (.arrive data))
    (hprocess : w.client.processPacket data = .ok d) :
    ConversationInv id base (es ++ [.arrive data])
      { w with client := d, arrived := w.arrived + 1 } lines := by
  obtain ⟨write, hwrite, hdata⟩ := Option.bind_eq_some_iff.mp hnext
  rcases ChatClient.processPacket_cases hprocess with
    ⟨hid, response, parsed, -, rfl⟩ | ⟨hid, hd⟩
  · have hmem : write ∈ (w.server.postedTo id).drop base := by
      refine List.mem_of_getElem? (i := w.arrived - base) ?_
      rw [List.getElem?_drop, Nat.add_sub_cancel' h.arrived, hwrite]
    exact h.arrive hid (h.replies write hmem ⟨data, hdata, hid⟩)
  · have hother : ∀ data', ConversationEvent.arrive data = .arrive data' →
        (PacketHeader.ofBytes data').id ≠ Packets.replyLogin.toId := by
      rintro data' ⟨⟩
      exact hid
    rcases hd with rfl | ⟨notify, parsed, rfl⟩
    · exact h.of_eq (fun he => nomatch he) hother h.typed rfl rfl (fun hne => hne) h.replies
        (Nat.le_succ _)
    · refine h.of_eq (fun he => nomatch he) hother ?_ rfl rfl (fun hne => hne) h.replies
        (Nat.le_succ _)
      simp only [ChatClient.record, typedLines_append]
      exact (List.append_nil _).trans h.typed

/-- **Every step preserves the invariant**, for the lines looked at so far. -/
theorem ConversationInv.step {e : ConversationEvent} (h : ConversationInv id base es w lines)
    (hstep : (conversationMachine id).Step w e w') :
    ∃ lines', ConversationInv id base (es ++ [e]) w' lines' := by
  obtain ⟨henabled, hstep⟩ := hstep
  cases e with
  | client e =>
      obtain ⟨d, hclient, hw⟩ := Except.exists_of_bind_eq_ok hstep
      cases hw
      exact h.client henabled.2 ⟨henabled.1, hclient⟩
  | serve data fresh =>
      obtain ⟨server, hprocess, hw⟩ := Except.exists_of_bind_eq_ok hstep
      cases hw
      exact ⟨lines, h.serve henabled server⟩
  | serveOther id' data fresh =>
      obtain ⟨server, hprocess, hw⟩ := Except.exists_of_bind_eq_ok hstep
      cases hw
      exact ⟨lines, h.serveOther henabled hprocess⟩
  | arrive data =>
      obtain ⟨d, hprocess, hw⟩ := Except.exists_of_bind_eq_ok hstep
      cases hw
      exact ⟨lines, h.arriveNext henabled hprocess⟩

/-- The invariant holds in every run. -/
theorem conversationInv_of_run {mark : UInt32} {server : ChatServer}
    (h : (conversationMachine id).Run (.initial mark server id) es w) :
    ∃ lines, ConversationInv id (server.postedTo id).length es w lines := by
  refine h.history_induction
    (P := fun es w => ∃ lines, ConversationInv id (server.postedTo id).length es w lines)
    ⟨[], conversationInv_initial mark server id⟩ ?_
  rintro es w e w' - ⟨lines, hinv⟩ hstep
  exact hinv.step hstep

/-- The input thread is not in the middle of a line. -/
def InputThread.Idle : InputThread → Prop
  | reading | stopped => True
  | _ => False

/-- **The lines typed become one login and then chats, in order, if and only if every line but
the first is looked at behind the arrival of a reply**: at the end of every run, however the
client, the server and the arrivals were interleaved. -/
theorem interpreted_iff {mark : UInt32} {server : ChatServer}
    (h : (conversationMachine id).Run (.initial mark server id) es w)
    (hidle : w.client.input.Idle) :
    w.client.posted.map Write.request = (interpretation (typedLines w.client.calls)).map some ↔
      LoginAwaited es := by
  obtain ⟨lines, hinv⟩ := conversationInv_of_run h
  have htyped := hinv.typed
  have hdecided := hinv.decided
  rw [ChatClient.pending] at htyped
  rw [ChatClient.decided] at hdecided
  cases hinput : w.client.input with
  | connected line =>
      rw [hinput] at hidle
      exact hidle.elim
  | branching line loggedIn =>
      rw [hinput] at hidle
      exact hidle.elim
  | reading =>
      simp only [hinput, List.append_nil] at htyped hdecided
      rw [htyped, hdecided]
  | stopped =>
      simp only [hinput, List.append_nil] at htyped hdecided
      rw [htyped, hdecided]

/-! ### A name and a line -/

/-- The server when a client has connected to its only session. -/
def acceptedServer : ChatServer :=
  ((ChatServer.started (fun _ => 0) 1).acceptCompleted 0 false).handleAccept 0 false

/-- The connection is made; `Bob` is typed, looked at and posted, and is written. -/
def typeBob : List ConversationEvent :=
  [.client (.connectDone false), .client (.getline (some [66, 111, 98])), .client .branch,
    .client (.send fun _ => 0), .client .writeDone, .client .writeResumed]

/-- `hi` is typed, looked at and posted. -/
def typeHi : List ConversationEvent :=
  [.client (.getline (some [104, 105])), .client .branch, .client (.send fun _ => 0)]

/-- The server answers the first login, and the reply arrives. -/
def answerBob : List ConversationEvent :=
  [.serve (loginPacket [66, 111, 98]) fun _ => 0, .arrive (loginReply true)]

/-- The server takes the second line for a login. -/
def serveHi : List ConversationEvent := [.serve (loginPacket [104, 105]) fun _ => 0]

/-- The reply arrives before the second line is looked at. -/
theorem interpreted_of_awaited : ∃ w,
    (conversationMachine 0).Run (.initial 0 acceptedServer 0) (typeBob ++ answerBob ++ typeHi) w ∧
    typedLines w.client.calls = [[66, 111, 98], [104, 105]] ∧
    w.client.posted.map Write.request = (interpretation (typedLines w.client.calls)).map some := by
  obtain ⟨w, hrun, hw⟩ := Machine.exists_run_of_exec (conversationMachine 0)
    (.initial 0 acceptedServer 0) (typeBob ++ answerBob ++ typeHi)
    (fun w => (typedLines w.client.calls, w.client.input))
    (b := ([[66, 111, 98], [104, 105]], .reading)) (by decide +kernel)
  obtain ⟨htyped, hinput⟩ := Prod.mk.inj hw
  have hidle : w.client.input.Idle := by
    rw [hinput]
    trivial
  have hfirst : LoginAwaited (typeBob ++ answerBob) :=
    @loginAwaited_of_first (typeBob.take 2) (typeBob.drop 3 ++ answerBob)
      (by simp [Begun, typeBob]) (by simp [Begun, typeBob, answerBob])
  have hreply : ReplyArrived (typeBob ++ answerBob) :=
    ⟨loginReply true, by simp [answerBob], by decide +kernel⟩
  exact ⟨w, hrun, htyped, (interpreted_iff hrun hidle).mpr (hfirst.append hreply typeHi)⟩

/-- Both lines are looked at before the reply arrives: both become logins, and the server
takes the second one for the name. -/
theorem interpreted_as_two_logins : ∃ w,
    (conversationMachine 0).Run (.initial 0 acceptedServer 0)
      (typeBob ++ typeHi ++ answerBob ++ serveHi) w ∧
    typedLines w.client.calls = [[66, 111, 98], [104, 105]] ∧
    w.client.posted.map Write.request =
      [some (.login ⟨some [66, 111, 98]⟩), some (.login ⟨some [104, 105]⟩)] ∧
    w.server.sessionList[0]?.map Session.name = some [104, 105] ∧
    w.client.posted.map Write.request ≠
      (interpretation (typedLines w.client.calls)).map some := by
  obtain ⟨w, hrun, hw⟩ := Machine.exists_run_of_exec (conversationMachine 0)
    (.initial 0 acceptedServer 0) (typeBob ++ typeHi ++ answerBob ++ serveHi)
    (fun w => (typedLines w.client.calls, w.client.posted.map Write.request,
      w.server.sessionList[0]?.map Session.name))
    (b := ([[66, 111, 98], [104, 105]],
      [some (.login ⟨some [66, 111, 98]⟩), some (.login ⟨some [104, 105]⟩)], some [104, 105]))
    (by decide +kernel)
  obtain ⟨htyped, hw⟩ := Prod.mk.inj hw
  obtain ⟨hposted, hname⟩ := Prod.mk.inj hw
  refine ⟨w, hrun, htyped, hposted, hname, ?_⟩
  rw [hposted, htyped]
  decide

end AsioChat
