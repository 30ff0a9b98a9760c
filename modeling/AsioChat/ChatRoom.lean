import AsioChat.Broadcast
import AsioChat.Client
import AsioChat.Framing
import AsioChat.Lib.Room
import AsioChat.ServerSessions

/-!
# The Server as a Chat Room

What the server is for, apart from packets, queues and buffers: it is a room whose seats are
the sessions. An accepted connection takes a seat, a failed read leaves it, a `REQUEST_LOGIN`
signs in a name and a `REQUEST_CHAT` says something. Of a name the others are shown what comes
before its first NUL byte.

What the room tells a seat is what its client records when it processes the packets handed to
the session, so the two programs agree on what a packet means.

## Main results

* `ChatServer.Shows.step`: what every step of the server does in the room.
* `exists_room_run`: every run of the server is one of the room, from any moment on.
* `told_of_run`: what a session is handed over an interval in which it is not closed.
-/

namespace AsioChat

/-- What a call is in the room. -/
def Call.roomEvent : Call → Room.Event ℕ (List UInt8)
  | accepted id => .enter id
  | closed id => .leave id
  | login id request => .signIn id request.name
  | chat id request _ => .say id request.message

/-- The room of a server: its seats are the sessions, and names are shown as C strings. -/
noncomputable abbrev chatRoom :
    Machine (Room.State ℕ (List UInt8)) (Room.Event ℕ (List UInt8)) Empty :=
  Room.machine ℕ (List UInt8) cString

/-- What a client records when it is told something: that a login succeeded, or a notice. -/
def ClientCall.told : Room.Message (List UInt8) → ClientCall
  | .welcome => replied ⟨some true⟩ true
  | .said name text => noticed ⟨some name, some text⟩ true

/-! ### What a client reads -/

/-- The identifier of a packet, whatever stands behind the packet. -/
theorem id_packetOf {content : List UInt8} (fresh : ℕ → UInt8) (id : UInt32)
    (stale : List UInt8) (hfit : content.length + 12 < 2 ^ 32) :
    (PacketHeader.ofBytes (packetOf fresh id content ++ stale)).id = id.toUInt16 := by
  have hlength := length_packetOf fresh id hfit
  rw [PacketHeader.ofBytes_append (by omega), ofBytes_packetOf fresh id hfit, builtHeader_id]

/-- A write conveys a message of the room: it is one of a packet as `build_packet` makes them,
whole, and every client that processes the packet records the message, whatever stands behind
it in the buffer. -/
def Write.Conveys (w : Write) (m : Room.Message (List UInt8)) : Prop :=
  ∃ packet, w.data = some packet ∧ w.size.toNat = packet.length ∧ Side.client.IsPacket packet ∧
    ∀ (c : ChatClient) (stale : List UInt8), ∃ d,
      c.processPacket (packet ++ stale) = .ok d ∧ d.calls = c.calls ++ [.told m]

/-- A `REPLY_LOGIN` conveys a welcome. -/
theorem conveys_replyPacket (fresh : ℕ → UInt8) :
    Write.Conveys ⟨some (replyPacket fresh), 14⟩ .welcome := by
  have hfit : (LoginResponse.cleared.setSuccess true).serialize.length + 12 < 2 ^ 32 := by decide
  refine ⟨_, rfl, ?_, ⟨⟨fresh, _, _, hfit, rfl⟩, fun h => absurd h (by decide)⟩, fun c stale => ?_⟩
  · rw [replyPacket, length_packetOf fresh _ hfit]
    rfl
  · have hid := id_packetOf fresh Packets.replyLogin.toId.toUInt32 stale hfit
    have hparse := parseContent_packetOf LoginResponse.messageType fresh
      Packets.replyLogin.toId.toUInt32 stale
      (show (LoginResponse.cleared.setSuccess true).serialize.length < 2 ^ 31 by decide)
    rw [LoginResponse.parse_messageType, LoginResponse.parse_serialize rfl, parseContent] at hparse
    refine ⟨c.postLogin.record (.replied ⟨some true⟩ true), ?_, rfl⟩
    simp only [ChatClient.processPacket, replyPacket, hid, hparse]
    rfl

/-- A `NOTICE_CHAT` conveys what was said. -/
theorem conveys_noticePacket {notice : ChatNotify} {name text : List UInt8}
    (hnotice : notice = ⟨some name, some text⟩) (hsize : notice.byteSize < 2 ^ 31)
    (fresh : ℕ → UInt8) :
    Write.Conveys ⟨some (noticePacket fresh notice), headerSize + UInt32.ofNat notice.byteSize⟩
      (.said name text) := by
  obtain ⟨hname, hmessage⟩ := ChatNotify.lengths_lt hsize
  have hlength := ChatNotify.length_serialize hname hmessage
  have hfit : notice.serialize.length + 12 < 2 ^ 32 := by omega
  refine ⟨_, rfl, ?_, ⟨⟨fresh, _, _, hfit, rfl⟩, fun h => absurd h (by decide)⟩, fun c stale => ?_⟩
  · rw [(isNotice_noticePacket hsize fresh).1, UInt32.toNat_add, toNat_headerSize,
      UInt32.toNat_ofNat']
    omega
  · have hid := id_packetOf fresh Packets.noticeChat.toId.toUInt32 stale hfit
    have hparse := parseContent_packetOf ChatNotify.messageType fresh
      Packets.noticeChat.toId.toUInt32 stale (show notice.serialize.length < 2 ^ 31 by omega)
    rw [ChatNotify.parse_messageType,
      ChatNotify.parse_serialize (by rw [hnotice]; rfl) hname hmessage, parseContent] at hparse
    refine ⟨c.record (.noticed notice true), ?_, by rw [hnotice]; rfl⟩
    simp only [ChatClient.processPacket, noticePacket, hid, hparse]
    rfl

/-! ### The sessions in the room -/

/-- A session shows its seat in the room: it is open if the seat is taken, has the name on the
seat, and was handed the packets that convey what the seat was told. -/
structure Session.Sits (session : Session) (ρ : Room.State ℕ (List UInt8)) (i : ℕ) : Prop where
  isOpen : session.isOpen = true ↔ i ∈ ρ.present
  name : session.getName = ρ.name i
  posted : List.Forall₂ Write.Conveys session.posted (ρ.inbox i)

/-- What of a session shows in the room. -/
def Session.shown (session : Session) : Bool × List UInt8 × List Write :=
  (session.isOpen, session.name, session.posted)

namespace ChatServer

variable {s t : ChatServer} {e : ServerEvent} {ρ : Room.State ℕ (List UInt8)}

/-- The server shows a room. -/
def Shows (s : ChatServer) (ρ : Room.State ℕ (List UInt8)) : Prop :=
  ∀ (i : ℕ) session, s.sessionList[i]? = some session → session.Sits ρ i

/-- A step that leaves alone what shows of the sessions. -/
theorem Shows.of_eq (h : s.Shows ρ) (hshown : ∀ i : ℕ, t.sessionList[i]?.map Session.shown =
    s.sessionList[i]?.map Session.shown) : t.Shows ρ := by
  intro i session hsession
  have hsome := hshown i
  rw [hsession, Option.map_some] at hsome
  obtain ⟨session', hsession', heq⟩ := Option.map_eq_some_iff.mp hsome.symm
  obtain ⟨hopen, hrest⟩ := Prod.mk.inj heq
  obtain ⟨hname, hposted⟩ := Prod.mk.inj hrest
  obtain ⟨hsits, hsitsName, hsitsPosted⟩ := h i session' hsession'
  refine ⟨hopen ▸ hsits, ?_, hposted ▸ hsitsPosted⟩
  rw [Session.getName, ← hname]
  exact hsitsName

/-- What shows of the sessions while the server handles a read. -/
theorem shown_received (s : ChatServer) (id : ℕ) (buffer : PacketBuffer) (i : ℕ) :
    (s.received id buffer).sessionList[i]?.map Session.shown =
      s.sessionList[i]?.map Session.shown :=
  (map_modifySession Session.shown (s.readCompleted id) id
      (f := fun session => { session with toPacketBuffer := buffer }) (fun _ => rfl) i).trans
    (map_modifySession Session.shown s id
      (f := fun session => { session with reading := session.reading - 1 }) (fun _ => rfl) i)

/-- An accepted connection takes a seat. -/
theorem Shows.accepted (h : s.Shows ρ) {id : ℕ} (hclosed : s.Has id (·.isOpen = false))
    (hlist : t.sessionList = (s.modifySession id Session.accepted).sessionList) :
    chatRoom.Step ρ (.enter id) (ρ.step cString (.enter id)) ∧
      t.Shows (ρ.step cString (.enter id)) := by
  obtain ⟨target, htarget, hopen⟩ := hclosed
  refine ⟨Room.step_iff.mpr ⟨fun hin => ?_, rfl⟩, fun i session hsession => ?_⟩
  · have := (h id target htarget).isOpen.mpr hin
    rw [hopen] at this
    cases this
  · rw [hlist, getElem?_modifySession] at hsession
    obtain ⟨session, hold, rfl⟩ := Option.map_eq_some_iff.mp hsession
    obtain ⟨hpresent, hname, hposted⟩ := h i session hold
    by_cases hid : id = i
    · subst hid
      rw [if_pos rfl]
      exact ⟨iff_of_true rfl (Set.mem_insert id ρ.present), hname, hposted⟩
    · rw [if_neg hid]
      refine ⟨hpresent.trans ?_, hname, hposted⟩
      exact (Set.mem_insert_iff.trans (or_iff_right (Ne.symm hid))).symm

/-- A closed connection leaves its seat. -/
theorem Shows.closed (h : s.Shows ρ) {id : ℕ} (hopen : s.Has id (·.isOpen = true))
    (hlist : t.sessionList = (s.modifySession id Session.closed).sessionList) :
    chatRoom.Step ρ (.leave id) (ρ.step cString (.leave id)) ∧
      t.Shows (ρ.step cString (.leave id)) := by
  obtain ⟨target, htarget, hopen⟩ := hopen
  refine ⟨Room.step_iff.mpr ⟨(h id target htarget).isOpen.mp hopen, rfl⟩,
    fun i session hsession => ?_⟩
  rw [hlist, getElem?_modifySession] at hsession
  obtain ⟨session, hold, rfl⟩ := Option.map_eq_some_iff.mp hsession
  obtain ⟨hpresent, hname, hposted⟩ := h i session hold
  by_cases hid : id = i
  · subst hid
    rw [if_pos rfl]
    refine ⟨iff_of_false Bool.false_ne_true ?_, hname, hposted⟩
    exact fun hin => hin.2 (Set.mem_singleton id)
  · rw [if_neg hid]
    refine ⟨hpresent.trans ⟨fun hin => ⟨hin, ?_⟩, fun hin => hin.1⟩, hname, hposted⟩
    exact fun heq => hid (Set.mem_singleton_iff.mp heq).symm

/-- A login signs in a name, and the reply is the welcome. -/
theorem Shows.loggedIn (h : s.Shows ρ) {id : ℕ} (hopen : s.Has id (·.isOpen = true))
    (request : LoginRequest) (fresh : ℕ → UInt8) :
    chatRoom.Step ρ (.signIn id request.name) (ρ.step cString (.signIn id request.name)) ∧
      (s.loggedIn id request fresh).Shows (ρ.step cString (.signIn id request.name)) := by
  obtain ⟨target, htarget, hopen⟩ := hopen
  refine ⟨Room.step_iff.mpr ⟨(h id target htarget).isOpen.mp hopen, rfl⟩,
    fun i session hsession => ?_⟩
  rw [getElem?_loggedIn] at hsession
  obtain ⟨session, hold, rfl⟩ := Option.map_eq_some_iff.mp hsession
  obtain ⟨hpresent, hname, hposted⟩ := h i session hold
  by_cases hid : id = i
  · subst hid
    rw [if_pos rfl]
    refine ⟨hpresent, (Function.update_self id _ ρ.name).symm, ?_⟩
    rw [posted_post]
    have hinbox : (ρ.step cString (.signIn id request.name)).inbox id = ρ.inbox id ++ [.welcome] :=
      Function.update_self id _ ρ.inbox
    rw [hinbox]
    exact List.rel_append hposted (.cons (conveys_replyPacket fresh) .nil)
  · rw [if_neg hid]
    refine ⟨hpresent, hname.trans (Function.update_of_ne (Ne.symm hid) _ ρ.name).symm, ?_⟩
    have hinbox : (ρ.step cString (.signIn id request.name)).inbox i = ρ.inbox i :=
      Function.update_of_ne (Ne.symm hid) _ ρ.inbox
    rw [hinbox]
    exact hposted

/-- A chat is said, and the notice conveys it to every session that is open. -/
theorem Shows.notified (h : s.Shows ρ) {id : ℕ} {session : Session}
    (hsession : s.sessionList[id]? = some session) (hopen : session.isOpen = true)
    (request : ChatRequest) (hsize : (session.notice request).byteSize < 2 ^ 31)
    (fresh : ℕ → UInt8) :
    chatRoom.Step ρ (.say id request.message) (ρ.step cString (.say id request.message)) ∧
      (s.notified id request (session.notice request) fresh).Shows
        (ρ.step cString (.say id request.message)) := by
  obtain ⟨hspeaker, hspeakerName, -⟩ := h id session hsession
  refine ⟨Room.step_iff.mpr ⟨hspeaker.mp hopen, rfl⟩, fun i target htarget => ?_⟩
  rw [getElem?_notified] at htarget
  obtain ⟨target, hold, rfl⟩ := Option.map_eq_some_iff.mp htarget
  obtain ⟨hpresent, hname, hposted⟩ := h i target hold
  by_cases htargetOpen : target.isOpen = true
  · have hinbox : (ρ.step cString (.say id request.message)).inbox i =
        ρ.inbox i ++ [.said (ρ.name id) request.message] := by
      simp only [Room.State.step, if_pos (hpresent.mp htargetOpen)]
    rw [if_pos htargetOpen]
    refine ⟨hpresent, hname, ?_⟩
    rw [posted_post, hinbox]
    refine List.rel_append hposted (.cons (conveys_noticePacket ?_ hsize fresh) .nil)
    rw [← hspeakerName]
    rfl
  · have hinbox : (ρ.step cString (.say id request.message)).inbox i = ρ.inbox i := by
      simp only [Room.State.step, if_neg (mt hpresent.mpr htargetOpen), List.append_nil]
    rw [if_neg htargetOpen]
    refine ⟨hpresent, hname, ?_⟩
    rw [hinbox]
    exact hposted

/-- What a step is in the room: the events of the calls it records lead from a room the server
showed to one it shows. -/
def MovesRoom (s : ChatServer) (ρ : Room.State ℕ (List UInt8)) (t : ChatServer) : Prop :=
  ∃ new ρ', t.calls = s.calls ++ new ∧ chatRoom.Run ρ (new.map Call.roomEvent) ρ' ∧ t.Shows ρ'

/-- A step that shows nothing. -/
theorem Shows.stays (h : s.Shows ρ) (hcalls : t.calls = s.calls)
    (hshown : ∀ i : ℕ, t.sessionList[i]?.map Session.shown =
      s.sessionList[i]?.map Session.shown) : s.MovesRoom ρ t :=
  ⟨[], ρ, hcalls.trans (List.append_nil _).symm, .nil ρ, h.of_eq hshown⟩

/-- `process_packet` for a session that is open. -/
theorem Shows.processPacket (h : s.Shows ρ) {id : ℕ} (hopen : s.Has id (·.isOpen = true))
    {data : List UInt8} {fresh : ℕ → UInt8} (hprocess : s.processPacket id data fresh = .ok t) :
    s.MovesRoom ρ t := by
  rcases processPacket_cases hprocess with
    ⟨-, rfl⟩ | ⟨request, -, rfl⟩ | ⟨session, request, -, hsession, hsize, rfl⟩
  · exact h.stays rfl fun _ => rfl
  · obtain ⟨hstep, hshows⟩ := h.loggedIn hopen request fresh
    exact ⟨[.login id request], _, calls_loggedIn request, .cons hstep (.nil _), hshows⟩
  · obtain ⟨target, htarget, htargetOpen⟩ := hopen
    rw [hsession] at htarget
    cases htarget
    obtain ⟨hstep, hshows⟩ := h.notified hsession htargetOpen request hsize fresh
    exact ⟨[.chat id request _], _, calls_notified request _, .cons hstep (.nil _), hshows⟩

/-- **Every step of the server is one in the room**, or none. -/
theorem Shows.step (h : s.Shows ρ)
    (hreading : ∀ id, s.Has id (0 < ·.reading) → s.Has id (·.isOpen = true))
    (hstep : chatMachine.Step s e t) : s.MovesRoom ρ t := by
  cases e with
  | acceptDone id error =>
      obtain ⟨⟨-, hclosed⟩, hstep⟩ := hstep
      cases hstep
      cases error with
      | true => exact h.stays rfl fun _ => rfl
      | false =>
          obtain ⟨hroom, hshows⟩ := h.accepted (hclosed rfl) (sessionList_acceptDone s id)
          exact ⟨[.accepted id], _, calls_acceptDone s id false, .cons hroom (.nil _), hshows⟩
  | readDone id bytes fresh =>
      have hopen := hreading id hstep.1.1
      obtain ⟨_, buffer, _, u, -, -, hu, rfl⟩ := step_readDone hstep
      have hreceived : (s.received id buffer).Shows ρ := h.of_eq (shown_received s id buffer)
      have hmoves : (s.received id buffer).MovesRoom ρ u := by
        rcases hu with ⟨-, rfl⟩ | ⟨data, -, hprocess⟩
        · exact hreceived.stays rfl fun _ => rfl
        · exact hreceived.processPacket ((has_isOpen_received id buffer).mpr hopen) hprocess
      obtain ⟨new, ρ', hcalls, hroom, hshows⟩ := hmoves
      exact ⟨new, ρ', hcalls, hroom,
        hshows.of_eq (map_modifySession Session.shown u id fun _ => rfl)⟩
  | readFailed id =>
      have hopen := hreading id hstep.1
      obtain ⟨-, hstep⟩ := hstep
      cases hstep
      obtain ⟨hroom, hshows⟩ := h.closed hopen (sessionList_readFailed s id)
      exact ⟨[.closed id], _, calls_readFailed s id, .cons hroom (.nil _), hshows⟩
  | writeDone id =>
      obtain ⟨session, sender, hsession, hwrite, rfl⟩ := step_writeDone hstep
      have hposted := Session.posted_handleWrite hwrite
      refine h.stays rfl fun i => ?_
      rw [getElem?_modifySession]
      by_cases hid : id = i
      · subst hid
        simp only [hsession, Option.map_some, if_true, Session.shown, hposted]
      · simp only [if_neg hid, Option.map_id']

/-- A step takes back nothing that a session was handed. -/
theorem postedTo_prefix_of_step (hstep : chatMachine.Step s e t) (i : ℕ) :
    s.postedTo i <+: t.postedTo i := by
  rcases postedTo_of_step hstep i with
    hsame | ⟨id, bytes, fresh, buffer, data, u, rfl, hreceived, hprocess, hu⟩
  · rw [hsame]
  · rw [hu, ← hreceived]
    rcases postedTo_processPacket_cases hprocess i with
      hsame | ⟨-, hreply⟩ | ⟨-, notice, -, hnotice⟩
    · rw [hsame]
    · rw [hreply]
      exact List.prefix_append _ _
    · rw [hnotice]
      exact List.prefix_append _ _

/-- **Every interval of a run of the server is one of the room.** -/
theorem Shows.run {mark : ℕ → UInt32} {n : ℕ} {es es' : List ServerEvent}
    (h₀ : chatMachine.Run (started mark n) es s) (h : s.Shows ρ) (hrun : chatMachine.Run s es' t) :
    s.MovesRoom ρ t ∧ ∀ i, s.postedTo i <+: t.postedTo i := by
  induction hrun generalizing es ρ with
  | nil s => exact ⟨h.stays rfl fun _ => rfl, fun _ => List.prefix_rfl⟩
  | cons hstep _ ih =>
      obtain ⟨new, ρ', hcalls, hroom, hshows⟩ := h.step (isOpen_of_reading h₀) hstep
      obtain ⟨⟨new', ρ'', hcalls', hroom', hshows'⟩, hposted⟩ :=
        ih (h₀.append (.cons hstep (.nil _))) hshows
      refine ⟨⟨new ++ new', ρ'', ?_, ?_, hshows'⟩,
        fun i => (postedTo_prefix_of_step hstep i).trans (hposted i)⟩
      · rw [hcalls', hcalls, List.append_assoc]
      · rw [List.map_append]
        exact hroom.append hroom'

/-- The server begins with an empty room, without names. -/
theorem shows_started (mark : ℕ → UInt32) (n : ℕ) : (started mark n).Shows (.initial []) := by
  intro i session hsession
  rw [started, start, sessionList_postAccept] at hsession
  have hmem := List.mem_of_getElem? hsession
  simp only [constructed, init, List.nil_append, List.mem_map] at hmem
  obtain ⟨j, -, rfl⟩ := hmem
  exact ⟨iff_of_false Bool.false_ne_true (Set.notMem_empty i), rfl, .nil⟩

/-- The names on the seats are the latest login names, as C strings. -/
theorem names_roomEvent (calls : List Call) (i : ℕ) :
    Room.names cString (fun _ => []) (calls.map Call.roomEvent) i =
      cString (sessionName i calls) := by
  induction calls using List.reverseRecOn with
  | nil => rfl
  | append_singleton calls call ih =>
      rw [sessionName_snoc, List.map_append, Room.names, List.foldl_append]
      cases call with
      | accepted id => exact ih
      | closed id => exact ih
      | chat id request packet => exact ih
      | login id request =>
          show Function.update (Room.names cString (fun _ => []) (calls.map Call.roomEvent)) id
              (cString request.name) i =
            cString (if id = i then request.name else sessionName i calls)
          by_cases hid : id = i
          · subst hid
            rw [if_pos rfl, Function.update_self]
          · rw [if_neg hid, Function.update_of_ne (Ne.symm hid), ih]

/-- The server shows the room that its calls make, in every run. -/
theorem exists_shows {mark : ℕ → UInt32} {n : ℕ} {es : List ServerEvent}
    (h : chatMachine.Run (started mark n) es s) :
    ∃ ρ, chatRoom.Run (.initial []) (s.calls.map Call.roomEvent) ρ ∧ s.Shows ρ := by
  obtain ⟨⟨new, ρ, hcalls, hroom, hshows⟩, -⟩ := Shows.run (.nil _) (shows_started mark n) h
  have hnone : (started mark n).calls = [] := by
    rw [started, start, calls_postAccept]
    rfl
  rw [hnone, List.nil_append] at hcalls
  exact ⟨ρ, hcalls ▸ hroom, hshows⟩

end ChatServer

/-- **The server is a chat room.** At every moment of a run there is a room, which the calls
recorded so far lead to, whose seats the sessions show; and however the run goes on, the calls it
records lead on from that room to one whose seats the sessions show then. A session shows its
seat if it is open exactly if the seat is taken, has the name on the seat, and was handed one
packet for every message that the seat was told, in order, which conveys that message. -/
theorem exists_room_run {mark : ℕ → UInt32} {n : ℕ} {es es' : List ServerEvent}
    {s t : ChatServer} (h : chatMachine.Run (.started mark n) es s)
    (hrun : chatMachine.Run s es' t) :
    ∃ ρ, chatRoom.Run (.initial []) (s.calls.map Call.roomEvent) ρ ∧ s.Shows ρ ∧
      ∃ new ρ', t.calls = s.calls ++ new ∧ chatRoom.Run ρ (new.map Call.roomEvent) ρ' ∧
        t.Shows ρ' := by
  obtain ⟨ρ, hroom, hshows⟩ := ChatServer.exists_shows h
  obtain ⟨⟨new, ρ', hcalls, hroom', hshows'⟩, -⟩ := hshows.run h hrun
  exact ⟨ρ, hroom, hshows, new, ρ', hcalls, hroom', hshows'⟩

/-- Where no connection of a session is closed, nobody leaves its seat. -/
theorem leave_notMem_roomEvent {calls : List Call} {i : ℕ} (h : .closed i ∉ calls) :
    ∀ e ∈ calls.map Call.roomEvent, e ≠ .leave i := by
  rintro e hmem rfl
  obtain ⟨call, hcall, heq⟩ := List.mem_map.mp hmem
  cases call with
  | closed id =>
      cases heq
      exact h hcall
  | accepted id => cases heq
  | login id request => cases heq
  | chat id request packet => cases heq

/-- **What a session is handed over an interval in which it is not closed**: in the order of the
calls of the interval, a reply for each login on it and a packet for everything that is said on any
session, with the name that its speaker has logged in with by then. Apart from the replies to its
own logins, that is what is said, in order. -/
theorem told_of_run {mark : ℕ → UInt32} {n : ℕ} {es : List ServerEvent} {s : ChatServer}
    (h : chatMachine.Run (.started mark n) es s) {es' : List ServerEvent} {t : ChatServer}
    (hrun : chatMachine.Run s es' t) {i : ℕ} (hopen : s.Has i (·.isOpen = true)) :
    ∃ new, t.calls = s.calls ++ new ∧ (.closed i ∉ new → ∃ posts news,
      t.postedTo i = s.postedTo i ++ posts ∧ List.Forall₂ Write.Conveys posts news ∧
      news = Room.toldTo cString i (fun j => cString (sessionName j s.calls))
        (new.map Call.roomEvent) ∧
      news.filter Room.Message.isSaid = Room.spoken cString
        (fun j => cString (sessionName j s.calls)) (new.map Call.roomEvent)) := by
  obtain ⟨ρ, hroom, hshows⟩ := ChatServer.exists_shows h
  obtain ⟨⟨new, ρ', hcalls, hroom', hshows'⟩, hposted⟩ := hshows.run h hrun
  refine ⟨new, hcalls, fun hclosed => ?_⟩
  obtain ⟨session, hsession, hsessionOpen⟩ := hopen
  have hsits := hshows i session hsession
  have hinbox := Room.inbox_of_run hroom' (hsits.isOpen.mp hsessionOpen)
    (leave_notMem_roomEvent hclosed)
  have hnames : ρ.name = fun j => cString (sessionName j s.calls) := by
    funext j
    rw [Room.name_of_run hroom]
    exact ChatServer.names_roomEvent s.calls j
  rw [hnames] at hinbox
  obtain ⟨posts, hposts⟩ := hposted i
  refine ⟨posts, _, hposts.symm, ?_, rfl, Room.filter_toldTo ..⟩
  -- the packets handed to the session before are those of the messages told before
  have hbefore : (s.postedTo i).length = (ρ.inbox i).length := by
    rw [ChatServer.postedTo, hsession]
    exact hsits.posted.length_eq
  have hafter : List.Forall₂ Write.Conveys (t.postedTo i) (ρ'.inbox i) := by
    obtain ⟨_, _, -, hsends⟩ :=
      ChatServer.exists_sender_run (h.append hrun) (ChatServer.lt_of_sessionList h hsession)
    obtain ⟨target, htarget, -⟩ := Option.map_eq_some_iff.mp hsends
    rw [ChatServer.postedTo, htarget]
    exact (hshows' i target htarget).posted
  rw [hinbox] at hafter
  have hdrop := List.forall₂_drop_append _ _ _ hafter
  rwa [← hbefore, ← hposts, List.drop_left] at hdrop

/-! ### A login and a chat -/

/-- In the room, `Bob` has taken the first seat, and goes on to sign in and to say `hi`. -/
theorem room_of_loginThenChat : ∃ s t,
    chatMachine.Run (.started (fun _ => 0) 1) [.acceptDone 0 false] s ∧
    chatMachine.Run s (loginThenChat [66, 111, 98]).tail t ∧
    t.calls.map Call.roomEvent = [.enter 0, .signIn 0 [66, 111, 98], .say 0 [104, 105]] ∧
    ∃ ρ, chatRoom.Run (.initial []) (s.calls.map Call.roomEvent) ρ ∧ s.Shows ρ ∧
      ∃ new ρ', t.calls = s.calls ++ new ∧ chatRoom.Run ρ (new.map Call.roomEvent) ρ' ∧
        t.Shows ρ' := by
  obtain ⟨s, hrun, hexec⟩ := Machine.exists_run_of_exec chatMachine (.started (fun _ => 0) 1)
    [.acceptDone 0 false]
    (fun s => (chatMachine.exec s (loginThenChat [66, 111, 98]).tail).map ChatServer.calls)
    (b := some (loginThenChatCalls [66, 111, 98] [66, 111, 98])) (by decide +kernel)
  obtain ⟨t, hrun', hcalls⟩ := Machine.exists_run_of_exec chatMachine s _ ChatServer.calls hexec
  exact ⟨s, t, hrun, hrun', by rw [hcalls]; rfl, exists_room_run hrun hrun'⟩

/-- From the accept on, the session of `Bob` is handed a welcome and `hi`, under his name. -/
theorem told_loginThenChat : ∃ s t,
    chatMachine.Run (.started (fun _ => 0) 1) [.acceptDone 0 false] s ∧
    chatMachine.Run s (loginThenChat [66, 111, 98]).tail t ∧
    ∃ new, t.calls = s.calls ++ new ∧ .closed 0 ∉ new ∧ ∃ posts,
      t.postedTo 0 = s.postedTo 0 ++ posts ∧
      List.Forall₂ Write.Conveys posts [.welcome, .said [66, 111, 98] [104, 105]] := by
  obtain ⟨s, hrun, hs⟩ := Machine.exists_run_of_exec chatMachine (.started (fun _ => 0) 1)
    [.acceptDone 0 false]
    (fun s => (decide (s.Has 0 (·.isOpen = true)), s.calls,
      (chatMachine.exec s (loginThenChat [66, 111, 98]).tail).map ChatServer.calls))
    (b := (true, [.accepted 0], some (loginThenChatCalls [66, 111, 98] [66, 111, 98])))
    (by decide +kernel)
  obtain ⟨hopen, hrest⟩ := Prod.mk.inj hs
  obtain ⟨hcalls, hexec⟩ := Prod.mk.inj hrest
  obtain ⟨t, hrun', hcalls'⟩ := Machine.exists_run_of_exec chatMachine s _ ChatServer.calls hexec
  obtain ⟨new, hnew, htold⟩ := told_of_run hrun hrun' (of_decide_eq_true hopen)
  have heq : new = (loginThenChatCalls [66, 111, 98] [66, 111, 98]).tail := by
    rw [hcalls, hcalls'] at hnew
    exact (List.cons.inj hnew).2.symm
  have hclosed : Call.closed 0 ∉ new := by
    rw [heq]
    decide +kernel
  obtain ⟨posts, news, hposts, hconveys, hnews, -⟩ := htold hclosed
  rw [hnews, heq, hcalls] at hconveys
  exact ⟨s, t, hrun, hrun', new, hnew, hclosed, posts, hposts, hconveys⟩

end AsioChat
