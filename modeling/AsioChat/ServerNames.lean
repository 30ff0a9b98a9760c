import AsioChat.Client
import AsioChat.ServerSteps
import Mathlib.Data.List.TakeWhile

/-!
# The Names in the Notices

Whose name a `NOTICE_CHAT` carries. A login stores its name in `name_` of the session, which
outlives the connection, and a notice is built from what `get_name` returns, a C string.
So the name in a notice is the latest login name of the session, on whichever
connection, up to its first NUL byte.

## Main results

* `ChatNotify.parse_noticePacket`: a notice is read back from its packet.
* `NamesInv.step`: what every session and every notice holds, over all runs.
* `notice_name_iff`: the name in a notice is that of the connection's own login if and
  only if the login name has no NUL byte, or, where the connection had no login, no name
  was left behind by an earlier one.
-/

namespace AsioChat

/-! ### Logins in the record -/

/-- The latest login name of a session after a call, whatever the connection. -/
def Call.sessionName (i : ℕ) (name : List UInt8) : Call → List UInt8
  | login id request => if id = i then request.name else name
  | _ => name

/-- The latest login name of a session, on whichever connection; empty before the first. -/
def sessionName (i : ℕ) (calls : List Call) : List UInt8 :=
  calls.foldl (Call.sessionName i) []

/-- The latest login name of a session's connection after a call. -/
def Call.connectionName (i : ℕ) (name : Option (List UInt8)) : Call → Option (List UInt8)
  | accepted id => if id = i then none else name
  | login id request => if id = i then some request.name else name
  | _ => name

/-- The latest login name of the connection a session has, or had last, if there was a
login on it. -/
def connectionName (i : ℕ) (calls : List Call) : Option (List UInt8) :=
  calls.foldl (Call.connectionName i) none

/-- The name after one more call. -/
@[simp] theorem sessionName_snoc (i : ℕ) (calls : List Call) (call : Call) :
    sessionName i (calls ++ [call]) = call.sessionName i (sessionName i calls) := by
  simp [sessionName]

/-- The name of the connection after one more call. -/
@[simp] theorem connectionName_snoc (i : ℕ) (calls : List Call) (call : Call) :
    connectionName i (calls ++ [call]) = call.connectionName i (connectionName i calls) := by
  simp [connectionName]

/-- A login on the connection is a login on the session. -/
theorem sessionName_of_connectionName {i : ℕ} {calls : List Call} {name : List UInt8}
    (h : connectionName i calls = some name) : sessionName i calls = name := by
  induction calls using List.reverseRecOn with
  | nil => cases h
  | append_singleton calls call ih =>
      rw [connectionName_snoc] at h
      rw [sessionName_snoc]
      cases call with
      | accepted id =>
          simp only [Call.connectionName] at h
          split at h
          · cases h
          · exact ih h
      | closed id => exact ih h
      | login id request =>
          simp only [Call.connectionName] at h
          simp only [Call.sessionName]
          split at h
          · rename_i hid
            rw [if_pos hid]
            exact Option.some.inj h
          · rename_i hid
            rw [if_neg hid]
            exact ih h
      | chat id request packet => exact ih h

/-! ### Reading a notice -/

/-- A notice is read back from its packet, whatever the fresh memory held. -/
theorem ChatNotify.parse_noticePacket {notice : ChatNotify} (hinit : notice.isInitialized = true)
    (hsize : notice.byteSize < 2 ^ 31) (fresh : ℕ → UInt8) :
    ChatNotify.parse ((noticePacket fresh notice).drop 12) = (notice, true) := by
  obtain ⟨hname, hmessage⟩ := ChatNotify.lengths_lt hsize
  have hlength := ChatNotify.length_serialize hname hmessage
  have hfit : notice.serialize.length + 12 < 2 ^ 32 := by omega
  rw [noticePacket, packetOf_eq fresh _ hfit,
    List.drop_left' (PacketHeader.length_toBytes _),
    ChatNotify.parse_serialize hinit hname hmessage]

/-- The `name` field of the notice in a packet. -/
def noticeName (packet : List UInt8) : List UInt8 := (ChatNotify.parse (packet.drop 12)).1.name

/-- The `message` field of the notice in a packet. -/
def noticeMessage (packet : List UInt8) : List UInt8 :=
  (ChatNotify.parse (packet.drop 12)).1.message

/-- The fields of the notice `process_packet` builds. -/
theorem notice_fields {session : Session} {request : ChatRequest}
    (hsize : (session.notice request).byteSize < 2 ^ 31) (fresh : ℕ → UInt8) :
    noticeName (noticePacket fresh (session.notice request)) = session.getName ∧
      noticeMessage (noticePacket fresh (session.notice request)) = request.message := by
  have hparse := ChatNotify.parse_noticePacket rfl hsize fresh
  rw [noticeName, noticeMessage, hparse]
  exact ⟨rfl, rfl⟩

/-! ### The invariant -/

namespace ChatServer

variable {s t : ChatServer} {e : ServerEvent}

/-- Every session holds its latest login name, and every notice the name its session held
then, up to the first NUL byte. -/
structure NamesInv (s : ChatServer) : Prop where
  name : ∀ (i : ℕ) (name : List UInt8), s.sessionList[i]?.map Session.name = some name →
    name = sessionName i s.calls
  notice : ∀ before id request packet after, s.calls = before ++ .chat id request packet :: after →
    noticeName packet = cString (sessionName id before)

/-- A step that changes no name and records nothing. -/
theorem NamesInv.of_eq (h : NamesInv s)
    (hnames : ∀ i : ℕ, t.sessionList[i]?.map Session.name = s.sessionList[i]?.map Session.name)
    (hcalls : t.calls = s.calls) : NamesInv t := by
  refine ⟨fun i name hname => ?_, fun before id request packet after heq => ?_⟩
  · rw [hcalls]
    exact h.name i name ((hnames i).symm.trans hname)
  · exact h.notice before id request packet after (hcalls.symm.trans heq)

/-- A step that records one call, with the names as the call leaves them, and the notice as
it must be if the call is a chat. -/
theorem NamesInv.snoc (h : NamesInv s) {call : Call} (hcalls : t.calls = s.calls ++ [call])
    (hname : ∀ (i : ℕ) (name : List UInt8), t.sessionList[i]?.map Session.name = some name →
      name = call.sessionName i (sessionName i s.calls))
    (hchat : ∀ id request packet, call = .chat id request packet →
      noticeName packet = cString (sessionName id s.calls)) : NamesInv t := by
  refine ⟨fun i name hsome => ?_, fun before id request packet after heq => ?_⟩
  · rw [hcalls, sessionName_snoc]
    exact hname i name hsome
  · rw [hcalls] at heq
    rcases Machine.snoc_eq_append_cons heq with ⟨rfl, hcall⟩ | ⟨after', hbefore⟩
    · exact hchat id request packet hcall.symm
    · exact h.notice before id request packet after' hbefore

/-- A step that changes no name and records an accept or a close. -/
theorem NamesInv.snoc_of_eq (h : NamesInv s) {call : Call}
    (hnames : ∀ i : ℕ, t.sessionList[i]?.map Session.name = s.sessionList[i]?.map Session.name)
    (hcalls : t.calls = s.calls ++ [call]) (hcall : ∀ i name, call.sessionName i name = name)
    (hchat : ∀ id request packet, call ≠ .chat id request packet) : NamesInv t := by
  refine h.snoc hcalls (fun i name hname => ?_) fun id request packet heq =>
    absurd heq (hchat id request packet)
  rw [hcall]
  exact h.name i name ((hnames i).symm.trans hname)

/-- `process_packet` keeps the names. -/
theorem NamesInv.processPacket (h : NamesInv s) {id : ℕ} {data : List UInt8} {fresh : ℕ → UInt8}
    (hprocess : s.processPacket id data fresh = .ok t) : NamesInv t := by
  rcases processPacket_cases hprocess with
    ⟨-, rfl⟩ | ⟨request, -, rfl⟩ | ⟨session, request, -, hsession, hsize, rfl⟩
  · exact h
  · refine h.snoc (calls_loggedIn request) (fun i name hname => ?_) fun _ _ _ heq => by cases heq
    rw [getElem?_loggedIn, Option.map_map] at hname
    obtain ⟨session, hsession, hvalue⟩ := Option.map_eq_some_iff.mp hname
    rw [← hvalue, Function.comp_apply, Call.sessionName]
    by_cases hid : id = i
    · rw [if_pos hid, if_pos hid]
      rfl
    · rw [if_neg hid, if_neg hid]
      exact h.name i session.name (Option.map_eq_some_iff.mpr ⟨session, hsession, rfl⟩)
  · have hnames : ∀ i : ℕ, (s.notified id request (session.notice request)
        fresh).sessionList[i]?.map Session.name = s.sessionList[i]?.map Session.name :=
      map_notified Session.name (fun _ _ _ => rfl) request _
    refine h.snoc (calls_notified request _)
      (fun i name hname => h.name i name ((hnames i).symm.trans hname)) ?_
    rintro _ _ _ heq
    cases heq
    rw [(notice_fields hsize fresh).1, Session.getName,
      h.name id session.name (Option.map_eq_some_iff.mpr ⟨session, hsession, rfl⟩)]

/-- The name of a session is apart from its connection and buffer. -/
theorem inert_name : Inert Session.name := fun _ _ _ _ => rfl

/-- **Every step keeps the names.** -/
theorem NamesInv.step (h : NamesInv s) (hstep : chatMachine.Step s e t) : NamesInv t := by
  cases e with
  | acceptDone id error =>
      obtain ⟨-, hstep⟩ := hstep
      cases hstep
      have hnames := inert_name.acceptDone s id error
      have hcalls := calls_acceptDone s id error
      cases error with
      | true => exact h.of_eq hnames (hcalls.trans (List.append_nil _))
      | false =>
          exact h.snoc_of_eq hnames hcalls (fun _ _ => rfl) fun _ _ _ => Call.noConfusion
  | readDone id bytes fresh =>
      obtain ⟨_, buffer, _, u, -, -, hu, rfl⟩ := step_readDone hstep
      have hreceived : NamesInv (s.received id buffer) :=
        h.of_eq (inert_name.received s id buffer) rfl
      have hprocessed : NamesInv u := by
        rcases hu with ⟨-, rfl⟩ | ⟨data, -, hprocess⟩
        · exact hreceived
        · exact hreceived.processPacket hprocess
      exact hprocessed.of_eq (inert_name.postReceive u id) rfl
  | readFailed id =>
      obtain ⟨-, hstep⟩ := hstep
      cases hstep
      exact h.snoc_of_eq (inert_name.readFailed s id) (calls_readFailed s id) (fun _ _ => rfl)
        fun _ _ _ => Call.noConfusion
  | writeDone id =>
      obtain ⟨session, sender, -, -, rfl⟩ := step_writeDone hstep
      exact h.of_eq (map_modifySession Session.name s id fun _ => rfl) rfl

/-- The invariant holds in every run. -/
theorem namesInv_of_run {mark : ℕ → UInt32} {n : ℕ} {es : List ServerEvent}
    (h : chatMachine.Run (started mark n) es s) : NamesInv s := by
  refine h.invariant (fun _ _ _ hinv hstep => hinv.step hstep) ⟨fun i name hname => ?_, ?_⟩
  · rw [started, start, sessionList_postAccept] at hname
    obtain ⟨session, hsession, rfl⟩ := Option.map_eq_some_iff.mp hname
    have hmem := List.mem_of_getElem? hsession
    simp only [constructed, init, List.nil_append, List.mem_map] at hmem
    obtain ⟨j, -, rfl⟩ := hmem
    rw [started, start, calls_postAccept]
    rfl
  · intro before id request packet after heq
    rw [started, start, calls_postAccept] at heq
    exact absurd heq.symm (by simp [constructed, init])

end ChatServer

/-- A string is its C string if and only if it has no NUL byte. -/
theorem cString_eq_self_iff {s : List UInt8} : cString s = s ↔ 0 ∉ s := by
  rw [cString, List.takeWhile_eq_self_iff]
  constructor
  · intro h hmem
    exact absurd (h 0 hmem) (by decide)
  · intro h x hx
    simp only [decide_eq_true_eq]
    rintro rfl
    exact h hx

/-- The condition under which a notice names its sender: the latest login name of the
connection has no NUL byte; or there was no login on the connection, and the session's
latest login name, from an earlier connection, is empty up to its first NUL byte. -/
def NameIntact (id : ℕ) (calls : List Call) : Prop :=
  match connectionName id calls with
  | some name => 0 ∉ name
  | none => cString (sessionName id calls) = []

/-- **A notice carries the name of the connection's own latest login**, empty if there was
none, if and only if that name has no NUL byte, or no name was left behind by an earlier
connection; for every notice of every run. -/
theorem notice_name_iff {mark : ℕ → UInt32} {n : ℕ} {es : List ServerEvent} {s : ChatServer}
    (h : chatMachine.Run (.started mark n) es s) (before after : List Call) {id : ℕ}
    {request : ChatRequest} {packet : List UInt8}
    (hcall : s.calls = before ++ .chat id request packet :: after) :
    noticeName packet = (connectionName id before).getD [] ↔ NameIntact id before := by
  rw [(ChatServer.namesInv_of_run h).notice before id request packet after hcall, NameIntact]
  cases hname : connectionName id before with
  | none => rfl
  | some name =>
      rw [sessionName_of_connectionName hname, Option.getD_some]
      exact cString_eq_self_iff

/-! ### Three connections -/

/-- The two reads that deliver a packet of at most 24 bytes. -/
def readsOf (id : ℕ) (packet : List UInt8) : List ServerEvent :=
  [.readDone id (packet.take 12) fun _ => 0, .readDone id (packet.drop 12) fun _ => 0]

/-- A client logs in and says `hi`; the reply is written in between. -/
def loginThenChat (name : List UInt8) : List ServerEvent :=
  .acceptDone 0 false :: readsOf 0 (loginPacket name) ++
    .writeDone 0 :: readsOf 0 (chatPacket [104, 105])

/-- The calls a login and a chat leave behind. -/
def loginThenChatCalls (name noticed : List UInt8) : List Call :=
  [.accepted 0, .login 0 ⟨some name⟩,
    .chat 0 ⟨some [104, 105]⟩ (noticePacket (fun _ => 0) ⟨some noticed, some [104, 105]⟩)]

/-- The name `Bob` arrives. -/
theorem notice_name_bob : ∃ s,
    chatMachine.Run (.started (fun _ => 0) 1) (loginThenChat [66, 111, 98]) s ∧
    s.calls = loginThenChatCalls [66, 111, 98] [66, 111, 98] ∧
    noticeName (noticePacket (fun _ => 0) ⟨some [66, 111, 98], some [104, 105]⟩) =
      (connectionName 0 [.accepted 0, .login 0 ⟨some [66, 111, 98]⟩]).getD [] := by
  obtain ⟨s, hrun, hcalls⟩ := Machine.exists_run_of_exec chatMachine (.started (fun _ => 0) 1)
    (loginThenChat [66, 111, 98]) ChatServer.calls
    (b := loginThenChatCalls [66, 111, 98] [66, 111, 98]) (by decide +kernel)
  refine ⟨s, hrun, hcalls, (notice_name_iff hrun
    [.accepted 0, .login 0 ⟨some [66, 111, 98]⟩] [] hcalls).mpr ?_⟩
  show (0 : UInt8) ∉ [66, 111, 98]
  decide

/-- A client logs in with a name of three bytes, the middle one NUL: the notice carries
only the first. Another one logs in as `Bob` and leaves: the next client on the session
chats without a login, and the notice carries `Bob`. -/
theorem notice_name_wrong :
    (∃ s, chatMachine.Run (.started (fun _ => 0) 1) (loginThenChat [65, 0, 66]) s ∧
      ∃ before request packet, s.calls = before ++ [.chat 0 request packet] ∧
        noticeName packet = [65] ∧ connectionName 0 before = some [65, 0, 66]) ∧
    (∃ s, chatMachine.Run (.started (fun _ => 0) 1)
        (.acceptDone 0 false :: readsOf 0 (loginPacket [66, 111, 98]) ++ .readFailed 0 ::
          .acceptDone 0 false :: .writeDone 0 :: readsOf 0 (chatPacket [104, 105])) s ∧
      ∃ before request packet, s.calls = before ++ [.chat 0 request packet] ∧
        noticeName packet = [66, 111, 98] ∧ connectionName 0 before = none) := by
  constructor
  · obtain ⟨s, hrun, hcalls⟩ := Machine.exists_run_of_exec chatMachine (.started (fun _ => 0) 1)
      (loginThenChat [65, 0, 66]) ChatServer.calls (b := loginThenChatCalls [65, 0, 66] [65])
      (by decide +kernel)
    exact ⟨s, hrun, [.accepted 0, .login 0 ⟨some [65, 0, 66]⟩], _, _, hcalls, by decide +kernel,
      by decide +kernel⟩
  · obtain ⟨s, hrun, hcalls⟩ := Machine.exists_run_of_exec chatMachine (.started (fun _ => 0) 1)
      (.acceptDone 0 false :: readsOf 0 (loginPacket [66, 111, 98]) ++ .readFailed 0 ::
        .acceptDone 0 false :: .writeDone 0 :: readsOf 0 (chatPacket [104, 105])) ChatServer.calls
      (b := [.accepted 0, .login 0 ⟨some [66, 111, 98]⟩, .closed 0, .accepted 0] ++
        [.chat 0 ⟨some [104, 105]⟩
          (noticePacket (fun _ => 0) ⟨some [66, 111, 98], some [104, 105]⟩)])
      (by decide +kernel)
    exact ⟨s, hrun, _, _, _, hcalls, by decide +kernel, by decide +kernel⟩

end AsioChat
