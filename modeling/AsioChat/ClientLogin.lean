import AsioChat.Client

/-!
# Chatting before the Login

The client's `process_packet` calls `post_login` for every `REPLY_LOGIN`, before it looks at
what the reply says and whatever `ParseFromArray` returned. A refused login therefore lets
the client chat, and so does a reply that does not parse. Only as long as every reply that
reaches a client that is not logged in says success, no chat is posted before a login
succeeded.

## Main results

* `ChatClient.LoginInv.step`: what every step preserves if the replies say success.
* `chat_after_login`: no chat before a successful login, in every run with such replies.
-/

namespace AsioChat

/-- The reply in a packet was parsed, and says success. -/
def SaysSuccess (data : List UInt8) : Prop :=
  match parseContent LoginResponse.messageType data with
  | .ok (response, parsed) => parsed = true ∧ response.success = true
  | .error _ => False

instance (data : List UInt8) : Decidable (SaysSuccess data) := by
  unfold SaysSuccess
  split <;> infer_instance

/-- A reply that was parsed and says success was processed. -/
def Granted (calls : List ClientCall) : Prop :=
  ∃ response, .replied response true ∈ calls ∧ response.success = true

/-- Every `REQUEST_CHAT` was posted behind such a reply. -/
def ChatsGranted (calls : List ClientCall) : Prop :=
  ∀ before packet after, calls = before ++ .posted packet :: after →
    (PacketHeader.ofBytes packet).id = Packets.requestChat.toId → Granted before

/-- A login that was granted stays granted. -/
theorem Granted.append {calls : List ClientCall} (h : Granted calls) (new : List ClientCall) :
    Granted (calls ++ new) := by
  obtain ⟨response, hmem, hsuccess⟩ := h
  exact ⟨response, List.mem_append_left _ hmem, hsuccess⟩

/-- Only a posted chat has to be granted. -/
theorem ChatsGranted.snoc {calls : List ClientCall} (h : ChatsGranted calls) {call : ClientCall}
    (hnew : ∀ packet, call = .posted packet →
      (PacketHeader.ofBytes packet).id = Packets.requestChat.toId → Granted calls) :
    ChatsGranted (calls ++ [call]) := by
  intro before packet after heq hid
  rcases Machine.snoc_eq_append_cons heq with ⟨rfl, hcall⟩ | ⟨after', hcalls⟩
  · exact hnew packet hcall.symm hid
  · exact h before packet after' hcalls hid

namespace ChatClient

variable {c d : ChatClient} {e : ClientEvent}

/-- The packets that a step completes. -/
def completedBy (c : ChatClient) : ClientEvent → List (List UInt8)
  | .readDone bytes =>
    match c.toPacketBuffer.receive .client bytes with
    | .ok (_, exit) => exit.packets
    | .error _ => []
  | _ => []

/-- The condition on a step: a `REPLY_LOGIN` that reaches a client that is not logged in says
success. -/
def RepliesSuccess (c : ChatClient) (e : ClientEvent) : Prop :=
  c.isLoggedIn = false → ∀ data ∈ c.completedBy e,
    (PacketHeader.ofBytes data).id = Packets.replyLogin.toId → SaysSuccess data

instance (c : ChatClient) (e : ClientEvent) : Decidable (c.RepliesSuccess e) :=
  inferInstanceAs (Decidable (_ → _))

/-- The invariant: whoever is logged in, or was when it was tested, was granted the login. -/
structure LoginInv (c : ChatClient) : Prop where
  loggedIn : c.isLoggedIn = true → Granted c.calls
  tested : ∀ inputMsg, c.input = .branching inputMsg true → Granted c.calls
  chats : ChatsGranted c.calls

/-- A client that was launched is not logged in. -/
theorem loginInv_launched (mark : UInt32) : (launched mark).LoginInv := by
  refine ⟨fun h => (nomatch h), fun _ h => (nomatch h), fun before _ _ h => ?_⟩
  cases before <;> cases h

/-- A step that only adds a call other than a post. -/
theorem LoginInv.snoc (h : c.LoginInv) {call : ClientCall} (hloggedIn : d.isLoggedIn = c.isLoggedIn)
    (hinput : ∀ inputMsg, d.input = .branching inputMsg true → d.input = c.input)
    (hcalls : d.calls = c.calls ++ [call]) (hpost : ∀ packet, call ≠ .posted packet) :
    d.LoginInv := by
  refine ⟨fun hd => ?_, fun inputMsg hd => ?_, ?_⟩
  · rw [hcalls]
    exact (h.loggedIn (hloggedIn.symm.trans hd)).append _
  · rw [hcalls]
    exact (h.tested inputMsg ((hinput inputMsg hd).symm.trans hd)).append _
  · rw [hcalls]
    exact h.chats.snoc fun packet hcall => absurd hcall (hpost packet)

/-- A step that leaves the login alone. -/
theorem LoginInv.of_eq (h : c.LoginInv) (hloggedIn : d.isLoggedIn = c.isLoggedIn)
    (hinput : ∀ inputMsg, d.input = .branching inputMsg true → d.input = c.input)
    (hcalls : d.calls = c.calls) : d.LoginInv :=
  ⟨fun hd => hcalls ▸ h.loggedIn (hloggedIn.symm.trans hd),
    fun inputMsg hd => hcalls ▸ h.tested inputMsg ((hinput inputMsg hd).symm.trans hd),
    hcalls ▸ h.chats⟩

/-- `process_packet` keeps the invariant if a reply to a client that is not logged in says
success. -/
theorem LoginInv.processPacket {data : List UInt8} (h : c.LoginInv)
    (hsuccess : c.isLoggedIn = false →
      (PacketHeader.ofBytes data).id = Packets.replyLogin.toId → SaysSuccess data)
    (hprocess : c.processPacket data = .ok d) : d.LoginInv := by
  rcases processPacket_cases hprocess with
    ⟨hid, response, parsed, hparse, rfl⟩ | ⟨-, rfl | ⟨notify, parsed, rfl⟩⟩
  · have hgranted : Granted (c.calls ++ [.replied response parsed]) := by
      cases hloggedIn : c.isLoggedIn with
      | true => exact (h.loggedIn hloggedIn).append _
      | false =>
          have hsays := hsuccess hloggedIn hid
          rw [SaysSuccess, hparse] at hsays
          obtain ⟨rfl, hresponse⟩ := hsays
          exact ⟨response, by simp, hresponse⟩
    exact ⟨fun _ => hgranted, fun _ _ => hgranted, h.chats.snoc fun _ hcall => nomatch hcall⟩
  · exact h
  · exact h.snoc rfl (fun _ _ => rfl) rfl fun _ hcall => nomatch hcall

/-- The request for a line is a login if the client was not logged in when it was tested. -/
theorem id_of_build {fresh : ℕ → UInt8} {inputMsg pkt : List UInt8} {loggedIn : Bool}
    {size : UInt32} (hbuild : (if loggedIn = false then buildLogin fresh inputMsg
      else buildChat fresh inputMsg) = .ok (pkt, size)) :
    (PacketHeader.ofBytes pkt).id =
      if loggedIn = false then Packets.requestLogin.toId else Packets.requestChat.toId := by
  obtain ⟨content, hfit, rfl, -⟩ := exists_packetOf_of_build hbuild
  rw [ofBytes_packetOf fresh _ (by omega), builtHeader_id]
  cases loggedIn <;> rfl

/-- **Every step preserves the invariant** if the replies say success. -/
theorem LoginInv.step (h : c.LoginInv) (hstep : clientMachine.Step c e d)
    (hsuccess : c.RepliesSuccess e) : d.LoginInv := by
  have hquiet : e.Quiet → d.LoginInv := fun hquiet => by
    have hsame := sameDialogue_of_step hstep hquiet
    exact h.of_eq hsame.isLoggedIn (fun _ _ => hsame.input) hsame.calls
  cases e with
  | connectDone error => exact hquiet trivial
  | readFailed => exact hquiet trivial
  | writeDone => exact hquiet trivial
  | writeResumed => exact hquiet trivial
  | readDone bytes =>
      obtain ⟨buffer, exit, u, hreceive, hu, rfl⟩ := step_readDone hstep
      have hreceived : (c.received buffer).LoginInv := h.of_eq rfl (fun _ _ => rfl) rfl
      rcases hu with ⟨-, rfl⟩ | ⟨data, rfl, hprocess⟩
      · exact hreceived.of_eq rfl (fun _ _ => rfl) rfl
      · have hmem : data ∈ c.completedBy (.readDone bytes) := by
          simp [completedBy, hreceive, ReceiveExit.packets]
        exact (hreceived.processPacket (fun hloggedIn => hsuccess hloggedIn data hmem)
          hprocess).of_eq rfl (fun _ _ => rfl) rfl
  | getline line =>
      cases hstep.2
      rcases getline_cases line c with heq | heq | ⟨inputMsg, -, -, -, heq⟩
      · rw [heq]
        refine h.of_eq rfl (fun inputMsg hd => ?_) rfl
        cases hd
      · rw [heq]
        exact h
      · rw [heq]
        refine h.snoc rfl (fun inputMsg hd => ?_) rfl fun packet hcall => ?_
        · cases hd
        · cases hcall
  | branch =>
      obtain ⟨inputMsg, -, rfl⟩ := step_branch hstep
      refine ⟨h.loggedIn, fun _ hd => ?_, h.chats⟩
      simp only [InputThread.branching.injEq] at hd
      exact h.loggedIn hd.2
  | send fresh =>
      obtain ⟨inputMsg, loggedIn, pkt, size, hinput, hbuild, rfl⟩ := step_send hstep
      refine ⟨fun hloggedIn => (h.loggedIn hloggedIn).append _, fun inputMsg hd => ?_,
        h.chats.snoc fun packet hcall hid => ?_⟩
      · cases hd
      · cases hcall
        rw [id_of_build hbuild] at hid
        cases loggedIn with
        | false => cases hid
        | true => exact h.tested inputMsg hinput

end ChatClient

/-- **No chat before a successful login**, in every run where every `REPLY_LOGIN` that reaches
a client that is not logged in says success. -/
theorem chat_after_login {mark : UInt32} {es : List ClientEvent} {c : ChatClient}
    (h : (clientMachine.restrict ChatClient.RepliesSuccess).Run (.launched mark) es c) :
    ChatsGranted c.calls := by
  have hinv : c.LoginInv := by
    refine h.invariant (fun _ _ _ hinv hstep => ?_) (ChatClient.loginInv_launched mark)
    obtain ⟨hstep, hsuccess⟩ := Machine.step_restrict_iff.mp hstep
    exact hinv.step hstep hsuccess
  exact hinv.chats

/-- A reply to a login. -/
def loginReply (success : Bool) : List UInt8 :=
  packetOf (fun _ => 0) 2 (LoginResponse.cleared.setSuccess success).serialize

/-- `Bob` is typed and posted, the reply arrives in two reads, and `hi` is typed. -/
def nameThenLine (success : Bool) : List ClientEvent :=
  [.connectDone false, .getline (some [66, 111, 98]), .branch, .send fun _ => 0, .writeDone,
    .writeResumed, .readDone ((loginReply success).take 10),
    .readDone ((loginReply success).drop 10), .getline (some [104, 105]), .branch, .send fun _ => 0]

/-- The login is granted, and the line is posted as a chat. -/
theorem chat_after_granted_login : ∃ c,
    clientMachine.Run (.launched 0) (nameThenLine true) c ∧
    .posted (chatPacket [104, 105]) ∈ c.calls ∧ ChatsGranted c.calls := by
  obtain ⟨c, hrun, hposted⟩ := Machine.exists_run_of_exec
    (clientMachine.restrict ChatClient.RepliesSuccess) (.launched 0) (nameThenLine true)
    (fun c => decide (.posted (chatPacket [104, 105]) ∈ c.calls)) (b := true) (by decide +kernel)
  exact ⟨c, hrun.of_restrict, of_decide_eq_true hposted, chat_after_login hrun⟩

/-- The login is refused, and the line is posted as a chat all the same. -/
theorem chat_after_refused_login : ∃ c,
    clientMachine.Run (.launched 0) (nameThenLine false) c ∧
    c.calls = [.typed [66, 111, 98], .posted (loginPacket [66, 111, 98]),
      .replied ⟨some false⟩ true, .typed [104, 105], .posted (chatPacket [104, 105])] ∧
    (PacketHeader.ofBytes (chatPacket [104, 105])).id = Packets.requestChat.toId ∧
    ¬ ChatsGranted c.calls := by
  obtain ⟨c, hrun, hcalls⟩ := Machine.exists_run_of_exec clientMachine (.launched 0)
    (nameThenLine false) (fun c => c.calls)
    (b := [.typed [66, 111, 98], .posted (loginPacket [66, 111, 98]), .replied ⟨some false⟩ true,
      .typed [104, 105]] ++ [.posted (chatPacket [104, 105])]) (by decide +kernel)
  have hid : (PacketHeader.ofBytes (chatPacket [104, 105])).id = Packets.requestChat.toId := by
    decide +kernel
  refine ⟨c, hrun, hcalls, hid, fun hgranted => ?_⟩
  obtain ⟨response, hmem, hsuccess⟩ := hgranted _ _ [] hcalls hid
  simp only [List.mem_cons, List.not_mem_nil, reduceCtorEq, ClientCall.replied.injEq, false_or,
    or_false, and_true] at hmem
  subst hmem
  cases hsuccess

end AsioChat
