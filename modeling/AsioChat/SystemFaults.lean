import AsioChat.Faults
import AsioChat.Integrity

/-!
# Faults of the System

Without anybody else on the server, little is left of what can go wrong (`Faults`): what the
clients send has a size that is not negative, what the server sends is there when the clients
read it, and short names fit into the notices. So the null entries of the queues remain, and the
bytes of earlier connections that `init` leaves in the buffer of a session, if they are almost
`2 ^ 32`.

## Main results

* `Peer.Downlink.not_faults`: whoever else is on the server, no read of a client faults.
* `exists_step_of_arrive`: so nobody can bring a client down through the server.
* `System.Sound.step`, `System.sound_of_run`: what is kept where nobody else is on the server.
* `system_faults_iff`: when a step of the system faults.
-/

namespace AsioChat

/-! ### Short requests -/

/-- A request of which the strings fit into a notice: a name of moderate length, and a message
that the server accepts. -/
def Request.IsShort : Request → Prop
  | login request => request.name.length ≤ 2 ^ 30
  | chat request => request.message.length ≤ maxChatMessageLen.toNat

/-- A write of a packet with a short request. -/
def Write.IsShort (w : Write) : Prop := ∃ request, w.request = some request ∧ request.IsShort

/-- The line that the input thread is about to post as a login. -/
def InputThread.loginLine : InputThread → Option (List UInt8)
  | branching line false => some line
  | _ => none

/-- The condition on a step that a name is posted only if it is of moderate length. -/
def System.ShortNames {ι : Type} (w : System ι) : SystemAction ι → Prop
  | .client k e => (e matches .send _) = true → ∀ line ∈ (w.peer k).client.input.loginLine,
    line.length ≤ 2 ^ 30
  | .establish _ | .server _ | .accept _ _ | .serve _ _ _ | .arrive _ _ | .hangUp _ => True

instance {ι : Type} (w : System ι) : (action : SystemAction ι) → Decidable (w.ShortNames action)
  | .client _ _ => inferInstanceAs (Decidable (_ → _))
  | .establish _ | .server _ | .accept _ _ | .serve _ _ _ | .arrive _ _ | .hangUp _ =>
    instDecidableTrue

/-- **A request that is posted is short**, if its line is. -/
theorem isShort_of_build {fresh : ℕ → UInt8} {line pkt : List UInt8} {loggedIn : Bool}
    {size : UInt32} (hbuild : (if loggedIn = false then ChatClient.buildLogin fresh line
      else ChatClient.buildChat fresh line) = .ok (pkt, size))
    (hlogin : loggedIn = false → line.length ≤ 2 ^ 30)
    (hchat : loggedIn = true →
      (ChatRequest.cleared.setMessage line).byteSize ≤ maxChatMessageLen.toNat) :
    Write.IsShort ⟨some pkt, size⟩ := by
  refine ⟨requestFor loggedIn line, request_of_build hbuild, ?_⟩
  cases loggedIn with
  | false => exact hlogin rfl
  | true => exact (Wire.stringSize_bounds line).1.trans (hchat rfl)

/-- A short name and a short message fit into a notice. -/
theorem Session.byteSize_notice_lt {session : Session} {request : ChatRequest}
    (hname : session.name.length ≤ 2 ^ 30)
    (hmessage : request.message.length ≤ maxChatMessageLen.toNat) :
    (session.notice request).byteSize < 2 ^ 31 := by
  have hcString : (cString session.name).length ≤ session.name.length :=
    (List.takeWhile_prefix _).length_le
  have hnameSize := (Wire.stringSize_bounds (cString session.name)).2
  have hmessageSize := (Wire.stringSize_bounds request.message).2
  have hmax : maxChatMessageLen.toNat = 20 := rfl
  show Wire.stringSize (cString session.name) + Wire.stringSize request.message < 2 ^ 31
  omega

/-! ### Reads -/

/-- A packet that a read completes is one of those that were sent, with stale bytes behind it, if
the read holds bytes of one packet only. -/
theorem PacketBuffer.Completes.of_transfers {side : Side} {s : PacketBuffer}
    {g : Gather.State UInt8} {stale data : List UInt8} {sent p : List (List UInt8)} {k n : ℕ}
    (h : s.Completes side (p.flatten.take n) data) (hholds : s.Holds g stale)
    (htransfers : Pipe.Transfers sent k g p) (hframes : ∀ q ∈ sent, (gatherRules side).IsFrame q)
    (hfits : Pipe.Fits n p) : ∃ q ∈ sent, data = q ++ stale := by
  obtain ⟨buffer, hreceive⟩ := h
  obtain ⟨hexit, -, -⟩ := hholds.of_receive_eq hreceive
  rcases htransfers.take hframes hfits with ⟨checked, hstep, -⟩ | ⟨hget, hstep, -⟩
  · rw [hstep] at hexit
    cases hexit
  · rw [hstep] at hexit
    cases hexit
    exact ⟨_, List.mem_of_getElem? hget, rfl⟩

namespace Peer

variable {p : Peer} {s : ChatServer} {n : ℕ} {f : Fault}

/-- **No read of a client faults**, whoever else is on the server. -/
theorem Downlink.not_faults (h : p.Downlink s) (hfits : Pipe.Fits n p.toClient) :
    ¬ p.client.Faults (.readDone (p.toClient.flatten.take n)) f := by
  obtain ⟨g, k, hholds, htransfers, -⟩ := h.arriving
  intro hfaults
  cases hfaults with
  | buffer _ hbig =>
      rw [hholds.buffer, List.append_nil, ← List.length_append] at hbig
      rcases htransfers.exists_prefix hfits with hnil | ⟨q, hq, hfront⟩
      · rw [hnil] at hbig
        cases hbig
      · obtain ⟨w, -, rfl⟩ := List.mem_map.mp hq
        have hbytes : w.bytes.length ≤ w.size.toNat := List.length_take_le _ _
        have hsize := w.size.toNat_lt
        have hle := hfront.length_le
        unfold vectorMaxSize at hbig
        omega
  | content _ data _ hcompletes _ hparse =>
      have herror := (ChatClient.processPacket_eq_error_iff (c := p.client)).mpr hparse
      obtain ⟨q, hq, rfl⟩ := hcompletes.of_transfers hholds htransfers h.isFrame hfits
      obtain ⟨w, hw, rfl⟩ := List.mem_map.mp hq
      obtain ⟨message, hconveys⟩ := h.conveys w hw
      have hdata := hconveys.isFor.1.exists_bytes.1
      obtain ⟨packet, hpacket, -, -, hrecords⟩ := hconveys
      obtain ⟨d, hprocess, -⟩ := hrecords p.client []
      cases hdata.symm.trans hpacket
      cases hprocess.symm.trans herror

/-- A packet that a read from a client completes is one that the client has posted. -/
theorem Uplink.exists_of_completes (h : p.Uplink s) {κ : Connection} {session : Session}
    {data : List UInt8} (hκ : p.connection = some κ) (hlive : κ.isLive = true)
    (hsession : s.sessionList[κ.id]? = some session) (hfits : Pipe.Fits n p.toServer)
    (hcompletes : session.toPacketBuffer.Completes .server (p.toServer.flatten.take n) data) :
    ∃ w ∈ p.client.posted, Request.ofPacket data = w.request ∧
      PacketHeader.ofBytes data = PacketHeader.ofBytes w.bytes := by
  obtain ⟨r, k, _, _, hinv, hreceives, hopen, htransfers, -⟩ := h.serving κ hκ hlive
  obtain ⟨stale, hholds⟩ := hinv.holds hopen
  have hside := hreceives.side
  rw [hsession, Option.map_some, Option.some.injEq] at hside
  rw [show session.toPacketBuffer = r.buffer from congrArg Prod.fst hside] at hcompletes
  obtain ⟨q, hq, rfl⟩ := hcompletes.of_transfers hholds htransfers h.isFrame hfits
  obtain ⟨w, hw, rfl⟩ := List.mem_map.mp hq
  have hposted := h.started.subset hw
  have hpacket := h.packets w hposted
  exact ⟨w, hposted, hpacket.ofPacket_eq (List.prefix_append _ _),
    hpacket.isFor.exists_bytes.2.ofBytes_eq (List.prefix_append _ _)⟩

/-- **A read from a client faults only for the stale bytes in the buffer**, if the requests of the
client and the name on its session are short. -/
theorem Uplink.eq_of_faults (h : p.Uplink s) {κ : Connection} {fresh : ℕ → UInt8}
    (hκ : p.connection = some κ) (hlive : κ.isLive = true) (hfits : Pipe.Fits n p.toServer)
    (hshort : ∀ w ∈ p.client.posted, w.IsShort)
    (hnames : ∀ session, s.sessionList[κ.id]? = some session → session.name.length ≤ 2 ^ 30)
    (hfaults : s.Faults (.readDone κ.id (p.toServer.flatten.take n) fresh) f) :
    f = .lengthError ∧ s.Has κ.id fun session =>
      vectorMaxSize < session.packetBuffer.length + (p.toServer.flatten.take n).length := by
  cases hfaults with
  | buffer _ _ _ hbig => exact ⟨rfl, hbig⟩
  | content _ _ _ data _ hcompletes hsize _ =>
      obtain ⟨session, hsession, hcompletes⟩ := hcompletes
      obtain ⟨w, hw, -, hheader⟩ := h.exists_of_completes hκ hlive hsession hfits hcompletes
      rw [hheader] at hsize
      exact absurd (h.packets w hw).size (Nat.not_lt.mpr hsize)
  | notice _ _ _ data request hboth hrequest =>
      obtain ⟨session, hsession, hcompletes, hlong⟩ := hboth
      obtain ⟨w, hw, hposted, -⟩ := h.exists_of_completes hκ hlive hsession hfits hcompletes
      obtain ⟨request', hrequest', hmessage⟩ := hshort w hw
      cases (hrequest.symm.trans hposted).trans hrequest'
      have hlt := Session.byteSize_notice_lt (hnames session hsession) hmessage
      exact absurd hlt (Nat.not_lt.mpr hlong)

end Peer

/-! ### The system -/

namespace System

variable {ι : Type} {w w' : System ι} {e : SystemEvent ι} {action : SystemAction ι} {f : Fault}

/-- **What can go wrong in the system**: a packet is waiting in the queue of a session when a
write on it completes, or a session's buffer grows larger than a vector can be. -/
inductive Faults (w : System ι) : SystemAction ι → Fault → Prop
  | null (id : ℕ) (hwaiting : w.server.Has id (1 < ·.sendDataQueue.length)) :
      Faults w (.server (.writeDone id)) .nullDereference
  | buffer (k : ι) (n : ℕ) (fresh : ℕ → UInt8)
      (hbig : (w.peer k).On fun κ => w.server.Has κ.id fun session =>
        vectorMaxSize < session.packetBuffer.length + (w.upBytes k n).length) :
      Faults w (.serve k n fresh) .lengthError

/-- What the clients have posted is short. -/
def AllShort (w : System ι) : Prop :=
  ∀ k, ∀ write ∈ (w.peer k).client.posted, write.IsShort

/-- **What the clients post stays short** in a tidy step with short names. -/
theorem AllShort.step (h : w.AllShort) (hsteps : ∀ j, PeerStep w w' j action)
    (horderly : w.Orderly action) (hnames : w.ShortNames action) : w'.AllShort := by
  intro j
  cases hsteps j with
  | client e c hread hstep hserver hpeer =>
      rw [hpeer]
      refine ChatClient.forall_posted_of_step hstep (h j) ?_
      rintro fresh line loggedIn pkt size rfl hinput hbuild
      refine isShort_of_build hbuild (fun hlog => hnames rfl line ?_)
        fun hlog => (horderly rfl).2 line ?_
      · rw [hinput, hlog]
        rfl
      · rw [hinput, hlog]
        rfl
  | arrive n c hstep hserver hpeer =>
      rw [hpeer]
      exact ChatClient.forall_posted_of_step hstep (h j) fun _ _ _ _ _ heq => by cases heq
  | other action isUp hserver hpeer =>
      rw [hpeer]
      exact h j
  | server action e' hstep howns hpeer =>
      rw [hpeer, Peer.client_feed]
      exact h j
  | accept id hnone hstep hpeer =>
      rw [hpeer]
      exact (Peer.client_feed ..).symm ▸ h j
  | serve n fresh κ hκ hlive hstep hpeer =>
      rw [hpeer]
      exact (Peer.client_feed ..).symm ▸ h j
  | hangUp κ hκ hlive hstep hpeer =>
      rw [hpeer]
      exact (Peer.client_feed ..).symm ▸ h j

/-- **The names on the sessions are short**, if nobody else is on the server. -/
theorem AllPosted.length_name_le (h : w.AllPosted) (hshort : w.AllShort) {mark : ℕ → UInt32}
    {m : ℕ} {es : List ServerEvent} (hrun : chatMachine.Run (.started mark m) es w.server) {id : ℕ}
    {session : Session} (hsession : w.server.sessionList[id]? = some session) :
    session.name.length ≤ 2 ^ 30 := by
  have hname : session.name = sessionName id w.server.calls :=
    (ChatServer.namesInv_of_run hrun).name id session.name (by rw [hsession, Option.map_some])
  rcases sessionName_eq_nil_or_mem id w.server.calls with hnil | ⟨request, hlogin, hlast⟩
  · rw [hname, hnil]
    exact Nat.zero_le _
  · obtain ⟨k, hposted⟩ := h id (.login request)
      (List.mem_filterMap.mpr ⟨.login id request, hlogin, if_pos rfl⟩)
    obtain ⟨write, hwrite, hrequest⟩ := List.mem_filterMap.mp hposted
    obtain ⟨request', hrequest', hlength⟩ := hshort k write hwrite
    cases hrequest.symm.trans hrequest'
    rw [hname, hlast]
    exact hlength

/-- A step of the server with what it writes underway faults if the step does. -/
theorem serverStep_eq_error_iff {freed : Option (ι → ℕ → UInt8)} {e : ServerEvent} :
    w.serverStep freed e = .error f ↔ chatMachine.step w.server e = .error f := by
  simp only [serverStep, bind, Except.bind_eq_error_iff]
  refine or_iff_left ?_
  rintro ⟨_, -, h⟩
  cases h

/-- **No step of a client's own faults** in a tidy step with short names. -/
theorem client_step_ne_error {k : ι} {e : ClientEvent} {mark : UInt32} {es : List ClientEvent}
    (hrun : clientMachine.Run (.launched mark) es (w.peer k).client)
    (henabled : w.Enabled (.client k e)) (horderly : w.Orderly (.client k e))
    (hnames : w.ShortNames (.client k e)) :
    clientMachine.step (w.peer k).client e ≠ .error f := by
  intro herror
  by_cases hsend : ∃ fresh, e = .send fresh
  · obtain ⟨fresh, rfl⟩ := hsend
    cases ChatClient.send_eq_error_iff.mp herror with
    | line _ line loggedIn hinput hlong =>
        cases loggedIn with
        | false =>
            have hshort := hnames rfl line (by rw [hinput]; rfl)
            have hsize := (Wire.stringSize_bounds line).2
            omega
        | true =>
            have hshort : Wire.stringSize line ≤ 20 := (horderly rfl).2 line (by rw [hinput]; rfl)
            omega
  · obtain ⟨d, hok⟩ := ChatClient.exists_step hrun henabled.1
      (fun bytes heq => by cases heq; cases henabled.2.1) fun fresh heq => hsend ⟨fresh, heq⟩
    cases hok.symm.trans herror

variable [DecidableEq ι] {mark : ℕ → UInt32} {m : ℕ} {marks : ι → UInt32}

/-- What holds of the system where only the clients are on the server, the steps are tidy, and no
over-long name is posted. -/
structure Sound (mark : ℕ → UInt32) (m : ℕ) (marks : ι → UInt32) (w : System ι) : Prop where
  reached : w.Reached mark m marks
  linked : w.Linked
  posted : w.AllPosted
  short : w.AllShort

omit [DecidableEq ι] in
/-- It holds before anything happens. -/
theorem sound_initial (mark : ℕ → UInt32) (m : ℕ) (marks : ι → UInt32) :
    (initial mark m marks).Sound mark m marks :=
  ⟨reached_initial mark m marks, linked_initial mark m marks, allPosted_initial mark m marks,
    fun _ => List.forall_mem_nil _⟩

/-- **Every such step** keeps it. -/
theorem Sound.step (h : w.Sound mark m marks) (hstep : (systemMachine ι).Step w e w')
    (hcond : w.Tidy e ∧ FromClients e ∧ w.ShortNames e.action) : w'.Sound mark m marks := by
  obtain ⟨htidy, hfrom, hnames⟩ := hcond
  have hlinked := h.linked.step h.reached hstep htidy
  exact ⟨h.reached.step hstep htidy, hlinked,
    h.posted.step h.reached h.linked hlinked hstep htidy hfrom,
    h.short.step (peerStep_of_step h.reached hstep htidy) htidy.2 hnames⟩

/-- **It holds in every such run.** -/
theorem sound_of_run {es : List (SystemEvent ι)}
    (h : ((systemMachine ι).restrict fun w e =>
      w.Tidy e ∧ FromClients e ∧ w.ShortNames e.action).Run (initial mark m marks) es w) :
    w.Sound mark m marks :=
  h.invariant (fun _ _ _ hsound hstep => hsound.step (Machine.step_restrict_iff.mp hstep).1
    (Machine.step_restrict_iff.mp hstep).2) (sound_initial mark m marks)

/-- **When a step faults**, in a sound state. -/
theorem Sound.step_eq_error_iff (h : w.Sound mark m marks)
    (henabled : (systemMachine ι).enabled w e)
    (hcond : w.Tidy e ∧ FromClients e ∧ w.ShortNames e.action) :
    (systemMachine ι).step w e = .error f ↔ w.Faults e.action f := by
  obtain ⟨hreached, hlinked, hposted, hshort⟩ := h
  obtain ⟨es, hrun⟩ := hreached.server
  obtain ⟨⟨hcalm, horderly⟩, hfrom, hnames⟩ := hcond
  obtain ⟨action, rfl⟩ := hcalm.exists_eq
  replace henabled : w.Enabled action := henabled
  cases action with
  | establish k =>
      constructor
      · intro herror
        cases herror
      · intro hfaults
        cases hfaults
  | client k e' =>
      obtain ⟨es', hrun'⟩ := hreached.client k
      have hnever := client_step_ne_error (f := f) hrun' henabled horderly hnames
      simp only [systemMachine, System.step, SystemEvent.calm, ChatClient.stepRaced_none, bind,
        Except.bind_eq_error_iff]
      constructor
      · rintro (herror | ⟨_, -, herror⟩)
        · exact absurd herror hnever
        · cases herror
      · intro hfaults
        cases hfaults
  | server e' =>
      have hstep : (systemMachine ι).step w (.calm (.server e')) = w.serverStep none e' := rfl
      rw [hstep, serverStep_eq_error_iff]
      cases e' with
      | readDone id bytes fresh => cases hfrom
      | acceptDone id error =>
          constructor
          · intro herror
            cases herror
          · intro hfaults
            cases hfaults
      | readFailed id =>
          constructor
          · intro herror
            cases herror
          · intro hfaults
            cases hfaults
      | writeDone id =>
          obtain ⟨⟨session, hsession, hcompleted⟩, -⟩ := henabled
          rw [ChatServer.writeDone_eq_error_iff hsession
            (ChatServer.inv_of_sessionList hrun hsession) hcompleted]
          constructor
          · intro hfaults
            cases hfaults with
            | null _ hwaiting => exact .null id hwaiting
          · intro hfaults
            cases hfaults with
            | null _ hwaiting => exact .null id hwaiting
  | accept k id =>
      constructor
      · intro herror
        cases herror
      · intro hfaults
        cases hfaults
  | serve k n fresh =>
      obtain ⟨κ, hκ, hlive, henabled⟩ := henabled
      obtain ⟨session, g, stale, hsession, hholds⟩ :=
        ChatServer.exists_holds_of_reading hrun henabled.1
      simp only [systemMachine, System.step, SystemEvent.calm, hκ, bind,
        Except.bind_eq_error_iff, serverStep_eq_error_iff]
      constructor
      · rintro (herror | ⟨_, -, herror⟩)
        · obtain ⟨rfl, hbig⟩ := (hlinked.up k).eq_of_faults hκ hlive horderly (hshort k)
            (fun _ hsome => hposted.length_name_le hshort hrun hsome)
            ((ChatServer.readDone_eq_error_iff hsession hholds).mp herror)
          exact .buffer k n fresh ⟨κ, hκ, hlive, hbig⟩
        · cases herror
      · intro hfaults
        cases hfaults with
        | buffer _ _ _ hbig =>
            obtain ⟨κ', hκ', -, hbig⟩ := hbig
            cases hκ.symm.trans hκ'
            exact .inl ((ChatServer.readDone_eq_error_iff hsession hholds).mpr
              (.buffer κ.id _ fresh hbig))
  | arrive k n =>
      obtain ⟨g, _, hholds, -⟩ := (hlinked.down k).arriving
      simp only [systemMachine, System.step, SystemEvent.calm, ChatClient.stepRaced_none, bind,
        Except.bind_eq_error_iff]
      constructor
      · rintro (herror | ⟨_, -, herror⟩)
        · exact absurd ((ChatClient.readDone_eq_error_iff hholds).mp herror)
            ((hlinked.down k).not_faults horderly)
        · cases herror
      · intro hfaults
        cases hfaults
  | hangUp k =>
      obtain ⟨κ, hκ, -⟩ := henabled
      simp only [systemMachine, System.step, SystemEvent.calm, hκ]
      constructor
      · intro herror
        cases herror
      · intro hfaults
        cases hfaults

end System

/-- **Nobody can bring a client down through the server**: in every tidy run, whatever others send
to the server, everything that arrives at a client is processed. -/
theorem exists_step_of_arrive {ι : Type} [DecidableEq ι] {mark : ℕ → UInt32} {m : ℕ}
    {marks : ι → UInt32} {es : List (SystemEvent ι)} {w : System ι} {e : SystemEvent ι} {k : ι}
    {n : ℕ} (h : ((systemMachine ι).restrict System.Tidy).Run (.initial mark m marks) es w)
    (henabled : ((systemMachine ι).restrict System.Tidy).enabled w e)
    (harrive : e.action = .arrive k n) : ∃ w', (systemMachine ι).Step w e w' := by
  obtain ⟨henabled, hcalm, horderly⟩ := henabled
  obtain ⟨action, rfl⟩ := hcalm.exists_eq
  obtain rfl : action = .arrive k n := harrive
  obtain ⟨-, hlinked⟩ := System.linked_of_run (fun _ _ htidy => htidy) h
  obtain ⟨g, _, hholds, -⟩ := (hlinked.down k).arriving
  cases hstep : (systemMachine ι).step w (.calm (.arrive k n)) with
  | ok w' => exact ⟨w', henabled, hstep⟩
  | error f =>
      simp only [systemMachine, System.step, SystemEvent.calm, ChatClient.stepRaced_none, bind,
        Except.bind_eq_error_iff] at hstep
      rcases hstep with herror | ⟨_, -, herror⟩
      · exact absurd ((ChatClient.readDone_eq_error_iff hholds).mp herror)
          ((hlinked.down k).not_faults horderly)
      · cases herror

/-- The notice of `Bob` arrives at the other client in three pieces. -/
theorem exists_step_of_arrive_bobSaysHi : ∃ w w',
    ((systemMachine Bool).restrict System.Tidy).Run (.initial (fun _ => 0) 2 fun _ => 0)
      (bobSaysHi.take 23) w ∧ (systemMachine Bool).Step w (.calm (.arrive false 1)) w' := by
  obtain ⟨w, hrun, hw⟩ := Machine.exists_run_of_exec ((systemMachine Bool).restrict System.Tidy)
    (.initial (fun _ => 0) 2 fun _ => 0) (bobSaysHi.take 23)
    (fun w => decide (((systemMachine Bool).restrict System.Tidy).enabled w
      (.calm (.arrive false 1)))) (b := true) (by decide +kernel)
  obtain ⟨w', hstep⟩ := exists_step_of_arrive hrun (of_decide_eq_true hw) rfl
  exact ⟨w, w', hrun, hstep⟩

/-- **When a step of the system faults**, in every tidy run in which only the clients are on the
server and no over-long name is posted: only when a write of the server completes with a packet
waiting behind it, and when the bytes that earlier connections have left in the buffer of a session
are too many. -/
theorem system_faults_iff {ι : Type} [DecidableEq ι] {mark : ℕ → UInt32} {m : ℕ}
    {marks : ι → UInt32} {es : List (SystemEvent ι)} {w : System ι} {e : SystemEvent ι} {f : Fault}
    (h : ((systemMachine ι).restrict fun w e => w.Tidy e ∧ System.FromClients e ∧
      w.ShortNames e.action).Run (.initial mark m marks) es w)
    (henabled : (systemMachine ι).enabled w e)
    (htidy : w.Tidy e ∧ System.FromClients e ∧ w.ShortNames e.action) :
    (systemMachine ι).step w e = .error f ↔ w.Faults e.action f :=
  (System.sound_of_run h).step_eq_error_iff henabled htidy

/-- `Bob` says `hi` before the reply to his login is written, which goes wrong when it is. -/
theorem system_faults_bobSaysHi : ∃ w,
    ((systemMachine Bool).restrict fun w e => w.Tidy e ∧ System.FromClients e ∧
      w.ShortNames e.action).Run (.initial (fun _ => 0) 2 fun _ => 0)
      (bobSaysHi.take 15 ++ (bobSaysHi.drop 16).take 5) w ∧
    (systemMachine Bool).step w (.calm (.server (.writeDone 0))) = .error .nullDereference := by
  obtain ⟨w, hrun, hw⟩ := Machine.exists_run_of_exec
    ((systemMachine Bool).restrict fun w e => w.Tidy e ∧ System.FromClients e ∧
      w.ShortNames e.action) (.initial (fun _ => 0) 2 fun _ => 0)
    (bobSaysHi.take 15 ++ (bobSaysHi.drop 16).take 5)
    (fun w => decide ((systemMachine Bool).enabled w (.calm (.server (.writeDone 0)))) &&
      decide (w.server.Has 0 (1 < ·.sendDataQueue.length))) (b := true) (by decide +kernel)
  rw [Bool.and_eq_true, decide_eq_true_eq, decide_eq_true_eq] at hw
  exact ⟨w, hrun, (system_faults_iff hrun hw.1 ⟨⟨⟨rfl, rfl⟩, trivial⟩, rfl, trivial⟩).mpr
    (.null 0 hw.2)⟩

end AsioChat
