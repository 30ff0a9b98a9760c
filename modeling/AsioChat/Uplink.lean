import AsioChat.ClientLines
import AsioChat.System

/-!
# From the Clients to the Server

The way of the requests, from `post_send` of a client to `process_packet` of the server. As long as
the steps are tidy (`System.Tidy`), the server processes the requests of every client in the order
in which they were written, each once and unaltered, until it closes the connection.

## Main results

* `Peer.Uplink`, `System.uplink_of_step`: what holds of this way of a connection, and that every
  step keeps it.
* `Peer.Uplink.requests`: what the server has processed on a connection.
-/

namespace AsioChat

/-- A write of a packet as its receiver accepts it, whole. -/
def Write.IsFor (side : Side) (w : Write) : Prop :=
  ∃ packet, w.data = some packet ∧ w.size.toNat = packet.length ∧ side.IsPacket packet

/-- A whole write puts its packet underway. -/
theorem Write.IsFor.exists_bytes {side : Side} {w : Write} (h : w.IsFor side) :
    w.data = some w.bytes ∧ side.IsPacket w.bytes := by
  obtain ⟨packet, hdata, hsize, hpacket⟩ := h
  have hbytes : w.bytes = packet := by
    rw [bytes, hdata, hsize, Option.getD_some, List.take_length]
  rw [hbytes]
  exact ⟨hdata, hpacket⟩

/-- A write of a request as the server accepts it, whole, of a size that is not negative as an
`int`. -/
structure Write.IsRequest (w : Write) : Prop where
  isFor : w.IsFor .server
  size : (PacketHeader.ofBytes w.bytes).contentSize.toNat < 2 ^ 31

/-! ### Packets with something behind them -/

/-- The header of a packet, whatever stands behind the packet. -/
theorem Side.IsPacket.ofBytes_eq {side : Side} {p data : List UInt8} (h : side.IsPacket p)
    (hdata : p <+: data) : PacketHeader.ofBytes data = PacketHeader.ofBytes p := by
  obtain ⟨stale, rfl⟩ := hdata
  obtain ⟨⟨fresh, id, content, hfit, rfl⟩, -⟩ := h
  have hlength := length_packetOf fresh id hfit
  exact PacketHeader.ofBytes_append (by omega) stale

/-- What is parsed in a packet of a size that is not negative, whatever stands behind the packet. -/
theorem Side.IsPacket.parseContent_eq {side : Side} {p data : List UInt8} {M : Type}
    (h : side.IsPacket p) (hsize : (PacketHeader.ofBytes p).contentSize.toNat < 2 ^ 31)
    (hdata : p <+: data) (message : Wire.Message M) :
    parseContent message data = parseContent message p := by
  obtain ⟨stale, rfl⟩ := hdata
  obtain ⟨⟨fresh, id, content, hfit, rfl⟩, -⟩ := h
  rw [contentSize_packetOf fresh id hfit] at hsize
  have hparse := parseContent_packetOf message fresh id [] hsize
  rw [List.append_nil] at hparse
  rw [parseContent_packetOf message fresh id stale hsize, hparse]

/-- The request in a packet, whatever stands behind the packet. -/
theorem Write.IsRequest.ofPacket_eq {w : Write} {data : List UInt8} (h : w.IsRequest)
    (hdata : w.bytes <+: data) : Request.ofPacket data = w.request := by
  obtain ⟨hsome, hpacket⟩ := h.isFor.exists_bytes
  rw [Write.request, hsome, Option.bind_some]
  simp only [Request.ofPacket, hpacket.ofBytes_eq hdata, hpacket.parseContent_eq h.size hdata]

/-! ### What the clients send -/

namespace ChatClient

variable {c d : ChatClient} {e : ClientEvent}

/-- **A request that is posted is a packet the server accepts**, if it is no over-long chat. -/
theorem isRequest_of_build {fresh : ℕ → UInt8} {line pkt : List UInt8} {loggedIn : Bool}
    {size : UInt32} (hbuild : (if loggedIn = false then buildLogin fresh line
      else buildChat fresh line) = .ok (pkt, size))
    (hshort : loggedIn = true →
      (ChatRequest.cleared.setMessage line).byteSize ≤ maxChatMessageLen.toNat) :
    Write.IsRequest ⟨some pkt, size⟩ := by
  have hid := id_of_build hbuild
  obtain ⟨content, hlt, hpkt, hsize⟩ := exists_packetOf_of_build hbuild
  have hfit : content.length + 12 < 2 ^ 32 := by omega
  have hfor : Write.IsFor .server ⟨some pkt, size⟩ := by
    refine ⟨pkt, rfl, ?_, ⟨fresh, _, content, hfit, hpkt⟩, fun _ hchat => ?_⟩
    · rw [hsize, hpkt, length_packetOf fresh _ hfit, UInt32.toNat_add, toNat_headerSize,
        UInt32.toNat_ofNat']
      omega
    · cases loggedIn with
      | false =>
          rw [hid] at hchat
          cases hchat
      | true =>
          obtain ⟨hlt, hpkt'⟩ := buildChat_eq_ok.mp hbuild
          have hlength := ChatRequest.length_serialize (length_lt_of_stringFieldSize hlt)
          cases hpkt'
          rw [UInt32.le_iff_toNat_le, contentSize_packetOf fresh _ (by omega), hlength]
          exact hshort rfl
  refine ⟨hfor, ?_⟩
  rw [← Option.some.inj hfor.exists_bytes.1, hpkt, contentSize_packetOf fresh _ hfit]
  exact hlt

/-- What holds of everything posted goes on to hold if it holds of the next request. -/
theorem forall_posted_of_step {P : Write → Prop} (hstep : clientMachine.Step c e d)
    (hposted : ∀ w ∈ c.posted, P w)
    (hnew : ∀ fresh line loggedIn pkt size, e = .send fresh → c.input = .branching line loggedIn →
      (if loggedIn = false then buildLogin fresh line else buildChat fresh line) =
        .ok (pkt, size) → P ⟨some pkt, size⟩) : ∀ w ∈ d.posted, P w := by
  by_cases hsend : ∃ fresh, e = .send fresh
  · obtain ⟨fresh, rfl⟩ := hsend
    obtain ⟨line, loggedIn, pkt, size, hinput, hbuild, rfl⟩ := step_send hstep
    intro w hw
    have hw' : w ∈ c.posted ++ [⟨some pkt, size⟩] := posted_post size pkt c ▸ hw
    rcases List.mem_append.mp hw' with hw' | hw'
    · exact hposted w hw'
    · exact List.mem_singleton.mp hw' ▸ hnew fresh line loggedIn pkt size rfl hinput hbuild
  · rw [posted_of_step hstep fun fresh heq => hsend ⟨fresh, heq⟩]
    exact hposted

/-- What the client has written is what it has posted, up to some point. -/
theorem started_prefix_of_run {mark : UInt32} {es : List ClientEvent}
    (h : clientMachine.Run (.launched mark) es c) : c.started <+: c.posted := by
  obtain ⟨es', hrun⟩ := exists_send_run h
  exact (sendInv_of_run hrun).inv.started

end ChatClient

namespace ChatServer

variable {s t : ChatServer} {κ : Connection}

/-- The requests of a connection that the server has not closed. -/
theorem requestsSince_of_live (hlive : κ.isLive = true) (s : ChatServer) :
    s.requestsSince κ = (s.calls.filterMap (Call.request κ.id)).drop κ.requestsBefore := by
  rw [requestsSince, Option.isNone_iff_eq_none.mp hlive, Option.getD_none, List.take_length]

/-- The requests of a connection when the server closes it. -/
theorem requestsSince_closed (hlive : κ.isLive = true)
    (hcalls : t.calls.filterMap (Call.request κ.id) = s.calls.filterMap (Call.request κ.id)) :
    t.requestsSince (κ.closed s) = s.requestsSince κ := by
  rw [requestsSince_of_live hlive, requestsSince]
  show ((t.calls.filterMap (Call.request κ.id)).take _).drop κ.requestsBefore = _
  rw [hcalls]
  exact congrArg (List.drop κ.requestsBefore) (List.take_length ..)

end ChatServer

namespace Peer

/-- The packets the client has written, as they went underway. -/
def sent (p : Peer) : List (List UInt8) := p.client.started.map Write.bytes

/-- The server serves the connection on its session: it has dispatched the first so many of the
packets the client has written, and holds the front of the next one. -/
def Serving (p : Peer) (κ : Connection) (s : ChatServer) : Prop :=
  ∃ (r : Receiver) (k : ℕ) (old new : List Dispatch), r.Inv ∧
    ChatServer.Receives κ.id s r ∧ r.isOpen = true ∧
    Pipe.Transfers p.sent k r.gathered p.toServer ∧
    r.dispatched = old ++ new ∧ (old.filterMap Dispatch.request).length = κ.requestsBefore ∧
    new.map Dispatch.received = p.sent.take k

/-- What the server has processed on a connection are the first requests that the client has
written, and all of them when nothing is underway. -/
structure Processed (p : Peer) (κ : Connection) (s : ChatServer) : Prop where
  begins : s.requestsSince κ <+: p.client.started.filterMap Write.request
  all : p.toServer = [] → s.requestsSince κ = p.client.started.filterMap Write.request

/-- The server has closed the connection, on its session: what it had processed until then does
not change any more. -/
structure Ended (p : Peer) (κ : Connection) (s : ChatServer) : Prop where
  counted : ∃ n, κ.requestsAtEnd = some n ∧ n ≤ (s.calls.filterMap (Call.request κ.id)).length
  processed : p.Processed κ s

/-- What holds of the way from the client to the server. -/
structure Uplink (p : Peer) (s : ChatServer) : Prop where
  packets : ∀ w ∈ p.client.posted, w.IsRequest
  started : p.client.started <+: p.client.posted
  waiting : p.connection = none → p.toServer = p.sent
  serving : ∀ κ, p.connection = some κ → κ.isLive = true → p.Serving κ s
  ended : ∀ κ, p.connection = some κ → κ.isLive = false → p.Ended κ s

variable {p p' : Peer} {s t : ChatServer}

/-- What the client has written are packets for the server. -/
theorem Uplink.isFrame (h : p.Uplink s) : ∀ q ∈ p.sent, (gatherRules .server).IsFrame q := by
  intro q hq
  obtain ⟨w, hw, rfl⟩ := List.mem_map.mp hq
  exact (h.packets w (h.started.subset hw)).isFor.exists_bytes.2.isFrame.1

/-- Writing goes on while the connection is served. -/
theorem Serving.written {κ : Connection} {c : ChatClient} (h : p.Serving κ s)
    (hstarted : p.client.started <+: c.started) : (p.written c).Serving κ s := by
  obtain ⟨r, k, old, new, hinv, hreceives, hopen, htransfers, hdispatched, hold, hnew⟩ := h
  obtain ⟨added, hadded⟩ := hstarted
  have hsent : (p.written c).sent = p.sent ++ added.map Write.bytes := by
    rw [sent, sent, Peer.written, ← hadded, List.map_append]
  have htoServer : (p.written c).toServer = p.toServer ++ added.map Write.bytes := by
    rw [Peer.written, ← hadded, List.drop_left]
  refine ⟨r, k, old, new, hinv, hreceives, hopen, ?_, hdispatched, hold, ?_⟩
  · rw [hsent, htoServer]
    exact htransfers.put _
  · rw [hsent, List.take_append_of_le_length htransfers.le, hnew]

/-- Writing goes on when the connection is closed, but nothing of it is processed. -/
theorem Ended.written {κ : Connection} {c : ChatClient} (h : p.Ended κ s)
    (hstarted : p.client.started <+: c.started) : (p.written c).Ended κ s := by
  obtain ⟨hcounted, hbegins, hall⟩ := h
  obtain ⟨added, hadded⟩ := hstarted
  refine ⟨hcounted, hbegins.trans (List.IsPrefix.filterMap _ ⟨added, hadded⟩), fun hnil => ?_⟩
  simp only [Peer.written, ← hadded, List.drop_left, List.append_eq_nil_iff,
    List.map_eq_nil_iff] at hnil
  obtain ⟨hserved, rfl⟩ := hnil
  rw [List.append_nil] at hadded
  rw [hall hserved, hadded]
  rfl

/-- A step of the server, when the connection is closed. -/
theorem Ended.of_step {κ : Connection} (h : p.Ended κ s) (hcalls : s.calls <+: t.calls)
    (hclient : p'.client = p.client) (htoServer : p'.toServer = p.toServer) : p'.Ended κ t := by
  obtain ⟨⟨n, hend, hle⟩, hbegins, hall⟩ := h
  obtain ⟨new, hnew⟩ := hcalls
  have hsame : t.requestsSince κ = s.requestsSince κ := by
    simp only [ChatServer.requestsSince, hend, Option.getD_some, ← hnew, List.filterMap_append,
      List.take_append_of_le_length hle]
  refine ⟨⟨n, hend, hle.trans ?_⟩, ?_, ?_⟩
  · rw [← hnew, List.filterMap_append, List.length_append]
    exact Nat.le_add_right _ _
  · rw [hsame, hclient]
    exact hbegins
  · rw [hsame, hclient, htoServer]
    exact hall

/-- A step of the server that does not read from the client. -/
theorem Serving.of_step {κ : Connection} {e : ServerEvent} (h : p.Serving κ s)
    (hreading : ∀ id, s.Has id (0 < ·.reading) → s.Has id (·.isOpen = true))
    (hstep : chatMachine.Step s e t) (hnone : receiverEvent κ.id e = none)
    (hclient : p'.client = p.client) (htoServer : p'.toServer = p.toServer) :
    p'.Serving κ t := by
  obtain ⟨r, k, old, new, hinv, hreceives, hopen, htransfers, hrest⟩ := h
  obtain ⟨q, hrun, hreceives'⟩ := hreceives.step hreading hstep
  rw [hnone] at hrun
  obtain rfl := hrun.eq_of_nil
  have hsent : p'.sent = p.sent := congrArg (fun c => c.started.map Write.bytes) hclient
  rw [Serving, hsent, htoServer]
  exact ⟨r, k, old, new, hinv, hreceives', hopen, htransfers, hrest⟩

/-- **A read of the server from the client** that holds bytes of one packet only. -/
theorem Serving.read {κ : Connection} {n : ℕ} {fresh : ℕ → UInt8} (h : p.Serving κ s)
    (hframes : ∀ q ∈ p.sent, (gatherRules .server).IsFrame q)
    (hreading : ∀ id, s.Has id (0 < ·.reading) → s.Has id (·.isOpen = true))
    (hfits : Pipe.Fits n p.toServer)
    (hstep : chatMachine.Step s (.readDone κ.id (p.toServer.flatten.take n) fresh) t)
    (hclient : p'.client = p.client) (htoServer : p'.toServer = Pipe.drop n p.toServer) :
    p'.Serving κ t := by
  obtain ⟨r, k, old, new, hinv, hreceives, hopen, htransfers, hdispatched, hold, hnew⟩ := h
  obtain ⟨q, hrun, hreceives'⟩ := hreceives.step hreading hstep
  simp only [receiverEvent, if_true, Option.toList_some] at hrun
  obtain ⟨q', hread, hnil⟩ := hrun.of_cons
  obtain rfl := hnil.eq_of_nil
  obtain ⟨stale, -, -, hnext, hq⟩ := hinv.read hread
  have hgathered := Receiver.gathered_read hnext
  rw [← hq] at hgathered
  have hopen' : q'.isOpen = true := by
    rw [hq, Receiver.isOpen_record]
    exact hopen
  have hsent : p'.sent = p.sent := congrArg (fun c => c.started.map Write.bytes) hclient
  rw [Serving, hsent, htoServer]
  rcases htransfers.take hframes hfits with
    ⟨checked, hstep', htransfers'⟩ | ⟨hget, hstep', htransfers'⟩
  · have hsame : q'.dispatched = r.dispatched := by
      rw [hq, Receiver.dispatched_record, hstep']
      exact List.append_nil _
    rw [hstep'] at hgathered
    exact ⟨q', k, old, new, hinv.step hread, hreceives', hopen', hgathered ▸ htransfers',
      hsame.trans hdispatched, hold, hnew⟩
  · have hmore : q'.dispatched = old ++ (new ++
        [⟨r.received ++ p.toServer.flatten.take n ++ stale,
          r.received ++ p.toServer.flatten.take n⟩]) := by
      rw [hq, Receiver.dispatched_record, hstep', hdispatched, List.append_assoc]
      rfl
    rw [hstep'] at hgathered
    refine ⟨q', k + 1, old, _, hinv.step hread, hreceives', hopen', hgathered ▸ htransfers',
      hmore, hold, ?_⟩
    rw [List.map_append, hnew, List.take_add_one, hget]
    rfl

/-- **The server begins to serve** when it accepts the connection. -/
theorem serving_accepted {mark : ℕ → UInt32} {m : ℕ} {es : List ServerEvent} {id : ℕ}
    (h : chatMachine.Run (.started mark m) es s)
    (hstep : chatMachine.Step s (.acceptDone id false) t) (hwaiting : p.toServer = p.sent)
    (hclient : p'.client = p.client) (htoServer : p'.toServer = p.toServer) :
    p'.Serving (.accepted s id) t := by
  obtain ⟨session, hsession, -⟩ := hstep.1.2 rfl
  obtain ⟨r, hrun, hreceives⟩ :=
    ChatServer.exists_receiver_run h (ChatServer.lt_of_sessionList h hsession)
  obtain ⟨q, hrun', hreceives'⟩ := hreceives.step (ChatServer.isOpen_of_reading h) hstep
  simp only [receiverEvent, if_true, Option.toList_some] at hrun'
  obtain ⟨q', hconnect, hnil⟩ := hrun'.of_cons
  obtain rfl := hnil.eq_of_nil
  have hinv := (Receiver.inv_of_run hrun).step hconnect
  cases hconnect.2
  have hsent : p'.sent = p.sent := congrArg (fun c => c.started.map Write.bytes) hclient
  rw [Serving, hsent, htoServer, hwaiting]
  refine ⟨_, 0, r.dispatched, [], hinv, hreceives', rfl, Pipe.Transfers.begin _ _,
    (List.append_nil _).symm, ?_, rfl⟩
  rw [← hreceives.requests]
  rfl

/-- **What the server has processed on a connection** that it serves. -/
theorem Serving.processed {κ : Connection} (h : p.Serving κ s) (hlive : κ.isLive = true)
    (hpackets : ∀ w ∈ p.client.started, w.IsRequest) : p.Processed κ s := by
  obtain ⟨r, k, old, new, hinv, hreceives, -, htransfers, hdispatched, hold, hnew⟩ := h
  -- what was dispatched begins with a packet of the client, and has the request of it
  have hrequests : s.requestsSince κ = (p.client.started.take k).filterMap Write.request := by
    rw [ChatServer.requestsSince_of_live hlive, hreceives.requests, hdispatched,
      List.filterMap_append, ← hold, List.drop_left]
    have hdata : ∀ d ∈ new, Dispatch.request d = Request.ofPacket d.received := by
      intro d hd
      have hmem : d.received ∈ p.sent :=
        List.mem_of_mem_take (hnew ▸ List.mem_map_of_mem hd)
      obtain ⟨w, hw, hbytes⟩ := List.mem_map.mp hmem
      have hpacket := hpackets w hw
      have hbegins : w.bytes <+: d.data := by
        rw [hbytes]
        exact (hinv.dispatched d (hdispatched ▸ List.mem_append_right _ hd)).1
      rw [Dispatch.request, hpacket.ofPacket_eq hbegins, ← hbytes,
        hpacket.ofPacket_eq List.prefix_rfl]
    calc new.filterMap Dispatch.request
        = (new.map Dispatch.received).filterMap Request.ofPacket := by
          rw [List.filterMap_map]
          exact List.filterMap_congr hdata
      _ = (p.client.started.take k).filterMap Write.request := by
          rw [hnew, sent, ← List.map_take, List.filterMap_map]
          refine List.filterMap_congr fun w hw => ?_
          exact (hpackets w (List.mem_of_mem_take hw)).ofPacket_eq List.prefix_rfl
  constructor
  · rw [hrequests]
    exact (List.take_prefix k p.client.started).filterMap _
  · intro hnil
    rw [hnil] at htransfers
    have hk : k = p.client.started.length := htransfers.eq_length.trans (List.length_map _)
    rw [hrequests, hk, List.take_length]

/-- **The server closes a connection** that it has served. -/
theorem Serving.closed {κ : Connection} (h : p.Serving κ s) (hlive : κ.isLive = true)
    (hpackets : ∀ w ∈ p.client.started, w.IsRequest)
    (hcalls : t.calls.filterMap (Call.request κ.id) = s.calls.filterMap (Call.request κ.id))
    (hclient : p'.client = p.client) (htoServer : p'.toServer = p.toServer) :
    p'.Ended (κ.closed s) t := by
  obtain ⟨hbegins, hall⟩ := h.processed hlive hpackets
  have hsame := ChatServer.requestsSince_closed hlive hcalls
  refine ⟨⟨_, rfl, ?_⟩, ?_, ?_⟩
  · exact (congrArg List.length hcalls).ge
  · rw [hsame, hclient]
    exact hbegins
  · rw [hsame, hclient, htoServer]
    exact hall

/-- **What the server has processed on the connection**, also when it has closed it. -/
theorem Uplink.processed (h : p.Uplink s) {κ : Connection} (hκ : p.connection = some κ) :
    p.Processed κ s := by
  cases hlive : κ.isLive with
  | true =>
      exact (h.serving κ hκ hlive).processed hlive fun w hw => h.packets w (h.started.subset hw)
  | false => exact (h.ended κ hκ hlive).processed

end Peer

namespace System

variable {ι : Type} {w w' : System ι} {action : SystemAction ι} {j : ι}

/-- An event of the server that neither reads from a client nor accepts its session is none at
its session's receive side. -/
theorem receiverEvent_eq_none {p : Peer} {κ : Connection} {e : ServerEvent}
    (hκ : p.connection = some κ) (hlive : κ.isLive = true) (howns : ¬ p.Owns e)
    (haccept : ∀ id, e = .acceptDone id false → id ≠ κ.id) : receiverEvent κ.id e = none := by
  cases e with
  | acceptDone id error =>
      cases error with
      | true => rfl
      | false => exact if_neg (haccept id rfl)
  | readDone id bytes fresh => exact if_neg fun hid => howns ⟨κ, hκ, hlive, hid.symm⟩
  | readFailed id => exact if_neg fun hid => howns ⟨κ, hκ, hlive, hid.symm⟩
  | writeDone id => rfl

/-- **Every tidy step keeps the way to the server.** -/
theorem uplink_of_step {mark : ℕ → UInt32} {m : ℕ} {marks : ι → UInt32}
    (hreached : w.Reached mark m marks) (hreached' : w'.Reached mark m marks)
    (h : (w.peer j).Uplink w.server) (hstep : PeerStep w w' j action)
    (horderly : w.Orderly action) : (w'.peer j).Uplink w'.server := by
  obtain ⟨es, hrun⟩ := hreached.server
  obtain ⟨es', hclientRun⟩ := hreached.client j
  have hreading := ChatServer.isOpen_of_reading hrun
  have hstarted : (w'.peer j).client.started <+: (w'.peer j).client.posted := by
    obtain ⟨es, hclient⟩ := hreached'.client j
    exact ChatClient.started_prefix_of_run hclient
  have hwritten : ∀ w'' ∈ (w.peer j).client.started, w''.IsRequest := fun w'' hmem =>
    h.packets w'' (h.started.subset hmem)
  -- a step of the client puts what it writes underway
  have hwaiting : ∀ c : ChatClient, (w.peer j).client.started <+: c.started →
      ((w.peer j).written c).connection = none →
      ((w.peer j).written c).toServer = ((w.peer j).written c).sent := by
    rintro c ⟨added, hadded⟩ hnone
    rw [Peer.sent, Peer.written, ← hadded, List.drop_left, List.map_append, h.waiting hnone]
    rfl
  cases hstep with
  | client e c hread hclient hserver hpeer =>
      have hgrows := ChatClient.started_of_step hclientRun hclient
      rw [hpeer] at hstarted ⊢
      rw [hserver]
      refine ⟨?_, hstarted, hwaiting c hgrows,
        fun κ hκ hlive => (h.serving κ hκ hlive).written hgrows,
        fun κ hκ hlive => (h.ended κ hκ hlive).written hgrows⟩
      refine ChatClient.forall_posted_of_step hclient h.packets ?_
      rintro fresh line loggedIn pkt size rfl hinput hbuild
      refine ChatClient.isRequest_of_build hbuild fun hlog => (horderly rfl).2 line ?_
      rw [hinput, hlog]
      rfl
  | arrive n c hclient hserver hpeer =>
      have hgrows := ChatClient.started_of_step hclientRun hclient
      rw [hpeer] at hstarted ⊢
      rw [hserver]
      refine ⟨?_, hstarted, hwaiting c hgrows,
        fun κ hκ hlive => (h.serving κ hκ hlive).written hgrows,
        fun κ hκ hlive => ?_⟩
      · exact ChatClient.forall_posted_of_step hclient h.packets fun _ _ _ _ _ heq => by cases heq
      · obtain ⟨hcounted, hbegins, hall⟩ := (h.ended κ hκ hlive).written hgrows
        exact ⟨hcounted, hbegins, hall⟩
  | other action isUp hserver hpeer =>
      rw [hpeer, hserver]
      refine ⟨h.packets, h.started, h.waiting, h.serving, fun κ hκ hlive => ?_⟩
      exact (h.ended κ hκ hlive).of_step List.prefix_rfl rfl rfl
  | server action e' hserver howns hpeer =>
      rw [hpeer] at hstarted ⊢
      refine ⟨?_, hstarted, ?_, fun κ hκ hlive => ?_, fun κ hκ hlive => ?_⟩
      · rw [Peer.client_feed]
        exact h.packets
      · rw [Peer.connection_feed, Peer.toServer_feed, Peer.sent, Peer.client_feed]
        exact h.waiting
      · rw [Peer.connection_feed] at hκ
        refine (h.serving κ hκ hlive).of_step hreading hserver ?_ (Peer.client_feed ..)
          (Peer.toServer_feed ..)
        refine receiverEvent_eq_none hκ hlive howns ?_
        rintro id rfl
        exact hreached.exclusive.ne_of_accept hserver hκ hlive
      · rw [Peer.connection_feed] at hκ
        exact (h.ended κ hκ hlive).of_step (ChatServer.calls_prefix_of_step hserver)
          (Peer.client_feed ..) (Peer.toServer_feed ..)
  | accept id hnone hserver hpeer =>
      rw [hpeer] at hstarted ⊢
      refine ⟨?_, hstarted, fun hsome => absurd hsome (Option.some_ne_none _), fun κ hκ hlive => ?_,
        fun κ hκ hlive => ?_⟩
      · show ∀ x ∈ ((w.peer j).feed none w.server w'.server).client.posted, x.IsRequest
        rw [Peer.client_feed]
        exact h.packets
      · cases hκ
        exact Peer.serving_accepted hrun hserver (h.waiting hnone) (Peer.client_feed ..)
          (Peer.toServer_feed ..)
      · cases hκ
        cases hlive
  | serve n fresh κ hκ hlive hserver hpeer =>
      have hsame : ((w.peer j).feed none w.server w'.server).connection = some κ :=
        (Peer.connection_feed ..).trans hκ
      rw [hpeer] at hstarted ⊢
      refine ⟨?_, hstarted, fun hnone => ?_, fun κ' hκ' _ => ?_, fun κ' hκ' hlive' => ?_⟩
      · show ∀ x ∈ ((w.peer j).feed none w.server w'.server).client.posted, x.IsRequest
        rw [Peer.client_feed]
        exact h.packets
      · cases hsame.symm.trans hnone
      · cases hsame.symm.trans hκ'
        exact (h.serving κ hκ hlive).read h.isFrame hreading horderly hserver (Peer.client_feed ..)
          rfl
      · cases hsame.symm.trans hκ'
        cases hlive.symm.trans hlive'
  | hangUp κ hκ hlive hserver hpeer =>
      rw [hpeer] at hstarted ⊢
      refine ⟨?_, hstarted, fun hsome => absurd hsome (Option.some_ne_none _),
        fun κ' hκ' hlive' => ?_, fun κ' hκ' _ => ?_⟩
      · show ∀ x ∈ ((w.peer j).feed none w.server w'.server).client.posted, x.IsRequest
        rw [Peer.client_feed]
        exact h.packets
      · cases hκ'
        cases hlive'
      · cases hκ'
        exact (h.serving κ hκ hlive).closed hlive hwritten
          (ChatServer.requests_of_step hserver fun _ _ => ServerEvent.noConfusion)
          (Peer.client_feed ..) (Peer.toServer_feed ..)

end System

end AsioChat
