import AsioChat.Uplink

/-!
# From the Server to the Clients

The way of the replies and notices, from `post_send` of a session to what its client records. As
long as the steps are tidy (`System.Tidy`), the client is told what was written on its session
since the accept, in order, once and unaltered.

## Main results

* `Write.Conveys.isFor`: what conveys a message is a packet for clients, who record the message.
* `Peer.Downlink`, `System.downlink_of_step`: what holds of this way of a connection, and that
  every step keeps it.
-/

namespace AsioChat

/-- Whether the client was told something by the server. -/
def ClientCall.isHeard : ClientCall → Bool
  | replied _ _ | noticed _ _ => true
  | _ => false

/-- What the client was told, in order. -/
def heard (calls : List ClientCall) : List ClientCall := calls.filter ClientCall.isHeard

/-- What a client records when it processes a packet, unless that goes wrong. -/
def ClientCall.ofPacket (data : List UInt8) : Option ClientCall :=
  let header := PacketHeader.ofBytes data
  if header.id = Packets.replyLogin.toId then
    (parseContent LoginResponse.messageType data).toOption.map fun r => .replied r.1 r.2
  else if header.id = Packets.noticeChat.toId then
    (parseContent ChatNotify.messageType data).toOption.map fun r => .noticed r.1 r.2
  else none

/-- What a client records when it processes the packet of a write. -/
def Write.call (w : Write) : Option ClientCall := w.data.bind ClientCall.ofPacket

/-- **What the client's `process_packet` records.** -/
theorem ChatClient.calls_of_processPacket {c d : ChatClient} {data : List UInt8}
    (h : c.processPacket data = .ok d) :
    d.calls = c.calls ++ (ClientCall.ofPacket data).toList ∧
      d.toPacketBuffer = c.toPacketBuffer := by
  simp only [processPacket, bind, pure, Except.pure] at h
  simp only [ClientCall.ofPacket]
  split at h
  · rename_i hreply
    obtain ⟨r, hparse, hd⟩ := Except.exists_of_bind_eq_ok h
    cases hd
    rw [if_pos hreply, parseContent, hparse]
    exact ⟨rfl, rfl⟩
  · rename_i hreply
    rw [if_neg hreply]
    split at h
    · rename_i hnotice
      obtain ⟨r, hparse, hd⟩ := Except.exists_of_bind_eq_ok h
      cases hd
      rw [if_pos hnotice, parseContent, hparse]
      exact ⟨rfl, rfl⟩
    · rename_i hnotice
      cases h
      rw [if_neg hnotice]
      exact ⟨(List.append_nil _).symm, rfl⟩

/-- A write that conveys a message is one of a packet for clients, and the message is what they
record. -/
theorem Write.Conveys.isFor {w : Write} {m : Room.Message (List UInt8)} (h : w.Conveys m) :
    w.IsFor .client ∧ w.call = some (.told m) := by
  obtain ⟨packet, hdata, hsize, hpacket, hrecords⟩ := h
  refine ⟨⟨packet, hdata, hsize, hpacket⟩, ?_⟩
  obtain ⟨d, hprocess, hcalls⟩ := hrecords (.launched 0) []
  rw [List.append_nil] at hprocess
  rw [(ChatClient.calls_of_processPacket hprocess).1] at hcalls
  have hsingle := List.append_cancel_left hcalls
  rw [call, hdata, Option.bind_some]
  cases hcall : ClientCall.ofPacket packet with
  | none =>
      rw [hcall] at hsingle
      cases hsingle
  | some call =>
      rw [hcall] at hsingle
      rw [(List.cons.inj hsingle).1]

/-! ### What the clients are told -/

namespace ChatServer

variable {s t : ChatServer} {e : ServerEvent} {mark : ℕ → UInt32} {m : ℕ} {es : List ServerEvent}
  {i : ℕ}

/-- What is posted to a session conveys a message. -/
theorem conveys_of_mem_postedTo (h : chatMachine.Run (started mark m) es s) :
    ∀ w ∈ s.postedTo i, ∃ message, w.Conveys message := by
  obtain ⟨ρ, -, hshows⟩ := exists_shows h
  intro w hw
  cases hsession : s.sessionList[i]? with
  | none => simp [postedTo, hsession] at hw
  | some session =>
      simp only [postedTo, hsession, Option.map_some, Option.getD_some] at hw
      obtain ⟨k, hk, hget⟩ := List.getElem_of_mem hw
      have hposted := (hshows i session hsession).posted
      have hconveys := (List.forall₂_iff_get.mp hposted).2 k hk (hposted.length_eq ▸ hk)
      rw [List.get_eq_getElem, hget] at hconveys
      exact ⟨_, hconveys⟩

/-- What was written on a session is what was posted to it, up to some point. -/
theorem startedOn_prefix (h : chatMachine.Run (started mark m) es s) (i : ℕ) :
    s.startedOn i <+: s.postedTo i := by
  cases hsession : s.sessionList[i]? with
  | none => simp [startedOn, postedTo, hsession]
  | some session =>
      simp only [startedOn, postedTo, hsession, Option.map_some, Option.getD_some]
      exact (started_prefix_posted_of_run h hsession).1

end ChatServer

namespace ChatClient

variable {c d : ChatClient} {e : ClientEvent}

/-- A step other than a read tells the client nothing. -/
theorem heard_of_step (hread : (e matches .readDone _) = false) (hstep : clientMachine.Step c e d) :
    d.toPacketBuffer = c.toPacketBuffer ∧ heard d.calls = heard c.calls := by
  cases e with
  | readDone bytes => cases hread
  | connectDone error =>
      cases hstep.2
      cases error <;> exact ⟨rfl, rfl⟩
  | readFailed =>
      cases hstep.2
      rw [handleReceiveError, close_eq]
      exact ⟨rfl, rfl⟩
  | writeDone =>
      obtain ⟨q, -, hd⟩ := Except.exists_of_bind_eq_ok hstep.2
      cases hd
      exact ⟨rfl, rfl⟩
  | writeResumed =>
      obtain ⟨q, -, hd⟩ := Except.exists_of_bind_eq_ok hstep.2
      cases hd
      exact ⟨rfl, rfl⟩
  | getline line =>
      cases hstep.2
      show (c.getline line).toPacketBuffer = c.toPacketBuffer ∧
        heard (c.getline line).calls = heard c.calls
      rcases getline_cases line c with heq | heq | ⟨inputMsg, -, -, -, heq⟩
      · rw [heq]
        exact ⟨rfl, rfl⟩
      · rw [heq]
        exact ⟨rfl, rfl⟩
      · rw [heq]
        refine ⟨rfl, ?_⟩
        show heard (c.calls ++ [.typed inputMsg]) = heard c.calls
        rw [heard, List.filter_append]
        exact List.append_nil _
  | branch =>
      obtain ⟨inputMsg, -, rfl⟩ := step_branch hstep
      exact ⟨rfl, rfl⟩
  | send fresh =>
      obtain ⟨inputMsg, loggedIn, pkt, size, -, -, rfl⟩ := step_send hstep
      refine ⟨rfl, ?_⟩
      show heard (c.calls ++ [.posted pkt]) = heard c.calls
      rw [heard, List.filter_append]
      exact List.append_nil _

/-- What a client records when it processes a packet is something it was told. -/
theorem isHeard_ofPacket {data : List UInt8} :
    ∀ call ∈ (ClientCall.ofPacket data).toList, call.isHeard = true := by
  intro call hcall
  rw [Option.mem_toList, ClientCall.ofPacket] at hcall
  split at hcall
  · obtain ⟨r, -, rfl⟩ := Option.map_eq_some_iff.mp hcall
    rfl
  · split at hcall
    · obtain ⟨r, -, rfl⟩ := Option.map_eq_some_iff.mp hcall
      rfl
    · cases hcall

/-- **A read of the client that holds bytes of one packet only**, while so many packets of those
sent were processed. -/
theorem heard_of_read {sent p : List (List UInt8)} {k n : ℕ} {g : Gather.State UInt8}
    (hstep : clientMachine.Step c (.readDone (p.flatten.take n)) d)
    (hframes : ∀ q ∈ sent, (gatherRules .client).IsFrame q) (hholds : c.toPacketBuffer.Holds g [])
    (htransfers : Pipe.Transfers sent k g p) (hfits : Pipe.Fits n p) :
    ∃ g' k', d.toPacketBuffer.Holds g' [] ∧ Pipe.Transfers sent k' g' (Pipe.drop n p) ∧
      ∃ new, heard d.calls = heard c.calls ++ new.filterMap ClientCall.ofPacket ∧
        sent.take k' = sent.take k ++ new := by
  obtain ⟨buffer, exit, u, hreceive, hu, rfl⟩ := step_readDone hstep
  obtain ⟨hexit, -, hnext⟩ := hholds.of_receive_eq hreceive
  rw [staleAfter_nil] at hnext
  rcases htransfers.take hframes hfits with
    ⟨checked, hstep', htransfers'⟩ | ⟨hget, hstep', htransfers'⟩
  · rw [hstep'] at hexit hnext
    rcases hu with ⟨-, rfl⟩ | ⟨data, hdata, -⟩
    · exact ⟨_, k, hnext, htransfers', [], (List.append_nil _).symm, (List.append_nil _).symm⟩
    · rw [hdata] at hexit
      cases hexit
  · rw [hstep'] at hexit hnext
    rcases hu with ⟨hnone, -⟩ | ⟨data, hdata, hprocess⟩
    · rw [hexit] at hnone
      cases hnone
    · rw [hdata] at hexit
      cases hexit
      obtain ⟨hcalls, hbuffer⟩ := calls_of_processPacket hprocess
      rw [List.append_nil] at hcalls
      refine ⟨_, k + 1, hbuffer.symm ▸ hnext, htransfers', [g.acc ++ p.flatten.take n], ?_, ?_⟩
      · show heard u.calls = _
        rw [hcalls, heard, List.filter_append, List.filter_eq_self.mpr isHeard_ofPacket]
        rfl
      · rw [List.take_add_one, hget]
        rfl

end ChatClient

namespace Peer

variable {p : Peer} {s t : ChatServer} {mark : ℕ → UInt32} {m : ℕ} {es : List ServerEvent}

/-- What holds of the way from the server to the client: the writes started for the client are
those on its session since the accept, and the client was told what it has processed of them. -/
structure Downlink (p : Peer) (s : ChatServer) : Prop where
  waiting : p.connection = none → p.handed = []
  live : ∀ κ, p.connection = some κ → κ.isLive = true →
    p.handed = (s.startedOn κ.id).drop κ.postedBefore ∧
      κ.postedBefore ≤ (s.postedTo κ.id).length
  posted : ∀ κ, p.connection = some κ → p.handed <+: (s.postedTo κ.id).drop κ.postedBefore
  conveys : ∀ w ∈ p.handed, ∃ message, w.Conveys message
  arriving : ∃ g k, p.client.toPacketBuffer.Holds g [] ∧
    Pipe.Transfers (p.handed.map Write.bytes) k g p.toClient ∧
    heard p.client.calls = (p.handed.take k).filterMap Write.call

/-- What the server hands to a client is for clients. -/
theorem Downlink.isFor (h : p.Downlink s) : ∀ w ∈ p.handed, w.IsFor .client := by
  intro w hw
  obtain ⟨message, hconveys⟩ := h.conveys w hw
  exact hconveys.isFor.1

/-- What the server has written for the client are packets for it. -/
theorem Downlink.isFrame (h : p.Downlink s) :
    ∀ q ∈ p.handed.map Write.bytes, (gatherRules .client).IsFrame q := by
  intro q hq
  obtain ⟨w, hw, rfl⟩ := List.mem_map.mp hq
  exact (h.isFor w hw).exists_bytes.2.isFrame.1

/-- The clients' records of the packets of some writes. -/
theorem filterMap_ofPacket_bytes {writes : List Write} (h : ∀ w ∈ writes, w.IsFor .client) :
    (writes.map Write.bytes).filterMap ClientCall.ofPacket = writes.filterMap Write.call := by
  rw [List.filterMap_map]
  refine List.filterMap_congr fun w hw => ?_
  rw [Write.call, (h w hw).exists_bytes.1]
  rfl

/-- More is handed to the client while something is underway. -/
theorem Downlink.arriving_append (h : p.Downlink s) (new : List Write) :
    ∃ g k, p.client.toPacketBuffer.Holds g [] ∧
      Pipe.Transfers ((p.handed ++ new).map Write.bytes) k g (p.toClient ++ new.map Write.bytes) ∧
      heard p.client.calls = ((p.handed ++ new).take k).filterMap Write.call := by
  obtain ⟨g, k, hholds, htransfers, hheard⟩ := h.arriving
  have hle := htransfers.le
  rw [List.length_map] at hle
  refine ⟨g, k, hholds, ?_, ?_⟩
  · rw [List.map_append]
    exact htransfers.put _
  · rw [List.take_append_of_le_length hle, hheard]

/-- **Every step of the server keeps the way to the client**, with what it writes underway. -/
theorem Downlink.feed {e : ServerEvent} (h : p.Downlink s)
    (hrun : chatMachine.Run (.started mark m) es s) (hstep : chatMachine.Step s e t)
    (hopen : ∀ κ, p.connection = some κ → κ.isLive = true → s.Has κ.id (·.isOpen = true)) :
    (p.feed none s t).Downlink t := by
  have hrun' := hrun.append (.cons hstep (.nil t))
  have hgrows := ChatServer.postedTo_prefix_of_step hstep
  by_cases hlive : ∃ κ, p.connection = some κ ∧ κ.isLive = true
  · obtain ⟨κ, hκ, hlive⟩ := hlive
    obtain ⟨hhanded, hbefore⟩ := h.live κ hκ hlive
    obtain ⟨session, hsession, -⟩ := hopen κ hκ hlive
    obtain ⟨new, hnew, hnone⟩ := ChatServer.startedOn_of_step hrun hstep
      (ChatServer.lt_of_sessionList hrun hsession)
    have hfeed : p.feed none s t = { p with
        handed := p.handed ++ new, toClient := p.toClient ++ new.map Write.bytes } := by
      simp only [Peer.feed, hκ, if_pos hlive, hnew, List.drop_left, Write.bytesFrom_none]
    -- where a packet from before the accept is still waiting, nothing is written any more
    have hhanded' : p.handed ++ new = (t.startedOn κ.id).drop κ.postedBefore := by
      rcases Nat.lt_or_ge (s.startedOn κ.id).length κ.postedBefore with hlt | hge
      · obtain rfl := hnone (by omega)
        rw [hnew, List.append_nil, List.append_nil, hhanded]
      · rw [hnew, List.drop_append_of_le_length hge, hhanded]
    have hposted : p.handed ++ new <+: (t.postedTo κ.id).drop κ.postedBefore := by
      rw [hhanded']
      exact (ChatServer.startedOn_prefix hrun' κ.id).drop κ.postedBefore
    rw [hfeed]
    refine ⟨fun hsome => absurd (hκ.symm.trans hsome) (Option.some_ne_none κ),
      fun κ' hκ' _ => ?_, fun κ' hκ' => ?_, fun w hw => ?_, h.arriving_append new⟩
    · cases hκ.symm.trans hκ'
      exact ⟨hhanded', hbefore.trans (hgrows κ.id).length_le⟩
    · cases hκ.symm.trans hκ'
      exact hposted
    · exact ChatServer.conveys_of_mem_postedTo hrun' w (List.mem_of_mem_drop (hposted.subset hw))
  · have hfeed : p.feed none s t = p := by
      cases hκ : p.connection with
      | none => simp only [Peer.feed, hκ]
      | some κ => simp only [Peer.feed, hκ, if_neg fun hl => hlive ⟨κ, hκ, hl⟩]
    rw [hfeed]
    refine ⟨h.waiting, fun κ hκ hl => absurd ⟨κ, hκ, hl⟩ hlive, fun κ hκ => ?_, h.conveys,
      h.arriving⟩
    exact (h.posted κ hκ).trans ((hgrows κ.id).drop κ.postedBefore)

end Peer

namespace System

variable {ι : Type} {w w' : System ι} {action : SystemAction ι} {j : ι}

/-- **Every tidy step keeps the way to the client.** -/
theorem downlink_of_step {mark : ℕ → UInt32} {m : ℕ} {marks : ι → UInt32}
    (hreached : w.Reached mark m marks) (h : (w.peer j).Downlink w.server)
    (hstep : PeerStep w w' j action) (horderly : w.Orderly action) :
    (w'.peer j).Downlink w'.server := by
  obtain ⟨es, hrun⟩ := hreached.server
  have hopen := hreached.exclusive.isOpen j
  cases hstep with
  | client e c hread hclient hserver hpeer =>
      obtain ⟨hbuffer, hheard⟩ := ChatClient.heard_of_step hread hclient
      rw [hpeer, hserver]
      obtain ⟨g, k, hholds, htransfers, hcalls⟩ := h.arriving
      exact ⟨h.waiting, h.live, h.posted, h.conveys, g, k, hbuffer.symm ▸ hholds, htransfers,
        hheard.trans hcalls⟩
  | arrive n c hclient hserver hpeer =>
      rw [hpeer, hserver]
      obtain ⟨g, k, hholds, htransfers, hcalls⟩ := h.arriving
      obtain ⟨g', k', hholds', htransfers', new, hheard, hnew⟩ :=
        ChatClient.heard_of_read hclient h.isFrame hholds htransfers horderly
      refine ⟨h.waiting, h.live, h.posted, h.conveys, g', k', hholds', htransfers', ?_⟩
      have hall : ∀ i, ((w.peer j).handed.take i).filterMap Write.call =
          (((w.peer j).handed.map Write.bytes).take i).filterMap ClientCall.ofPacket := by
        intro i
        rw [← List.map_take, Peer.filterMap_ofPacket_bytes]
        exact fun w hw => h.isFor w (List.mem_of_mem_take hw)
      show heard c.calls = ((w.peer j).handed.take k').filterMap Write.call
      rw [hheard, hcalls, hall, hall, hnew, List.filterMap_append]
  | other action isUp hserver hpeer =>
      rw [hpeer, hserver]
      exact ⟨h.waiting, h.live, h.posted, h.conveys, h.arriving⟩
  | server action e' hserver howns hpeer =>
      rw [hpeer]
      exact h.feed hrun hserver hopen
  | accept id hnone hserver hpeer =>
      have hfeed := h.feed hrun hserver hopen
      have hhanded := hfeed.waiting ((Peer.connection_feed ..).trans hnone)
      -- an accept writes and posts nothing
      obtain ⟨hstarted, hposted⟩ : w'.server.startedOn id = w.server.startedOn id ∧
          w'.server.postedTo id = w.server.postedTo id := by
        rw [← (Except.ok.inj hserver.2 : _ = w'.server), ChatServer.startedOn,
          ChatServer.startedOn, ChatServer.postedTo, ChatServer.postedTo]
        have hinert {β : Type} (π : Session → β) (hπ : ChatServer.Inert π) :=
          hπ.acceptDone w.server id false id
        exact ⟨by rw [hinert _ fun _ _ _ _ => rfl], by rw [hinert _ fun _ _ _ _ => rfl]⟩
      have hprefix := (ChatServer.startedOn_prefix hrun id).length_le
      have hnil : (w.server.startedOn id).drop (w.server.postedTo id).length = [] :=
        List.drop_eq_nil_of_le hprefix
      rw [hpeer]
      refine ⟨fun hsome => absurd hsome (Option.some_ne_none _), fun κ hκ _ => ?_, fun κ hκ => ?_,
        hfeed.conveys, hfeed.arriving⟩
      · cases hκ
        refine ⟨?_, ?_⟩
        · show ((w.peer j).feed none w.server w'.server).handed = _
          rw [hhanded, Connection.accepted, hstarted, hnil]
        · rw [Connection.accepted, hposted]
      · show ((w.peer j).feed none w.server w'.server).handed <+: _
        rw [hhanded]
        exact List.nil_prefix
  | serve n fresh κ hκ hlive hserver hpeer =>
      have hfeed := h.feed hrun hserver hopen
      rw [hpeer]
      exact ⟨hfeed.waiting, hfeed.live, hfeed.posted, hfeed.conveys, hfeed.arriving⟩
  | hangUp κ hκ hlive hserver hpeer =>
      have hfeed := h.feed hrun hserver hopen
      have hposted := hfeed.posted κ ((Peer.connection_feed ..).trans hκ)
      rw [hpeer]
      refine ⟨fun hsome => absurd hsome (Option.some_ne_none _), fun κ' hκ' hlive' => ?_,
        fun κ' hκ' => ?_, hfeed.conveys, hfeed.arriving⟩
      · cases hκ'
        cases hlive'
      · cases hκ'
        exact hposted

end System

end AsioChat
