import AsioChat.Lib.Batch
import AsioChat.Receive

/-!
# Framing

Whether the packets a peer sends are the packets `process_packet` is called with. TCP
may cut the stream anywhere, and `clear_packet_buffer` throws away the whole buffer
after a packet was processed, whatever else it held. So the answer depends on the cut
alone: every packet is processed, in order and with its own bytes at the front of the
buffer, exactly when no read holds bytes of two packets.

## Main results

* `Side.IsPacket.isFrame`: a packet as `build_packet` writes it is a frame for both
  receivers.
* `framed_iff_aligned`: framing is exact if and only if no read holds bytes of two
  packets.
* `receiveAll_eq_batchFramer`: on reads of any bytes, cut in any way, the receiver does what
  a framer does that looks at all of them at once.
-/

namespace AsioChat

/-- A well-formed packet: built by `build_packet`, its size not wrapping, and on the
server with a bounded content if it is a `REQUEST_CHAT`. -/
structure Side.IsPacket (side : Side) (p : List UInt8) : Prop where
  built : ∃ fresh id content, content.length + 12 < 2 ^ 32 ∧ p = packetOf fresh id content
  bounded : side = .server → (PacketHeader.ofBytes p).id = Packets.requestChat.toId →
    (PacketHeader.ofBytes p).contentSize ≤ maxChatMessageLen

/-- A stream of packets cut into successful reads. -/
structure Side.Reads (side : Side) (reads ps : List (List UInt8)) : Prop where
  flatten : reads.flatten = ps.flatten
  nonempty : ∀ bytes ∈ reads, bytes ≠ []
  length_le : ∀ bytes ∈ reads, bytes.length ≤ side.receiveBufferLen

/-- The framing law: after construction and `init`, no read faults, and `process_packet`
is called once per packet, in order, with the packet at the front of the buffer. -/
def Side.Framed (side : Side) (mark : UInt32) (reads ps : List (List UInt8)) : Prop :=
  ∃ s packets, (PacketBuffer.constructed mark).init.receiveAll side reads = .ok (s, packets) ∧
    List.Forall₂ (fun p data => p <+: data) ps packets

/-- A well-formed packet is a frame for the receiver, and fits into a vector. -/
theorem Side.IsPacket.isFrame {side : Side} {p : List UInt8} (h : side.IsPacket p) :
    (gatherRules side).IsFrame p ∧ p.length ≤ vectorMaxSize := by
  obtain ⟨⟨fresh, id, content, hfit, rfl⟩, hbounded⟩ := h
  have hheader := ofBytes_packetOf fresh id hfit
  have hlength := length_packetOf fresh id hfit
  rw [hheader] at hbounded
  refine ⟨⟨?_, ?_, ?_⟩, ?_⟩
  · show 12 ≤ (packetOf fresh id content).length
    omega
  · show side.checkHeader (.ofBytes (packetOf fresh id content)) = true
    have hcrc := (builtHeader_crc fresh id (UInt32.ofNat content.length)).symm
    rw [hheader]
    cases side with
    | server =>
        simp only [Side.checkHeader, Session.checkHeader, if_neg (not_not_intro hcrc)]
        split
        · rename_i hid
          exact decide_eq_true (hbounded rfl hid)
        · rfl
    | client => exact decide_eq_true hcrc
  · exact getPacketSize_packetOf fresh id hfit
  · unfold vectorMaxSize
    omega

/-- **Framing is exact if and only if no read holds bytes of two packets.** -/
theorem framed_iff_aligned (side : Side) (mark : UInt32) {ps reads : List (List UInt8)}
    (hps : ∀ p ∈ ps, side.IsPacket p) (hreads : side.Reads reads ps) :
    side.Framed mark reads ps ↔ Gather.Aligned reads ps := by
  have hframes : ∀ p ∈ ps, (gatherRules side).IsFrame p := fun p hp => (hps p hp).isFrame.1
  have hfresh := PacketBuffer.holds_constructed_init mark
  have hiff := Gather.forall₂_prefix_feed_iff hframes hreads.nonempty hreads.flatten
  constructor
  · rintro ⟨s, packets, hrun, hall⟩
    obtain ⟨s', hrun', -⟩ := hfresh.receiveAll (hfresh.within_of_receiveAll hrun)
    rw [hrun] at hrun'
    cases hrun'
    exact hiff.mp hall
  · intro halign
    have hwithin := Gather.within_aligned (fun p hp => (hps p hp).isFrame) halign
    obtain ⟨s, hrun, -⟩ := hfresh.receiveAll hwithin
    exact ⟨s, _, hrun, hiff.mpr halign⟩

/-! ### Any bytes -/

/-- The framer that looks at all the reads at once: gather reads until they hold a header;
if the check does not accept it, drop them; otherwise gather until they hold as many bytes
as `get_packet_size` says, and dispatch them; start afresh with the next read. -/
def Side.batchFramer (side : Side) (reads : List (List UInt8)) : List (Gather.Group UInt8) :=
  Gather.batch (gatherRules side) reads

/-- **The incremental receiver is the batch framer**, on any reads whatever: the same
buffers are processed, and the same bytes are left in the buffer, with the mark behind them,
as long as no group of reads exceeds what 32 bits can count. -/
theorem receiveAll_eq_batchFramer (side : Side) (mark : UInt32) {reads : List (List UInt8)}
    (hfit : ∀ g ∈ side.batchFramer reads, g.acc.length < 2 ^ 32) :
    ∃ s, (PacketBuffer.constructed mark).init.receiveAll side reads =
        .ok (s, (side.batchFramer reads).flatMap Gather.Group.frames) ∧
      s.packetBuffer = (side.batchFramer reads).flatMap Gather.Group.left ∧
      s.packetBufferMark.toNat = s.packetBuffer.length := by
  have hwithin : Gather.Within (gatherRules side) vectorMaxSize .empty reads :=
    Gather.within_of_batch fun g hg => by
      have := hfit g hg
      unfold vectorMaxSize
      omega
  obtain ⟨hframes, hleft⟩ := Gather.feed_eq_batch (R := gatherRules side) reads
  obtain ⟨s, hrun, hholds⟩ := (PacketBuffer.holds_constructed_init mark).receiveAll hwithin
  have hbuffer := hholds.buffer
  rw [List.append_nil] at hbuffer
  refine ⟨s, ?_, hbuffer.trans hleft, ?_⟩
  · rw [hrun, hframes]
    rfl
  · rw [hholds.mark, hbuffer]

/-! ### Two packets in three reads -/

/-- A login with one content byte, and a login with none. -/
def twoLogins : List (List UInt8) :=
  [packetOf (fun _ => 0) 1 [65], packetOf (fun _ => 0) 1 []]

/-- The 25 bytes of `twoLogins`, cut after 10 and after 20. -/
def straddlingReads : List (List UInt8) :=
  [twoLogins.flatten.take 10, (twoLogins.flatten.drop 10).take 10, twoLogins.flatten.drop 20]

/-- The 25 bytes of `twoLogins`, cut after 10 and after 13. -/
def alignedReads : List (List UInt8) :=
  [twoLogins.flatten.take 10, (twoLogins.flatten.drop 10).take 3, twoLogins.flatten.drop 13]

/-- They are packets for either side. -/
theorem isPacket_of_mem_twoLogins (side : Side) : ∀ p ∈ twoLogins, side.IsPacket p := by
  intro p hp
  have hid : ∀ p ∈ twoLogins, (PacketHeader.ofBytes p).id ≠ Packets.requestChat.toId := by
    decide +kernel
  refine ⟨?_, fun _ h => absurd h (hid p hp)⟩
  obtain rfl | rfl : p = _ ∨ p = _ := by simpa [twoLogins] using hp
  · exact ⟨_, _, _, by decide, rfl⟩
  · exact ⟨_, _, _, by decide, rfl⟩

/-- The second read holds the last three bytes of the first packet and the first seven of
the second, which are lost. -/
theorem straddlingReads_not_framed :
    (∀ p ∈ twoLogins, Side.server.IsPacket p) ∧ Side.server.Reads straddlingReads twoLogins ∧
      ¬ Side.server.Framed 0 straddlingReads twoLogins ∧
    (∀ p ∈ twoLogins, Side.client.IsPacket p) ∧ Side.client.Reads straddlingReads twoLogins ∧
      ¬ Side.client.Framed 0 straddlingReads twoLogins := by
  have hlost : ∀ side : Side, ¬ side.Framed 0 straddlingReads twoLogins := by
    rintro side ⟨s, packets, hrun, hall⟩
    have hone : ((PacketBuffer.constructed 0).init.receiveAll side straddlingReads).toOption.map
        (fun r => r.2.length) = some 1 := by
      cases side <;> decide +kernel
    rw [hrun] at hone
    have hlen : packets.length = 1 := Option.some.inj hone
    have htwo : twoLogins.length = packets.length := hall.length_eq
    rw [hlen] at htwo
    cases htwo
  refine ⟨isPacket_of_mem_twoLogins _, ⟨?_, ?_, ?_⟩, hlost _,
    isPacket_of_mem_twoLogins _, ⟨?_, ?_, ?_⟩, hlost _⟩
  all_goals decide +kernel

/-- Cut at the boundary, the same packets are both processed. -/
theorem framed_alignedReads : Side.server.Framed 7 alignedReads twoLogins :=
  (framed_iff_aligned .server 7 (isPacket_of_mem_twoLogins _)
    ⟨by decide +kernel, by decide +kernel, by decide +kernel⟩).mpr
    ⟨[alignedReads.take 2, alignedReads.drop 2], by decide +kernel, by decide +kernel⟩

/-- Cut across the boundary, they are framed as the batch framer frames them. -/
theorem receiveAll_straddlingReads : ∃ s,
    (PacketBuffer.constructed 7).init.receiveAll .client straddlingReads =
      .ok (s, (Side.client.batchFramer straddlingReads).flatMap Gather.Group.frames) ∧
    s.packetBuffer = (Side.client.batchFramer straddlingReads).flatMap Gather.Group.left ∧
    s.packetBufferMark.toNat = s.packetBuffer.length := by
  refine receiveAll_eq_batchFramer .client 7 fun g hg => ?_
  exact Nat.lt_of_le_of_lt (Gather.length_acc_le hg) (by decide +kernel)

end AsioChat
