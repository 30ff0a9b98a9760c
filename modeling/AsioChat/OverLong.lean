import AsioChat.Client
import AsioChat.Framing
import AsioChat.Lib.Recovery

/-!
# Over-Long Chats

The server drops a `REQUEST_CHAT` whose content is longer than `MAX_CHAT_MESSAGE_LEN` as soon
as it has its header, and takes what is read next for the beginning of another packet. But
the content of the rejected packet is still to come. It is gathered like any bytes, and the
packets behind it are processed only if the check drops all of it, up to its last read.

Every packet is given as the reads it arrives in, so that no read holds bytes of two
packets, and `process_packet` is observed read by read.

The limit is one on the content, which is the message as it is written, with a tag and its
length before it. A client may therefore send less than `MAX_CHAT_MESSAGE_LEN` characters.

## Main results

* `PacketBuffer.Holds.receiveEach`: what each read makes `handle_receive` process.
* `skipsOverLong_iff_recovers`: exactly the packets that are not over-long are processed, each
  when it is complete, if and only if the content of the over-long ones is dropped as well,
  and up to its end.
* `limit_agrees_iff`: the check of the server lets a message through exactly up to
  `MAX_CHAT_MESSAGE_LEN` characters, except that it does not at the last two lengths.
-/

namespace AsioChat

/-- A packet as the client builds it: `build_packet`, with full content behind the header. -/
def BuiltPacket (p : List UInt8) : Prop :=
  ∃ fresh id content, content.length + 12 < 2 ^ 32 ∧ p = packetOf fresh id content

/-- A `REQUEST_CHAT` whose content is over the limit. -/
def OverLong (p : List UInt8) : Prop :=
  (PacketHeader.ofBytes p).id = Packets.requestChat.toId ∧
    maxChatMessageLen < (PacketHeader.ofBytes p).contentSize

instance : DecidablePred OverLong := fun _ => inferInstanceAs (Decidable (_ ∧ _))

/-- A packet that is not over-long is a frame for the server. -/
theorem BuiltPacket.isFrame {p : List UInt8} (h : BuiltPacket p) (hlong : ¬ OverLong p) :
    (gatherRules .server).IsFrame p :=
  (Side.IsPacket.isFrame ⟨h, fun _ hid => UInt32.not_lt.mp fun hlt => hlong ⟨hid, hlt⟩⟩).1

namespace PacketBuffer

/-- One successful `handle_receive` after another, with the calls of `process_packet` for each
of them. -/
def receiveEach (side : Side) :
    PacketBuffer → List (List UInt8) → Except Fault (PacketBuffer × List (List (List UInt8)))
  | s, [] => .ok (s, [])
  | s, bytes :: reads => do
    let (s, exit) ← s.receive side bytes
    let (s, calls) ← receiveEach side s reads
    return (s, exit.packets :: calls)

variable {side : Side} {s : PacketBuffer} {g : Gather.State UInt8}

/-- The calls of each read are the calls of all reads. -/
theorem receiveAll_of_receiveEach {reads : List (List UInt8)} {s' : PacketBuffer}
    {calls : List (List (List UInt8))} (h : s.receiveEach side reads = .ok (s', calls)) :
    s.receiveAll side reads = .ok (s', calls.flatten) := by
  induction reads generalizing s calls with
  | nil =>
      cases h
      rfl
  | cons bytes reads ih =>
      simp only [receiveEach, bind, pure, Except.pure] at h
      obtain ⟨r, hreceive, h⟩ := Except.exists_of_bind_eq_ok h
      obtain ⟨t, hrest, h⟩ := Except.exists_of_bind_eq_ok h
      cases h
      simp only [receiveAll, hreceive, ih hrest, bind, Except.bind, pure, Except.pure,
        List.flatten_cons]

/-- **Each read makes the calls the abstract receiver makes for its chunk**, as long as the
buffer stays below the largest size of a vector. -/
theorem Holds.receiveEach {reads : List (List UInt8)} (h : s.Holds g [])
    (hfit : Gather.Within (gatherRules side) vectorMaxSize g reads) :
    ∃ s', s.receiveEach side reads = .ok (s', Gather.calls (gatherRules side) g reads) := by
  induction reads generalizing s g with
  | nil => exact ⟨s, rfl⟩
  | cons bytes reads ih =>
      have hlen : s.packetBuffer.length + bytes.length ≤ vectorMaxSize := by
        have := hfit.1
        rw [List.length_append] at this
        rw [h.buffer, List.append_nil]
        exact this
      obtain ⟨s₁, hreceive, h₁⟩ := h.receive side hlen
      rw [staleAfter_nil] at h₁
      obtain ⟨s₂, hrest⟩ := ih h₁ hfit.2
      refine ⟨s₂, ?_⟩
      simp only [PacketBuffer.receiveEach, hreceive, hrest, Gather.calls, bind, Except.bind, pure,
        Except.pure, ReceiveExit.packets_ofOutcome_nil]

end PacketBuffer

/-- The law of over-long packets: on a freshly accepted session, the reads of a packet make
one call of `process_packet`, when the last of them arrives and with the packet's exact
bytes, and none if it is over-long. -/
def SkipsOverLong (mark : UInt32) (groups : List (List (List UInt8))) : Prop :=
  ∃ s, (PacketBuffer.constructed mark).init.receiveEach .server groups.flatten =
    .ok (s, groups.flatMap (Gather.expectedCalls OverLong))

/-- **Over-long packets do no damage if and only if the server drops all of them**: the reads
of every stretch of over-long packets fall into groups that reach twelve bytes with their
last read and begin with a header the check does not accept, and only behind the last
packet that is not over-long reads may be left over that complete nothing. -/
theorem skipsOverLong_iff_recovers (mark : UInt32) {groups : List (List (List UInt8))}
    (hps : ∀ g ∈ groups, BuiltPacket g.flatten)
    (hreads : ∀ g ∈ groups, ∀ bytes ∈ g,
      bytes ≠ [] ∧ bytes.length ≤ Side.server.receiveBufferLen) :
    SkipsOverLong mark groups ↔ Gather.Recovers (gatherRules .server) OverLong groups := by
  have hframes : ∀ g ∈ groups, ¬ OverLong g.flatten → (gatherRules .server).IsFrame g.flatten :=
    fun g hg => (hps g hg).isFrame
  have hne : ∀ g ∈ groups, g ≠ [] ∧ ∀ bytes ∈ g, bytes ≠ [] := by
    refine fun g hg => ⟨?_, fun bytes hbytes => (hreads g hg bytes hbytes).1⟩
    rintro rfl
    obtain ⟨fresh, id, content, hfit, hp⟩ := hps [] hg
    have hlen := congrArg List.length hp
    rw [length_packetOf fresh id hfit] at hlen
    simp at hlen
  have hfresh := PacketBuffer.holds_constructed_init mark
  have hiff := Gather.calls_eq_iff_recovers hframes hne
  constructor
  · rintro ⟨s, hrun⟩
    have hwithin := hfresh.within_of_receiveAll (PacketBuffer.receiveAll_of_receiveEach hrun)
    obtain ⟨s', hrun'⟩ := hfresh.receiveEach hwithin
    rw [hrun] at hrun'
    exact hiff.mp (Prod.mk.inj (Except.ok.inj hrun')).2.symm
  · intro hrecovers
    have hwithin : Gather.Within (gatherRules .server) vectorMaxSize .empty groups.flatten := by
      refine hrecovers.within hframes hreads (by decide) fun acc => ?_
      have hlt := (PacketHeader.ofBytes acc).getPacketSize.toNat_lt
      show (PacketHeader.ofBytes acc).getPacketSize.toNat ≤ 2 ^ 32 - 1
      omega
    obtain ⟨s, hrun⟩ := hfresh.receiveEach hwithin
    exact ⟨s, hrun.trans (by rw [hiff.mpr hrecovers])⟩

/-! ### The limit -/

/-- The check of a chat that `build_packet` wrote is one of its content size. -/
theorem checkHeader_builtHeader_chat (fresh : ℕ → UInt8) (contentSize : UInt32) :
    Session.checkHeader (builtHeader fresh Packets.requestChat.toId.toUInt32 contentSize) = true ↔
      contentSize ≤ maxChatMessageLen := by
  have hcrc := (builtHeader_crc fresh Packets.requestChat.toId.toUInt32 contentSize).symm
  rw [Session.checkHeader, if_neg (not_not_intro hcrc), builtHeader_id,
    builtHeader_contentSize, if_pos (by decide), decide_eq_true_iff]

/-- What a message takes up as the content of a `REQUEST_CHAT` is over 20 bytes from 19
characters on. -/
theorem byteSize_le_iff (message : List UInt8) :
    (ChatRequest.cleared.setMessage message).byteSize ≤ 20 ↔ message.length ≤ 18 := by
  show 1 + (Wire.varintSize32 message.length + message.length) ≤ 20 ↔ _
  unfold Wire.varintSize32
  split
  · omega
  · split <;> [skip; split] <;> omega

/-- **The check lets a chat through exactly up to `MAX_CHAT_MESSAGE_LEN` characters**, except
for the last two lengths: the tag and the length of the message count as well. -/
theorem limit_agrees_iff (fresh : ℕ → UInt8) {message : List UInt8}
    (hsize : (ChatRequest.cleared.setMessage message).byteSize < 2 ^ 31) :
    ∃ pkt size, ChatClient.buildChat fresh message = .ok (pkt, size) ∧
      ((Session.checkHeader (.ofBytes pkt) = true ↔
          message.length ≤ maxChatMessageLen.toNat) ↔
        message.length ≠ 19 ∧ message.length ≠ 20) := by
  have hlength := ChatRequest.length_serialize (length_lt_of_stringFieldSize hsize)
  refine ⟨_, _, ChatClient.buildChat_eq_ok.mpr ⟨hsize, rfl⟩, ?_⟩
  have hlt : (ChatRequest.cleared.setMessage message).byteSize < UInt32.size :=
    Nat.lt_trans hsize (by decide)
  have hpasses : Session.checkHeader (.ofBytes (packetOf fresh Packets.requestChat.toId.toUInt32
      (ChatRequest.cleared.setMessage message).serialize)) = true ↔ message.length ≤ 18 := by
    rw [ofBytes_packetOf fresh _ (by omega), checkHeader_builtHeader_chat, hlength,
      UInt32.le_iff_toNat_le, UInt32.toNat_ofNat_of_lt' hlt, ← byteSize_le_iff]
    rfl
  have hmax : maxChatMessageLen.toNat = 20 := rfl
  rw [hpasses, hmax]
  omega

/-- A message of 18 characters passes. -/
theorem limit_agrees_at_eighteen : ∃ pkt size,
    ChatClient.buildChat (fun _ => 0) (List.replicate 18 104) = .ok (pkt, size) ∧
      ((Session.checkHeader (.ofBytes pkt) = true ↔
          (List.replicate 18 (104 : UInt8)).length ≤ maxChatMessageLen.toNat) ↔
        (List.replicate 18 (104 : UInt8)).length ≠ 19 ∧
          (List.replicate 18 (104 : UInt8)).length ≠ 20) :=
  limit_agrees_iff (fun _ => 0) (by decide)

/-- A message of 19 characters is within the limit, and is rejected. -/
theorem limit_differs_at_nineteen : ∃ pkt size,
    ChatClient.buildChat (fun _ => 0) (List.replicate 19 104) = .ok (pkt, size) ∧
      (List.replicate 19 (104 : UInt8)).length ≤ maxChatMessageLen.toNat ∧
      Session.checkHeader (.ofBytes pkt) = false :=
  ⟨_, _, rfl, by decide, by decide +kernel⟩

/-! ### Chats of 21 and of 22 characters -/

/-- A chat of some length, in three reads, and a login as `Bob` behind it, in two. -/
def chatThenLogin (length : ℕ) : List (List (List UInt8)) :=
  let chat := chatPacket (List.replicate length 104)
  let login := loginPacket [66, 111, 98]
  [[chat.take 12, (chat.drop 12).take 12, chat.drop 24], [login.take 12, login.drop 12]]

/-- The packets of these reads. -/
theorem builtPacket_of_mem_chatThenLogin {length : ℕ} (hfit :
    (ChatRequest.cleared.setMessage (List.replicate length 104)).serialize.length + 12 < 2 ^ 32) :
    ∀ g ∈ chatThenLogin length, BuiltPacket g.flatten := by
  have hsplit : ∀ packet : List UInt8,
      [packet.take 12, (packet.drop 12).take 12, packet.drop 24].flatten = packet ∧
        [packet.take 12, packet.drop 12].flatten = packet := fun packet => by
    simp only [List.flatten_cons, List.flatten_nil, List.append_nil, List.take_append_drop,
      and_true]
    rw [← List.append_assoc, ← List.take_add, List.take_append_drop]
  intro g hg
  obtain rfl | rfl : g = _ ∨ g = _ := by simpa [chatThenLogin] using hg
  · rw [(hsplit _).1]
    exact ⟨_, _, _, hfit, rfl⟩
  · rw [(hsplit _).2]
    exact ⟨_, _, _, by decide, rfl⟩

/-- The 24 content bytes of a chat of 22 characters are dropped in two reads, and the login
behind it is processed. -/
theorem skipsOverLong_of_full_reads : SkipsOverLong 7 (chatThenLogin 22) := by
  refine (skipsOverLong_iff_recovers 7 (builtPacket_of_mem_chatThenLogin (by decide +kernel))
    (by decide +kernel)).mpr ?_
  -- each of the three reads of the chat is dropped on its own
  have hrejected : ∀ g ∈ ((chatThenLogin 22).take 1).flatten.map fun bytes => [bytes],
      g.dropLast.flatten.length < 12 ∧ 12 ≤ g.flatten.length ∧
        Side.server.checkHeader (.ofBytes g.flatten) = false := by decide +kernel
  have hnothing : Gather.Recovers (gatherRules .server) OverLong [] :=
    .last [] [] (by simp) (by simp) (Gather.unfinished_of_short (by decide)) rfl
  have hlogin : Gather.Recovers (gatherRules .server) OverLong ((chatThenLogin 22).drop 1) :=
    .frame (by decide +kernel) hnothing
  have hlong : ∀ g ∈ (chatThenLogin 22).take 1, OverLong g.flatten := by decide +kernel
  exact .stretch _ hlong (fun g hg => ⟨(hrejected g hg).1, (hrejected g hg).2.1,
    (hrejected g hg).2.2⟩) rfl hlogin

/-- Of the 23 content bytes of a chat of 21 characters eleven are left in the buffer, and the
login behind it is lost. -/
theorem login_lost_behind_overLong :
    (∀ g ∈ chatThenLogin 21, BuiltPacket g.flatten) ∧
    (∀ g ∈ chatThenLogin 21, ∀ bytes ∈ g,
      bytes ≠ [] ∧ bytes.length ≤ Side.server.receiveBufferLen) ∧
    (chatThenLogin 21).map (fun g => decide (OverLong g.flatten)) = [true, false] ∧
    ((PacketBuffer.constructed 7).init.receiveAll .server (chatThenLogin 21).flatten).toOption.map
      (fun r => r.2) = some [] ∧
    ¬ SkipsOverLong 7 (chatThenLogin 21) := by
  have hnone : ((PacketBuffer.constructed 7).init.receiveAll .server
      (chatThenLogin 21).flatten).toOption.map (fun r => r.2) = some [] := by decide +kernel
  refine ⟨builtPacket_of_mem_chatThenLogin (by decide +kernel), by decide +kernel,
    by decide +kernel, hnone, ?_⟩
  rintro ⟨s, hrun⟩
  rw [PacketBuffer.receiveAll_of_receiveEach hrun] at hnone
  have hlost : ((chatThenLogin 21).flatMap (Gather.expectedCalls OverLong)).flatten = [] :=
    Option.some.inj hnone
  exact absurd hlost (by decide +kernel)

end AsioChat
