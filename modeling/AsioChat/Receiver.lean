import AsioChat.Lib.Machine
import AsioChat.Receive

/-!
# A Receiver over Its Connections

The receive side of one session of the server, or of the client, over a whole run: it is
connected, reads whatever the peer sends in whatever pieces, is disconnected at any
point, and on the server is connected again. The members of the receive buffer are
those of `PacketBuffer`; what was received since the packet began and what
`process_packet` was called with is recorded besides.

Two things can go wrong. `init` does not reset `content_read_mode_`, so a connection
that ends after its header was accepted leaves the next one without the check of its
first header. And `get_packet_size` is computed modulo `2 ^ 32`, so a header announcing
almost `2 ^ 32` bytes of content is taken for complete at once.

## Main results

* `Receiver.Inv.step`: over all runs, the bytes before the mark are those received since
  the packet began.
* `dispatched_validated`: no packet is processed unchecked in a run that accepts only
  with `content_read_mode_` cleared.
* `dispatched_complete_iff`: a processed packet was completely received if and only if
  its size does not wrap.
-/

namespace AsioChat

/-- A call of `process_packet`: the buffer it was called with, and the bytes received
from the peer since the packet began. -/
structure Dispatch where
  data : List UInt8
  received : List UInt8
  deriving DecidableEq, Repr

/-- The header `process_packet` finds at the front of the buffer. -/
def Dispatch.header (d : Dispatch) : PacketHeader := .ofBytes d.data

/-- A receive buffer and the history of its connections. -/
structure Receiver where
  buffer : PacketBuffer
  isOpen : Bool
  /-- The number of connections so far. -/
  connections : ℕ
  /-- The bytes received since the later of the last `init` and the last
  `clear_packet_buffer`. -/
  received : List UInt8
  /-- The calls of `process_packet` so far. -/
  dispatched : List Dispatch
  deriving DecidableEq, Repr

/-- A newly constructed receiver; its mark is not initialised. -/
def Receiver.initial (mark : UInt32) : Receiver :=
  ⟨.constructed mark, false, 0, [], []⟩

/-- What can happen to a receiver: a connection is accepted or made, a read succeeds, or a
read fails and the socket is closed. -/
inductive ReceiverEvent
  | connect
  | read (bytes : List UInt8)
  | disconnect
  deriving DecidableEq, Repr

namespace Receiver

/-- A session is accepted again and again, the client connects once. -/
def Enabled (side : Side) (r : Receiver) : ReceiverEvent → Prop
  | .connect => r.isOpen = false ∧ (side = .client → r.connections = 0)
  | .read bytes => r.isOpen = true ∧ bytes.length ≤ side.receiveBufferLen
  | .disconnect => r.isOpen = true

instance (side : Side) (r : Receiver) (e : ReceiverEvent) : Decidable (Enabled side r e) := by
  cases e <;> unfold Enabled <;> infer_instance

/-- What a receiver records of a read. -/
def record (r : Receiver) (bytes : List UInt8) (buffer : PacketBuffer) : ReceiveExit → Receiver
  | .waiting => { r with buffer := buffer, received := r.received ++ bytes }
  | .dropped => { r with buffer := buffer, received := [] }
  | .processed data => { r with
      buffer := buffer, received := [],
      dispatched := r.dispatched ++ [⟨data, r.received ++ bytes⟩] }

/-- One event. -/
def step (side : Side) (r : Receiver) : ReceiverEvent → Except Fault Receiver
  | .connect => .ok { r with
      buffer := r.buffer.init, isOpen := true, connections := r.connections + 1, received := [] }
  | .read bytes => do
    let (buffer, exit) ← r.buffer.receive side bytes
    return r.record bytes buffer exit
  | .disconnect => .ok { r with isOpen := false }

end Receiver

/-- The runs of a receiver. -/
def receiverMachine (side : Side) : Machine Receiver ReceiverEvent Fault where
  enabled := Receiver.Enabled side
  step := Receiver.step side

instance (side : Side) (r : Receiver) (e : ReceiverEvent) :
    Decidable ((receiverMachine side).enabled r e) :=
  inferInstanceAs (Decidable (Receiver.Enabled side r e))

namespace Receiver

variable {side : Side} {r r' : Receiver}

/-- The abstract receiver that a connected buffer stores. -/
def gathered (r : Receiver) : Gather.State UInt8 := ⟨r.received, r.buffer.contentReadMode⟩

/-- What holds of a receiver in every run: the bytes before the mark are those received
since the packet began, and what was dispatched begins with what was received, at least as
much of it as `get_packet_size` asked for. -/
structure Inv (r : Receiver) : Prop where
  length_le : r.buffer.packetBuffer.length ≤ vectorMaxSize
  holds : r.isOpen = true → ∃ stale, r.buffer.Holds r.gathered stale
  dispatched : ∀ d ∈ r.dispatched,
    d.received <+: d.data ∧ d.data.length ≤ vectorMaxSize ∧ 12 ≤ d.received.length ∧
      d.header.getPacketSize.toNat ≤ d.received.length

/-- Nothing was received before anything happens. -/
theorem inv_initial (mark : UInt32) : (initial mark).Inv :=
  ⟨Nat.zero_le _, fun h => (Bool.false_ne_true h).elim, fun _ h => (List.not_mem_nil h).elim⟩

/-- **What a read does**, from a state that satisfies the invariant: the buffer stores
the next state of the abstract receiver, and what is dispatched is what that one hands
over, followed by stale bytes. -/
theorem Inv.read (h : r.Inv) {bytes : List UInt8}
    (hstep : (receiverMachine side).Step r (.read bytes) r') :
    ∃ stale, r.buffer.Holds r.gathered stale ∧
      (r.received ++ bytes ++ stale).length ≤ vectorMaxSize ∧
      r'.buffer.Holds (Gather.step (gatherRules side) r.gathered bytes).1
        (staleAfter stale (Gather.step (gatherRules side) r.gathered bytes).2) ∧
      r' = r.record bytes r'.buffer
        (.ofOutcome stale (Gather.step (gatherRules side) r.gathered bytes).2) := by
  obtain ⟨⟨hopen, -⟩, hstep⟩ := hstep
  obtain ⟨stale, hholds⟩ := h.holds hopen
  obtain ⟨⟨buffer, exit⟩, hreceive, hr⟩ := Except.exists_of_bind_eq_ok hstep
  obtain ⟨rfl, hlen, hnext⟩ := hholds.of_receive_eq hreceive
  cases hr
  have hbuffer : ∀ exit, (r.record bytes buffer exit).buffer = buffer := by
    intro exit
    cases exit <;> rfl
  rw [hbuffer]
  exact ⟨stale, hholds, hlen, hnext, rfl⟩

/-- The state after a read stores what the invariant says it does. -/
theorem gathered_read {bytes stale : List UInt8} {buffer : PacketBuffer}
    (hnext : buffer.Holds (Gather.step (gatherRules side) r.gathered bytes).1
      (staleAfter stale (Gather.step (gatherRules side) r.gathered bytes).2)) :
    (r.record bytes buffer (.ofOutcome stale
      (Gather.step (gatherRules side) r.gathered bytes).2)).gathered =
      (Gather.step (gatherRules side) r.gathered bytes).1 := by
  have hmode := hnext.mode
  rcases Gather.step_cases (gatherRules side) r.gathered bytes with
    ⟨checked, hout⟩ | hout | ⟨-, -, hout⟩
  all_goals
    rw [hout] at hmode ⊢
    simp only [ReceiveExit.ofOutcome, record, gathered, hmode, Gather.State.empty]

/-- Recording a read opens and closes nothing. -/
@[simp] theorem isOpen_record (bytes : List UInt8) (buffer : PacketBuffer) (exit : ReceiveExit) :
    (r.record bytes buffer exit).isOpen = r.isOpen := by
  cases exit <;> rfl

/-- What is processed is recorded as dispatched. -/
@[simp] theorem dispatched_record (bytes : List UInt8) (buffer : PacketBuffer)
    (exit : ReceiveExit) : (r.record bytes buffer exit).dispatched =
      r.dispatched ++ exit.packets.map (⟨·, r.received ++ bytes⟩) := by
  cases exit <;> simp [record, ReceiveExit.packets]

/-- What a read dispatches: what the abstract receiver hands over, followed by stale
bytes. -/
theorem mem_dispatched_record {bytes stale : List UInt8} {buffer : PacketBuffer} {d : Dispatch}
    (h : d ∈ (r.record bytes buffer (.ofOutcome stale
      (Gather.step (gatherRules side) r.gathered bytes).2)).dispatched) :
    d ∈ r.dispatched ∨
      (d.received ∈ (Gather.step (gatherRules side) r.gathered bytes).2.frames ∧
        d.received = r.received ++ bytes ∧ d.data = d.received ++ stale) := by
  rw [dispatched_record, List.mem_append] at h
  rcases h with h | h
  · exact .inl h
  · right
    rcases Gather.step_cases (gatherRules side) r.gathered bytes with
      ⟨checked, hout⟩ | hout | ⟨-, -, hout⟩
    · simp [hout, ReceiveExit.ofOutcome, ReceiveExit.packets] at h
    · simp [hout, ReceiveExit.ofOutcome, ReceiveExit.packets] at h
    · simp only [hout, ReceiveExit.ofOutcome, ReceiveExit.packets, List.map_cons, List.map_nil,
        List.mem_singleton] at h
      subst h
      rw [hout]
      exact ⟨List.mem_singleton.mpr rfl, rfl, rfl⟩

/-- **Every event preserves the invariant.** -/
theorem Inv.step {e : ReceiverEvent} (h : r.Inv) (hstep : (receiverMachine side).Step r e r') :
    r'.Inv := by
  cases e with
  | connect =>
      obtain ⟨-, hstep⟩ := hstep
      cases hstep
      exact ⟨h.length_le, fun _ => ⟨_, PacketBuffer.holds_init h.length_le⟩, h.dispatched⟩
  | read bytes =>
      obtain ⟨stale, hholds, hlen, hnext, hr⟩ := h.read hstep
      have hgathered := gathered_read hnext
      rw [← hr] at hgathered
      rw [← hgathered] at hnext
      refine ⟨hnext.le_max, fun _ => ⟨_, hnext⟩, fun d hd => ?_⟩
      rw [hr] at hd
      rcases mem_dispatched_record hd with hd | ⟨hframe, hreceived, hdata⟩
      · exact h.dispatched d hd
      · rcases Gather.step_cases (gatherRules side) r.gathered bytes with
          ⟨checked, hout⟩ | hout | ⟨hhead, hneed, hout⟩
        · simp [hout] at hframe
        · simp [hout] at hframe
        · have hlong : 12 ≤ (r.received ++ bytes).length := hhead
          have hheader : d.header = PacketHeader.ofBytes (r.received ++ bytes) := by
            rw [Dispatch.header, hdata, hreceived, PacketHeader.ofBytes_append hlong]
          rw [hheader, hdata, hreceived]
          exact ⟨List.prefix_append _ _, hlen, hlong, hneed⟩
  | disconnect =>
      obtain ⟨-, hstep⟩ := hstep
      cases hstep
      exact ⟨h.length_le, fun hopen => (Bool.false_ne_true hopen).elim, h.dispatched⟩

/-- The invariant holds in every run. -/
theorem inv_of_run {mark : UInt32} {es : List ReceiverEvent}
    (h : (receiverMachine side).Run (initial mark) es r) : r.Inv :=
  h.invariant (fun _ _ _ hinv hstep => hinv.step hstep) (inv_initial mark)

/-! ### Unchecked packets -/

/-- The condition on a step that keeps unchecked packets out: a connection is accepted
only while `content_read_mode_` is clear, that is, the connection before did not end
between an accepted header and the end of its packet. -/
def AcceptsClear (r : Receiver) (e : ReceiverEvent) : Prop :=
  e = .connect → r.buffer.contentReadMode = false

instance (r : Receiver) (e : ReceiverEvent) : Decidable (AcceptsClear r e) :=
  inferInstanceAs (Decidable (_ → _))

/-- A connected receiver in content mode holds an accepted header, and every header
dispatched was accepted. -/
structure Checked (side : Side) (r : Receiver) : Prop where
  valid : r.isOpen = true → r.gathered.Valid (gatherRules side)
  dispatched : ∀ d ∈ r.dispatched, side.checkHeader d.header = true

/-- An event that meets the condition keeps the checks. -/
theorem Checked.step {e : ReceiverEvent} (h : Checked side r) (hinv : r.Inv)
    (hstep : (receiverMachine side).Step r e r') (hclear : AcceptsClear r e) :
    Checked side r' := by
  cases e with
  | connect =>
      obtain ⟨-, hstep⟩ := hstep
      cases hstep
      refine ⟨fun _ hmode => ?_, h.dispatched⟩
      exact absurd hmode (by simp [gathered, PacketBuffer.init, hclear rfl])
  | read bytes =>
      have hopen : r.isOpen = true := hstep.1.1
      obtain ⟨stale, hholds, hlen, hnext, hr⟩ := hinv.read hstep
      obtain ⟨hvalid, hframes⟩ := Gather.step_valid (h.valid hopen) bytes
      refine ⟨fun _ => ?_, fun d hd => ?_⟩
      · have hgathered := gathered_read hnext
        rw [← hr] at hgathered
        rw [hgathered]
        exact hvalid
      · rw [hr] at hd
        rcases mem_dispatched_record hd with hd | ⟨hframe, -, hdata⟩
        · exact h.dispatched d hd
        · obtain ⟨hhead, haccept⟩ := hframes _ hframe
          rw [Dispatch.header, hdata, PacketHeader.ofBytes_append hhead]
          exact haccept
  | disconnect =>
      obtain ⟨-, hstep⟩ := hstep
      cases hstep
      exact ⟨fun hopen => (Bool.false_ne_true hopen).elim, h.dispatched⟩

/-- The checks hold in every run that accepts only with `content_read_mode_` clear. -/
theorem checked_of_run {mark : UInt32} {es : List ReceiverEvent}
    (h : ((receiverMachine side).restrict AcceptsClear).Run (initial mark) es r) :
    Checked side r := by
  have hboth : r.Inv ∧ Checked side r := by
    refine h.invariant (I := fun r => r.Inv ∧ Checked side r) ?_ ⟨inv_initial mark, ?_⟩
    · rintro s e t ⟨hinv, hchecked⟩ hstep
      obtain ⟨hstep, hclear⟩ := Machine.step_restrict_iff.mp hstep
      exact ⟨hinv.step hstep, hchecked.step hinv hstep hclear⟩
    · exact ⟨fun h => (Bool.false_ne_true h).elim, fun _ h => (List.not_mem_nil h).elim⟩
  exact hboth.2

end Receiver

/-- A dispatched packet is validated: its checksum is right, and a `REQUEST_CHAT` has a
bounded content. -/
def Dispatch.Validated (d : Dispatch) : Prop :=
  d.header.crc = d.header.freshCrc ∧
    (d.header.id = Packets.requestChat.toId → d.header.contentSize ≤ maxChatMessageLen)

instance (d : Dispatch) : Decidable d.Validated :=
  inferInstanceAs (Decidable (_ ∧ _))

/-- **No packet is dispatched unvalidated** in a run of a session that is accepted only
while `content_read_mode_` is clear. -/
theorem dispatched_validated {mark : UInt32} {es : List ReceiverEvent} {r : Receiver}
    (h : ((receiverMachine .server).restrict Receiver.AcceptsClear).Run (.initial mark) es r) :
    ∀ d ∈ r.dispatched, d.Validated := by
  intro d hd
  have hserver : Side.server.checkHeader d.header = true :=
    (Receiver.checked_of_run h).dispatched d hd
  have hcheck : Session.checkHeader d.header = true := hserver
  exact ⟨(Side.freshCrc_of_checkHeader hserver).symm,
    Session.contentSize_le_of_checkHeader hcheck⟩

/-- A login announcing five content bytes. -/
def loginHeader : List UInt8 := (builtHeader (fun _ => 0) 1 5).toBytes

/-- A login is processed, its connection ends, and the slot is used again. -/
theorem dispatched_validated_of_two_connections : ∃ r,
    (receiverMachine .server).Run (.initial 3)
      [.connect, .read loginHeader, .read [10, 3, 66, 111, 98], .disconnect, .connect] r ∧
    r.dispatched.length = 1 ∧ ∀ d ∈ r.dispatched, d.Validated := by
  obtain ⟨r, hrun, hone⟩ := Machine.exists_run_of_exec
    ((receiverMachine .server).restrict Receiver.AcceptsClear) (.initial 3)
    [.connect, .read loginHeader, .read [10, 3, 66, 111, 98], .disconnect, .connect]
    (fun r => r.dispatched.length) (b := 1) (by decide +kernel)
  exact ⟨r, hrun.of_restrict, hone, dispatched_validated hrun⟩

/-- A client disconnects after its header was accepted; the next client on the slot sends
twelve zero bytes, whose checksum is wrong, and they are processed. -/
theorem zeros_dispatched_unvalidated : ∃ r,
    (receiverMachine .server).Run (.initial 0)
      [.connect, .read loginHeader, .disconnect, .connect, .read (List.replicate 12 0)] r ∧
    ∃ d ∈ r.dispatched, ¬ d.Validated := by
  obtain ⟨r, hrun, hbad⟩ := Machine.exists_run_of_exec (receiverMachine .server) (.initial 0)
    [.connect, .read loginHeader, .disconnect, .connect, .read (List.replicate 12 0)]
    (fun r => decide (∃ d ∈ r.dispatched, ¬ d.Validated)) (b := true) (by decide +kernel)
  exact ⟨r, hrun, of_decide_eq_true hbad⟩

/-! ### Incomplete packets -/

/-- A dispatched packet was completely received: at least header and content, computed
without wrapping. -/
def Dispatch.Complete (d : Dispatch) : Prop :=
  12 + d.header.contentSize.toNat ≤ d.received.length

instance (d : Dispatch) : Decidable d.Complete :=
  inferInstanceAs (Decidable (_ ≤ _))

/-- **A dispatched packet is completely received if and only if its size does not wrap**,
in every run of either program. -/
theorem dispatched_complete_iff {side : Side} {mark : UInt32} {es : List ReceiverEvent}
    {r : Receiver} (h : (receiverMachine side).Run (.initial mark) es r) :
    ∀ d ∈ r.dispatched, d.Complete ↔ d.header.contentSize.toNat + 12 < 2 ^ 32 := by
  intro d hd
  obtain ⟨hfront, hmax, -, hsize⟩ := (Receiver.inv_of_run h).dispatched d hd
  constructor
  · intro hcomplete
    have hle := hfront.length_le
    unfold Dispatch.Complete at hcomplete
    unfold vectorMaxSize at hmax
    omega
  · intro hfit
    rw [PacketHeader.toNat_getPacketSize_of_lt hfit] at hsize
    unfold Dispatch.Complete
    omega

/-- A login announcing `2 ^ 32 - 1` content bytes. -/
def wrappingHeader : List UInt8 := (builtHeader (fun _ => 0) 1 0xFFFFFFFF).toBytes

/-- A complete login and one whose size wraps, on the client's connection. -/
theorem dispatched_complete_iff_of_two_packets : ∃ r,
    (receiverMachine .client).Run (.initial 3)
      [.connect, .read (loginHeader.take 10), .read (loginHeader.drop 10 ++ [10, 3, 66, 111, 98]),
        .read (wrappingHeader.take 10), .read (wrappingHeader.drop 10)] r ∧
    r.dispatched.length = 2 ∧
    ∀ d ∈ r.dispatched, d.Complete ↔ d.header.contentSize.toNat + 12 < 2 ^ 32 := by
  obtain ⟨r, hrun, htwo⟩ := Machine.exists_run_of_exec (receiverMachine .client) (.initial 3)
    [.connect, .read (loginHeader.take 10), .read (loginHeader.drop 10 ++ [10, 3, 66, 111, 98]),
      .read (wrappingHeader.take 10), .read (wrappingHeader.drop 10)]
    (fun r => r.dispatched.length) (b := 2) (by decide +kernel)
  exact ⟨r, hrun, htwo, dispatched_complete_iff hrun⟩

/-- Twelve bytes with a valid checksum and the largest content size, on a fresh connection. -/
def wrappingReads : List ReceiverEvent :=
  [.connect, .read (wrappingHeader.take 10), .read (wrappingHeader.drop 10)]

/-- The server and the client take them for a complete packet. -/
theorem wrappingHeader_dispatched_incomplete :
    (∃ r, (receiverMachine .server).Run (.initial 0) wrappingReads r ∧
      ∃ d ∈ r.dispatched, ¬ d.Complete) ∧
    (∃ r, (receiverMachine .client).Run (.initial 0) wrappingReads r ∧
      ∃ d ∈ r.dispatched, ¬ d.Complete) := by
  refine ⟨?_, ?_⟩
  · obtain ⟨r, hrun, hbad⟩ := Machine.exists_run_of_exec (receiverMachine .server) (.initial 0)
      wrappingReads (fun r => decide (∃ d ∈ r.dispatched, ¬ d.Complete)) (b := true)
      (by decide +kernel)
    exact ⟨r, hrun, of_decide_eq_true hbad⟩
  · obtain ⟨r, hrun, hbad⟩ := Machine.exists_run_of_exec (receiverMachine .client) (.initial 0)
      wrappingReads (fun r => decide (∃ d ∈ r.dispatched, ¬ d.Complete)) (b := true)
      (by decide +kernel)
    exact ⟨r, hrun, of_decide_eq_true hbad⟩

end AsioChat
