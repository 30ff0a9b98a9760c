import AsioChat.Lib.Gather
import AsioChat.Protocol

/-!
# The Receive Buffer

The successful branch of `handle_receive`, which the server's session and the client
share up to the check of the header: the bytes of a read are inserted into
`packet_buffer_` at `packet_buffer_mark_`, and what stands at the front of the buffer
decides whether to wait, to drop everything or to call `process_packet`.

Over it stands the abstract receiver of `Gather`: `packet_buffer_` is the gathered
bytes in front of stale bytes of an earlier connection, which `init` leaves behind by
setting the mark back without clearing the vector.

## Main results

* `PacketBuffer.Holds.receive`: one read does what one step of the abstract receiver
  does, stale bytes and all.
* `PacketBuffer.Holds.receiveAll`, `PacketBuffer.Holds.within_of_receiveAll`: a list of
  reads does what the abstract receiver does with a list of chunks, and goes through
  exactly when the buffer stays below the largest size of a vector.
-/

namespace AsioChat

/-- What ends a run: the behaviour of the program is undefined, or it throws. -/
inductive Fault
  | nullDereference
  | outOfRange
  | lengthError
  | intOverflow
  deriving DecidableEq, Repr

/-- The two programs. -/
inductive Side
  | server
  | client
  deriving DecidableEq, Repr

/-- The size of `receive_buffer_`, the most a read can deliver. -/
def Side.receiveBufferLen : Side → ℕ
  | server => headerSize.toNat
  | client => maxReceiveBufferLen

/-- The checks `session::handle_receive` makes on a header before it reads the content. -/
def Session.checkHeader (header : PacketHeader) : Bool :=
  if header.freshCrc ≠ header.crc then false
  else if header.id = Packets.requestChat.toId then header.contentSize ≤ maxChatMessageLen
  else true

/-- The check `ChatClient::handle_receive` makes on a header. -/
def ChatClient.checkHeader (header : PacketHeader) : Bool :=
  header.freshCrc = header.crc

/-- The check of either program. -/
def Side.checkHeader : Side → PacketHeader → Bool
  | server => Session.checkHeader
  | client => ChatClient.checkHeader

/-- A header either program accepts has the right checksum. -/
theorem Side.freshCrc_of_checkHeader {side : Side} {header : PacketHeader}
    (h : side.checkHeader header = true) : header.freshCrc = header.crc := by
  cases side with
  | server =>
      simp only [Side.checkHeader, Session.checkHeader, ne_eq, ite_not] at h
      split at h
      · assumption
      · cases h
  | client => exact of_decide_eq_true h

/-- A `REQUEST_CHAT` the server accepts has a bounded content. -/
theorem Session.contentSize_le_of_checkHeader {header : PacketHeader}
    (h : Session.checkHeader header = true) (hid : header.id = Packets.requestChat.toId) :
    header.contentSize ≤ maxChatMessageLen := by
  simp only [Session.checkHeader, hid, if_true] at h
  split at h
  · cases h
  · exact of_decide_eq_true h

/-! ### The buffer -/

/-- `max_size` of a vector of bytes. -/
def vectorMaxSize : ℕ := 2 ^ 32 - 1

/-- Insertion into a vector: the position must lie within it, and the result must not
exceed the largest size. -/
def vectorInsert (v : List UInt8) (pos : ℕ) (bs : List UInt8) : Except Fault (List UInt8) :=
  if v.length < pos then .error .outOfRange
  else if vectorMaxSize < v.length + bs.length then .error .lengthError
  else .ok (v.take pos ++ bs ++ v.drop pos)

/-- The members of `session` and of `ChatClient` that hold a packet while it arrives. -/
structure PacketBuffer where
  packetBufferMark : UInt32
  packetBuffer : List UInt8
  contentReadMode : Bool
  deriving DecidableEq, Repr

/-- How the successful branch of `handle_receive` ends: without a packet, with the
buffer cleared because of a bad header, or after `process_packet` was called with the
address of the front of the buffer. -/
inductive ReceiveExit
  | waiting
  | dropped
  | processed (data : List UInt8)
  deriving DecidableEq, Repr

/-- The buffers `process_packet` was called with. -/
def ReceiveExit.packets : ReceiveExit → List (List UInt8)
  | processed data => [data]
  | _ => []

namespace PacketBuffer

/-- The constructors: the mark is left uninitialised. -/
def constructed (mark : UInt32) : PacketBuffer := ⟨mark, [], false⟩

/-- `session::init`, and the beginning of `ChatClient::connect`: only the mark is set
back. -/
def init (s : PacketBuffer) : PacketBuffer := { s with packetBufferMark := 0 }

/-- `clear_packet_buffer`. -/
def clear (_ : PacketBuffer) : PacketBuffer := ⟨0, [], false⟩

/-- The successful branch of `handle_receive`, for a read of `bytes`, with a check of the header.
The buffer is cleared after `process_packet` returns, which does not look at these members. -/
def receiveWith (checkHeader : PacketHeader → Bool) (s : PacketBuffer) (bytes : List UInt8) :
    Except Fault (PacketBuffer × ReceiveExit) := do
  let bytesTransferred := UInt32.ofNat bytes.length
  let packetBuffer ← vectorInsert s.packetBuffer s.packetBufferMark.toNat bytes
  let s := { s with packetBuffer := packetBuffer }
  let packetDataSize := s.packetBufferMark + bytesTransferred
  let wait (s : PacketBuffer) : PacketBuffer × ReceiveExit :=
    ({ s with packetBufferMark := s.packetBufferMark + bytesTransferred }, .waiting)
  if packetDataSize = 0 then
    return (s, .waiting)
  if packetDataSize < headerSize then
    return wait s
  let header := PacketHeader.ofBytes s.packetBuffer
  if s.contentReadMode = false ∧ checkHeader header = false then
    return (s.clear, .dropped)
  let s := { s with contentReadMode := true }
  if header.getPacketSize ≤ packetDataSize then
    return (s.clear, .processed s.packetBuffer)
  return wait s

/-- The successful branch of `handle_receive` of either program. -/
def receive (side : Side) (s : PacketBuffer) (bytes : List UInt8) :
    Except Fault (PacketBuffer × ReceiveExit) :=
  s.receiveWith side.checkHeader bytes

/-- One successful `handle_receive` after another, collecting the calls of
`process_packet`. -/
def receiveAll (side : Side) :
    PacketBuffer → List (List UInt8) → Except Fault (PacketBuffer × List (List UInt8))
  | s, [] => .ok (s, [])
  | s, bytes :: reads => do
    let (s, exit) ← s.receive side bytes
    let (s, packets) ← receiveAll side s reads
    return (s, exit.packets ++ packets)

end PacketBuffer

/-! ### The abstract receiver -/

/-- The rules by which either program gathers packets. -/
def gatherRules (side : Side) : Gather.Rules UInt8 where
  headerLen := 12
  headerLen_pos := by decide
  accept acc := side.checkHeader (.ofBytes acc)
  need acc := (PacketHeader.ofBytes acc).getPacketSize.toNat
  accept_append q a h := by rw [PacketHeader.ofBytes_append h]
  need_append q a h := by rw [PacketHeader.ofBytes_append h]

/-- How an outcome of the abstract receiver shows when stale bytes follow the gathered
ones in the buffer. -/
def ReceiveExit.ofOutcome (stale : List UInt8) : Gather.Outcome UInt8 → ReceiveExit
  | .waiting => waiting
  | .dropped => dropped
  | .frame acc => processed (acc ++ stale)

/-- The stale bytes that remain: clearing the buffer removes them too. -/
def staleAfter (stale : List UInt8) : Gather.Outcome UInt8 → List UInt8
  | .waiting => stale
  | _ => []

/-- Where nothing is stale, nothing becomes stale. -/
@[simp] theorem staleAfter_nil (o : Gather.Outcome UInt8) : staleAfter [] o = [] := by
  cases o <;> rfl

/-- Where nothing is stale, what is processed is the frame. -/
@[simp] theorem ReceiveExit.packets_ofOutcome_nil (o : Gather.Outcome UInt8) :
    (ReceiveExit.ofOutcome [] o).packets = o.frames := by
  cases o <;> simp [ReceiveExit.ofOutcome, ReceiveExit.packets]

namespace PacketBuffer

/-- The buffer stores an abstract receiver: the bytes before the mark are those it has
gathered, those behind are stale. -/
structure Holds (s : PacketBuffer) (g : Gather.State UInt8) (stale : List UInt8) : Prop where
  mark : s.packetBufferMark.toNat = g.acc.length
  buffer : s.packetBuffer = g.acc ++ stale
  mode : s.contentReadMode = g.checked
  le_max : s.packetBuffer.length ≤ vectorMaxSize

variable {side : Side} {s : PacketBuffer} {g : Gather.State UInt8} {stale bytes : List UInt8}

/-- Accepting a connection or connecting: all that the buffer holds becomes stale, and
the mode stays as it is. -/
theorem holds_init (h : s.packetBuffer.length ≤ vectorMaxSize) :
    s.init.Holds ⟨[], s.contentReadMode⟩ s.packetBuffer :=
  ⟨rfl, rfl, rfl, h⟩

/-- A cleared buffer holds nothing. -/
theorem holds_clear (s : PacketBuffer) : s.clear.Holds .empty [] :=
  ⟨rfl, rfl, rfl, Nat.zero_le _⟩

/-- A receiver that was just constructed and then accepted or connected holds nothing. -/
theorem holds_constructed_init (mark : UInt32) : (constructed mark).init.Holds .empty [] :=
  ⟨rfl, rfl, rfl, Nat.zero_le _⟩

/-- The bytes of a read land behind the gathered ones, in front of the stale ones. -/
theorem Holds.vectorInsert (h : s.Holds g stale)
    (hfit : s.packetBuffer.length + bytes.length ≤ vectorMaxSize) :
    vectorInsert s.packetBuffer s.packetBufferMark.toNat bytes =
      .ok (g.acc ++ bytes ++ stale) := by
  have hpos : ¬ (g.acc ++ stale).length < g.acc.length := by simp
  have hmax : ¬ vectorMaxSize < (g.acc ++ stale).length + bytes.length := by
    rw [← h.buffer]; omega
  simp only [AsioChat.vectorInsert, h.mark, h.buffer, if_neg hpos, if_neg hmax, List.take_left,
    List.drop_left]

/-- The sum of mark and read does not wrap, as the buffer is no larger than a vector can
be. -/
theorem Holds.toNat_add (h : s.Holds g stale)
    (hfit : s.packetBuffer.length + bytes.length ≤ vectorMaxSize) :
    (s.packetBufferMark + UInt32.ofNat bytes.length).toNat = (g.acc ++ bytes).length := by
  have hbuffer := congrArg List.length h.buffer
  rw [List.length_append] at hbuffer
  have hmark := h.mark
  unfold vectorMaxSize at hfit
  rw [UInt32.toNat_add, UInt32.toNat_ofNat', List.length_append]
  omega

variable (side) in
/-- **One read is one step of the abstract receiver**: the same exit, up to the stale
bytes, and the buffer then stores its next state. -/
theorem Holds.receive (h : s.Holds g stale)
    (hfit : s.packetBuffer.length + bytes.length ≤ vectorMaxSize) :
    ∃ s', s.receive side bytes =
        .ok (s', .ofOutcome stale (Gather.step (gatherRules side) g bytes).2) ∧
      s'.Holds (Gather.step (gatherRules side) g bytes).1
        (staleAfter stale (Gather.step (gatherRules side) g bytes).2) := by
  have hsize := h.toNat_add hfit
  have hfull : (g.acc ++ bytes ++ stale).length ≤ vectorMaxSize := by
    rw [h.buffer] at hfit
    simp only [List.length_append] at hfit ⊢
    omega
  have hwait : ∀ mode, Holds ⟨s.packetBufferMark + UInt32.ofNat bytes.length,
      g.acc ++ bytes ++ stale, mode⟩ ⟨g.acc ++ bytes, mode⟩ stale :=
    fun mode => ⟨hsize, rfl, rfl, hfull⟩
  simp only [PacketBuffer.receive, receiveWith, h.vectorInsert hfit, h.mode, bind, Except.bind,
    pure, Except.pure]
  by_cases hhead : (g.acc ++ bytes).length < 12
  · rw [Gather.step_of_short (gatherRules side) hhead]
    by_cases hzero : s.packetBufferMark + UInt32.ofNat bytes.length = 0
    · -- an empty read into an empty buffer: the loop is not entered
      have hlen : (g.acc ++ bytes).length = 0 := by rw [← hsize, hzero]; rfl
      have hacc : g.acc.length = (g.acc ++ bytes).length := by
        rw [List.length_append] at hlen ⊢
        omega
      rw [if_pos hzero]
      exact ⟨_, rfl, h.mark.trans hacc, rfl, rfl, hfull⟩
    · have hlt : s.packetBufferMark + UInt32.ofNat bytes.length < headerSize := by
        rw [UInt32.lt_iff_toNat_lt, hsize]
        exact hhead
      rw [if_neg hzero, if_pos hlt]
      exact ⟨_, rfl, hwait _⟩
  have hle : (gatherRules side).headerLen ≤ (g.acc ++ bytes).length := Nat.le_of_not_lt hhead
  have hnlt : ¬ s.packetBufferMark + UInt32.ofNat bytes.length < headerSize := by
    rw [UInt32.lt_iff_toNat_lt, hsize]
    exact hhead
  have hzero : ¬ s.packetBufferMark + UInt32.ofNat bytes.length = 0 := by
    rintro hzero
    rw [hzero] at hnlt
    exact hnlt (by decide)
  rw [if_neg hzero, if_neg hnlt, PacketHeader.ofBytes_append hle stale]
  by_cases hbad : g.checked = false ∧ side.checkHeader (.ofBytes (g.acc ++ bytes)) = false
  · rw [if_pos hbad, Gather.step_of_bad (gatherRules side) hle hbad]
    exact ⟨_, rfl, holds_clear _⟩
  rw [if_neg hbad]
  by_cases hneed :
      (PacketHeader.ofBytes (g.acc ++ bytes)).getPacketSize.toNat ≤ (g.acc ++ bytes).length
  · have hfits : (PacketHeader.ofBytes (g.acc ++ bytes)).getPacketSize ≤
        s.packetBufferMark + UInt32.ofNat bytes.length := by
      rw [UInt32.le_iff_toNat_le, hsize]
      exact hneed
    rw [if_pos hfits, Gather.step_of_complete (gatherRules side) hle hbad hneed]
    exact ⟨_, rfl, holds_clear _⟩
  · have hfits : ¬ (PacketHeader.ofBytes (g.acc ++ bytes)).getPacketSize ≤
        s.packetBufferMark + UInt32.ofNat bytes.length := by
      rw [UInt32.le_iff_toNat_le, hsize]
      exact hneed
    rw [if_neg hfits,
      Gather.step_of_incomplete (gatherRules side) hle hbad (Nat.lt_of_not_le hneed)]
    exact ⟨_, rfl, hwait _⟩

/-- A read that would make the buffer larger than a vector can be throws. -/
theorem Holds.receive_of_lt (h : s.Holds g stale)
    (hbig : vectorMaxSize < s.packetBuffer.length + bytes.length) :
    s.receive side bytes = .error .lengthError := by
  have hpos : ¬ s.packetBuffer.length < s.packetBufferMark.toNat := by
    rw [h.buffer, h.mark, List.length_append]
    omega
  simp only [PacketBuffer.receive, receiveWith, AsioChat.vectorInsert, if_neg hpos, if_pos hbig,
    bind, Except.bind]

/-- A read that does not throw is a step of the abstract receiver. -/
theorem Holds.of_receive_eq (h : s.Holds g stale) {s' : PacketBuffer} {exit : ReceiveExit}
    (hreceive : s.receive side bytes = .ok (s', exit)) :
    exit = .ofOutcome stale (Gather.step (gatherRules side) g bytes).2 ∧
      (g.acc ++ bytes ++ stale).length ≤ vectorMaxSize ∧
      s'.Holds (Gather.step (gatherRules side) g bytes).1
        (staleAfter stale (Gather.step (gatherRules side) g bytes).2) := by
  by_cases hfit : s.packetBuffer.length + bytes.length ≤ vectorMaxSize
  · obtain ⟨t, ht, hholds⟩ := h.receive side hfit
    rw [ht] at hreceive
    cases hreceive
    refine ⟨rfl, ?_, hholds⟩
    rw [h.buffer] at hfit
    simp only [List.length_append] at hfit ⊢
    omega
  · rw [h.receive_of_lt (Nat.lt_of_not_le hfit)] at hreceive
    cases hreceive

/-- **A list of reads is the abstract receiver on a list of chunks**, as long as the
buffer stays below the largest size of a vector. -/
theorem Holds.receiveAll {reads : List (List UInt8)} (h : s.Holds g [])
    (hfit : Gather.Within (gatherRules side) vectorMaxSize g reads) :
    ∃ s', s.receiveAll side reads = .ok (s', (Gather.feed (gatherRules side) g reads).2) ∧
      s'.Holds (Gather.feed (gatherRules side) g reads).1 [] := by
  induction reads generalizing s g with
  | nil => exact ⟨s, rfl, h⟩
  | cons bytes reads ih =>
      have hlen : s.packetBuffer.length + bytes.length ≤ vectorMaxSize := by
        have := hfit.1
        rw [List.length_append] at this
        rw [h.buffer, List.append_nil]
        exact this
      obtain ⟨s₁, hreceive, h₁⟩ := h.receive side hlen
      rw [staleAfter_nil] at h₁
      obtain ⟨s₂, hrest, h₂⟩ := ih h₁ hfit.2
      refine ⟨s₂, ?_, h₂⟩
      simp only [PacketBuffer.receiveAll, hreceive, hrest, Gather.feed_cons, bind, Except.bind,
        pure, Except.pure, ReceiveExit.packets_ofOutcome_nil]

/-- A list of reads that goes through kept the buffer below the largest size of a
vector. -/
theorem Holds.within_of_receiveAll {reads packets : List (List UInt8)} {s' : PacketBuffer}
    (h : s.Holds g []) (hrun : s.receiveAll side reads = .ok (s', packets)) :
    Gather.Within (gatherRules side) vectorMaxSize g reads := by
  induction reads generalizing s s' g packets with
  | nil => trivial
  | cons bytes reads ih =>
      by_cases hlen : s.packetBuffer.length + bytes.length ≤ vectorMaxSize
      · obtain ⟨s₁, hreceive, h₁⟩ := h.receive side hlen
        rw [staleAfter_nil] at h₁
        simp only [PacketBuffer.receiveAll, hreceive, bind, Except.bind] at hrun
        refine ⟨?_, ?_⟩
        · rw [h.buffer, List.append_nil] at hlen
          rw [List.length_append]
          exact hlen
        · cases hrest : s₁.receiveAll side reads with
          | error f =>
              rw [hrest] at hrun
              cases hrun
          | ok r => exact ih h₁ hrest
      · simp only [PacketBuffer.receiveAll, h.receive_of_lt (Nat.lt_of_not_le hlen), bind,
          Except.bind] at hrun
        cases hrun

end PacketBuffer

end AsioChat
