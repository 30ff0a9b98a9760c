import AsioChat.Lib.Crc
import AsioChat.Lib.LittleEndian

/-!
# The Packet Format

The shared part of client and server: the packet identifiers and limits, the packet
header with its checksum, and `build_packet`. A packet on the wire is the twelve bytes
of a `packet_header` followed by `content_size_` content bytes; the header is read and
written in place, by casting the address of its first byte, so it is modelled in its
x86 memory layout: `id_` at 0, two alignment bytes, `content_size_` at 4, `crc_` at 8,
all little endian. The checksum covers the first eight of these bytes, the alignment
bytes included, whatever they hold.

`size_t` and `uint32_t` are both 32 bits wide on the one configured platform, so
`getPacketSize` is a sum modulo `2 ^ 32`.

## Main results

* `PacketHeader.toBytes_ofBytes`, `PacketHeader.ofBytes_toBytes_append`: reading and
  writing a header in place are inverse to each other.
* `packetOf_eq`, `ofBytes_packetOf`: a built packet is its header and its content.
* `getPacketSize_packetOf`: the size that the header of a packet announces is its length.
* `builtHeader_crc`: the header of a built packet passes the check of its receivers,
  whatever the freshly allocated memory held.
-/

namespace AsioChat

/-- `MAX_RECEIVE_BUFFER_LEN`: the size of the client's `receive_buffer_`. -/
def maxReceiveBufferLen : ℕ := 10

/-- `MAX_CHAT_MESSAGE_LEN`: the largest content the server accepts in a
`REQUEST_CHAT`. -/
def maxChatMessageLen : UInt32 := 20

/-- The packet identifiers of the protocol. -/
inductive Packets
  | requestLogin
  | replyLogin
  | requestChat
  | noticeChat
  deriving DecidableEq, Repr

/-- The number an identifier is sent as. -/
def Packets.toId : Packets → UInt16
  | requestLogin => 1
  | replyLogin => 2
  | requestChat => 6
  | noticeChat => 7

/-! ### The checksum object -/

/-- `boost::crc_32_type`: the remainder of a reflected CRC-32. -/
structure Crc32 where
  rem : BitVec 32
  deriving DecidableEq, Repr

namespace Crc32

/-- The polynomial `0x04C11DB7` in reflected bit order. -/
def poly : BitVec 32 := 0xEDB88320#32

/-- A freshly constructed or reset object. -/
def initial : Crc32 := ⟨0xFFFFFFFF#32⟩

/-- `process_bytes`: fold bytes into the remainder. -/
def processBytes (crc : Crc32) (bs : List UInt8) : Crc32 :=
  ⟨Crc.fold poly crc.rem bs⟩

/-- `checksum`: read the remainder, with the final complement. -/
def checksum (crc : Crc32) : UInt32 :=
  UInt32.ofBitVec (crc.rem ^^^ 0xFFFFFFFF#32)

/-- `reset`: restore the initial remainder. -/
def reset (_ : Crc32) : Crc32 := initial

/-- Bytes may be folded in piece by piece. -/
theorem processBytes_append (crc : Crc32) (as bs : List UInt8) :
    crc.processBytes (as ++ bs) = (crc.processBytes as).processBytes bs :=
  congrArg Crc32.mk (Crc.fold_append poly crc.rem as bs)

-- the check value of the standard CRC-32: the checksum of the ASCII digits 1 to 9
example : (initial.processBytes [49, 50, 51, 52, 53, 54, 55, 56, 57]).checksum = 0xCBF43926 := by
  decide +kernel

end Crc32

/-! ### The header -/

/-- `sizeof(packet_header)`. -/
def headerSize : UInt32 := 12

/-- The size of a header. -/
@[simp] theorem toNat_headerSize : headerSize.toNat = 12 := rfl

/-- `packet_header`, with the two alignment bytes between `id_` and `content_size_`. -/
structure PacketHeader where
  id : UInt16
  padding : UInt16
  contentSize : UInt32
  crc : UInt32
  deriving DecidableEq, Repr

namespace PacketHeader

/-- The twelve bytes of a header in memory. -/
def toBytes (h : PacketHeader) : List UInt8 :=
  LittleEndian.bytes 2 h.id.toNat ++ LittleEndian.bytes 2 h.padding.toNat ++
    LittleEndian.bytes 4 h.contentSize.toNat ++ LittleEndian.bytes 4 h.crc.toNat

/-- The header at the front of some memory: `reinterpret_cast<packet_header*>`. -/
def ofBytes (bs : List UInt8) : PacketHeader where
  id := UInt16.ofNat (LittleEndian.value (bs.take 2))
  padding := UInt16.ofNat (LittleEndian.value ((bs.drop 2).take 2))
  contentSize := UInt32.ofNat (LittleEndian.value ((bs.drop 4).take 4))
  crc := UInt32.ofNat (LittleEndian.value ((bs.drop 8).take 4))

/-- `get_packet_size`: header and content together, modulo `2 ^ 32`. -/
def getPacketSize (h : PacketHeader) : UInt32 :=
  h.contentSize + headerSize

/-- `calculate_crc` on the global object `crc`: fold in the bytes before `crc_`, read the
checksum, reset the object. The call returns the checksum and leaves the object behind. -/
def calculateCrc (h : PacketHeader) (crc : Crc32) : UInt32 × Crc32 :=
  let crc := crc.processBytes (h.toBytes.take 8)
  let ret := crc.checksum
  let crc := crc.reset
  (ret, crc)

/-- What `calculate_crc` returns on a freshly reset object, which is how every call finds
it that does not overlap another one (`calculateCrc_snd`). -/
def freshCrc (h : PacketHeader) : UInt32 :=
  (h.calculateCrc Crc32.initial).1

/-- Every call leaves the object freshly reset. -/
@[simp] theorem calculateCrc_snd (h : PacketHeader) (crc : Crc32) :
    (h.calculateCrc crc).2 = Crc32.initial := rfl

/-- A header takes twelve bytes. -/
@[simp] theorem length_toBytes (h : PacketHeader) : h.toBytes.length = 12 := by
  simp [toBytes]

/-- The bytes the checksum covers. -/
theorem take_toBytes (h : PacketHeader) :
    h.toBytes.take 8 = LittleEndian.bytes 2 h.id.toNat ++ LittleEndian.bytes 2 h.padding.toNat ++
      LittleEndian.bytes 4 h.contentSize.toNat := by
  rw [toBytes, List.take_left' (by simp)]

/-- Reading back a written header: nothing is lost. -/
@[simp] theorem ofBytes_toBytes_append (h : PacketHeader) (bs : List UInt8) :
    ofBytes (h.toBytes ++ bs) = h := by
  obtain ⟨id, padding, contentSize, crc⟩ := h
  have h2 : ∀ x : UInt16, x.toNat < 256 ^ 2 := fun x => x.toNat_lt
  have h4 : ∀ x : UInt32, x.toNat < 256 ^ 4 := fun x => x.toNat_lt
  simp (disch := simp) [ofBytes, toBytes, List.drop_append, List.drop_eq_nil_of_le,
    LittleEndian.value_bytes_of_lt (h2 _), LittleEndian.value_bytes_of_lt (h4 _)]

/-- Writing back a read header: the twelve bytes are unchanged. -/
theorem toBytes_ofBytes {bs : List UInt8} (h : 12 ≤ bs.length) :
    (ofBytes bs).toBytes = bs.take 12 := by
  have hid : (bs.take 2).length = 2 := by simp; omega
  have hpad : ((bs.drop 2).take 2).length = 2 := by simp; omega
  have hsize : ((bs.drop 4).take 4).length = 4 := by simp; omega
  have hcrc : ((bs.drop 8).take 4).length = 4 := by simp; omega
  have nid := UInt16.toNat_ofNat_of_lt' (LittleEndian.value_lt_of_length hid)
  have npad := UInt16.toNat_ofNat_of_lt' (LittleEndian.value_lt_of_length hpad)
  have nsize := UInt32.toNat_ofNat_of_lt' (LittleEndian.value_lt_of_length hsize)
  have ncrc := UInt32.toNat_ofNat_of_lt' (LittleEndian.value_lt_of_length hcrc)
  simp only [toBytes, ofBytes, nid, npad, nsize, ncrc,
    LittleEndian.bytes_value_of_length hid, LittleEndian.bytes_value_of_length hpad,
    LittleEndian.bytes_value_of_length hsize, LittleEndian.bytes_value_of_length hcrc]
  calc bs.take 2 ++ (bs.drop 2).take 2 ++ (bs.drop 4).take 4 ++ (bs.drop 8).take 4
      = bs.take (2 + 2 + 4 + 4) := by
        simp only [List.take_add, List.append_assoc]
    _ = bs.take 12 := rfl

/-- The checksum does not look at the `crc_` field. -/
theorem freshCrc_congr {h₁ h₂ : PacketHeader} (hid : h₁.id = h₂.id)
    (hpad : h₁.padding = h₂.padding) (hsize : h₁.contentSize = h₂.contentSize) :
    h₁.freshCrc = h₂.freshCrc := by
  rw [freshCrc, freshCrc, calculateCrc, calculateCrc, take_toBytes, take_toBytes, hid, hpad, hsize]

/-- A header reads only its own twelve bytes. -/
theorem ofBytes_append {as : List UInt8} (h : 12 ≤ as.length) (bs : List UInt8) :
    ofBytes (as ++ bs) = ofBytes as := by
  have hsplit : as ++ bs = (ofBytes as).toBytes ++ (as.drop 12 ++ bs) := by
    rw [toBytes_ofBytes h, ← List.append_assoc, List.take_append_drop]
  rw [hsplit, ofBytes_toBytes_append]

/-- The packet size, as the sum it is meant to be reduced modulo `2 ^ 32`. -/
theorem toNat_getPacketSize (h : PacketHeader) :
    h.getPacketSize.toNat = (h.contentSize.toNat + 12) % 2 ^ 32 := by
  rw [getPacketSize, UInt32.toNat_add, toNat_headerSize]

/-- Where the sum does not wrap, the packet size is header and content together. -/
theorem toNat_getPacketSize_of_lt {h : PacketHeader} (hfit : h.contentSize.toNat + 12 < 2 ^ 32) :
    h.getPacketSize.toNat = h.contentSize.toNat + 12 := by
  rw [toNat_getPacketSize, Nat.mod_eq_of_lt hfit]

end PacketHeader

/-! ### Building packets -/

/-- `new byte[n]`: memory with arbitrary contents `fresh`. -/
def newBytes (fresh : ℕ → UInt8) (n : UInt32) : List UInt8 :=
  (List.range n.toNat).map fresh

/-- As many bytes are allocated as are asked for. -/
@[simp] theorem length_newBytes (fresh : ℕ → UInt8) (n : UInt32) :
    (newBytes fresh n).length = n.toNat := by
  simp [newBytes]

/-- `build_packet`: allocate header and content, and fill in the header in place. The
alignment bytes and the content keep what the memory held. -/
def buildPacket (fresh : ℕ → UInt8) (id contentSize : UInt32) : List UInt8 :=
  let packet := newBytes fresh (contentSize + headerSize)
  let header := PacketHeader.ofBytes packet
  let header := { header with id := id.toUInt16 }
  let header := { header with contentSize := contentSize }
  let header := { header with crc := header.freshCrc }
  header.toBytes ++ packet.drop 12

/-- `SerializeToArray(packet.get() + header_size, content_size)`: overwrite the bytes
behind the header with the content. -/
def writeContent (packet content : List UInt8) : List UInt8 :=
  packet.take 12 ++ content ++ packet.drop (12 + content.length)

/-- A packet as client and server build it: `build_packet` for the size of the content,
then the content written behind the header. -/
def packetOf (fresh : ℕ → UInt8) (id : UInt32) (content : List UInt8) : List UInt8 :=
  writeContent (buildPacket fresh id (UInt32.ofNat content.length)) content

/-- The header `build_packet` writes. -/
def builtHeader (fresh : ℕ → UInt8) (id contentSize : UInt32) : PacketHeader :=
  PacketHeader.ofBytes (buildPacket fresh id contentSize)

/-- `build_packet` writes the header and leaves the rest as it is allocated. -/
theorem buildPacket_eq (fresh : ℕ → UInt8) (id contentSize : UInt32) :
    buildPacket fresh id contentSize = (builtHeader fresh id contentSize).toBytes ++
      (newBytes fresh (contentSize + headerSize)).drop 12 := by
  simp only [builtHeader, buildPacket, PacketHeader.ofBytes_toBytes_append]

/-- The header has the identifier asked for. -/
@[simp] theorem builtHeader_id (fresh : ℕ → UInt8) (id contentSize : UInt32) :
    (builtHeader fresh id contentSize).id = id.toUInt16 := by
  simp [builtHeader, buildPacket]

/-- The header has the size asked for. -/
@[simp] theorem builtHeader_contentSize (fresh : ℕ → UInt8) (id contentSize : UInt32) :
    (builtHeader fresh id contentSize).contentSize = contentSize := by
  simp [builtHeader, buildPacket]

/-- The header `build_packet` writes passes the check of its receivers, whatever the
memory held. -/
@[simp] theorem builtHeader_crc (fresh : ℕ → UInt8) (id contentSize : UInt32) :
    (builtHeader fresh id contentSize).crc = (builtHeader fresh id contentSize).freshCrc := by
  simp only [builtHeader, buildPacket, PacketHeader.ofBytes_toBytes_append]
  exact PacketHeader.freshCrc_congr rfl rfl rfl

/-- A built packet is its header followed by its content. -/
theorem packetOf_eq {content : List UInt8} (fresh : ℕ → UInt8) (id : UInt32)
    (hfit : content.length + 12 < 2 ^ 32) :
    packetOf fresh id content =
      (builtHeader fresh id (UInt32.ofNat content.length)).toBytes ++ content := by
  have hsize : (UInt32.ofNat content.length + headerSize).toNat = content.length + 12 := by
    rw [UInt32.toNat_add, UInt32.toNat_ofNat', toNat_headerSize]
    omega
  have htake : (buildPacket fresh id (UInt32.ofNat content.length)).take 12 =
      (builtHeader fresh id (UInt32.ofNat content.length)).toBytes := by
    rw [buildPacket_eq, List.take_left' (PacketHeader.length_toBytes _)]
  have hdrop : (buildPacket fresh id (UInt32.ofNat content.length)).drop (12 + content.length) =
      [] := by
    apply List.drop_eq_nil_of_le
    rw [buildPacket_eq, List.length_append, PacketHeader.length_toBytes, List.length_drop,
      length_newBytes, hsize]
    omega
  rw [packetOf, writeContent, htake, hdrop, List.append_nil]

/-- The header read back from a packet. -/
theorem ofBytes_packetOf {content : List UInt8} (fresh : ℕ → UInt8) (id : UInt32)
    (hfit : content.length + 12 < 2 ^ 32) :
    PacketHeader.ofBytes (packetOf fresh id content) =
      builtHeader fresh id (UInt32.ofNat content.length) := by
  rw [packetOf_eq fresh id hfit, PacketHeader.ofBytes_toBytes_append]

/-- A packet is twelve bytes longer than its content. -/
theorem length_packetOf {content : List UInt8} (fresh : ℕ → UInt8) (id : UInt32)
    (hfit : content.length + 12 < 2 ^ 32) :
    (packetOf fresh id content).length = content.length + 12 := by
  rw [packetOf_eq fresh id hfit, List.length_append, PacketHeader.length_toBytes, Nat.add_comm]

/-- A packet announces the length of its content. -/
theorem contentSize_packetOf {content : List UInt8} (fresh : ℕ → UInt8) (id : UInt32)
    (hfit : content.length + 12 < 2 ^ 32) :
    (PacketHeader.ofBytes (packetOf fresh id content)).contentSize.toNat = content.length := by
  rw [ofBytes_packetOf fresh id hfit, builtHeader_contentSize]
  exact UInt32.toNat_ofNat_of_lt' (Nat.lt_of_le_of_lt (Nat.le_add_right _ 12) hfit)

/-- `get_packet_size` of a packet is its length. -/
theorem getPacketSize_packetOf {content : List UInt8} (fresh : ℕ → UInt8) (id : UInt32)
    (hfit : content.length + 12 < 2 ^ 32) :
    (PacketHeader.ofBytes (packetOf fresh id content)).getPacketSize.toNat =
      (packetOf fresh id content).length := by
  have hsize := contentSize_packetOf fresh id hfit
  rw [PacketHeader.toNat_getPacketSize_of_lt (by omega), hsize, length_packetOf fresh id hfit]

end AsioChat
