import AsioChat.Client

/-!
# Disturbances

What the steps of the client and of the server do not show, because it lies within them. The two
threads of the client share the object `crc` without a lock, and calls of `calculate_crc` that
overlap return something else than the checksums of their headers (`CrcRace`). And a packet is
freed as soon as its write is started (`InFlight`), so that its memory may hold something else by
the time its bytes are taken. Here are the steps as they are when that happens, with any value
returned and anything in the memory; without it they are the steps there are (`stepRaced_none`).

The server has one thread, so that nothing comes between the uses of its `crc`.

## Main definitions

* `ChatClient.stepRaced`: a step of the client, with what `calculate_crc` returns in it.
* `Write.bytesFrom`: the bytes of a write, with what is in the memory when they are taken.
-/

namespace AsioChat

/-- The bytes of a write. -/
def Write.bytes (w : Write) : List UInt8 := (w.data.getD []).take w.size.toNat

/-- The bytes of a write as they are taken: those of the packet, or what is in its memory if that
has come to hold something else. -/
def Write.bytesFrom (freed : Option (ℕ → UInt8)) (w : Write) : List UInt8 :=
  match freed with
  | none => w.bytes
  | some memory => newBytes memory w.size

/-- A packet that is not freed is written. -/
@[simp] theorem Write.bytesFrom_none : Write.bytesFrom none = Write.bytes := rfl

/-- A packet with the checksum that `calculate_crc` returned to `build_packet`, if that is another
one. -/
def withCrc (raced : Option UInt32) (packet : List UInt8) : List UInt8 :=
  match raced with
  | none => packet
  | some crc => { PacketHeader.ofBytes packet with crc := crc }.toBytes ++ packet.drop 12

namespace ChatClient

/-- The check of a header, with what `calculate_crc` returns if that is not its checksum. -/
def checkHeaderRaced (raced : Option UInt32) (header : PacketHeader) : Bool :=
  raced.getD header.freshCrc = header.crc

/-- `ChatClient::handle_receive` for a read that succeeded, with that check. -/
def handleReceiveRaced (raced : Option UInt32) (bytes : List UInt8) (c : ChatClient) :
    Except Fault ChatClient := do
  let (buffer, exit) ← c.toPacketBuffer.receiveWith (checkHeaderRaced raced) bytes
  let c := { c with toPacketBuffer := buffer }
  let c ← match exit with
    | .processed data => c.processPacket data
    | _ => pure c
  return c.postReceive

/-- A branch of `main`, with that checksum in the packet. -/
def sendRaced (raced : Option UInt32) (fresh : ℕ → UInt8) (c : ChatClient) :
    Except Fault ChatClient :=
  match c.input with
  | .branching inputMsg loggedIn => do
    let (pkt, size) ←
      if loggedIn = false then buildLogin fresh inputMsg else buildChat fresh inputMsg
    let pkt := withCrc raced pkt
    let c := c.post size pkt
    return { c.record (.posted pkt) with input := .reading }
  | _ => .ok c

/-- One step of one of the threads, with what `calculate_crc` returns in it if the other thread
is in it too. -/
def stepRaced (raced : Option UInt32) (c : ChatClient) : ClientEvent → Except Fault ChatClient
  | .readDone bytes => { c with reading := c.reading - 1 }.handleReceiveRaced raced bytes
  | .send fresh => c.sendRaced raced fresh
  | e => c.step e

/-- **Without the other thread it is the step.** -/
theorem stepRaced_none (c : ChatClient) (e : ClientEvent) : c.stepRaced none e = c.step e := by
  cases e with
  | readDone bytes => rfl
  | send fresh => rfl
  | connectDone error => rfl
  | readFailed => rfl
  | writeDone => rfl
  | writeResumed => rfl
  | getline line => rfl
  | branch => rfl

/-- A reply of the server passes the check, but not if `calculate_crc` returns something else. -/
example :
    checkHeaderRaced none (builtHeader (fun _ => 0) 2 2) = true ∧
      checkHeaderRaced (some 0) (builtHeader (fun _ => 0) 2 2) = false := by
  decide +kernel

end ChatClient

end AsioChat
