import AsioChat.Lib.CodedInput
import AsioChat.Receive

/-!
# The Messages

The messages of `packet.proto` as the generated code reads and writes them: every field
is required, and is absent until it was set or read. Fields a message does not know are
skipped; what the generated code keeps of them is never looked at, so it is left out.

Client and server call it on memory behind a header, with sizes in `int`: `parseFromArray`
and `intSize` are these calls, with the faults they may end in. A size that is negative as an
`int` is not refused. The end of the array then lies before its beginning, and what is behind the
header is read until a tag of zero or one that cannot be read, the end of a group or a field that
cannot be read ends the reading, or until it goes wrong.

## Main results

* `parseFromArray_eq`: what `ParseFromArray` does where the size is not negative and the
  memory is there.
* `parseFromArray_nil`, `parseFromArray_zero`: what it does without memory, and at a zero byte,
  whatever the size.
* `LoginRequest.parse_serialize`, `LoginResponse.parse_serialize`,
  `ChatRequest.parse_serialize`, `ChatNotify.parse_serialize`: a message that was written
  is read back, whole.
* `LoginRequest.length_serialize` and its siblings: `ByteSize` is the number of bytes
  written.
* `LoginRequest.shrinks_mergeField` and its siblings: reading a field consumes input, so
  that the bound on the number of fields is never reached (`Wire.parse_eq`).
-/

namespace AsioChat

open Wire

/-- The largest length of a string that `ReadString` accepts. -/
def maxStringLen : ℕ := 2 ^ 31

/-- Writing a string field, if it is present. -/
def writeStringField (number : ℕ) : Option (List UInt8) → List UInt8
  | none => []
  | some s => writeString number s

/-- The size of a string field, if it is present. -/
def stringFieldSize : Option (List UInt8) → ℕ
  | none => 0
  | some s => stringSize s

/-- A string field is written in `stringFieldSize` bytes. -/
theorem length_writeStringField {value : Option (List UInt8)} (number : ℕ)
    (h : (value.getD []).length < maxStringLen) :
    (writeStringField number value).length = stringFieldSize value := by
  cases value with
  | none => rfl
  | some s =>
      refine length_writeString number (Nat.lt_trans h ?_)
      decide

/-- A string whose field has a size that fits into an `int` can be read back. -/
theorem length_lt_of_stringFieldSize {value : Option (List UInt8)}
    (h : stringFieldSize value < 2 ^ 31) : (value.getD []).length < maxStringLen := by
  cases value with
  | none => decide
  | some s =>
      simp only [stringFieldSize, stringSize] at h
      simp only [Option.getD_some, maxStringLen]
      omega

/-! ### Sizes and memory -/

/-- Reading goes wrong outside the memory, or by throwing. -/
def Fault.ofTrap : Wire.Trap → Fault
  | .outside => .outOfRange
  | .tooLong => .lengthError

/-- How far the address `data + size` is from `data`, where `memory` is what there is from `data`
on. Addresses have 32 bits: if `size` is negative as an `int` and there is not so much memory, the
address lies before `data`. -/
def bufferEnd (memory : List UInt8) (size : UInt32) : ℤ :=
  if size.toNat < 2 ^ 31 ∨ size.toNat ≤ memory.length then size.toNat
  else size.toNat - (2 ^ 32 : ℕ)

/-- `ParseFromArray(data, size)`, where `memory` is what there is from `data` on. -/
def parseFromArray {M : Type} (message : Message M) (memory : List UInt8) (size : UInt32) :
    Except Fault (M × Bool) :=
  (message.parseAt ((size.toNat : ℤ).bmod (2 ^ 32)) ⟨memory, bufferEnd memory size⟩).mapError
    Fault.ofTrap

/-- `ParseFromArray` on the content that the header of a packet announces. -/
def parseContent {M : Type} (message : Message M) (data : List UInt8) : Except Fault (M × Bool) :=
  parseFromArray message (data.drop 12) (PacketHeader.ofBytes data).contentSize

/-- `ByteSize` computes in `int`, whose overflow is undefined. -/
def intSize (size : ℕ) : Except Fault UInt32 :=
  if size < 2 ^ 31 then .ok (UInt32.ofNat size) else .error .intOverflow

/-- **What `ParseFromArray` does** where the size is not negative and the memory is there: it reads
what the size says. -/
theorem parseFromArray_eq {M : Type} (message : Message M) {memory : List UInt8} {size : UInt32}
    (hsize : size.toNat < 2 ^ 31) (hmemory : size.toNat ≤ memory.length) :
    parseFromArray message memory size = .ok (message.parse (memory.take size.toNat)) := by
  have hlength : (memory.take size.toNat).length = size.toNat := List.length_take_of_le hmemory
  have hwithin := message.parseAt_within (hlength.trans_lt hsize) (memory.drop size.toNat)
  have hend : bufferEnd memory size = size.toNat := if_pos (.inl hsize)
  rw [Cursor.within, List.take_append_drop, hlength] at hwithin
  rw [parseFromArray, hend, Int.bmod_eq_of_le (by omega) (by omega), hwithin]
  rfl

/-- The end of an array of a size other than zero is not where it begins. -/
theorem bufferEnd_ne_zero {size : UInt32} (h : size.toNat ≠ 0) (memory : List UInt8) :
    bufferEnd memory size ≠ 0 := by
  have hlt := size.toNat_lt
  rw [bufferEnd]
  split <;> omega

/-- Where there is nothing, `ParseFromArray` reads outside the memory. -/
theorem parseFromArray_nil {M : Type} (message : Message M) {size : UInt32}
    (hsize : size.toNat ≠ 0) : parseFromArray message [] size = .error .outOfRange := by
  rw [parseFromArray, message.parseAt_nil (bufferEnd_ne_zero hsize _)]
  rfl

/-- A zero byte ends the reading, also where the size is negative. -/
theorem parseFromArray_zero {M : Type} (message : Message M) {size : UInt32}
    (hsize : size.toNat ≠ 0) (memory : List UInt8) :
    parseFromArray message (0 :: memory) size = .ok (message.cleared, false) := by
  rw [parseFromArray, message.parseAt_zero (bufferEnd_ne_zero hsize _)]
  rfl

/-- The content of a built packet is read, whatever stands behind the packet. -/
theorem parseContent_packetOf {M : Type} (message : Message M) {content : List UInt8}
    (fresh : ℕ → UInt8) (id : UInt32) (stale : List UInt8) (hfit : content.length < 2 ^ 31) :
    parseContent message (packetOf fresh id content ++ stale) = .ok (message.parse content) := by
  have hfit' : content.length + 12 < 2 ^ 32 := by omega
  have hlength := length_packetOf fresh id hfit'
  have hsize := contentSize_packetOf fresh id hfit'
  have hheader : PacketHeader.ofBytes (packetOf fresh id content ++ stale) =
      PacketHeader.ofBytes (packetOf fresh id content) :=
    PacketHeader.ofBytes_append (by omega) stale
  have hdrop : (packetOf fresh id content ++ stale).drop 12 = content ++ stale := by
    rw [packetOf_eq fresh id hfit', List.append_assoc,
      List.drop_left' (PacketHeader.length_toBytes _)]
  have hmemory : content.length ≤ (content ++ stale).length := by
    rw [List.length_append]
    exact Nat.le_add_right _ _
  rw [parseContent, hheader, hdrop,
    parseFromArray_eq message (hsize.trans_lt hfit) (hsize.trans_le hmemory), hsize,
    List.take_left]

/-- `ByteSize` is exact while it fits into an `int`. -/
theorem intSize_eq_ok {size : ℕ} {n : UInt32} :
    intSize size = .ok n ↔ size < 2 ^ 31 ∧ n = UInt32.ofNat size := by
  rw [intSize]
  split
  · rename_i h
    exact ⟨fun heq => ⟨h, (Except.ok.inj heq).symm⟩, fun ⟨_, heq⟩ => congrArg Except.ok heq.symm⟩
  · rename_i h
    exact ⟨fun heq => (nomatch heq), fun ⟨hlt, _⟩ => absurd hlt h⟩

/-! ### `LoginRequest` -/

/-- `required string name = 1`. -/
structure LoginRequest where
  nameField : Option (List UInt8)
  deriving DecidableEq, Repr

namespace LoginRequest

/-- A cleared message. -/
def cleared : LoginRequest := ⟨none⟩

/-- `name()`. -/
def name (m : LoginRequest) : List UInt8 := m.nameField.getD []

/-- `set_name`. -/
def setName (m : LoginRequest) (value : List UInt8) : LoginRequest :=
  { m with nameField := some value }

/-- The `switch` of `MergePartialFromCodedStream`. -/
def mergeField (m : LoginRequest) (tag : ℕ) (input : List UInt8) : Wire.Field LoginRequest :=
  if fieldNumber tag = 1 ∧ wireType tag = lengthDelimited then
    readStringField m.nameField (fun value => { m with nameField := value }) true input
  else .unknown

/-- Reading a field of it adds no bytes. -/
theorem shrinks_mergeField : Shrinks mergeField := by
  intro m tag input m' rest b h
  rw [mergeField] at h
  split at h
  · exact length_le_of_readStringField h
  · cases h

/-- The same `switch`, in memory. -/
def mergeFieldAt (m : LoginRequest) (tag : ℕ) (c : Cursor) :
    Except Trap (Cursor.Field LoginRequest) :=
  if fieldNumber tag = 1 ∧ wireType tag = lengthDelimited then
    c.readStringField m.nameField (fun value => { m with nameField := value }) true
  else .ok .unknown

/-- From memory, a field of it is read as from the list of its bytes. -/
theorem mergeFieldAt_within (m : LoginRequest) (tag : ℕ) {input : List UInt8}
    (h : input.length < 2 ^ 31) (stale : List UInt8) :
    mergeFieldAt m tag (.within input stale) = .ok (.within stale (mergeField m tag input)) := by
  rw [mergeFieldAt, mergeField]
  split
  · exact Cursor.readStringField_within h _ _ _ stale
  · rfl

/-- `IsInitialized`. -/
def isInitialized (m : LoginRequest) : Bool := m.nameField.isSome

/-- The message type. -/
def messageType : Message LoginRequest :=
  ⟨mergeField, mergeFieldAt, isInitialized, cleared, shrinks_mergeField, mergeFieldAt_within⟩

/-- `ParseFromArray`. -/
def parse (input : List UInt8) : LoginRequest × Bool :=
  Wire.parse mergeField isInitialized cleared input

/-- The parser of the message type is `parse`. -/
@[simp] theorem parse_messageType (input : List UInt8) : messageType.parse input = parse input :=
  rfl

/-- `SerializeWithCachedSizesToArray`. -/
def serialize (m : LoginRequest) : List UInt8 := writeStringField 1 m.nameField

/-- `ByteSize`. -/
def byteSize (m : LoginRequest) : ℕ := stringFieldSize m.nameField

/-- It is written in `ByteSize` bytes. -/
theorem length_serialize {m : LoginRequest} (h : m.name.length < maxStringLen) :
    m.serialize.length = m.byteSize :=
  length_writeStringField 1 h

/-- **A message that was written is read back.** -/
theorem parse_serialize {m : LoginRequest} (hinit : m.isInitialized = true)
    (h : m.name.length < maxStringLen) : parse m.serialize = (m, true) := by
  obtain ⟨nameField⟩ := m
  obtain ⟨s, rfl⟩ := Option.isSome_iff_exists.mp hinit
  exact parse_writeString (by decide) (by decide)
    ((if_pos ⟨rfl, rfl⟩).trans (readStringField_writeString h _ _ _ _))

end LoginRequest

/-! ### `LoginResponse` -/

/-- `required bool success = 2`. -/
structure LoginResponse where
  successField : Option Bool
  deriving DecidableEq, Repr

namespace LoginResponse

/-- A cleared message. -/
def cleared : LoginResponse := ⟨none⟩

/-- `success()`. -/
def success (m : LoginResponse) : Bool := m.successField.getD false

/-- `set_success`. -/
def setSuccess (m : LoginResponse) (value : Bool) : LoginResponse :=
  { m with successField := some value }

/-- The `switch` of `MergePartialFromCodedStream`. -/
def mergeField (m : LoginResponse) (tag : ℕ) (input : List UInt8) : Wire.Field LoginResponse :=
  if fieldNumber tag = 2 ∧ wireType tag = varint then
    readBoolField m (fun value => { m with successField := some value }) true input
  else .unknown

/-- Reading a field of it adds no bytes. -/
theorem shrinks_mergeField : Shrinks mergeField := by
  intro m tag input m' rest b h
  rw [mergeField] at h
  split at h
  · exact length_le_of_readBoolField h
  · cases h

/-- The same `switch`, in memory. -/
def mergeFieldAt (m : LoginResponse) (tag : ℕ) (c : Cursor) :
    Except Trap (Cursor.Field LoginResponse) :=
  if fieldNumber tag = 2 ∧ wireType tag = varint then
    c.readBoolField m (fun value => { m with successField := some value }) true
  else .ok .unknown

/-- From memory, a field of it is read as from the list of its bytes. -/
theorem mergeFieldAt_within (m : LoginResponse) (tag : ℕ) {input : List UInt8}
    (_ : input.length < 2 ^ 31) (stale : List UInt8) :
    mergeFieldAt m tag (.within input stale) = .ok (.within stale (mergeField m tag input)) := by
  rw [mergeFieldAt, mergeField]
  split
  · exact Cursor.readBoolField_within _ _ _ input stale
  · rfl

/-- `IsInitialized`. -/
def isInitialized (m : LoginResponse) : Bool := m.successField.isSome

/-- The message type. -/
def messageType : Message LoginResponse :=
  ⟨mergeField, mergeFieldAt, isInitialized, cleared, shrinks_mergeField, mergeFieldAt_within⟩

/-- `ParseFromArray`. -/
def parse (input : List UInt8) : LoginResponse × Bool :=
  Wire.parse mergeField isInitialized cleared input

/-- The parser of the message type is `parse`. -/
@[simp] theorem parse_messageType (input : List UInt8) : messageType.parse input = parse input :=
  rfl

/-- `SerializeWithCachedSizesToArray`. -/
def serialize (m : LoginResponse) : List UInt8 :=
  match m.successField with
  | none => []
  | some value => [UInt8.ofNat (makeTag 2 varint), if value then 1 else 0]

/-- `ByteSize`. -/
def byteSize (m : LoginResponse) : ℕ :=
  match m.successField with
  | none => 0
  | some _ => 1 + 1

/-- It is written in `ByteSize` bytes. -/
theorem length_serialize (m : LoginResponse) : m.serialize.length = m.byteSize := by
  obtain ⟨_ | value⟩ := m <;> rfl

/-- **A message that was written is read back.** -/
theorem parse_serialize {m : LoginResponse} (hinit : m.isInitialized = true) :
    parse m.serialize = (m, true) := by
  obtain ⟨_ | value⟩ := m
  · cases hinit
  · cases value <;> decide +kernel

end LoginResponse

/-! ### `ChatRequest` -/

/-- `required string message = 3`. -/
structure ChatRequest where
  messageField : Option (List UInt8)
  deriving DecidableEq, Repr

namespace ChatRequest

/-- A cleared message. -/
def cleared : ChatRequest := ⟨none⟩

/-- `message()`. -/
def message (m : ChatRequest) : List UInt8 := m.messageField.getD []

/-- `set_message`. -/
def setMessage (m : ChatRequest) (value : List UInt8) : ChatRequest :=
  { m with messageField := some value }

/-- The `switch` of `MergePartialFromCodedStream`. -/
def mergeField (m : ChatRequest) (tag : ℕ) (input : List UInt8) : Wire.Field ChatRequest :=
  if fieldNumber tag = 3 ∧ wireType tag = lengthDelimited then
    readStringField m.messageField (fun value => { m with messageField := value }) true input
  else .unknown

/-- Reading a field of it adds no bytes. -/
theorem shrinks_mergeField : Shrinks mergeField := by
  intro m tag input m' rest b h
  rw [mergeField] at h
  split at h
  · exact length_le_of_readStringField h
  · cases h

/-- The same `switch`, in memory. -/
def mergeFieldAt (m : ChatRequest) (tag : ℕ) (c : Cursor) :
    Except Trap (Cursor.Field ChatRequest) :=
  if fieldNumber tag = 3 ∧ wireType tag = lengthDelimited then
    c.readStringField m.messageField (fun value => { m with messageField := value }) true
  else .ok .unknown

/-- From memory, a field of it is read as from the list of its bytes. -/
theorem mergeFieldAt_within (m : ChatRequest) (tag : ℕ) {input : List UInt8}
    (h : input.length < 2 ^ 31) (stale : List UInt8) :
    mergeFieldAt m tag (.within input stale) = .ok (.within stale (mergeField m tag input)) := by
  rw [mergeFieldAt, mergeField]
  split
  · exact Cursor.readStringField_within h _ _ _ stale
  · rfl

/-- `IsInitialized`. -/
def isInitialized (m : ChatRequest) : Bool := m.messageField.isSome

/-- The message type. -/
def messageType : Message ChatRequest :=
  ⟨mergeField, mergeFieldAt, isInitialized, cleared, shrinks_mergeField, mergeFieldAt_within⟩

/-- `ParseFromArray`. -/
def parse (input : List UInt8) : ChatRequest × Bool :=
  Wire.parse mergeField isInitialized cleared input

/-- The parser of the message type is `parse`. -/
@[simp] theorem parse_messageType (input : List UInt8) : messageType.parse input = parse input :=
  rfl

/-- `SerializeWithCachedSizesToArray`. -/
def serialize (m : ChatRequest) : List UInt8 := writeStringField 3 m.messageField

/-- `ByteSize`. -/
def byteSize (m : ChatRequest) : ℕ := stringFieldSize m.messageField

/-- It is written in `ByteSize` bytes. -/
theorem length_serialize {m : ChatRequest} (h : m.message.length < maxStringLen) :
    m.serialize.length = m.byteSize :=
  length_writeStringField 3 h

/-- **A message that was written is read back.** -/
theorem parse_serialize {m : ChatRequest} (hinit : m.isInitialized = true)
    (h : m.message.length < maxStringLen) : parse m.serialize = (m, true) := by
  obtain ⟨messageField⟩ := m
  obtain ⟨s, rfl⟩ := Option.isSome_iff_exists.mp hinit
  exact parse_writeString (by decide) (by decide)
    ((if_pos ⟨rfl, rfl⟩).trans (readStringField_writeString h _ _ _ _))

end ChatRequest

/-! ### `ChatNotify` -/

/-- `required string name = 4` and `required string message = 5`. -/
structure ChatNotify where
  nameField : Option (List UInt8)
  messageField : Option (List UInt8)
  deriving DecidableEq, Repr

namespace ChatNotify

/-- A cleared message. -/
def cleared : ChatNotify := ⟨none, none⟩

/-- `name()`. -/
def name (m : ChatNotify) : List UInt8 := m.nameField.getD []

/-- `message()`. -/
def message (m : ChatNotify) : List UInt8 := m.messageField.getD []

/-- `set_name`. -/
def setName (m : ChatNotify) (value : List UInt8) : ChatNotify :=
  { m with nameField := some value }

/-- `set_message`. -/
def setMessage (m : ChatNotify) (value : List UInt8) : ChatNotify :=
  { m with messageField := some value }

/-- The `switch` of `MergePartialFromCodedStream`. Only behind the last field is the end of
the input looked for. -/
def mergeField (m : ChatNotify) (tag : ℕ) (input : List UInt8) : Wire.Field ChatNotify :=
  if fieldNumber tag = 4 ∧ wireType tag = lengthDelimited then
    readStringField m.nameField (fun value => { m with nameField := value }) false input
  else if fieldNumber tag = 5 ∧ wireType tag = lengthDelimited then
    readStringField m.messageField (fun value => { m with messageField := value }) true input
  else .unknown

/-- Reading a field of it adds no bytes. -/
theorem shrinks_mergeField : Shrinks mergeField := by
  intro m tag input m' rest b h
  rw [mergeField] at h
  split at h
  · exact length_le_of_readStringField h
  · split at h
    · exact length_le_of_readStringField h
    · cases h

/-- The same `switch`, in memory. -/
def mergeFieldAt (m : ChatNotify) (tag : ℕ) (c : Cursor) :
    Except Trap (Cursor.Field ChatNotify) :=
  if fieldNumber tag = 4 ∧ wireType tag = lengthDelimited then
    c.readStringField m.nameField (fun value => { m with nameField := value }) false
  else if fieldNumber tag = 5 ∧ wireType tag = lengthDelimited then
    c.readStringField m.messageField (fun value => { m with messageField := value }) true
  else .ok .unknown

/-- From memory, a field of it is read as from the list of its bytes. -/
theorem mergeFieldAt_within (m : ChatNotify) (tag : ℕ) {input : List UInt8}
    (h : input.length < 2 ^ 31) (stale : List UInt8) :
    mergeFieldAt m tag (.within input stale) = .ok (.within stale (mergeField m tag input)) := by
  rw [mergeFieldAt, mergeField]
  split
  · exact Cursor.readStringField_within h _ _ _ stale
  · split
    · exact Cursor.readStringField_within h _ _ _ stale
    · rfl

/-- `IsInitialized`. -/
def isInitialized (m : ChatNotify) : Bool := m.nameField.isSome && m.messageField.isSome

/-- The message type. -/
def messageType : Message ChatNotify :=
  ⟨mergeField, mergeFieldAt, isInitialized, cleared, shrinks_mergeField, mergeFieldAt_within⟩

/-- `ParseFromArray`. -/
def parse (input : List UInt8) : ChatNotify × Bool :=
  Wire.parse mergeField isInitialized cleared input

/-- The parser of the message type is `parse`. -/
@[simp] theorem parse_messageType (input : List UInt8) : messageType.parse input = parse input :=
  rfl

/-- `SerializeWithCachedSizesToArray`. -/
def serialize (m : ChatNotify) : List UInt8 :=
  writeStringField 4 m.nameField ++ writeStringField 5 m.messageField

/-- `ByteSize`. -/
def byteSize (m : ChatNotify) : ℕ :=
  stringFieldSize m.nameField + stringFieldSize m.messageField

/-- It is written in `ByteSize` bytes. -/
theorem length_serialize {m : ChatNotify} (hname : m.name.length < maxStringLen)
    (hmessage : m.message.length < maxStringLen) : m.serialize.length = m.byteSize := by
  rw [serialize, List.length_append, length_writeStringField 4 hname,
    length_writeStringField 5 hmessage, byteSize]

/-- **A message that was written is read back.** -/
theorem parse_serialize {m : ChatNotify} (hinit : m.isInitialized = true)
    (hname : m.name.length < maxStringLen) (hmessage : m.message.length < maxStringLen) :
    parse m.serialize = (m, true) := by
  obtain ⟨nameField, messageField⟩ := m
  obtain ⟨hsome, hsome'⟩ := (Bool.and_eq_true _ _).mp hinit
  obtain ⟨s, rfl⟩ := Option.isSome_iff_exists.mp hsome
  obtain ⟨s', rfl⟩ := Option.isSome_iff_exists.mp hsome'
  exact parse_writeString_append (by decide) (by decide) (by decide) (by decide)
    ((if_pos ⟨rfl, rfl⟩).trans (readStringField_writeString hname _ _ _ _))
    ((if_neg (by decide)).trans
      ((if_pos ⟨rfl, rfl⟩).trans (readStringField_writeString hmessage _ _ _ _)))

end ChatNotify

end AsioChat
