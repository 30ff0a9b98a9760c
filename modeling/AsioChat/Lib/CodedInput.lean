import AsioChat.Lib.Wire

/-!
# Reading in Memory

`Wire` reads lists, and a list ends where the array ends. The library reads memory from an address
on, and compares this address with that of the end. For an array of a negative size the end lies
before the beginning: it is never met, and reading goes on until something else stops it, which
may be the end of the memory. Here the wire format is read in this way, for any end.

Every reader has its path for an array with enough left and another one for the end of it; where
both come to the same, as for varints, there is one definition.

## Main definitions

* `Wire.Cursor`: where reading is, and how far it is from there to the end of the array.
* `Wire.Message`: a message type, read from lists and in memory.

## Main results

* `Wire.Message.parseAt_within`: in an array that is there, with a size that is not negative,
  reading in memory is reading the list of its bytes.
-/

namespace Wire

/-- What reading cannot go on from: it would leave the memory, or a string would have to be longer
than a string can be. -/
inductive Trap
  | outside
  | tooLong
  deriving DecidableEq, Repr

/-- `CodedInputStream` on an array: the memory from `buffer_` on, and the distance from there to
`buffer_end_`, which is negative if that lies before. -/
structure Cursor where
  memory : List UInt8
  left : ℤ
  deriving DecidableEq, Repr

namespace Cursor

/-- `BufferSize`: the distance as an `int`. -/
def bufferSize (c : Cursor) : ℤ := c.left.bmod (2 ^ 32)

/-- The next `n` bytes of the memory. -/
def next (n : ℕ) (c : Cursor) : Except Trap (List UInt8 × Cursor) :=
  if c.memory.length < n then .error .outside
  else .ok (c.memory.take n, ⟨c.memory.drop n, c.left - n⟩)

/-- `ReadVarint64`, of at most `k` bytes, without reducing it to a machine word. There is nothing
to refresh the buffer from when its end is met. -/
def readVarint : ℕ → Cursor → Except Trap (Option (ℕ × Cursor))
  | 0, _ => .ok none
  | k + 1, c =>
    if c.left = 0 then .ok none
    else
      match c.memory with
      | [] => .error .outside
      | b :: memory =>
        if b.toNat < 128 then .ok (some (b.toNat, ⟨memory, c.left - 1⟩))
        else do
          let r ← readVarint k ⟨memory, c.left - 1⟩
          return r.map fun (n, c) => (b.toNat - 128 + 128 * n, c)

/-- `ReadVarint32`: the bits beyond the 32nd are discarded. -/
def readVarint32 (c : Cursor) : Except Trap (Option (ℕ × Cursor)) := do
  let r ← c.readVarint maxVarintBytes
  return r.map fun (n, c) => (n % 2 ^ 32, c)

/-- What `ReadTag` finds. -/
inductive Tag
  | atEnd
  | invalid
  | tag (tag : ℕ) (c : Cursor)

/-- `ReadTag`. -/
def readTag (c : Cursor) : Except Trap Tag :=
  if c.left = 0 then .ok .atEnd
  else do
    match ← c.readVarint32 with
    | none => return .invalid
    | some (tag, c) => return if tag = 0 then .invalid else .tag tag c

/-- `InternalReadStringInline` into a string that holds `old`, and `ReadStringFallback`, which
appends what is left of the array where that is less than the size. A negative number of bytes
is appended as a number too large for a string. -/
def internalReadString (old : List UInt8) (size : ℕ) (c : Cursor) :
    Except Trap (List UInt8 × Option Cursor) :=
  if 2 ^ 31 ≤ size then .ok (old, none)
  else if size ≤ c.bufferSize then (c.next size).map fun (s, c) => (s, some c)
  else if c.bufferSize < 0 then .error .tooLong
  else (c.next c.bufferSize.toNat).map fun (s, _) => (s, none)

/-- `ReadString`. -/
def readString (old : List UInt8) (c : Cursor) :
    Except Trap (List UInt8 × Option Cursor) := do
  match ← c.readVarint32 with
  | none => return (old, none)
  | some (length, c) => c.internalReadString old length

/-- `ReadLittleEndian32` and `ReadLittleEndian64`, for `n` bytes. `BufferSize` is compared with a
`size_t`, as which a negative one is large. -/
def skipBytes (n : ℕ) (c : Cursor) : Except Trap (Option Cursor) :=
  if 0 ≤ c.bufferSize ∧ c.bufferSize < n then do
    let _ ← c.next c.bufferSize.toNat
    return none
  else do
    let (_, c) ← c.next n
    return some c

/-- `SkipMessage`. There are at most as many fields as bytes in the memory. -/
def skipMessage (skipField : ℕ → Cursor → Except Trap (Option Cursor)) :
    ℕ → Cursor → Except Trap (Option (ℕ × Cursor))
  | 0, _ => .ok none
  | fuel + 1, c => do
    match ← c.readTag with
    | .atEnd => return some (0, c)
    | .invalid => return some (0, c)
    | .tag tag c =>
      if wireType tag = endGroup then return some (tag, c)
      else
        match ← skipField tag c with
        | none => return none
        | some c => skipMessage skipField fuel c

/-- `SkipField`, with groups nested at most `depth` deep. -/
def skipField : ℕ → ℕ → Cursor → Except Trap (Option Cursor)
  | depth, tag, c =>
    if wireType tag = varint then do
      return (← c.readVarint maxVarintBytes).map Prod.snd
    else if wireType tag = fixed64 then c.skipBytes 8
    else if wireType tag = lengthDelimited then do return (← c.readString []).2
    else if wireType tag = startGroup then
      match depth with
      | 0 => .ok none
      | depth + 1 => do
        match ← skipMessage (skipField depth) (c.memory.length + 1) c with
        | none => return none
        | some (last, c) =>
          return if last = makeTag (fieldNumber tag) endGroup then some c else none
    else if wireType tag = fixed32 then c.skipBytes 4
    else .ok none

/-- What a message type does with a field behind its tag. -/
inductive Field (M : Type)
  | unknown
  | read (m : M) (c : Cursor) (expectAtEnd : Bool)
  | failed (m : M)

variable {M : Type}

/-- The loop of `MergePartialFromCodedStream` and `ConsumedEntireMessage` together. -/
def merge (field : M → ℕ → Cursor → Except Trap (Field M)) (small : Bool) :
    ℕ → Bool → M → Cursor → Except Trap (M × Bool)
  | 0, _, m, _ => .ok (m, false)
  | fuel + 1, atEnd, m, c => do
    match ← c.readTag with
    | .atEnd => return (m, atEnd)
    | .invalid => return (m, false)
    | .tag tag c =>
      match ← field m tag c with
      | .failed m => return (m, false)
      | .read m c expectAtEnd => merge field small fuel (expectAtEnd || small) m c
      | .unknown =>
        if wireType tag = endGroup then return (m, false)
        else
          match ← c.skipField recursionLimit tag with
          | none => return (m, false)
          | some c => merge field small fuel small m c

/-- Reading a string field that holds `old`; `set` stores what the field holds then. -/
def readStringField (old : Option (List UInt8)) (set : Option (List UInt8) → M)
    (expectAtEnd : Bool) (c : Cursor) : Except Trap (Field M) := do
  match ← c.readString (old.getD []) with
  | (s, none) => return .failed (set (some s))
  | (s, some c) => return .read (set (some s)) c expectAtEnd

/-- Reading a field of type `bool` into `m`; `set` stores its value. -/
def readBoolField (m : M) (set : Bool → M) (expectAtEnd : Bool) (c : Cursor) :
    Except Trap (Field M) := do
  match ← c.readVarint32 with
  | none => return .failed m
  | some (n, c) => return .read (set (n != 0)) c expectAtEnd

/-! ### Arrays that are there -/

/-- At the beginning of an array that is there, with something behind it. -/
def within (input stale : List UInt8) : Cursor := ⟨input ++ stale, input.length⟩

variable {input stale : List UInt8}

/-- The size that is left of an input that is there. -/
theorem bufferSize_within (h : input.length < 2 ^ 31) :
    (within input stale).bufferSize = input.length := by
  have hleft : (within input stale).left = input.length := rfl
  rw [bufferSize, hleft, Int.bmod_eq_of_le (by omega) (by omega)]

/-- One byte further. -/
theorem within_cons (b : UInt8) (input stale : List UInt8) :
    (⟨input ++ stale, ((b :: input).length : ℤ) - 1⟩ : Cursor) = within input stale := by
  rw [within, List.length_cons, Int.natCast_succ, Int.add_sub_cancel]

/-- Bytes of the array are the next in the memory. -/
theorem next_within {n : ℕ} (h : n ≤ input.length) :
    (within input stale).next n = .ok (input.take n, within (input.drop n) stale) := by
  have hmemory : ¬ (input ++ stale).length < n := by
    rw [List.length_append]
    omega
  have hleft : ((input.drop n).length : ℤ) = input.length - n := by
    rw [List.length_drop]
    omega
  simp only [next, within, if_neg hmemory, List.take_append_of_le_length h,
    List.drop_append_of_le_length h, hleft]

/-- Reading a varint of the array. -/
theorem readVarint_within (k : ℕ) (input stale : List UInt8) :
    (within input stale).readVarint k =
      .ok ((Wire.readVarint k input).map fun (n, rest) => (n, within rest stale)) := by
  induction k generalizing input with
  | zero => rfl
  | succ k ih =>
      cases input with
      | nil => rfl
      | cons b input =>
          have hleft : ¬ ((b :: input).length : ℤ) = 0 := by
            rw [List.length_cons]
            omega
          rw [readVarint, Wire.readVarint, within, if_neg hleft]
          simp only [List.cons_append, within_cons, ih]
          split
          · rfl
          · simp only [bind, Except.bind, pure, Except.pure, Option.map_map]
            rfl

/-- Within an input, a varint is read as from the list of its bytes. -/
theorem readVarint32_within (input stale : List UInt8) :
    (within input stale).readVarint32 =
      .ok ((Wire.readVarint32 input).map fun (n, rest) => (n, within rest stale)) := by
  simp only [readVarint32, Wire.readVarint32, readVarint_within, bind, Except.bind, pure,
    Except.pure, Option.map_map]
  rfl

/-- A tag of the array, with the place behind it. -/
def Tag.within (stale : List UInt8) : Wire.Tag → Tag
  | .atEnd => .atEnd
  | .invalid => .invalid
  | .tag n rest => .tag n (.within rest stale)

/-- Within an input, a tag is read as from the list of its bytes. -/
theorem readTag_within (input stale : List UInt8) :
    (within input stale).readTag = .ok (.within stale (Wire.readTag input)) := by
  cases input with
  | nil => rfl
  | cons b input =>
      have hleft : ¬ (within (b :: input) stale).left = 0 := by
        show ¬ ((b :: input).length : ℤ) = 0
        rw [List.length_cons]
        omega
      rw [readTag, Wire.readTag, if_neg hleft, if_neg (List.cons_ne_nil b input),
        readVarint32_within]
      simp only [bind, Except.bind, pure, Except.pure]
      cases Wire.readVarint32 (b :: input) with
      | none => rfl
      | some r =>
          obtain ⟨tag, rest⟩ := r
          simp only [Option.map_some]
          split <;> rfl

/-- Reading a string of the array, behind its length. -/
theorem internalReadString_within (h : input.length < 2 ^ 31) (old stale : List UInt8) (size : ℕ) :
    (within input stale).internalReadString old size =
      .ok (if 2 ^ 31 ≤ size then (old, none)
        else if input.length < size then (input, none)
        else (input.take size, some (within (input.drop size) stale))) := by
  rw [internalReadString, bufferSize_within h]
  by_cases hnegative : 2 ^ 31 ≤ size
  · rw [if_pos hnegative, if_pos hnegative]
  rw [if_neg hnegative, if_neg hnegative]
  rcases Nat.lt_or_ge input.length size with hshort | hfits
  · rw [if_neg (by omega), if_neg (Int.not_lt.mpr (Int.natCast_nonneg _)), if_pos hshort,
      Int.toNat_natCast, next_within (Nat.le_refl _), List.take_length]
    rfl
  · rw [if_pos (by omega), if_neg (Nat.not_lt.mpr hfits), next_within hfits]
    rfl

/-- Reading a string of the array. -/
theorem readString_within (h : input.length < 2 ^ 31) (old stale : List UInt8) :
    (within input stale).readString old = .ok ((Wire.readString old input).1,
      (Wire.readString old input).2.map fun rest => within rest stale) := by
  rw [readString, Wire.readString, readVarint32_within]
  simp only [bind, Except.bind, pure, Except.pure]
  cases hread : Wire.readVarint32 input with
  | none => rfl
  | some r =>
      have hlt := Nat.lt_trans (length_lt_of_readVarint32 hread) h
      simp only [Option.map_some, internalReadString_within hlt]
      split
      · rfl
      · split <;> rfl

/-- Skipping bytes of the array. -/
theorem skipBytes_within (h : input.length < 2 ^ 31) (n : ℕ) (stale : List UInt8) :
    (within input stale).skipBytes n =
      .ok ((Wire.skipBytes n input).map fun rest => within rest stale) := by
  rw [skipBytes, Wire.skipBytes, bufferSize_within h]
  rcases Nat.lt_or_ge input.length n with hshort | hfits
  · rw [if_pos (by omega), if_pos hshort, Int.toNat_natCast, next_within (Nat.le_refl _)]
    rfl
  · rw [if_neg (by omega), if_neg (Nat.not_lt.mpr hfits), next_within hfits]
    rfl

/-- Skipping a message in the array, if skipping a field is the same. -/
theorem skipMessage_within {skip : ℕ → Cursor → Except Trap (Option Cursor)}
    {skip' : ℕ → List UInt8 → Option (List UInt8)} {stale : List UInt8}
    (hskip : ∀ tag input, input.length < 2 ^ 31 →
      skip tag (within input stale) = .ok ((skip' tag input).map fun rest => within rest stale))
    (hshrinks : ∀ tag input rest, skip' tag input = some rest → rest.length ≤ input.length)
    (fuel : ℕ) {input : List UInt8} (h : input.length < 2 ^ 31) :
    skipMessage skip fuel (within input stale) =
      .ok ((Wire.skipMessage skip' fuel input).map fun (last, rest) =>
        (last, within rest stale)) := by
  induction fuel generalizing input with
  | zero => rfl
  | succ fuel ih =>
      rw [skipMessage, Wire.skipMessage, readTag_within]
      simp only [bind, Except.bind, pure, Except.pure]
      cases htag : Wire.readTag input with
      | atEnd =>
          obtain rfl : input = [] := by
            by_contra hne
            rw [Wire.readTag, if_neg hne] at htag
            split at htag
            · cases htag
            · split at htag <;> cases htag
          rfl
      | invalid => rfl
      | tag tag rest =>
          have hlt := length_lt_of_readTag htag
          simp only [Tag.within]
          split
          · rfl
          · rw [hskip tag rest (Nat.lt_trans hlt h)]
            cases hfield : skip' tag rest with
            | none => rfl
            | some rest' =>
                have hle := hshrinks _ _ _ hfield
                simp only [Option.map_some]
                exact ih (by omega)

/-- Skipping a field of the array. -/
theorem skipField_within (depth tag : ℕ) {input : List UInt8} (h : input.length < 2 ^ 31)
    (stale : List UInt8) :
    (within input stale).skipField depth tag =
      .ok ((Wire.skipField depth tag input).map fun rest => within rest stale) := by
  induction depth using Nat.strongRecOn generalizing tag input with
  | ind depth ih =>
      rw [skipField.eq_def, Wire.skipField.eq_def]
      simp only [bind, Except.bind, pure, Except.pure]
      split
      · rw [readVarint_within]
        simp only [Option.map_map]
        rfl
      split
      · exact skipBytes_within h 8 stale
      split
      · rw [readString_within h]
      split
      · cases depth with
        | zero => rfl
        | succ depth =>
            have hfuel : input.length < (input ++ stale).length + 1 := by
              rw [List.length_append]
              omega
            have hbound : Wire.skipMessage (Wire.skipField depth) ((input ++ stale).length + 1)
                input = Wire.skipMessage (Wire.skipField depth) (input.length + 1) input :=
              skipMessage_eq_of_length_lt (fun _ _ _ => length_le_of_skipField) hfuel
                (Nat.lt_succ_self input.length)
            have hinner : ∀ tag input, input.length < 2 ^ 31 →
                skipField depth tag (within input stale) =
                  .ok ((Wire.skipField depth tag input).map fun rest => within rest stale) :=
              fun tag input hinput => ih depth (Nat.lt_succ_self _) tag hinput
            have hskip := skipMessage_within hinner (fun _ _ _ => length_le_of_skipField)
              ((input ++ stale).length + 1) h
            rw [hbound] at hskip
            show (skipMessage (skipField depth) ((input ++ stale).length + 1)
              (within input stale)).bind _ = _
            rw [hskip]
            simp only [Except.bind]
            cases Wire.skipMessage (Wire.skipField depth) (input.length + 1) input with
            | none => rfl
            | some r =>
                simp only [Option.map_some]
                split <;> rfl
      split
      · exact skipBytes_within h 4 stale
      · rfl

/-- What a field is read into, with the place behind it. -/
def Field.within (stale : List UInt8) : Wire.Field M → Field M
  | .unknown => .unknown
  | .read m rest expectAtEnd => .read m (.within rest stale) expectAtEnd
  | .failed m => .failed m

/-- Reading a string field of the array. -/
theorem readStringField_within (h : input.length < 2 ^ 31) (old : Option (List UInt8))
    (set : Option (List UInt8) → M) (expectAtEnd : Bool) (stale : List UInt8) :
    readStringField old set expectAtEnd (within input stale) =
      .ok (.within stale (Wire.readStringField old set expectAtEnd input)) := by
  rw [readStringField, Wire.readStringField, readString_within h]
  simp only [bind, Except.bind, pure, Except.pure]
  rcases Wire.readString (old.getD []) input with ⟨s, _ | rest⟩ <;> rfl

/-- Reading a field of type `bool` of the array. -/
theorem readBoolField_within (m : M) (set : Bool → M) (expectAtEnd : Bool)
    (input stale : List UInt8) :
    readBoolField m set expectAtEnd (within input stale) =
      .ok (.within stale (Wire.readBoolField m set expectAtEnd input)) := by
  rw [readBoolField, Wire.readBoolField, readVarint32_within]
  simp only [bind, Except.bind, pure, Except.pure]
  rcases Wire.readVarint32 input with _ | ⟨n, rest⟩ <;> rfl

end Cursor

/-- A message type: what reading a field does, in a list and in memory, when it has its required
fields, and what it is when it is cleared. -/
structure Message (M : Type) where
  field : M → ℕ → List UInt8 → Field M
  fieldAt : M → ℕ → Cursor → Except Trap (Cursor.Field M)
  isInitialized : M → Bool
  cleared : M
  shrinks : Shrinks field
  fieldAt_within : ∀ m tag {input : List UInt8}, input.length < 2 ^ 31 → ∀ stale,
    fieldAt m tag (.within input stale) = .ok (.within stale (field m tag input))

namespace Message

variable {M : Type} (message : Message M)

/-- `ParseFromArray` on the bytes of an array. -/
def parse (input : List UInt8) : M × Bool :=
  Wire.parse message.field message.isInitialized message.cleared input

/-- `ParseFromArray` in memory, for an array of a size. -/
def parseAt (size : ℤ) (c : Cursor) : Except Trap (M × Bool) := do
  let small := decide (size ≤ totalBytesLimit)
  let (m, consumed) ← Cursor.merge message.fieldAt small (c.memory.length + 1) small
    message.cleared c
  return (m, consumed && message.isInitialized m)

/-- Reading a message of the array, up to some number of fields. -/
theorem merge_within (small atEnd : Bool) (fuel : ℕ) (m : M) {input : List UInt8}
    (h : input.length < 2 ^ 31) (stale : List UInt8) :
    Cursor.merge message.fieldAt small fuel atEnd m (.within input stale) =
      .ok (merge message.field small fuel atEnd m input) := by
  induction fuel generalizing atEnd m input with
  | zero => rfl
  | succ fuel ih =>
      rw [Cursor.merge, merge, Cursor.readTag_within]
      simp only [bind, Except.bind, pure, Except.pure]
      cases htag : readTag input with
      | atEnd => rfl
      | invalid => rfl
      | tag tag rest =>
          have hlt := Nat.lt_trans (length_lt_of_readTag htag) h
          simp only [Cursor.Tag.within, message.fieldAt_within m tag hlt stale]
          cases hfield : message.field m tag rest with
          | failed m => rfl
          | read m rest' expectAtEnd =>
              have hle := message.shrinks hfield
              exact ih _ _ (Nat.lt_of_le_of_lt hle hlt)
          | unknown =>
              simp only [Cursor.Field.within]
              split
              · rfl
              · rw [Cursor.skipField_within _ _ hlt]
                cases hskip : skipField recursionLimit tag rest with
                | none => rfl
                | some rest' =>
                    have hle := length_le_of_skipField hskip
                    exact ih _ _ (Nat.lt_of_le_of_lt hle hlt)

/-- **Reading in memory is reading the bytes of the array**, where the array is there and its
size is not negative. -/
theorem parseAt_within {input : List UInt8} (h : input.length < 2 ^ 31) (stale : List UInt8) :
    message.parseAt input.length (.within input stale) = .ok (message.parse input) := by
  have hfuel : input.length < (input ++ stale).length + 1 := by
    rw [List.length_append]
    omega
  have hsmall : decide ((input.length : ℤ) ≤ totalBytesLimit) =
      decide (input.length ≤ totalBytesLimit) := by
    simp only [Int.ofNat_le]
  rw [parse, parse_eq message.shrinks _ _ hfuel, parseAt, hsmall, merge_within _ _ _ _ _ h]
  rfl

/-- Where there is nothing and the end is not met, reading leaves the memory. -/
theorem parseAt_nil {left : ℤ} (h : left ≠ 0) (size : ℤ) :
    message.parseAt size ⟨[], left⟩ = .error .outside := by
  simp only [parseAt, Cursor.merge, Cursor.readTag, Cursor.readVarint32, Cursor.readVarint,
    maxVarintBytes, if_neg h]
  rfl

/-- A tag of zero ends the reading, wherever the end is. -/
theorem parseAt_zero {left : ℤ} (h : left ≠ 0) (size : ℤ) (memory : List UInt8) :
    message.parseAt size ⟨0 :: memory, left⟩ = .ok (message.cleared, false) := by
  simp only [parseAt, Cursor.merge, Cursor.readTag, Cursor.readVarint32, Cursor.readVarint,
    maxVarintBytes, if_neg h]
  rfl

end Message

end Wire
