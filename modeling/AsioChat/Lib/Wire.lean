import Mathlib.Algebra.Group.Nat.Defs
import Mathlib.Data.List.Infix

/-!
# The Protocol Buffer Wire Format

Reading and writing messages in the protocol buffer wire format, as version 2.5 of the
library does it for a message held in one array: base-128 varints, tags, length-delimited
strings, the skipping of unknown fields with nested groups, and the loop that reads a
message field by field. What the fields of a message are is a parameter: a message type
says what reading one of its own fields does, and everything else is skipped.

A message that ends in the middle of a field leaves behind what was read until then, so
reading returns a message in any case, and a flag.

## Main results

* `readVarint_writeVarint`: reading back a varint.
* `readString_writeString`: reading back a string.
* `merge_writeString`: a string field that was written is read, and reading goes on
  behind it.
* `skipMessage_eq_of_length_lt`, `merge_eq_of_length_lt`, `parse_eq`: the bounds on the
  number of fields are never reached.
-/

namespace Wire

/-! ### Varints -/

/-- A varint of at most `k` bytes: seven bits a byte, the least significant first. -/
def writeVarint : ℕ → ℕ → List UInt8
  | 0, _ => []
  | k + 1, n =>
    if n < 128 then [UInt8.ofNat n]
    else UInt8.ofNat (n % 128 + 128) :: writeVarint k (n / 128)

/-- `WriteVarint32ToArray`. -/
def writeVarint32 (n : ℕ) : List UInt8 := writeVarint 5 n

/-- `VarintSize32`. -/
def varintSize32 (n : ℕ) : ℕ :=
  if n < 2 ^ 7 then 1
  else if n < 2 ^ 14 then 2
  else if n < 2 ^ 21 then 3
  else if n < 2 ^ 28 then 4
  else 5

/-- A varint of at most `k` bytes is read, without reducing it to a machine word. -/
def readVarint : ℕ → List UInt8 → Option (ℕ × List UInt8)
  | 0, _ => none
  | _ + 1, [] => none
  | k + 1, b :: input =>
    if b.toNat < 128 then some (b.toNat, input)
    else (readVarint k input).map fun (n, rest) => (b.toNat - 128 + 128 * n, rest)

/-- `kMaxVarintBytes`. -/
def maxVarintBytes : ℕ := 10

/-- `ReadVarint32`: the bits beyond the 32nd are discarded. -/
def readVarint32 (input : List UInt8) : Option (ℕ × List UInt8) :=
  (readVarint maxVarintBytes input).map fun (n, rest) => (n % 2 ^ 32, rest)

/-- **Reading back a varint**, with more bytes allowed than it was written with. -/
theorem readVarint_writeVarint {j k n : ℕ} (hk : 0 < k) (hjk : k ≤ j) (hn : n < 128 ^ k)
    (rest : List UInt8) : readVarint j (writeVarint k n ++ rest) = some (n, rest) := by
  induction k generalizing j n with
  | zero => omega
  | succ k ih =>
      obtain ⟨j, rfl⟩ : ∃ i, j = i + 1 := ⟨j - 1, by omega⟩
      by_cases hsmall : n < 128
      · have hbyte : (UInt8.ofNat n).toNat = n := by
          rw [UInt8.toNat_ofNat']
          omega
        rw [writeVarint, if_pos hsmall]
        simp only [List.cons_append, List.nil_append, readVarint, hbyte, if_pos hsmall]
      · have hbyte : (UInt8.ofNat (n % 128 + 128)).toNat = n % 128 + 128 := by
          rw [UInt8.toNat_ofNat']
          omega
        have hpos : 0 < k := by
          rcases Nat.eq_zero_or_pos k with rfl | hpos
          · simp at hn
            omega
          · exact hpos
        have hdiv : n / 128 < 128 ^ k := by
          rw [Nat.pow_succ, Nat.mul_comm] at hn
          exact Nat.div_lt_of_lt_mul hn
        have hrest : readVarint j (writeVarint k (n / 128) ++ rest) = some (n / 128, rest) :=
          ih hpos (by omega) hdiv
        have hvalue : n % 128 + 128 - 128 + 128 * (n / 128) = n := by omega
        rw [writeVarint, if_neg hsmall, List.cons_append, readVarint, hbyte, hrest,
          if_neg (by omega), Option.map_some]
        simp only [hvalue]

/-- A varint that is written is read. -/
theorem readVarint32_writeVarint32 {n : ℕ} (hn : n < 2 ^ 32) (rest : List UInt8) :
    readVarint32 (writeVarint32 n ++ rest) = some (n, rest) := by
  rw [readVarint32, writeVarint32,
    readVarint_writeVarint (by decide) (by decide) (Nat.lt_of_lt_of_le hn (by decide)),
    Option.map_some]
  simp only [Nat.mod_eq_of_lt hn]

/-- `VarintSize32` is the number of bytes written. -/
theorem length_writeVarint32 {n : ℕ} (hn : n < 2 ^ 32) :
    (writeVarint32 n).length = varintSize32 n := by
  simp only [writeVarint32, writeVarint, varintSize32]
  repeat' split
  all_goals simp only [List.length_cons, List.length_nil] <;> omega

/-- Reading a varint consumes something. -/
theorem length_lt_of_readVarint {k n : ℕ} {input rest : List UInt8}
    (h : readVarint k input = some (n, rest)) : rest.length < input.length := by
  induction k generalizing n input with
  | zero => cases h
  | succ k ih =>
      cases input with
      | nil => cases h
      | cons b input =>
          rw [readVarint] at h
          split at h
          · cases h
            simp
          · obtain ⟨⟨m, rest'⟩, hread, heq⟩ := Option.map_eq_some_iff.mp h
            cases heq
            have := ih hread
            simp only [List.length_cons]
            omega

/-- Reading a varint takes bytes. -/
theorem length_lt_of_readVarint32 {n : ℕ} {input rest : List UInt8}
    (h : readVarint32 input = some (n, rest)) : rest.length < input.length := by
  obtain ⟨⟨m, rest'⟩, hread, heq⟩ := Option.map_eq_some_iff.mp h
  cases heq
  exact length_lt_of_readVarint hread

/-! ### Tags -/

/-- The wire type of a varint. -/
def varint : ℕ := 0

/-- The wire type of eight bytes. -/
def fixed64 : ℕ := 1

/-- The wire type of a string. -/
def lengthDelimited : ℕ := 2

/-- The wire type of the start of a group. -/
def startGroup : ℕ := 3

/-- The wire type of the end of a group. -/
def endGroup : ℕ := 4

/-- The wire type of four bytes. -/
def fixed32 : ℕ := 5

/-- `MakeTag`. -/
def makeTag (number type : ℕ) : ℕ := number * 8 + type

/-- `GetTagFieldNumber`. -/
def fieldNumber (tag : ℕ) : ℕ := tag / 8

/-- `GetTagWireType`. -/
def wireType (tag : ℕ) : ℕ := tag % 8

/-- What `ReadTag` finds: the end of the array; a tag; or a tag that cannot be read or is
zero, which it reports as `0` as well, but not as the end. -/
inductive Tag
  | atEnd
  | invalid
  | tag (tag : ℕ) (rest : List UInt8)

/-- `ReadTag`. -/
def readTag (input : List UInt8) : Tag :=
  if input = [] then .atEnd
  else
    match readVarint32 input with
    | none => .invalid
    | some (tag, rest) => if tag = 0 then .invalid else .tag tag rest

/-- Reading a tag takes bytes. -/
theorem length_lt_of_readTag {tag : ℕ} {input rest : List UInt8}
    (h : readTag input = .tag tag rest) : rest.length < input.length := by
  rw [readTag] at h
  split at h
  · cases h
  · split at h
    · cases h
    · rename_i hread
      split at h
      · cases h
      · cases h
        exact length_lt_of_readVarint32 hread

/-- Reading back a tag of one byte. -/
theorem readTag_cons {tag : ℕ} (hpos : 0 < tag) (hsmall : tag < 128) (rest : List UInt8) :
    readTag (UInt8.ofNat tag :: rest) = .tag tag rest := by
  have hbyte : (UInt8.ofNat tag).toNat = tag := by
    rw [UInt8.toNat_ofNat']
    omega
  have hread : readVarint32 (UInt8.ofNat tag :: rest) = some (tag, rest) := by
    simp only [readVarint32, maxVarintBytes, readVarint, hbyte, if_pos hsmall, Option.map_some]
    rw [Nat.mod_eq_of_lt (by omega)]
  rw [readTag, if_neg (List.cons_ne_nil _ _), hread]
  exact if_neg (by omega)

/-! ### Strings -/

/-- `WriteStringToArray`, for field numbers whose tag has one byte. -/
def writeString (number : ℕ) (s : List UInt8) : List UInt8 :=
  UInt8.ofNat (makeTag number lengthDelimited) :: (writeVarint32 s.length ++ s)

/-- One byte of tag and `StringSize`. -/
def stringSize (s : List UInt8) : ℕ := 1 + (varintSize32 s.length + s.length)

/-- The size of a string field is that of the string and a few bytes. -/
theorem stringSize_bounds (s : List UInt8) :
    s.length ≤ stringSize s ∧ stringSize s ≤ s.length + 6 := by
  have hvarint : varintSize32 s.length ≤ 5 := by
    rw [varintSize32]
    repeat' split
    all_goals omega
  rw [stringSize]
  omega

/-- A string is written in `stringSize` bytes. -/
theorem length_writeString {s : List UInt8} (number : ℕ) (hs : s.length < 2 ^ 32) :
    (writeString number s).length = stringSize s := by
  rw [writeString, List.length_cons, List.length_append, length_writeVarint32 hs, stringSize,
    Nat.add_comm]

/-- `ReadString` into a string that holds `old`: what the string holds afterwards, and the
rest of the input unless it failed. A length that is negative as an `int` leaves the
string alone, one beyond the end of the input leaves what there was. -/
def readString (old input : List UInt8) : List UInt8 × Option (List UInt8) :=
  match readVarint32 input with
  | none => (old, none)
  | some (length, rest) =>
    if 2 ^ 31 ≤ length then (old, none)
    else if rest.length < length then (rest, none)
    else (rest.take length, some (rest.drop length))

/-- **Reading back a string.** -/
theorem readString_writeString {s : List UInt8} (hs : s.length < 2 ^ 31)
    (old rest : List UInt8) :
    readString old (writeVarint32 s.length ++ s ++ rest) = (s, some rest) := by
  rw [readString, List.append_assoc, readVarint32_writeVarint32 (by omega)]
  simp only
  rw [if_neg (by omega), if_neg (by rw [List.length_append]; omega), List.take_left,
    List.drop_left]

/-- Reading a string takes bytes. -/
theorem length_lt_of_readString {old s input rest : List UInt8}
    (h : readString old input = (s, some rest)) : rest.length < input.length := by
  rw [readString] at h
  split at h
  · cases h
  · rename_i hread
    have hlt := length_lt_of_readVarint32 hread
    split at h
    · cases h
    · split at h
      · cases h
      · cases h
        rw [List.length_drop]
        omega

/-! ### Unknown fields -/

/-- The rest of the input behind its first `n` bytes. -/
def skipBytes (n : ℕ) (input : List UInt8) : Option (List UInt8) :=
  if input.length < n then none else some (input.drop n)

/-- `SkipMessage`: skip fields up to the end of a group or of the input, and return the
last tag read, `0` at the end of the input. There are at most as many fields as bytes. -/
def skipMessage (skipField : ℕ → List UInt8 → Option (List UInt8)) :
    ℕ → List UInt8 → Option (ℕ × List UInt8)
  | 0, _ => none
  | fuel + 1, input =>
    match readTag input with
    | .atEnd => some (0, [])
    | .invalid => some (0, input)
    | .tag tag rest =>
      if wireType tag = endGroup then some (tag, rest)
      else
        match skipField tag rest with
        | none => none
        | some rest => skipMessage skipField fuel rest

/-- `SkipField`, with groups nested at most `depth` deep. -/
def skipField : ℕ → ℕ → List UInt8 → Option (List UInt8)
  | depth, tag, input =>
    if wireType tag = varint then (readVarint maxVarintBytes input).map Prod.snd
    else if wireType tag = fixed64 then skipBytes 8 input
    else if wireType tag = lengthDelimited then (readString [] input).2
    else if wireType tag = startGroup then
      match depth with
      | 0 => none
      | depth + 1 =>
        match skipMessage (skipField depth) (input.length + 1) input with
        | none => none
        | some (last, rest) =>
          if last = makeTag (fieldNumber tag) endGroup then some rest else none
    else if wireType tag = fixed32 then skipBytes 4 input
    else none

/-- The default of `recursion_limit_`. -/
def recursionLimit : ℕ := 100

/-- Skipping adds no bytes. -/
theorem length_le_of_skipBytes {n : ℕ} {input rest : List UInt8}
    (h : skipBytes n input = some rest) : rest.length ≤ input.length := by
  rw [skipBytes] at h
  split at h
  · cases h
  · cases h
    rw [List.length_drop]
    omega

/-- Skipping a message does not lengthen the input, if skipping a field does not. -/
theorem length_le_of_skipMessage {skip : ℕ → List UInt8 → Option (List UInt8)}
    (hskip : ∀ tag input rest, skip tag input = some rest → rest.length ≤ input.length)
    {fuel last : ℕ} {input rest : List UInt8}
    (h : skipMessage skip fuel input = some (last, rest)) : rest.length ≤ input.length := by
  induction fuel generalizing input with
  | zero => cases h
  | succ fuel ih =>
      rw [skipMessage] at h
      split at h
      · cases h
        simp
      · cases h
        exact Nat.le_refl _
      · rename_i tag rest' hread
        have hlt := length_lt_of_readTag hread
        split at h
        · cases h
          omega
        · split at h
          · cases h
          · rename_i rest'' hfield
            have := hskip _ _ _ hfield
            have := ih h
            omega

/-- The bound on the number of fields skipped is never reached: more of it changes
nothing. -/
theorem skipMessage_eq_of_length_lt {skip : ℕ → List UInt8 → Option (List UInt8)}
    (hskip : ∀ tag input rest, skip tag input = some rest → rest.length ≤ input.length)
    {fuel fuel' : ℕ} {input : List UInt8} (h : input.length < fuel) (h' : input.length < fuel') :
    skipMessage skip fuel input = skipMessage skip fuel' input := by
  induction fuel generalizing fuel' input with
  | zero => omega
  | succ fuel ih =>
      obtain ⟨fuel', rfl⟩ : ∃ f, fuel' = f + 1 := ⟨fuel' - 1, by omega⟩
      rw [skipMessage, skipMessage]
      cases htag : readTag input with
      | atEnd => rfl
      | invalid => rfl
      | tag tag rest =>
          have hlt := length_lt_of_readTag htag
          simp only
          cases hfield : skip tag rest with
          | none => rfl
          | some rest' =>
              have := hskip _ _ _ hfield
              simp only [ih (show rest'.length < fuel by omega)
                (show rest'.length < fuel' by omega)]

/-- What skipping a field can be: a varint, some bytes, a string, or a group one level
deeper. -/
theorem skipField_cases {depth tag : ℕ} {input rest : List UInt8}
    (h : skipField depth tag input = some rest) :
    (∃ n, readVarint maxVarintBytes input = some (n, rest)) ∨
    (∃ n, skipBytes n input = some rest) ∨
    (∃ s, readString [] input = (s, some rest)) ∨
    (∃ depth' last, depth = depth' + 1 ∧
      skipMessage (skipField depth') (input.length + 1) input = some (last, rest)) := by
  rw [skipField.eq_def] at h
  simp only at h
  split at h
  · obtain ⟨⟨n, rest'⟩, hread, rfl⟩ := Option.map_eq_some_iff.mp h
    exact .inl ⟨n, hread⟩
  split at h
  · exact .inr (.inl ⟨8, h⟩)
  split at h
  · exact .inr (.inr (.inl ⟨_, Prod.ext rfl h⟩))
  split at h
  · split at h
    · cases h
    · split at h
      · cases h
      · rename_i last rest' hskip
        split at h
        · cases h
          exact .inr (.inr (.inr ⟨_, last, rfl, hskip⟩))
        · cases h
  split at h
  · exact .inr (.inl ⟨4, h⟩)
  · cases h

/-- Skipping a field does not lengthen the input. -/
theorem length_le_of_skipField {depth tag : ℕ} {input rest : List UInt8}
    (h : skipField depth tag input = some rest) : rest.length ≤ input.length := by
  induction depth using Nat.strongRecOn generalizing tag input rest with
  | ind depth ih =>
      rcases skipField_cases h with
        ⟨n, hread⟩ | ⟨n, hskip⟩ | ⟨s, hread⟩ | ⟨depth', last, rfl, hskip⟩
      · exact Nat.le_of_lt (length_lt_of_readVarint hread)
      · exact length_le_of_skipBytes hskip
      · exact Nat.le_of_lt (length_lt_of_readString hread)
      · exact length_le_of_skipMessage (fun _ _ _ => ih depth' (Nat.lt_succ_self _)) hskip

/-! ### Messages -/

universe u

/-- What a message type does with a field behind its tag: the field is none of its own; it
is read into the message, and whether the end of the input is then looked for with
`ExpectAtEnd`; or it cannot be read. -/
inductive Field (M : Type u)
  | unknown
  | read (m : M) (rest : List UInt8) (expectAtEnd : Bool)
  | failed (m : M)

/-- The default of `total_bytes_limit_`. -/
def totalBytesLimit : ℕ := 64 * 2 ^ 20

variable {M : Type u}

/-- The loop of `MergePartialFromCodedStream` and `ConsumedEntireMessage` together: the
message read, and whether all of the input was. `small` says that the input is within
`total_bytes_limit_`, without which `ReadTag` does not take its end for the end of the
message, and `atEnd` that the end would be legitimate here. There are at most as many
fields as bytes. -/
def merge (field : M → ℕ → List UInt8 → Field M) (small : Bool) :
    ℕ → Bool → M → List UInt8 → M × Bool
  | 0, _, m, _ => (m, false)
  | fuel + 1, atEnd, m, input =>
    match readTag input with
    | .atEnd => (m, atEnd)
    | .invalid => (m, false)
    | .tag tag rest =>
      match field m tag rest with
      | .failed m => (m, false)
      | .read m rest expectAtEnd => merge field small fuel (expectAtEnd || small) m rest
      | .unknown =>
        if wireType tag = endGroup then (m, false)
        else
          match skipField recursionLimit tag rest with
          | none => (m, false)
          | some rest => merge field small fuel small m rest

/-- `ParseFromArray` on a cleared message: the message, and whether it was read whole and
has its required fields. -/
def parse (field : M → ℕ → List UInt8 → Field M) (isInitialized : M → Bool) (cleared : M)
    (input : List UInt8) : M × Bool :=
  let small := decide (input.length ≤ totalBytesLimit)
  let (m, consumed) := merge field small (input.length + 1) small cleared input
  (m, consumed && isInitialized m)

/-- Reading a string field that holds `old`; `set` stores what the field holds then. The
field counts as present even where its value cannot be read. -/
def readStringField (old : Option (List UInt8)) (set : Option (List UInt8) → M)
    (expectAtEnd : Bool) (input : List UInt8) : Field M :=
  match readString (old.getD []) input with
  | (s, none) => .failed (set (some s))
  | (s, some rest) => .read (set (some s)) rest expectAtEnd

/-- Reading a field of type `bool` into `m`; `set` stores its value. -/
def readBoolField (m : M) (set : Bool → M) (expectAtEnd : Bool) (input : List UInt8) : Field M :=
  match readVarint32 input with
  | none => .failed m
  | some (n, rest) => .read (set (n != 0)) rest expectAtEnd

/-- Reading back a string field. -/
theorem readStringField_writeString {s : List UInt8} (hs : s.length < 2 ^ 31)
    (old : Option (List UInt8)) (set : Option (List UInt8) → M) (expectAtEnd : Bool)
    (rest : List UInt8) :
    readStringField old set expectAtEnd (writeVarint32 s.length ++ s ++ rest) =
      .read (set (some s)) rest expectAtEnd := by
  rw [readStringField, readString_writeString hs]

/-- Reading a string field does not lengthen the input. -/
theorem length_le_of_readStringField {old : Option (List UInt8)} {m : M}
    {set : Option (List UInt8) → M} {expectAtEnd b : Bool} {input rest : List UInt8}
    (h : readStringField old set expectAtEnd input = .read m rest b) :
    rest.length ≤ input.length := by
  rw [readStringField] at h
  split at h
  · cases h
  · rename_i hread
    cases h
    exact Nat.le_of_lt (length_lt_of_readString hread)

/-- Reading a field of type `bool` does not lengthen the input. -/
theorem length_le_of_readBoolField {m m' : M} {set : Bool → M} {expectAtEnd b : Bool}
    {input rest : List UInt8} (h : readBoolField m set expectAtEnd input = .read m' rest b) :
    rest.length ≤ input.length := by
  rw [readBoolField] at h
  split at h
  · cases h
  · rename_i hread
    cases h
    exact Nat.le_of_lt (length_lt_of_readVarint32 hread)

variable {field : M → ℕ → List UInt8 → Field M}

/-- Reading a field does not lengthen the input. -/
def Shrinks (field : M → ℕ → List UInt8 → Field M) : Prop :=
  ∀ {m tag input m' rest b}, field m tag input = .read m' rest b → rest.length ≤ input.length

/-- At the end of the input the message is what was read. -/
theorem merge_nil (small : Bool) (fuel : ℕ) (atEnd : Bool) (m : M) :
    merge field small (fuel + 1) atEnd m [] = (m, atEnd) := rfl

/-- A field of the message's own is read, and reading goes on behind it. -/
theorem merge_of_read {small atEnd expectAtEnd : Bool} {fuel tag : ℕ} {m m' : M}
    {input rest rest' : List UInt8} (htag : readTag input = .tag tag rest)
    (hfield : field m tag rest = .read m' rest' expectAtEnd) :
    merge field small (fuel + 1) atEnd m input =
      merge field small fuel (expectAtEnd || small) m' rest' := by
  rw [merge, htag]
  simp only [hfield]

/-- A string field that was written is read, and reading goes on behind it. -/
theorem merge_writeString (small atEnd : Bool) (fuel : ℕ) {expectAtEnd : Bool} {number : ℕ}
    {m m' : M} {s rest : List UInt8} (hpos : 0 < number) (hsmall : number < 16)
    (hfield : field m (makeTag number lengthDelimited) (writeVarint32 s.length ++ s ++ rest) =
      .read m' rest expectAtEnd) :
    merge field small (fuel + 1) atEnd m (writeString number s ++ rest) =
      merge field small fuel (expectAtEnd || small) m' rest := by
  refine merge_of_read ?_ hfield
  rw [writeString, List.cons_append]
  exact readTag_cons (by unfold makeTag; omega) (by unfold makeTag lengthDelimited; omega) _

/-- **Reading back a message that is one string.** -/
theorem parse_writeString {isInitialized : M → Bool} {cleared m : M} {number : ℕ}
    {s : List UInt8} (hpos : 0 < number) (hsmall : number < 16)
    (hfield : field cleared (makeTag number lengthDelimited) (writeVarint32 s.length ++ s ++ []) =
      .read m [] true) :
    parse field isInitialized cleared (writeString number s) = (m, isInitialized m) := by
  have hmerge := fun small atEnd fuel =>
    merge_writeString small atEnd fuel hpos hsmall hfield
  simp only [List.append_nil] at hmerge
  simp only [parse, hmerge]
  rw [writeString, List.length_cons, merge_nil, Bool.true_or, Bool.true_and]

/-- **Reading back a message that is two strings.** -/
theorem parse_writeString_append {isInitialized : M → Bool} {cleared m m' : M} {expectAtEnd : Bool}
    {number number' : ℕ} {s s' : List UInt8} (hpos : 0 < number) (hsmall : number < 16)
    (hpos' : 0 < number') (hsmall' : number' < 16)
    (hfield : field cleared (makeTag number lengthDelimited)
      (writeVarint32 s.length ++ s ++ writeString number' s') =
        .read m (writeString number' s') expectAtEnd)
    (hfield' : field m (makeTag number' lengthDelimited)
      (writeVarint32 s'.length ++ s' ++ []) = .read m' [] true) :
    parse field isInitialized cleared (writeString number s ++ writeString number' s') =
      (m', isInitialized m') := by
  have hmerge := fun small atEnd fuel => merge_writeString small atEnd fuel hpos hsmall hfield
  have hmerge' := fun small atEnd fuel =>
    merge_writeString small atEnd fuel hpos' hsmall' hfield'
  simp only [List.append_nil] at hmerge'
  have hlength : (writeString number s ++ writeString number' s').length =
      (writeVarint32 s.length ++ s).length + (writeVarint32 s'.length ++ s').length + 1 + 1 := by
    rw [List.length_append, writeString, writeString, List.length_cons, List.length_cons]
    omega
  simp only [parse, hmerge, hlength, hmerge', merge_nil, Bool.true_or, Bool.true_and]

/-- **The bound on the number of fields is never reached**, if reading a field does not
lengthen the input: more of it changes nothing. -/
theorem merge_eq_of_length_lt (hfield : Shrinks field) {small atEnd : Bool} {fuel fuel' : ℕ}
    {m : M} {input : List UInt8} (h : input.length < fuel) (h' : input.length < fuel') :
    merge field small fuel atEnd m input = merge field small fuel' atEnd m input := by
  induction fuel generalizing fuel' atEnd m input with
  | zero => omega
  | succ fuel ih =>
      obtain ⟨fuel', rfl⟩ : ∃ f, fuel' = f + 1 := ⟨fuel' - 1, by omega⟩
      rw [merge, merge]
      cases htag : readTag input with
      | atEnd => rfl
      | invalid => rfl
      | tag tag rest =>
          have hlt := length_lt_of_readTag htag
          simp only
          cases hread : field m tag rest with
          | failed m' => rfl
          | read m' rest' expectAtEnd =>
              have := hfield hread
              exact ih (by omega) (by omega)
          | unknown =>
              simp only
              split
              · rfl
              · cases hskip : skipField recursionLimit tag rest with
                | none => rfl
                | some rest' =>
                    have := length_le_of_skipField hskip
                    exact ih (by omega) (by omega)

/-- Reading a message does not depend on the bound. -/
theorem parse_eq (hfield : Shrinks field) (isInitialized : M → Bool) (cleared : M) {fuel : ℕ}
    {input : List UInt8} (h : input.length < fuel) :
    parse field isInitialized cleared input =
      let small := decide (input.length ≤ totalBytesLimit)
      let (m, consumed) := merge field small fuel small cleared input
      (m, consumed && isInitialized m) := by
  simp only [parse]
  rw [merge_eq_of_length_lt hfield (Nat.lt_succ_self _) h]

end Wire
