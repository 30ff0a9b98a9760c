import AsioChat.Lib.Wire

/-!
# The Grammar of the Wire Format

What the readers of `Wire` accept, as a grammar that does not speak of reading: a message is a
sequence of fields, each a tag and behind it a value of the tag's wire type, and a group is a
sequence of fields again, closed by its own tag, with groups in groups to a depth that is
bounded. Numbers need not be written in the shortest way.

Every reader is shown to take off exactly what its part of the grammar derives and to leave the
rest (`Takes`), so readers that follow each other follow the grammar.

## Main results

* `takes_readVarint`, `takes_readTag`, `takes_readString`: numbers, tags and strings.
* `takes_skipField`: the fields that are skipped.
* `parse_eq_true_iff`: a message is accepted exactly if it is a sequence of fields that has what
  is required, and then it holds what its fields store one after another.
-/

namespace Wire

/-- A reader takes off the input exactly the bytes that a relation derives for what it returns,
and leaves the rest. -/
def Takes {α : Type*} (read : List UInt8 → Option (α × List UInt8)) (G : α → List UInt8 → Prop) :
    Prop :=
  ∀ input x rest, read input = some (x, rest) ↔ ∃ bytes, G x bytes ∧ input = bytes ++ rest

/-! ### Numbers, tags and strings -/

/-- A varint of at most `k` bytes. -/
inductive Varint : ℕ → ℕ → List UInt8 → Prop
  | last {k : ℕ} {b : UInt8} (hb : b.toNat < 128) : Varint (k + 1) b.toNat [b]
  | more {k n : ℕ} {b : UInt8} {bytes : List UInt8} (hb : 128 ≤ b.toNat) (h : Varint k n bytes) :
      Varint (k + 1) (b.toNat - 128 + 128 * n) (b :: bytes)

/-- `readVarint` takes what the grammar says. -/
theorem takes_readVarint (k : ℕ) : Takes (readVarint k) (Varint k) := by
  intro input n rest
  constructor
  · intro h
    induction k generalizing input n with
    | zero => cases h
    | succ k ih =>
        cases input with
        | nil => cases h
        | cons b input =>
            rw [readVarint] at h
            split at h
            · rename_i hb
              cases h
              exact ⟨[b], .last hb, rfl⟩
            · rename_i hb
              obtain ⟨⟨n', rest'⟩, hread, heq⟩ := Option.map_eq_some_iff.mp h
              cases heq
              obtain ⟨bytes, hbytes, rfl⟩ := ih input n' hread
              exact ⟨b :: bytes, .more (Nat.not_lt.mp hb) hbytes, rfl⟩
  · rintro ⟨bytes, h, rfl⟩
    induction h with
    | last hb => simp only [List.singleton_append, readVarint, if_pos hb]
    | more hb _ ih =>
        rw [List.cons_append, readVarint, if_neg (Nat.not_lt.mpr hb), ih]
        rfl

/-- A varint has a byte. -/
theorem Varint.ne_nil {k n : ℕ} {bytes : List UInt8} (h : Varint k n bytes) : bytes ≠ [] := by
  cases h <;> exact List.cons_ne_nil _ _

/-- A varint of which the bits up to the 32nd are a number. -/
def Varint32 (n : ℕ) (bytes : List UInt8) : Prop :=
  ∃ m, Varint maxVarintBytes m bytes ∧ m % 2 ^ 32 = n

/-- `readVarint32` takes what the grammar says. -/
theorem takes_readVarint32 : Takes readVarint32 Varint32 := by
  intro input n rest
  rw [readVarint32, Option.map_eq_some_iff]
  constructor
  · rintro ⟨⟨m, rest'⟩, hread, heq⟩
    cases heq
    obtain ⟨bytes, hbytes, rfl⟩ := (takes_readVarint _ _ _ _).mp hread
    exact ⟨bytes, ⟨m, hbytes, rfl⟩, rfl⟩
  · rintro ⟨bytes, ⟨m, hbytes, rfl⟩, rfl⟩
    exact ⟨(m, rest), (takes_readVarint _ _ _ _).mpr ⟨bytes, hbytes, rfl⟩, rfl⟩

/-- The bytes of a tag, which is not zero. -/
def TagBytes (tag : ℕ) (bytes : List UInt8) : Prop := Varint32 tag bytes ∧ tag ≠ 0

/-- A tag has bytes. -/
theorem TagBytes.ne_nil {tag : ℕ} {bytes : List UInt8} (h : TagBytes tag bytes) : bytes ≠ [] := by
  obtain ⟨⟨m, hbytes, -⟩, -⟩ := h
  exact hbytes.ne_nil

/-- `readTag` takes what the grammar says. -/
theorem takes_readTag {input : List UInt8} {tag : ℕ} {rest : List UInt8} :
    readTag input = .tag tag rest ↔ ∃ bytes, TagBytes tag bytes ∧ input = bytes ++ rest := by
  rw [readTag]
  constructor
  · intro h
    split at h
    · cases h
    · split at h
      · cases h
      · rename_i hread
        split at h
        · cases h
        · rename_i htag
          cases h
          obtain ⟨bytes, hbytes, rfl⟩ := (takes_readVarint32 _ _ _).mp hread
          exact ⟨bytes, ⟨hbytes, htag⟩, rfl⟩
  · rintro ⟨bytes, htag, rfl⟩
    have hne : bytes ++ rest ≠ [] := fun hnil => htag.ne_nil (List.append_eq_nil_iff.mp hnil).1
    rw [if_neg hne, (takes_readVarint32 _ _ _).mpr ⟨bytes, htag.1, rfl⟩]
    exact if_neg htag.2

/-- Reading a tag finds the end where there is nothing more. -/
theorem readTag_eq_atEnd_iff {input : List UInt8} : readTag input = .atEnd ↔ input = [] := by
  constructor
  · intro h
    rw [readTag] at h
    split at h
    · assumption
    · split at h
      · cases h
      · split at h <;> cases h
  · rintro rfl
    rfl

/-- A string with its length in front, which is not negative as an `int`. -/
def StringBytes (s : List UInt8) (bytes : List UInt8) : Prop :=
  ∃ length, Varint32 s.length length ∧ s.length < 2 ^ 31 ∧ bytes = length ++ s

/-- `readString` takes what the grammar says. -/
theorem takes_readString {old s input rest : List UInt8} :
    readString old input = (s, some rest) ↔
      ∃ bytes, StringBytes s bytes ∧ input = bytes ++ rest := by
  rw [readString]
  constructor
  · intro h
    split at h
    · cases h
    · rename_i length rest' hread
      obtain ⟨bytes, hbytes, rfl⟩ := (takes_readVarint32 _ _ _).mp hread
      split at h
      · cases h
      · split at h
        · cases h
        · rename_i hsmall hfits
          cases h
          have hlength : (rest'.take length).length = length := by
            rw [List.length_take]
            omega
          refine ⟨bytes ++ rest'.take length, ⟨bytes, ?_, ?_, rfl⟩, ?_⟩
          · rwa [hlength]
          · omega
          · rw [List.append_assoc, List.take_append_drop]
  · rintro ⟨_, ⟨length, hlength, hsmall, rfl⟩, rfl⟩
    rw [List.append_assoc, (takes_readVarint32 _ _ _).mpr ⟨length, hlength, rfl⟩]
    simp only
    rw [if_neg (by omega), if_neg (by rw [List.length_append]; omega), List.take_left,
      List.drop_left]

/-! ### Fields -/

/-- The value of a field. -/
inductive Value
  | varint (n : ℕ)
  | fixed64 (bytes : List UInt8)
  | string (s : List UInt8)
  | group
  | fixed32 (bytes : List UInt8)
  deriving DecidableEq, Repr

/-- The bytes of a value behind a tag, where `Body` says what may stand in a group. -/
inductive Payload (Body : List UInt8 → Prop) (tag : ℕ) : Value → List UInt8 → Prop
  | varint {n : ℕ} {bytes : List UInt8} (htype : wireType tag = varint)
      (h : Varint maxVarintBytes n bytes) : Payload Body tag (.varint n) bytes
  | fixed64 {bytes : List UInt8} (htype : wireType tag = fixed64) (h : bytes.length = 8) :
      Payload Body tag (.fixed64 bytes) bytes
  | string {s bytes : List UInt8} (htype : wireType tag = lengthDelimited)
      (h : StringBytes s bytes) : Payload Body tag (.string s) bytes
  | group {body close : List UInt8} (htype : wireType tag = startGroup) (h : Body body)
      (hclose : TagBytes (makeTag (fieldNumber tag) endGroup) close) :
      Payload Body tag .group (body ++ close)
  | fixed32 {bytes : List UInt8} (htype : wireType tag = fixed32) (h : bytes.length = 4) :
      Payload Body tag (.fixed32 bytes) bytes

/-- The bytes of some fields, where `P` says what the bytes of a value are. -/
inductive Fields (P : ℕ → Value → List UInt8 → Prop) : List (ℕ × Value) → List UInt8 → Prop
  | nil : Fields P [] []
  | cons {tag : ℕ} {v : Value} {t bytes rest : List UInt8} {fs : List (ℕ × Value)}
      (htag : TagBytes tag t) (hvalue : P tag v bytes) (hrest : Fields P fs rest) :
      Fields P ((tag, v) :: fs) (t ++ (bytes ++ rest))

/-- The bytes of a value behind a tag, with groups nested at most `depth` deep. -/
def Encodes : ℕ → ℕ → Value → List UInt8 → Prop
  | 0 => Payload fun _ => False
  | depth + 1 => Payload fun body => ∃ fs, Fields (Encodes depth) fs body

/-- A group does not end within a value. -/
theorem Encodes.wireType_ne {depth tag : ℕ} {v : Value} {bytes : List UInt8}
    (h : Encodes depth tag v bytes) : wireType tag ≠ endGroup := by
  have hpayload : ∀ {Body : List UInt8 → Prop}, Payload Body tag v bytes →
      wireType tag ≠ endGroup := by
    intro Body h
    cases h with
    | varint htype => rw [htype]; decide
    | fixed64 htype => rw [htype]; decide
    | string htype => rw [htype]; decide
    | group htype => rw [htype]; decide
    | fixed32 htype => rw [htype]; decide
  cases depth with
  | zero => exact hpayload h
  | succ depth => exact hpayload h

/-- `skipBytes` takes as many bytes as it is told to. -/
theorem takes_skipBytes {n : ℕ} {input rest : List UInt8} :
    skipBytes n input = some rest ↔
      ∃ bytes : List UInt8, bytes.length = n ∧ input = bytes ++ rest := by
  rw [skipBytes]
  constructor
  · intro h
    split at h
    · cases h
    · rename_i hfits
      cases h
      refine ⟨input.take n, ?_, (List.take_append_drop n input).symm⟩
      rw [List.length_take]
      omega
  · rintro ⟨bytes, rfl, rfl⟩
    rw [if_neg (by rw [List.length_append]; omega), List.drop_left]

section Skip

variable {skip : ℕ → List UInt8 → Option (List UInt8)} {P : ℕ → Value → List UInt8 → Prop}

/-- What `SkipMessage` takes off up to the end of a group: some fields, and a tag. -/
theorem takes_skipMessage
    (hskip : ∀ tag input rest, skip tag input = some rest ↔
      ∃ v bytes, P tag v bytes ∧ input = bytes ++ rest)
    (htype : ∀ tag v bytes, P tag v bytes → wireType tag ≠ endGroup) {fuel last : ℕ}
    {input rest : List UInt8} (hfuel : input.length < fuel) (hlast : wireType last = endGroup) :
    skipMessage skip fuel input = some (last, rest) ↔
      ∃ fs body close, Fields P fs body ∧ TagBytes last close ∧
        input = body ++ (close ++ rest) := by
  have hne : last ≠ 0 := by
    rintro rfl
    cases hlast
  constructor
  · intro h
    clear hfuel
    induction fuel generalizing input with
    | zero => cases h
    | succ fuel ih =>
        rw [skipMessage] at h
        split at h
        · cases h
          exact absurd rfl hne
        · cases h
          exact absurd rfl hne
        · rename_i tag input' hread
          obtain ⟨t, htag, rfl⟩ := takes_readTag.mp hread
          split at h
          · cases h
            exact ⟨[], [], t, .nil, htag, rfl⟩
          · split at h
            · cases h
            · rename_i input'' hfield
              obtain ⟨v, bytes, hvalue, rfl⟩ := (hskip _ _ _).mp hfield
              obtain ⟨fs, body, close, hfields, hclose, rfl⟩ := ih h
              exact ⟨(tag, v) :: fs, _, close, .cons htag hvalue hfields, hclose, by simp⟩
  · rintro ⟨fs, body, close, hfields, hclose, rfl⟩
    induction hfields generalizing fuel with
    | nil =>
        obtain ⟨fuel, rfl⟩ : ∃ f, fuel = f + 1 := ⟨fuel - 1, by omega⟩
        rw [skipMessage, takes_readTag.mpr ⟨close, hclose, List.nil_append _⟩]
        exact if_pos hlast
    | @cons tag v t bytes body fs htag hvalue _ ih =>
        obtain ⟨fuel, rfl⟩ : ∃ f, fuel = f + 1 := ⟨fuel - 1, by omega⟩
        have hpos := List.length_pos_of_ne_nil htag.ne_nil
        simp only [List.length_append] at hfuel ih
        rw [skipMessage, takes_readTag.mpr ⟨t, htag, List.append_assoc t _ _⟩]
        simp only
        rw [if_neg (htype tag v bytes hvalue),
          (hskip _ _ _).mpr ⟨v, bytes, hvalue, List.append_assoc bytes _ _⟩]
        exact ih (by omega)

end Skip

/-- What `SkipField` takes off, given what it does with a group. -/
theorem takes_payload {B : List UInt8 → Prop} {tag : ℕ} {group : Option (List UInt8)}
    {input rest : List UInt8}
    (hgroup : group = some rest ↔ ∃ body close, B body ∧
      TagBytes (makeTag (fieldNumber tag) endGroup) close ∧ input = body ++ (close ++ rest)) :
    (if wireType tag = varint then (readVarint maxVarintBytes input).map Prod.snd
      else if wireType tag = fixed64 then skipBytes 8 input
      else if wireType tag = lengthDelimited then (readString [] input).2
      else if wireType tag = startGroup then group
      else if wireType tag = fixed32 then skipBytes 4 input
      else none) = some rest ↔
      ∃ v bytes, Payload B tag v bytes ∧ input = bytes ++ rest := by
  constructor
  · intro h
    split at h
    · rename_i htype
      obtain ⟨⟨n, rest'⟩, hread, rfl⟩ := Option.map_eq_some_iff.mp h
      obtain ⟨bytes, hbytes, rfl⟩ := (takes_readVarint _ _ _ _).mp hread
      exact ⟨.varint n, bytes, .varint htype hbytes, rfl⟩
    split at h
    · rename_i htype
      obtain ⟨bytes, hbytes, rfl⟩ := takes_skipBytes.mp h
      exact ⟨.fixed64 bytes, bytes, .fixed64 htype hbytes, rfl⟩
    split at h
    · rename_i htype
      obtain ⟨bytes, hbytes, rfl⟩ := takes_readString.mp (Prod.ext rfl h)
      exact ⟨.string _, bytes, .string htype hbytes, rfl⟩
    split at h
    · rename_i htype
      obtain ⟨body, close, hbody, hclose, rfl⟩ := hgroup.mp h
      exact ⟨.group, body ++ close, .group htype hbody hclose, (List.append_assoc ..).symm⟩
    split at h
    · rename_i htype
      obtain ⟨bytes, hbytes, rfl⟩ := takes_skipBytes.mp h
      exact ⟨.fixed32 bytes, bytes, .fixed32 htype hbytes, rfl⟩
    · cases h
  · rintro ⟨v, bytes, h, rfl⟩
    cases h with
    | varint htype h =>
        rw [if_pos htype, (takes_readVarint _ _ _ _).mpr ⟨bytes, h, rfl⟩]
        rfl
    | fixed64 htype h =>
        rw [htype, if_neg (by decide), if_pos rfl]
        exact takes_skipBytes.mpr ⟨bytes, h, rfl⟩
    | string htype h =>
        rw [htype, if_neg (by decide), if_neg (by decide), if_pos rfl,
          takes_readString.mpr ⟨bytes, h, rfl⟩]
    | group htype h hclose =>
        rw [htype, if_neg (by decide), if_neg (by decide), if_neg (by decide), if_pos rfl]
        exact hgroup.mpr ⟨_, _, h, hclose, List.append_assoc ..⟩
    | fixed32 htype h =>
        rw [htype, if_neg (by decide), if_neg (by decide), if_neg (by decide), if_neg (by decide),
          if_pos rfl]
        exact takes_skipBytes.mpr ⟨bytes, h, rfl⟩

/-- **What `SkipField` takes off**: a value of the tag's wire type. -/
theorem takes_skipField (depth tag : ℕ) (input rest : List UInt8) :
    skipField depth tag input = some rest ↔
      ∃ v bytes, Encodes depth tag v bytes ∧ input = bytes ++ rest := by
  induction depth generalizing tag input rest with
  | zero =>
      rw [skipField.eq_def]
      refine takes_payload (B := fun _ => False) (iff_of_false (fun h => by cases h) ?_)
      rintro ⟨_, _, h, -⟩
      exact h
  | succ depth ih =>
      rw [skipField.eq_def]
      refine takes_payload (B := fun body => ∃ fs, Fields (Encodes depth) fs body) ?_
      have htag : wireType (makeTag (fieldNumber tag) endGroup) = endGroup := by
        rw [wireType, makeTag, Nat.mul_add_mod']
        rfl
      have hmessage : skipMessage (skipField depth) (input.length + 1) input =
            some (makeTag (fieldNumber tag) endGroup, rest) ↔
          ∃ fs body close, Fields (Encodes depth) fs body ∧
            TagBytes (makeTag (fieldNumber tag) endGroup) close ∧
            input = body ++ (close ++ rest) :=
        takes_skipMessage ih (fun _ _ _ h => h.wireType_ne) (Nat.lt_succ_self input.length) htag
      constructor
      · intro h
        simp only at h
        split at h
        · cases h
        · rename_i last rest' hskip
          split at h
          · rename_i hlast
            cases h
            rw [hlast] at hskip
            obtain ⟨fs, body, close, hfields, hclose, heq⟩ := hmessage.mp hskip
            exact ⟨body, close, ⟨fs, hfields⟩, hclose, heq⟩
          · cases h
      · rintro ⟨body, close, ⟨fs, hfields⟩, hclose, heq⟩
        simp only [hmessage.mpr ⟨fs, body, close, hfields, hclose, heq⟩, if_true]

/-! ### Messages -/

universe u

variable {M : Type u} {field : M → ℕ → List UInt8 → Field M} {store : M → ℕ × Value → M}
  {looks : ℕ → Bool}

/-- A message type reads its own fields as the grammar has them: `store` is what it stores of a
field, and `looks` says behind which of its fields the end of the input is looked for. A field
that is none of its own stores nothing. -/
structure Reads (field : M → ℕ → List UInt8 → Field M) (store : M → ℕ × Value → M)
    (looks : ℕ → Bool) : Prop where
  read : ∀ {m tag input m' rest b}, field m tag input = .read m' rest b → b = looks tag ∧
    ∃ v bytes, Encodes recursionLimit tag v bytes ∧ input = bytes ++ rest ∧ m' = store m (tag, v)
  unknown : ∀ {m tag input}, field m tag input = .unknown →
    looks tag = false ∧ ∀ m v, store m (tag, v) = m
  reads : ∀ {m tag v bytes rest}, Encodes recursionLimit tag v bytes →
    field m tag (bytes ++ rest) = .unknown ∨
      field m tag (bytes ++ rest) = .read (store m (tag, v)) rest (looks tag)

/-- A message type without fields. -/
theorem Reads.nothing :
    Reads (fun (_ : M) _ _ => .unknown) (fun m _ => m) (fun _ => false) :=
  ⟨fun h => (nomatch h), fun _ => ⟨rfl, fun _ _ => rfl⟩, fun _ => .inl rfl⟩

/-- A value behind the tag of a string is a string. -/
theorem Encodes.string {depth tag : ℕ} {v : Value} {bytes : List UInt8}
    (h : Encodes depth tag v bytes) (htype : wireType tag = lengthDelimited) :
    ∃ s, v = .string s ∧ StringBytes s bytes := by
  have hpayload : ∀ {Body : List UInt8 → Prop}, Payload Body tag v bytes →
      ∃ s, v = .string s ∧ StringBytes s bytes := by
    intro Body h
    cases h with
    | string _ h => exact ⟨_, rfl, h⟩
    | varint htype' => exact absurd (htype.symm.trans htype') (by decide)
    | fixed64 htype' => exact absurd (htype.symm.trans htype') (by decide)
    | group htype' => exact absurd (htype.symm.trans htype') (by decide)
    | fixed32 htype' => exact absurd (htype.symm.trans htype') (by decide)
  cases depth with
  | zero => exact hpayload h
  | succ depth => exact hpayload h

/-- A value behind the tag of a varint is a varint. -/
theorem Encodes.varint {depth tag : ℕ} {v : Value} {bytes : List UInt8}
    (h : Encodes depth tag v bytes) (htype : wireType tag = varint) :
    ∃ n, v = .varint n ∧ Varint maxVarintBytes n bytes := by
  have hpayload : ∀ {Body : List UInt8 → Prop}, Payload Body tag v bytes →
      ∃ n, v = .varint n ∧ Varint maxVarintBytes n bytes := by
    intro Body h
    cases h with
    | varint _ h => exact ⟨_, rfl, h⟩
    | fixed64 htype' => exact absurd (htype.symm.trans htype') (by decide)
    | string htype' => exact absurd (htype.symm.trans htype') (by decide)
    | group htype' => exact absurd (htype.symm.trans htype') (by decide)
    | fixed32 htype' => exact absurd (htype.symm.trans htype') (by decide)
  cases depth with
  | zero => exact hpayload h
  | succ depth => exact hpayload h

/-- Every depth has the values that are no groups. -/
theorem encodes_of_payload {depth tag : ℕ} {v : Value} {bytes : List UInt8}
    (h : ∀ {Body : List UInt8 → Prop}, Payload Body tag v bytes) : Encodes depth tag v bytes := by
  cases depth with
  | zero => exact h
  | succ depth => exact h

/-- What reading a string field takes off, and where it cannot be read. -/
theorem takes_readStringField {old : Option (List UInt8)} {set : Option (List UInt8) → M}
    {b b' : Bool} {m' : M} {input rest : List UInt8} :
    readStringField old set b input = .read m' rest b' ↔
      b' = b ∧ ∃ s bytes, StringBytes s bytes ∧ input = bytes ++ rest ∧ m' = set (some s) := by
  rw [readStringField]
  constructor
  · intro h
    split at h
    · cases h
    · rename_i hread
      cases h
      obtain ⟨bytes, hbytes, rfl⟩ := takes_readString.mp hread
      exact ⟨rfl, _, bytes, hbytes, rfl, rfl⟩
  · rintro ⟨rfl, s, bytes, hbytes, rfl, rfl⟩
    rw [takes_readString.mpr ⟨bytes, hbytes, rfl⟩]

/-- What reading a field of type `bool` takes off. -/
theorem takes_readBoolField {m m' : M} {set : Bool → M} {b b' : Bool} {input rest : List UInt8} :
    readBoolField m set b input = .read m' rest b' ↔
      b' = b ∧ ∃ n bytes, Varint maxVarintBytes n bytes ∧ input = bytes ++ rest ∧
        m' = set (n % 2 ^ 32 != 0) := by
  rw [readBoolField]
  constructor
  · intro h
    split at h
    · cases h
    · rename_i hread
      cases h
      obtain ⟨bytes, ⟨n, hbytes, rfl⟩, rfl⟩ := (takes_readVarint32 _ _ _).mp hread
      exact ⟨rfl, n, bytes, hbytes, rfl, rfl⟩
  · rintro ⟨rfl, n, bytes, hbytes, rfl, rfl⟩
    rw [(takes_readVarint32 _ _ _).mpr ⟨bytes, ⟨n, hbytes, rfl⟩, rfl⟩]

variable {store' : M → ℕ × Value → M} {number : ℕ} {b : Bool}

/-- A message type with one more field: `readOwn` reads it, and takes off what is stored. -/
theorem Reads.own {type : ℕ} {readOwn : M → List UInt8 → Field M} (h : Reads field store looks)
    (hown : ∀ {m tag input m' rest b'}, fieldNumber tag = number ∧ wireType tag = type →
      (readOwn m input = .read m' rest b' ↔ b' = b ∧ ∃ v bytes, Encodes recursionLimit tag v bytes ∧
        input = bytes ++ rest ∧ m' = store' m (tag, v)))
    (hunknown : ∀ m input, readOwn m input ≠ .unknown)
    (hother : ∀ m tag v, ¬ (fieldNumber tag = number ∧ wireType tag = type) →
      store' m (tag, v) = store m (tag, v)) :
    Reads (fun m tag input =>
        if fieldNumber tag = number ∧ wireType tag = type then readOwn m input
        else field m tag input)
      store'
      (fun tag => if fieldNumber tag = number ∧ wireType tag = type then b else looks tag) := by
  refine ⟨fun {m tag input m' rest b'} hread => ?_, fun {m tag input} hnone => ?_,
    fun {m tag v bytes rest} hvalue => ?_⟩
  all_goals by_cases htag : fieldNumber tag = number ∧ wireType tag = type
  · simp only [if_pos htag] at hread ⊢
    exact (hown htag).mp hread
  · simp only [if_neg htag] at hread ⊢
    obtain ⟨hb, v, bytes, hvalue, hinput, rfl⟩ := h.read hread
    exact ⟨hb, v, bytes, hvalue, hinput, (hother m tag v htag).symm⟩
  · simp only [if_pos htag] at hnone
    exact absurd hnone (hunknown m input)
  · simp only [if_neg htag] at hnone ⊢
    obtain ⟨hlooks, hstore⟩ := h.unknown hnone
    exact ⟨hlooks, fun m v => (hother m tag v htag).trans (hstore m v)⟩
  · simp only [if_pos htag]
    exact .inr ((hown htag).mpr ⟨rfl, v, bytes, hvalue, rfl, rfl⟩)
  · simp only [if_neg htag, hother m tag v htag]
    exact h.reads hvalue

/-- A message type with one more string field. -/
theorem Reads.string {old : M → Option (List UInt8)} {set : M → Option (List UInt8) → M}
    (h : Reads field store looks)
    (hset : ∀ m tag s, fieldNumber tag = number ∧ wireType tag = lengthDelimited →
      store' m (tag, .string s) = set m (some s))
    (hother : ∀ m tag v, ¬ (fieldNumber tag = number ∧ wireType tag = lengthDelimited) →
      store' m (tag, v) = store m (tag, v)) :
    Reads (fun m tag input =>
        if fieldNumber tag = number ∧ wireType tag = lengthDelimited then
          readStringField (old m) (set m) b input
        else field m tag input)
      store' (fun tag =>
        if fieldNumber tag = number ∧ wireType tag = lengthDelimited then b else looks tag) := by
  refine h.own (fun {m tag input m' rest b'} htag => takes_readStringField.trans ?_)
    (fun m input hunknown => ?_) hother
  · refine and_congr_right fun _ => ⟨?_, ?_⟩
    · rintro ⟨s, bytes, hbytes, hinput, rfl⟩
      exact ⟨.string s, bytes, encodes_of_payload (.string htag.2 hbytes), hinput,
        (hset m tag s htag).symm⟩
    · rintro ⟨v, bytes, hvalue, hinput, rfl⟩
      obtain ⟨s, rfl, hbytes⟩ := hvalue.string htag.2
      exact ⟨s, bytes, hbytes, hinput, hset m tag s htag⟩
  · rw [readStringField] at hunknown
    split at hunknown <;> cases hunknown

/-- A message type with one more field of type `bool`. -/
theorem Reads.bool {set : M → Bool → M} (h : Reads field store looks)
    (hset : ∀ m tag n, fieldNumber tag = number ∧ wireType tag = varint →
      store' m (tag, .varint n) = set m (n % 2 ^ 32 != 0))
    (hother : ∀ m tag v, ¬ (fieldNumber tag = number ∧ wireType tag = varint) →
      store' m (tag, v) = store m (tag, v)) :
    Reads (fun m tag input =>
        if fieldNumber tag = number ∧ wireType tag = varint then readBoolField m (set m) b input
        else field m tag input)
      store'
      (fun tag => if fieldNumber tag = number ∧ wireType tag = varint then b else looks tag) := by
  refine h.own (fun {m tag input m' rest b'} htag => takes_readBoolField.trans ?_)
    (fun m input hunknown => ?_) hother
  · refine and_congr_right fun _ => ⟨?_, ?_⟩
    · rintro ⟨n, bytes, hbytes, hinput, rfl⟩
      exact ⟨.varint n, bytes, encodes_of_payload (.varint htag.2 hbytes), hinput,
        (hset m tag n htag).symm⟩
    · rintro ⟨v, bytes, hvalue, hinput, rfl⟩
      obtain ⟨n, rfl, hbytes⟩ := hvalue.varint htag.2
      exact ⟨n, bytes, hbytes, hinput, hset m tag n htag⟩
  · rw [readBoolField] at hunknown
    split at hunknown <;> cases hunknown

/-- What a string field stores, if it is the one with this number. -/
def stringStep (number : ℕ) (old : Option (List UInt8)) : ℕ × Value → Option (List UInt8)
  | (tag, .string s) =>
    if fieldNumber tag = number ∧ wireType tag = lengthDelimited then some s else old
  | _ => old

/-- What a field of type `bool` stores, if it is the one with this number. -/
def boolStep (number : ℕ) (old : Option Bool) : ℕ × Value → Option Bool
  | (tag, .varint n) =>
    if fieldNumber tag = number ∧ wireType tag = varint then some (n % 2 ^ 32 != 0) else old
  | _ => old

/-- A string of the field is stored. -/
theorem stringStep_string {old : Option (List UInt8)} {tag : ℕ} {s : List UInt8}
    (h : fieldNumber tag = number ∧ wireType tag = lengthDelimited) :
    stringStep number old (tag, .string s) = some s := if_pos h

/-- What is no string of the field leaves it as it was. -/
theorem stringStep_of_not {old : Option (List UInt8)} {tag : ℕ} {v : Value}
    (h : ¬ (fieldNumber tag = number ∧ wireType tag = lengthDelimited)) :
    stringStep number old (tag, v) = old := by
  cases v with
  | string s => exact if_neg h
  | _ => rfl

/-- A varint of the field is stored, as a `bool`. -/
theorem boolStep_varint {old : Option Bool} {tag n : ℕ}
    (h : fieldNumber tag = number ∧ wireType tag = varint) :
    boolStep number old (tag, .varint n) = some (n % 2 ^ 32 != 0) := if_pos h

/-- What is no varint of the field leaves it as it was. -/
theorem boolStep_of_not {old : Option Bool} {tag : ℕ} {v : Value}
    (h : ¬ (fieldNumber tag = number ∧ wireType tag = varint)) :
    boolStep number old (tag, v) = old := by
  cases v with
  | varint n => exact if_neg h
  | _ => rfl

/-- The last value of a string field. -/
def lastString (number : ℕ) (fs : List (ℕ × Value)) : Option (List UInt8) :=
  fs.foldl (stringStep number) none

/-- The last value of a field of type `bool`. -/
def lastBool (number : ℕ) (fs : List (ℕ × Value)) : Option Bool :=
  fs.foldl (boolStep number) none

/-! ### What is accepted -/

/-- Whether the end of the input is legitimate behind some fields, where `atEnd` says so before
the first: behind the last one it is, if it is looked for there, or if the input is small. -/
def endsAt (looks : ℕ → Bool) (small : Bool) : Bool → List (ℕ × Value) → Bool
  | atEnd, [] => atEnd
  | _, f :: fs => endsAt looks small (looks f.1 || small) fs

/-- The end of a small input is always legitimate, that of another if it is looked for. -/
theorem endsAt_iff {small : Bool} {fs : List (ℕ × Value)} :
    endsAt looks small small fs = true ↔
      small = true ∨ ∃ f, fs.getLast? = some f ∧ looks f.1 = true := by
  have hends : ∀ atEnd, endsAt looks small atEnd fs =
      fs.getLast?.elim atEnd fun f => looks f.1 || small := by
    induction fs with
    | nil => exact fun _ => rfl
    | cons f fs ih =>
        intro atEnd
        rw [endsAt, ih, List.getLast?_cons]
        cases fs.getLast? <;> rfl
  rw [hends]
  cases fs.getLast? with
  | none => simp
  | some f => simp [or_comm]

/-- What was read as a message is some fields, and the message is what they store. -/
theorem exists_fields_of_merge (h : Reads field store looks) {small atEnd : Bool} {fuel : ℕ}
    {m m' : M} {input : List UInt8} (hmerge : merge field small fuel atEnd m input = (m', true)) :
    ∃ fs, Fields (Encodes recursionLimit) fs input ∧ m' = fs.foldl store m ∧
      endsAt looks small atEnd fs = true := by
  induction fuel generalizing atEnd m input with
  | zero => cases hmerge
  | succ fuel ih =>
      rw [merge] at hmerge
      split at hmerge
      · rename_i hend
        cases hmerge
        rw [readTag_eq_atEnd_iff.mp hend]
        exact ⟨[], .nil, rfl, rfl⟩
      · cases hmerge
      · rename_i tag rest hread
        obtain ⟨t, htag, rfl⟩ := takes_readTag.mp hread
        split at hmerge
        · cases hmerge
        · rename_i hfield
          obtain ⟨rfl, v, bytes, hvalue, rfl, rfl⟩ := h.read hfield
          obtain ⟨fs, hfields, rfl, hends⟩ := ih hmerge
          exact ⟨(tag, v) :: fs, .cons htag hvalue hfields, rfl, hends⟩
        · -- a field that is none of the message's own is skipped
          rename_i hfield
          obtain ⟨hlooks, hstore⟩ := h.unknown hfield
          split at hmerge
          · cases hmerge
          · split at hmerge
            · cases hmerge
            · rename_i hskip
              obtain ⟨v, bytes, hvalue, rfl⟩ := (takes_skipField _ _ _ _).mp hskip
              obtain ⟨fs, hfields, rfl, hends⟩ := ih hmerge
              refine ⟨(tag, v) :: fs, .cons htag hvalue hfields, ?_, ?_⟩
              · rw [List.foldl_cons, hstore]
              · rwa [endsAt, hlooks, Bool.false_or]

/-- Some fields are read as what they store, given fuel for a field a byte. -/
theorem merge_of_fields (h : Reads field store looks) {small atEnd : Bool} {fuel : ℕ} {m : M}
    {input : List UInt8} {fs : List (ℕ × Value)}
    (hfields : Fields (Encodes recursionLimit) fs input)
    (hends : endsAt looks small atEnd fs = true) (hfuel : input.length < fuel) :
    merge field small fuel atEnd m input = (fs.foldl store m, true) := by
  induction hfields generalizing fuel atEnd m with
  | nil =>
      obtain ⟨fuel, rfl⟩ : ∃ f, fuel = f + 1 := ⟨fuel - 1, by omega⟩
      rw [merge_nil]
      exact congrArg _ hends
  | @cons tag v t bytes rest fs htag hvalue _ ih =>
      obtain ⟨fuel, rfl⟩ : ∃ f, fuel = f + 1 := ⟨fuel - 1, by omega⟩
      have hpos := List.length_pos_of_ne_nil htag.ne_nil
      simp only [List.length_append] at hfuel
      rw [merge, takes_readTag.mpr ⟨t, htag, rfl⟩]
      rw [endsAt] at hends
      have hfield : field m tag (bytes ++ rest) = .unknown ∨
          field m tag (bytes ++ rest) = .read (store m (tag, v)) rest (looks tag) :=
        h.reads hvalue
      rcases hfield with hfield | hfield
      · obtain ⟨hlooks, hstore⟩ := h.unknown hfield
        rw [hlooks, Bool.false_or] at hends
        simp only [hfield]
        rw [if_neg hvalue.wireType_ne, (takes_skipField _ _ _ _).mpr ⟨v, bytes, hvalue, rfl⟩,
          List.foldl_cons, hstore]
        exact ih hends (by omega)
      · simp only [hfield]
        exact ih hends (by omega)

/-- **What is accepted as a message**: some fields that have what is required. Behind the limit of
the library the end of the input must be one that is looked for. -/
theorem parse_eq_true_iff (h : Reads field store looks) {isInitialized : M → Bool} {cleared m : M}
    {input : List UInt8} :
    parse field isInitialized cleared input = (m, true) ↔ isInitialized m = true ∧
      ∃ fs, Fields (Encodes recursionLimit) fs input ∧ m = fs.foldl store cleared ∧
        (input.length ≤ totalBytesLimit ∨ ∃ f, fs.getLast? = some f ∧ looks f.1 = true) := by
  have hends : ∀ fs, endsAt looks (decide (input.length ≤ totalBytesLimit))
        (decide (input.length ≤ totalBytesLimit)) fs = true ↔
      input.length ≤ totalBytesLimit ∨ ∃ f, fs.getLast? = some f ∧ looks f.1 = true := by
    intro fs
    rw [endsAt_iff, decide_eq_true_eq]
  rw [parse]
  simp only [Prod.ext_iff, Bool.and_eq_true]
  constructor
  · rintro ⟨rfl, hconsumed, hinit⟩
    obtain ⟨fs, hfields, heq, hend⟩ := exists_fields_of_merge h (Prod.ext rfl hconsumed)
    exact ⟨hinit, fs, hfields, heq, (hends fs).mp hend⟩
  · rintro ⟨hinit, fs, hfields, rfl, hend⟩
    have hmerge := merge_of_fields h (m := cleared) hfields ((hends fs).mpr hend)
      (Nat.lt_succ_self input.length)
    rw [hmerge]
    exact ⟨rfl, rfl, hinit⟩

end Wire
