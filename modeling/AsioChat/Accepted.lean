import AsioChat.Lib.WireGrammar
import AsioChat.PacketPb

/-!
# What Is Accepted as a Message

The generated code of the four messages reads the fields in any order, skips those it does not
know, and lets a field that comes again replace the value it had. So a body is accepted if and
only if it is a sequence of fields as the wire format has them, in which the required ones occur
with the right wire type, and the message holds their last values. Neither the order nor the
shortest way to write a number matters, nor what else stands between the fields.

A body beyond the limit of the library is accepted as well, if it ends with the field behind
which the generated code looks for the end.

## Main results

* `accepted_iff`: the bodies that are accepted, for each of the messages, and what is read.
-/

namespace AsioChat

open Wire

/-- A body ends where the generated code takes its end for the end of the message: it is within
the limit of the library, or its last field is the one behind which the end is looked for. -/
def EndsWith (number type : ℕ) (input : List UInt8) (fs : List (ℕ × Value)) : Prop :=
  input.length ≤ totalBytesLimit ∨
    ∃ f, fs.getLast? = some f ∧ fieldNumber f.1 = number ∧ wireType f.1 = type

namespace LoginRequest

/-- What a field stores. -/
def store (m : LoginRequest) (f : ℕ × Value) : LoginRequest := ⟨stringStep 1 m.nameField f⟩

/-- `MergePartialFromCodedStream` of a `LoginRequest` reads field 1. -/
theorem reads_mergeField : Reads mergeField store fun tag =>
    if fieldNumber tag = 1 ∧ wireType tag = lengthDelimited then true else false :=
  Reads.nothing.string (fun _ _ _ htag => congrArg mk (stringStep_string htag))
    fun _ _ _ htag => congrArg mk (stringStep_of_not htag)

/-- What is left in the message is the last string of field 1. -/
theorem foldl_store (fs : List (ℕ × Value)) : fs.foldl store cleared = ⟨lastString 1 fs⟩ :=
  List.foldl_hom mk fun _ _ => rfl

end LoginRequest

namespace LoginResponse

/-- What a field stores. -/
def store (m : LoginResponse) (f : ℕ × Value) : LoginResponse := ⟨boolStep 2 m.successField f⟩

/-- That of a `LoginResponse` reads field 2. -/
theorem reads_mergeField : Reads mergeField store fun tag =>
    if fieldNumber tag = 2 ∧ wireType tag = varint then true else false :=
  Reads.nothing.bool (fun _ _ _ htag => congrArg mk (boolStep_varint htag))
    fun _ _ _ htag => congrArg mk (boolStep_of_not htag)

/-- What is left in the message is the last `bool` of field 2. -/
theorem foldl_store (fs : List (ℕ × Value)) : fs.foldl store cleared = ⟨lastBool 2 fs⟩ :=
  List.foldl_hom mk fun _ _ => rfl

end LoginResponse

namespace ChatRequest

/-- What a field stores. -/
def store (m : ChatRequest) (f : ℕ × Value) : ChatRequest := ⟨stringStep 3 m.messageField f⟩

/-- That of a `ChatRequest` reads field 3. -/
theorem reads_mergeField : Reads mergeField store fun tag =>
    if fieldNumber tag = 3 ∧ wireType tag = lengthDelimited then true else false :=
  Reads.nothing.string (fun _ _ _ htag => congrArg mk (stringStep_string htag))
    fun _ _ _ htag => congrArg mk (stringStep_of_not htag)

/-- What is left in the message is the last string of field 3. -/
theorem foldl_store (fs : List (ℕ × Value)) : fs.foldl store cleared = ⟨lastString 3 fs⟩ :=
  List.foldl_hom mk fun _ _ => rfl

end ChatRequest

namespace ChatNotify

/-- What a field stores. -/
def store (m : ChatNotify) (f : ℕ × Value) : ChatNotify :=
  ⟨stringStep 4 m.nameField f, stringStep 5 m.messageField f⟩

/-- That of a `ChatNotify` reads fields 4 and 5. -/
theorem reads_mergeField : Reads mergeField store fun tag =>
    if fieldNumber tag = 4 ∧ wireType tag = lengthDelimited then false
    else if fieldNumber tag = 5 ∧ wireType tag = lengthDelimited then true else false := by
  -- first the field read last, on a message whose name no field stores
  have hmessage : Reads
      (fun (m : ChatNotify) tag input =>
        if fieldNumber tag = 5 ∧ wireType tag = lengthDelimited then
          readStringField m.messageField (fun value => { m with messageField := value }) true input
        else .unknown)
      (fun m f => ⟨m.nameField, stringStep 5 m.messageField f⟩)
      fun tag => if fieldNumber tag = 5 ∧ wireType tag = lengthDelimited then true else false :=
    Reads.nothing.string (fun m _ _ htag => congrArg (mk m.nameField) (stringStep_string htag))
      fun m _ _ htag => congrArg (mk m.nameField) (stringStep_of_not htag)
  refine hmessage.string (fun m tag s htag => ?_) fun m tag v htag => ?_
  · -- a field with the number of the name is none with that of the message
    have hother : ¬ (fieldNumber tag = 5 ∧ wireType tag = lengthDelimited) := fun h =>
      absurd (htag.1.symm.trans h.1) (by decide)
    rw [store, stringStep_string htag, stringStep_of_not hother]
  · rw [store, stringStep_of_not htag]

/-- Behind the name the end is not looked for, and it is not the message. -/
theorem looks_eq_true_iff {tag : ℕ} :
    (if fieldNumber tag = 4 ∧ wireType tag = lengthDelimited then false
      else if fieldNumber tag = 5 ∧ wireType tag = lengthDelimited then true else false) = true ↔
      fieldNumber tag = 5 ∧ wireType tag = lengthDelimited := by
  split
  · rename_i h
    exact iff_of_false Bool.false_ne_true fun h' => absurd (h.1.symm.trans h'.1) (by decide)
  · split
    · rename_i h
      exact iff_of_true rfl h
    · rename_i h
      exact iff_of_false Bool.false_ne_true h

/-- What is left in the message are the last strings of fields 4 and 5. -/
theorem foldl_store (fs : List (ℕ × Value)) :
    fs.foldl store cleared = ⟨lastString 4 fs, lastString 5 fs⟩ := by
  have hfold : ∀ name message, fs.foldl store ⟨name, message⟩ =
      ⟨fs.foldl (stringStep 4) name, fs.foldl (stringStep 5) message⟩ := by
    induction fs with
    | nil => exact fun _ _ => rfl
    | cons f fs ih => exact fun _ _ => ih _ _
  exact hfold none none

end ChatNotify

/-- **What is accepted as a message.** For each of the messages, the bodies that are accepted are
the sequences of fields that have the required ones, and the message holds their last values. -/
theorem accepted_iff (input : List UInt8) :
    (∀ m, LoginRequest.parse input = (m, true) ↔ m.isInitialized = true ∧
      ∃ fs, Fields (Encodes recursionLimit) fs input ∧ m = ⟨lastString 1 fs⟩ ∧
        EndsWith 1 lengthDelimited input fs) ∧
    (∀ m, LoginResponse.parse input = (m, true) ↔ m.isInitialized = true ∧
      ∃ fs, Fields (Encodes recursionLimit) fs input ∧ m = ⟨lastBool 2 fs⟩ ∧
        EndsWith 2 varint input fs) ∧
    (∀ m, ChatRequest.parse input = (m, true) ↔ m.isInitialized = true ∧
      ∃ fs, Fields (Encodes recursionLimit) fs input ∧ m = ⟨lastString 3 fs⟩ ∧
        EndsWith 3 lengthDelimited input fs) ∧
    (∀ m, ChatNotify.parse input = (m, true) ↔ m.isInitialized = true ∧
      ∃ fs, Fields (Encodes recursionLimit) fs input ∧ m = ⟨lastString 4 fs, lastString 5 fs⟩ ∧
        EndsWith 5 lengthDelimited input fs) := by
  refine ⟨fun m => ?_, fun m => ?_, fun m => ?_, fun m => ?_⟩
  · rw [LoginRequest.parse, parse_eq_true_iff LoginRequest.reads_mergeField]
    simp only [LoginRequest.foldl_store, EndsWith, ite_eq_left_iff, Bool.false_eq_true, imp_false,
      not_not]
  · rw [LoginResponse.parse, parse_eq_true_iff LoginResponse.reads_mergeField]
    simp only [LoginResponse.foldl_store, EndsWith, ite_eq_left_iff, Bool.false_eq_true, imp_false,
      not_not]
  · rw [ChatRequest.parse, parse_eq_true_iff ChatRequest.reads_mergeField]
    simp only [ChatRequest.foldl_store, EndsWith, ite_eq_left_iff, Bool.false_eq_true, imp_false,
      not_not]
  · rw [ChatNotify.parse, parse_eq_true_iff ChatNotify.reads_mergeField]
    simp only [ChatNotify.foldl_store, EndsWith, ChatNotify.looks_eq_true_iff]

end AsioChat
