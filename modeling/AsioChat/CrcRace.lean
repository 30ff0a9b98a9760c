import AsioChat.Lib.Machine
import AsioChat.Protocol

/-!
# The Shared Checksum Object

`packet_header::calculate_crc` works on the one global object `crc`. In the client it is
called from the input thread, by `build_packet`, and from the network thread, by
`handle_receive`, with no lock. Here its three uses of the object (`process_bytes`,
`checksum`, `reset`) are three steps, and the steps of the two threads interleave
freely.

## Main results

* `call_alone`: the three steps without interruption are `calculateCrc`.
* `Serial.step`: as long as no call begins while another is under way, the object holds
  nothing but what the call under way folded into it.
* `returned_eq_freshCrc`: in such a run every call returns the checksum of its header.
* `overlapping_calls`: of two calls that overlap, the first returns the checksum of both
  headers and the second that of no bytes.
-/

namespace AsioChat

/-- The threads of the client. -/
inductive ClientThread
  | input
  | network
  deriving DecidableEq, Repr

/-- The other thread. -/
def ClientThread.other : ClientThread → ClientThread
  | input => network
  | network => input

/-- There are two threads. -/
theorem ClientThread.eq_other {thread thread' : ClientThread} (h : thread' ≠ thread) :
    thread' = thread.other := by
  cases thread <;> cases thread' <;> simp_all [ClientThread.other]

/-- How far a thread is in `calculate_crc`: not in it, past `process_bytes`, or past
`checksum`. -/
inductive CrcCall
  | idle
  | processed (header : PacketHeader)
  | summed (header : PacketHeader) (ret : UInt32)
  deriving DecidableEq, Repr

/-- The object, the calls under way and what the finished calls returned. -/
structure CrcWorld where
  crc : Crc32
  call : ClientThread → CrcCall
  returned : ClientThread → List (PacketHeader × UInt32)

/-- The steps of `calculate_crc`, each by one of the threads. -/
inductive CrcEvent
  | processBytes (thread : ClientThread) (header : PacketHeader)
  | checksum (thread : ClientThread)
  | reset (thread : ClientThread)
  deriving DecidableEq, Repr

namespace CrcWorld

/-- The object just constructed, and no call under way. -/
def initial : CrcWorld := ⟨.initial, fun _ => .idle, fun _ => []⟩

/-- The steps of a call follow one another. -/
def Enabled (w : CrcWorld) : CrcEvent → Prop
  | .processBytes thread _ => w.call thread = .idle
  | .checksum thread => ∃ header, w.call thread = .processed header
  | .reset thread => ∃ header ret, w.call thread = .summed header ret

instance (w : CrcWorld) (e : CrcEvent) : Decidable (w.Enabled e) := by
  cases e with
  | processBytes thread header => exact inferInstanceAs (Decidable (_ = _))
  | checksum thread =>
      cases h : w.call thread with
      | processed header => exact .isTrue ⟨header, h⟩
      | idle => exact .isFalse (by simp [Enabled, h])
      | summed header ret => exact .isFalse (by simp [Enabled, h])
  | reset thread =>
      cases h : w.call thread with
      | summed header ret => exact .isTrue ⟨header, ret, h⟩
      | idle => exact .isFalse (by simp [Enabled, h])
      | processed header => exact .isFalse (by simp [Enabled, h])

/-- One step of one call. -/
def step (w : CrcWorld) : CrcEvent → Except Empty CrcWorld
  | .processBytes thread header => .ok { w with
      crc := w.crc.processBytes (header.toBytes.take 8)
      call := Function.update w.call thread (.processed header) }
  | .checksum thread =>
    match w.call thread with
    | .processed header => .ok { w with
        call := Function.update w.call thread (.summed header w.crc.checksum) }
    | _ => .ok w
  | .reset thread =>
    match w.call thread with
    | .summed header ret => .ok {
        crc := w.crc.reset
        call := Function.update w.call thread .idle
        returned := Function.update w.returned thread (w.returned thread ++ [(header, ret)]) }
    | _ => .ok w

end CrcWorld

/-- The runs of the two threads on the shared object. -/
def crcMachine : Machine CrcWorld CrcEvent Empty where
  enabled := CrcWorld.Enabled
  step := CrcWorld.step

instance (w : CrcWorld) (e : CrcEvent) : Decidable (crcMachine.enabled w e) :=
  inferInstanceAs (Decidable (w.Enabled e))

namespace CrcWorld

variable {w w' : CrcWorld} {thread : ClientThread} {header : PacketHeader} {ret : UInt32}

/-- `process_bytes` folds the bytes of the header into the object. -/
theorem step_processBytes (h : crcMachine.Step w (.processBytes thread header) w') :
    w' = { w with
      crc := w.crc.processBytes (header.toBytes.take 8)
      call := Function.update w.call thread (.processed header) } :=
  (Except.ok.inj h.2).symm

variable (header) in
/-- `checksum` reads what the object holds. -/
theorem step_checksum (hcall : w.call thread = .processed header)
    (h : crcMachine.Step w (.checksum thread) w') :
    w' = { w with call := Function.update w.call thread (.summed header w.crc.checksum) } := by
  have hstep := h.2
  simp only [crcMachine, CrcWorld.step, hcall] at hstep
  exact (Except.ok.inj hstep).symm

/-- `reset` throws away what the object holds, and the call returns. -/
theorem step_reset (hcall : w.call thread = .summed header ret)
    (h : crcMachine.Step w (.reset thread) w') :
    w' = {
      crc := .initial
      call := Function.update w.call thread .idle
      returned := Function.update w.returned thread (w.returned thread ++ [(header, ret)]) } := by
  have hstep := h.2
  simp only [crcMachine, CrcWorld.step, hcall] at hstep
  exact (Except.ok.inj hstep).symm

end CrcWorld

/-- **The three steps without interruption are `calculateCrc`**: the same value returned,
the same object left behind. -/
theorem call_alone {w w' : CrcWorld} {thread : ClientThread} {header : PacketHeader}
    (h : crcMachine.Run w
      [.processBytes thread header, .checksum thread, .reset thread] w') :
    w'.crc = (header.calculateCrc w.crc).2 ∧
      w'.returned thread = w.returned thread ++ [(header, (header.calculateCrc w.crc).1)] := by
  obtain ⟨_, h₁, h⟩ := h.of_cons
  obtain ⟨_, h₂, h⟩ := h.of_cons
  obtain ⟨_, h₃, h⟩ := h.of_cons
  obtain rfl := h.eq_of_nil
  obtain rfl := CrcWorld.step_processBytes h₁
  obtain rfl := CrcWorld.step_checksum header (Function.update_self _ _ _) h₂
  obtain rfl := CrcWorld.step_reset (Function.update_self _ _ _) h₃
  exact ⟨rfl, Function.update_self _ _ _⟩

namespace CrcWorld

variable {w w' : CrcWorld}

/-- The condition on a step that keeps the calls apart: none begins while the other thread
is in `calculate_crc`. -/
def Alone (w : CrcWorld) : CrcEvent → Prop
  | .processBytes thread _ => w.call thread.other = .idle
  | _ => True

instance (w : CrcWorld) (e : CrcEvent) : Decidable (w.Alone e) := by
  cases e <;> unfold Alone <;> infer_instance

/-- What the object holds, and what was read from it, when one call is under way. -/
def Consistent (crc : Crc32) : CrcCall → Prop
  | .idle => crc = .initial
  | .processed header => crc = Crc32.initial.processBytes (header.toBytes.take 8)
  | .summed header ret => ret = header.freshCrc

/-- At most one call is under way, the object is consistent with it, and every finished
call returned the checksum of its header. -/
structure Serial (w : CrcWorld) : Prop where
  alone : ∃ thread, (∀ other, other ≠ thread → w.call other = .idle) ∧
    Consistent w.crc (w.call thread)
  returned : ∀ thread, ∀ r ∈ w.returned thread, r.2 = r.1.freshCrc

/-- No call has begun. -/
theorem serial_initial : initial.Serial :=
  ⟨⟨.input, fun _ _ => rfl, rfl⟩, fun _ _ h => (List.not_mem_nil h).elim⟩

/-- The call under way is the one that is not idle. -/
theorem Serial.of_call_ne_idle (h : w.Serial) {thread : ClientThread}
    (hcall : w.call thread ≠ .idle) :
    (∀ other, other ≠ thread → w.call other = .idle) ∧ Consistent w.crc (w.call thread) := by
  obtain ⟨active, hidle, hconsistent⟩ := h.alone
  by_cases hactive : thread = active
  · subst hactive
    exact ⟨hidle, hconsistent⟩
  · exact absurd (hidle thread hactive) hcall

/-- After a step of the only thread in a call, it still is the only one. -/
theorem alone_update {thread : ClientThread} {crc : Crc32} {call : CrcCall}
    (hidle : ∀ other, other ≠ thread → w.call other = .idle) (hconsistent : Consistent crc call) :
    ∃ active, (∀ other, other ≠ active → Function.update w.call thread call other = .idle) ∧
      Consistent crc (Function.update w.call thread call active) := by
  refine ⟨thread, fun other hother => ?_, ?_⟩
  · rw [Function.update_of_ne hother]
    exact hidle other hother
  · rw [Function.update_self]
    exact hconsistent

/-- **A step that keeps the calls apart keeps the object consistent.** -/
theorem Serial.step {e : CrcEvent} (h : w.Serial) (hstep : crcMachine.Step w e w')
    (halone : w.Alone e) : w'.Serial := by
  have henabled := hstep.1
  cases e with
  | processBytes thread header =>
      obtain rfl := step_processBytes hstep
      have hidle : ∀ other, other ≠ thread → w.call other = .idle := fun other hother =>
        ClientThread.eq_other hother ▸ halone
      have hinitial : w.crc = .initial := by
        obtain ⟨active, -, hconsistent⟩ := h.alone
        have hactive : w.call active = .idle := by
          by_cases hthread : active = thread
          · rw [hthread]
            exact henabled
          · exact hidle active hthread
        rw [hactive] at hconsistent
        exact hconsistent
      refine ⟨alone_update hidle ?_, h.returned⟩
      rw [hinitial]
      exact rfl
  | checksum thread =>
      obtain ⟨header, hcall⟩ := henabled
      obtain ⟨hidle, hconsistent⟩ :=
        h.of_call_ne_idle (show w.call thread ≠ .idle by simp [hcall])
      obtain rfl := step_checksum header hcall hstep
      rw [hcall] at hconsistent
      exact ⟨alone_update hidle (congrArg Crc32.checksum hconsistent), h.returned⟩
  | reset thread =>
      obtain ⟨header, ret, hcall⟩ := henabled
      obtain ⟨hidle, hconsistent⟩ :=
        h.of_call_ne_idle (show w.call thread ≠ .idle by simp [hcall])
      obtain rfl := step_reset hcall hstep
      refine ⟨alone_update hidle rfl, fun other r hr => ?_⟩
      by_cases hother : other = thread
      · subst hother
        simp only [Function.update_self, List.mem_append, List.mem_singleton] at hr
        rcases hr with hr | rfl
        · exact h.returned other r hr
        · rw [hcall] at hconsistent
          exact hconsistent
      · simp only [Function.update_of_ne hother] at hr
        exact h.returned other r hr

end CrcWorld

/-- **Every call returns the checksum of its header** in a run where no call begins while
the other thread is in `calculate_crc`. -/
theorem returned_eq_freshCrc {es : List CrcEvent} {w : CrcWorld}
    (h : (crcMachine.restrict CrcWorld.Alone).Run .initial es w) :
    ∀ thread, ∀ r ∈ w.returned thread, r.2 = r.1.freshCrc := by
  have hserial : w.Serial := by
    refine h.invariant (fun _ _ _ hserial hstep => ?_) CrcWorld.serial_initial
    obtain ⟨hstep, halone⟩ := Machine.step_restrict_iff.mp hstep
    exact hserial.step hstep halone
  exact hserial.returned

/-- **What two overlapping calls return**: if the second begins before the first reads the
checksum, the first returns the checksum of both headers, and the second, whose bytes the
first throws away, that of no bytes. -/
theorem overlapping_calls {first : ClientThread} {header header' : PacketHeader} {w : CrcWorld}
    (h : crcMachine.Run .initial
      [.processBytes first header, .processBytes first.other header',
        .checksum first, .reset first, .checksum first.other, .reset first.other] w) :
    w.returned first = [(header, (Crc32.initial.processBytes
        (header.toBytes.take 8 ++ header'.toBytes.take 8)).checksum)] ∧
      w.returned first.other = [(header', Crc32.initial.checksum)] := by
  have hne : first ≠ first.other := by cases first <;> decide
  obtain ⟨_, h₁, h⟩ := h.of_cons
  obtain ⟨_, h₂, h⟩ := h.of_cons
  obtain ⟨_, h₃, h⟩ := h.of_cons
  obtain ⟨_, h₄, h⟩ := h.of_cons
  obtain ⟨_, h₅, h⟩ := h.of_cons
  obtain ⟨_, h₆, h⟩ := h.of_cons
  obtain rfl := h.eq_of_nil
  obtain rfl := CrcWorld.step_processBytes h₁
  obtain rfl := CrcWorld.step_processBytes h₂
  obtain rfl := CrcWorld.step_checksum header
    (by simp only [Function.update_of_ne hne, Function.update_self]) h₃
  obtain rfl := CrcWorld.step_reset (Function.update_self _ _ _) h₄
  obtain rfl := CrcWorld.step_checksum header'
    (by simp only [Function.update_of_ne hne.symm, Function.update_self]) h₅
  obtain rfl := CrcWorld.step_reset (Function.update_self _ _ _) h₆
  constructor
  · simp only [Function.update_of_ne hne, Function.update_self]
    rw [Crc32.processBytes_append]
    rfl
  · simp only [Function.update_of_ne hne.symm, Function.update_self]
    rfl

/-- The header of a typed chat line. -/
def typedHeader : PacketHeader := builtHeader (fun _ => 0) 6 4

/-- The header of an arriving notice. -/
def noticeHeader : PacketHeader := builtHeader (fun _ => 0) 7 6

/-- The threads call one after the other. -/
theorem returned_eq_freshCrc_of_turns : ∃ w,
    crcMachine.Run .initial
      [.processBytes .input typedHeader, .checksum .input, .reset .input,
        .processBytes .network noticeHeader, .checksum .network, .reset .network] w ∧
    (w.returned .input).length = 1 ∧ (w.returned .network).length = 1 ∧
    ∀ thread, ∀ r ∈ w.returned thread, r.2 = r.1.freshCrc := by
  obtain ⟨w, hrun, htwo⟩ := Machine.exists_run_of_exec
    (crcMachine.restrict CrcWorld.Alone) .initial
    [.processBytes .input typedHeader, .checksum .input, .reset .input,
      .processBytes .network noticeHeader, .checksum .network, .reset .network]
    (fun w => decide ((w.returned .input).length = 1 ∧ (w.returned .network).length = 1))
    (b := true) (by decide +kernel)
  obtain ⟨hinput, hnetwork⟩ := of_decide_eq_true htwo
  exact ⟨w, hrun.of_restrict, hinput, hnetwork, returned_eq_freshCrc hrun⟩

/-- A notice arrives between `process_bytes` and `checksum` of a typed line: neither call
returns the checksum of its header. -/
theorem overlapping_calls_wrong : ∃ w,
    crcMachine.Run .initial
      [.processBytes .input typedHeader, .processBytes .network noticeHeader,
        .checksum .input, .reset .input, .checksum .network, .reset .network] w ∧
    (∃ r ∈ w.returned .input, r.2 ≠ r.1.freshCrc) ∧
    (∃ r ∈ w.returned .network, r.2 ≠ r.1.freshCrc) := by
  obtain ⟨w, hrun, hbad⟩ := Machine.exists_run_of_exec crcMachine .initial
    [.processBytes .input typedHeader, .processBytes .network noticeHeader,
      .checksum .input, .reset .input, .checksum .network, .reset .network]
    (fun w => decide ((∃ r ∈ w.returned .input, r.2 ≠ r.1.freshCrc) ∧
      ∃ r ∈ w.returned .network, r.2 ≠ r.1.freshCrc)) (b := true) (by decide +kernel)
  exact ⟨w, hrun, of_decide_eq_true hbad⟩

end AsioChat
