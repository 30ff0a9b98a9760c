import AsioChat.Receiver

/-!
# The Buffer of a Reused Session

`init` sets the mark of a session back but leaves the bytes of earlier connections in its
vector. The bytes of a new connection are inserted at the mark, in front of them, so that
they are pushed back and never become part of the current packet: in every state the bytes
before the mark are the last ones the current connection delivered, those since it was
accepted or the buffer was cleared.

## Main results

* `Receiver.SinceInit.step`: what every step keeps.
* `received_of_run`: in every run, the mark lies within the vector whenever a read is
  inserted, the bytes before it come from the current connection, and so does all that
  `process_packet` is told of.
-/

namespace AsioChat

/-- The bytes a connection has delivered after an event. -/
def ReceiverEvent.connectionBytes (delivered : List UInt8) : ReceiverEvent → List UInt8
  | connect => []
  | read bytes => delivered ++ bytes
  | disconnect => delivered

/-- The bytes the current connection, or the last one, has delivered. -/
def connectionBytes (es : List ReceiverEvent) : List UInt8 :=
  es.foldl ReceiverEvent.connectionBytes []

/-- The bytes of the connection after one more event. -/
@[simp] theorem connectionBytes_snoc (es : List ReceiverEvent) (e : ReceiverEvent) :
    connectionBytes (es ++ [e]) = e.connectionBytes (connectionBytes es) := by
  simp [connectionBytes]

namespace Receiver

variable {side : Side} {r r' : Receiver} {es : List ReceiverEvent}

/-- The bytes before the mark are those received since the last `init` or clear, and these
are the last ones the connection delivered. -/
structure SinceInit (es : List ReceiverEvent) (r : Receiver) : Prop where
  front : r.buffer.packetBuffer.take r.buffer.packetBufferMark.toNat = r.received
  suffix : r.received <:+ connectionBytes es

/-- Nothing was received before anything happens. -/
theorem sinceInit_initial (mark : UInt32) : SinceInit [] (initial mark) :=
  ⟨List.take_nil, List.nil_suffix⟩

/-- The bytes before the mark are the gathered ones. -/
theorem take_mark_of_holds {s : PacketBuffer} {g : Gather.State UInt8} {stale : List UInt8}
    (h : s.Holds g stale) : s.packetBuffer.take s.packetBufferMark.toNat = g.acc := by
  rw [h.mark, h.buffer, List.take_left]

/-- What a read records is a suffix of what the connection delivered. -/
theorem received_record_suffix (h : r.received <:+ connectionBytes es) (bytes : List UInt8)
    (buffer : PacketBuffer) (exit : ReceiveExit) :
    (r.record bytes buffer exit).received <:+ connectionBytes es ++ bytes := by
  cases exit with
  | waiting =>
      obtain ⟨earlier, hearlier⟩ := h
      exact ⟨earlier, by rw [← hearlier, List.append_assoc]; rfl⟩
  | dropped => exact List.nil_suffix
  | processed data => exact List.nil_suffix

/-- **Every step keeps the bytes of other connections out of the current packet.** -/
theorem SinceInit.step {e : ReceiverEvent} (h : SinceInit es r) (hinv : r.Inv)
    (hstep : (receiverMachine side).Step r e r') : SinceInit (es ++ [e]) r' := by
  cases e with
  | connect =>
      obtain ⟨-, hstep⟩ := hstep
      cases hstep
      exact ⟨List.take_zero, List.nil_suffix⟩
  | read bytes =>
      obtain ⟨stale, -, -, hnext, hr⟩ := hinv.read hstep
      have hgathered := gathered_read hnext
      rw [← hr] at hgathered
      rw [← hgathered] at hnext
      refine ⟨take_mark_of_holds hnext, ?_⟩
      rw [hr, connectionBytes_snoc]
      exact received_record_suffix h.suffix _ _ _
  | disconnect =>
      obtain ⟨-, hstep⟩ := hstep
      cases hstep
      exact ⟨h.front, by rw [connectionBytes_snoc]; exact h.suffix⟩

/-- It holds in every run. -/
theorem sinceInit_of_run {mark : UInt32}
    (h : (receiverMachine side).Run (initial mark) es r) : SinceInit es r :=
  h.history_induction (sinceInit_initial mark) fun _ _ _ _ hrun hsince hstep =>
    hsince.step (inv_of_run hrun) hstep

end Receiver

/-- **No byte of an earlier connection ends up in the current packet**, in every state of
every run: the mark of a connected session lies within its vector; the bytes before it are
those received since the later of the last `init` and the last clear, and these are the
last bytes the connection delivered; and when `process_packet` is called, so are the first
`packet_data_size` bytes of the buffer. -/
theorem received_of_run {side : Side} {mark : UInt32} {es : List ReceiverEvent} {r : Receiver}
    (h : (receiverMachine side).Run (.initial mark) es r) :
    (r.isOpen = true → r.buffer.packetBufferMark.toNat ≤ r.buffer.packetBuffer.length) ∧
    r.buffer.packetBuffer.take r.buffer.packetBufferMark.toNat = r.received ∧
    r.received <:+ connectionBytes es ∧
    ∀ bytes s data, r.isOpen = true →
      r.buffer.receive side bytes = .ok (s, .processed data) →
        data.take (r.buffer.packetBufferMark + UInt32.ofNat bytes.length).toNat =
            r.received ++ bytes ∧
          r.received ++ bytes <:+ connectionBytes (es ++ [.read bytes]) := by
  have hinv := Receiver.inv_of_run h
  have hsince := Receiver.sinceInit_of_run h
  refine ⟨fun hopen => ?_, hsince.front, hsince.suffix, fun bytes s data hopen hreceive => ?_⟩
  · obtain ⟨stale, hholds⟩ := hinv.holds hopen
    rw [hholds.mark, hholds.buffer, List.length_append]
    exact Nat.le_add_right _ _
  · obtain ⟨stale, hholds⟩ := hinv.holds hopen
    obtain ⟨hexit, hlen, -⟩ := hholds.of_receive_eq hreceive
    have hfit : r.buffer.packetBuffer.length + bytes.length ≤ vectorMaxSize := by
      rw [hholds.buffer]
      simp only [List.length_append] at hlen ⊢
      omega
    refine ⟨?_, ?_⟩
    · rw [hholds.toNat_add hfit]
      rcases Gather.step_cases (gatherRules side) r.gathered bytes with
        ⟨checked, hout⟩ | hout | ⟨-, -, hout⟩
      · rw [hout] at hexit
        cases hexit
      · rw [hout] at hexit
        cases hexit
      · rw [hout] at hexit
        cases hexit
        exact List.take_left
    · rw [connectionBytes_snoc]
      obtain ⟨earlier, hearlier⟩ := hsince.suffix
      exact ⟨earlier, by rw [← List.append_assoc, hearlier]; rfl⟩

/-- A login whose content never came is left behind by one connection, and the first two bytes
of the next are read in front of it. -/
theorem received_of_second_connection : ∃ r,
    (receiverMachine .server).Run (.initial 3)
      [.connect, .read loginHeader, .disconnect, .connect, .read [1, 0]] r ∧
    r.buffer.packetBuffer = [1, 0] ++ loginHeader ∧
    r.buffer.packetBuffer.take r.buffer.packetBufferMark.toNat = r.received ∧
    r.received <:+ [1, 0] := by
  obtain ⟨r, hrun, hbuffer⟩ := Machine.exists_run_of_exec (receiverMachine .server) (.initial 3)
    [.connect, .read loginHeader, .disconnect, .connect, .read [1, 0]]
    (fun r => r.buffer.packetBuffer) (b := [1, 0] ++ loginHeader) (by decide +kernel)
  obtain ⟨-, hfront, hsuffix, -⟩ := received_of_run hrun
  exact ⟨r, hrun, hbuffer, hfront, hsuffix⟩

end AsioChat
