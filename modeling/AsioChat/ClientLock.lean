import AsioChat.CrcRace
import AsioChat.Faults
import AsioChat.Lib.Mutex

/-!
# The Lock of the Client

`lock_` and the sections under `scoped_lock`, access by access. `clientMachine` takes `post_send`
and the critical section of `handle_write` in one step each. Here they are taken apart: every
access to `send_data_queue_`, every start of a write and every assignment of a local variable is
a step of its own, and between any two of them the other thread may do whatever it does outside
the lock. Both views agree: a run in these small steps is one of `clientMachine`, and the lock
is always released.

The packet that `main` posts is built from the line before the lock is taken; where the steps
begin it is there. What `handle_write` does behind its critical section takes the lock only if it
has found a packet to go on with, in `post_send`.

## Main definitions

* `ChatClient.postSendSteps`, `ChatClient.handleWriteSteps`: the two functions, access by access.
* `clientLayout`: which events of the client are critical sections, and whose.

## Main results

* `independent_clientLayout`: what happens outside the lock does not touch what is under it.
* `client_sections_atomic`: the sections may be taken for single steps.
-/

namespace AsioChat

/-- The thread that takes an event. -/
def ClientEvent.thread : ClientEvent → ClientThread
  | getline _ | branch | send _ => .input
  | connectDone _ | readDone _ | readFailed | writeDone | writeResumed => .network

/-- The local variables of `post_send` (`send_data`) or of `handle_write` (`data`), and what the
last test of the queue said. -/
structure SendLocals where
  data : SharedByte
  test : Bool
  deriving DecidableEq, Repr

namespace ChatClient

/-- A step under the lock: of the send side of the client and the local variables. -/
abbrev Access := Sender × SendLocals → Except Fault (Sender × SendLocals)

/-- Whether an event takes the lock, in a state. -/
def isLocked (c : ChatClient) : ClientEvent → Bool
  | .send _ | .writeDone => true
  | .writeResumed => (c.handler matches some (some _))
  | .getline _ | .branch | .connectDone _ | .readDone _ | .readFailed => false

/-- The client with another queue, and other writes and packets posted. -/
def withSender (s : Sender) (c : ChatClient) : ChatClient :=
  { c with toClientSender := { c.toClientSender with toSender := s } }

/-- The client in another place of `handle_write`. -/
def withHandler (handler : Option SharedByte) (c : ChatClient) : ChatClient :=
  { c with toClientSender := { c.toClientSender with handler := handler } }

/-- A step under the lock, as one of the client. -/
def underLock (access : Access) (z : ChatClient × SendLocals) :
    Except Fault (ChatClient × SendLocals) := do
  let (s, r) ← access (z.1.toSender, z.2)
  return (z.1.withSender s, r)

/-- `post_send`, access by access. A call from outside is recorded with the first. -/
def postSendSteps (immediately : Bool) (size : UInt32) (data : SharedByte) : List Access :=
  [fun z =>
      let s := z.1.record immediately data size
      .ok (if immediately = false then s.pushBack z.2.data else s, z.2),
    fun z => .ok (z.1, { z.2 with data := data }),
    fun z => .ok (z.1, { z.2 with
      test := decide (immediately = true ∨ z.1.sendDataQueue.length < 2) }),
    fun z => .ok (if z.2.test = true then z.1.asyncWrite z.2.data size else z.1, z.2)]

/-- The critical section of `handle_write`, access by access. -/
def handleWriteSteps : List Access :=
  [fun z => do return (← { z.1 with completed := z.1.completed + 1 }.popFront, z.2),
    fun z => .ok (z.1, { z.2 with test := !z.1.sendDataQueue.isEmpty }),
    fun z =>
      if z.2.test = true then
        match z.1.sendDataQueue with
        | [] => .error .outOfRange
        | data :: _ => .ok (z.1, { z.2 with data := data })
      else .ok z]

/-- A section under the lock. Both functions begin with a null pointer. -/
def lockedSection (accesses : List Access) (finish : ChatClient × SendLocals → ChatClient) :
    Mutex.Section ChatClient Fault SendLocals where
  locals := ⟨none, false⟩
  steps := accesses.map underLock
  finish := finish

/-- The call of `post_send` for a packet of `main`, and the end of the loop body. -/
def sendSection (pkt : List UInt8) (size : UInt32) : Mutex.Section ChatClient Fault SendLocals :=
  lockedSection (postSendSteps false size (some pkt)) fun z =>
    { z.1.record (.posted pkt) with input := .reading }

/-- The critical section of `handle_write`, which leaves `data` behind. -/
def writeSection : Mutex.Section ChatClient Fault SendLocals :=
  lockedSection handleWriteSteps fun z => z.1.withHandler (some z.2.data)

/-- What `handle_write` does behind it with a packet: a call of `post_send`. -/
def resumeSection (packet : List UInt8) : Mutex.Section ChatClient Fault SendLocals :=
  lockedSection (postSendSteps true (PacketHeader.ofBytes packet).contentSize (some packet))
    fun z => z.1.withHandler none

/-- The section that begins with an event, for those that take the lock. A packet is built, and
may fail to be, before it is taken. -/
def criticalSection (c : ChatClient) :
    ClientEvent → Except Fault (Mutex.Section ChatClient Fault SendLocals)
  | .send fresh =>
    match c.input with
    | .branching inputMsg loggedIn => do
      let (pkt, size) ←
        if loggedIn = false then buildLogin fresh inputMsg else buildChat fresh inputMsg
      return sendSection pkt size
    | _ => .ok (lockedSection [] Prod.fst)
  | .writeDone => .ok writeSection
  | .writeResumed =>
    match c.handler with
    | some (some packet) => .ok (resumeSection packet)
    | _ => .ok (lockedSection [] Prod.fst)
  | _ => .ok (lockedSection [] Prod.fst)

variable {c d : ChatClient} {e : ClientEvent}

/-- **`post_send` is its accesses**, one after the other. -/
theorem runSteps_postSendSteps (immediately : Bool) (size : UInt32) (data : SharedByte)
    (c : ChatClient) : ∃ r,
    Mutex.runSteps ((postSendSteps immediately size data).map underLock) (c, ⟨none, false⟩) =
      .ok (c.withSender (postSend immediately size data c.toSender), r) := by
  simp only [postSendSteps, List.map_cons, List.map_nil, Mutex.runSteps, underLock, bind, pure,
    Except.pure, Except.bind, decide_eq_true_eq, withSender]
  exact ⟨_, rfl⟩

/-- **The section of a packet of `main`**, in one step. -/
theorem run_sendSection (pkt : List UInt8) (size : UInt32) (c : ChatClient) :
    (sendSection pkt size).run c =
      .ok { (c.post size pkt).record (.posted pkt) with input := .reading } := by
  obtain ⟨r, hsteps⟩ := runSteps_postSendSteps false size (some pkt) c
  rw [sendSection, lockedSection, Mutex.Section.run, hsteps]
  rfl

/-- **The critical section of `handle_write`**, in one step. -/
theorem run_writeSection (c : ChatClient) :
    writeSection.run c = clientMachine.step c .writeDone := by
  simp only [clientMachine, step, sendStep, handleWrite, writeSection, handleWriteSteps,
    lockedSection, Mutex.Section.run, Mutex.runSteps, underLock, List.map_cons, List.map_nil,
    bind, pure, Except.pure, Except.bind, Sender.popFront]
  cases hqueue : c.sendDataQueue with
  | nil => rfl
  | cons data queue => cases queue <;> rfl

/-- **What `handle_write` does behind its critical section**, in one step. -/
theorem run_resumeSection (packet : List UInt8) (c : ChatClient) :
    (resumeSection packet).run c =
      .ok ((c.withSender (resumeWrite (some packet) c.toSender)).withHandler none) := by
  obtain ⟨r, hsteps⟩ := runSteps_postSendSteps true
    (PacketHeader.ofBytes packet).contentSize (some packet) c
  rw [resumeSection, lockedSection, Mutex.Section.run, hsteps]
  rfl

/-- It takes the lock if there is a packet. -/
theorem isLocked_writeResumed {c : ChatClient} :
    c.isLocked .writeResumed = true ↔ ∃ packet, c.handler = some (some packet) := by
  rw [isLocked]
  split
  · rename_i packet hhandler
    exact iff_of_true rfl ⟨packet, hhandler⟩
  · rename_i hnone
    exact iff_of_false Bool.false_ne_true fun ⟨packet, hhandler⟩ => hnone packet hhandler

/-- **What takes the lock is its section.** -/
theorem step_eq_section (c : ChatClient) (e : ClientEvent) (hlocked : c.isLocked e = true) :
    clientMachine.step c e = (c.criticalSection e).bind fun sec => sec.run c := by
  cases e with
  | writeDone => exact (run_writeSection c).symm
  | send fresh =>
      simp only [clientMachine, step, send, criticalSection]
      cases c.input with
      | branching inputMsg loggedIn =>
          cases loggedIn with
          | false =>
              show (buildLogin fresh inputMsg).bind _ = ((buildLogin fresh inputMsg).bind _).bind _
              cases buildLogin fresh inputMsg with
              | error f => rfl
              | ok built => exact (run_sendSection built.1 built.2 c).symm
          | true =>
              show (buildChat fresh inputMsg).bind _ = ((buildChat fresh inputMsg).bind _).bind _
              cases buildChat fresh inputMsg with
              | error f => rfl
              | ok built => exact (run_sendSection built.1 built.2 c).symm
      | reading => rfl
      | connected inputMsg => rfl
      | stopped => rfl
  | writeResumed =>
      obtain ⟨packet, hhandler⟩ := isLocked_writeResumed.mp hlocked
      simp only [clientMachine, step, sendStep, criticalSection, hhandler]
      exact (run_resumeSection packet c).symm
  | getline line => cases hlocked
  | branch => cases hlocked
  | connectDone error => cases hlocked
  | readDone bytes => cases hlocked
  | readFailed => cases hlocked

end ChatClient

/-- The sections of the client. -/
def clientLayout : Mutex.Layout clientMachine SendLocals ClientThread where
  thread := ClientEvent.thread
  locked := ChatClient.isLocked
  entry := ChatClient.criticalSection
  step_eq := ChatClient.step_eq_section

namespace ChatClient

variable {c d : ChatClient} {e : ClientEvent}

/-- Every section is one under the lock. -/
theorem exists_lockedSection {sec : Mutex.Section ChatClient Fault SendLocals}
    (hentry : c.criticalSection e = .ok sec) : ∃ accesses finish,
      sec = lockedSection accesses finish := by
  cases e with
  | send fresh =>
      rw [criticalSection] at hentry
      split at hentry
      · simp only [bind] at hentry
        split at hentry
        all_goals
          obtain ⟨⟨pkt, size⟩, -, hsec⟩ := Except.exists_of_bind_eq_ok hentry
          exact ⟨_, _, (Except.ok.inj hsec).symm⟩
      · exact ⟨_, _, (Except.ok.inj hentry).symm⟩
  | writeResumed =>
      rw [criticalSection] at hentry
      split at hentry <;> exact ⟨_, _, (Except.ok.inj hentry).symm⟩
  | _ => exact ⟨_, _, (Except.ok.inj hentry).symm⟩

/-! ### Outside the lock -/

/-- `process_packet` neither looks at the send side nor changes it. -/
theorem processPacket_withSender (s : Sender) (data : List UInt8) (c : ChatClient) :
    (c.withSender s).processPacket data = (c.processPacket data).map (withSender s) := by
  simp only [processPacket, bind, pure, Except.pure]
  split
  · cases parseFromArray LoginResponse.messageType (data.drop 12)
      (PacketHeader.ofBytes data).contentSize <;> rfl
  · split
    · cases parseFromArray ChatNotify.messageType (data.drop 12)
        (PacketHeader.ofBytes data).contentSize <;> rfl
    · rfl

/-- Nor does `getline`. -/
theorem getline_withSender (s : Sender) (line : Option (List UInt8)) (c : ChatClient) :
    (c.withSender s).getline line = (c.getline line).withSender s := by
  cases line with
  | none =>
      rw [getline, getline, close_eq, close_eq]
      rfl
  | some inputMsg =>
      have hopen : (c.withSender s).isOpen = c.isOpen := rfl
      simp only [getline, close_eq, hopen]
      split
      · rfl
      · split <;> rfl

/-- **What happens outside the lock** comes to the same with any send side, and leaves it. -/
theorem step_withSender (s : Sender) (c : ChatClient) (hfree : c.isLocked e = false) :
    clientMachine.step (c.withSender s) e = (clientMachine.step c e).map (withSender s) := by
  cases e with
  | getline line => exact congrArg Except.ok (getline_withSender s line c)
  | branch =>
      obtain ⟨_, _, _, _, _, _, input, _⟩ := c
      cases input <;> rfl
  | connectDone error => cases error <;> rfl
  | readFailed =>
      simp only [clientMachine, step, handleReceiveError, close_eq]
      rfl
  | readDone bytes =>
      simp only [clientMachine, step, handleReceive, bind, pure, Except.pure]
      show (c.toPacketBuffer.receive .client bytes).bind _ =
        ((c.toPacketBuffer.receive .client bytes).bind _).map _
      cases c.toPacketBuffer.receive .client bytes with
      | error f => rfl
      | ok received =>
          obtain ⟨buffer, exit⟩ := received
          cases exit with
          | waiting => rfl
          | dropped => rfl
          | processed data =>
              have hprocess := processPacket_withSender s data (c.received buffer)
              show (((c.received buffer).withSender s).processPacket data).bind _ =
                (((c.received buffer).processPacket data).bind _).map _
              rw [hprocess]
              cases (c.received buffer).processPacket data <;> rfl
  | writeResumed =>
      have hhandler : (c.withSender s).handler = c.handler := rfl
      simp only [clientMachine, step, sendStep, hhandler]
      cases h : c.handler with
      | none => rfl
      | some data =>
          cases data with
          | none => rfl
          | some packet => cases hfree.symm.trans (isLocked_writeResumed.mpr ⟨packet, h⟩)
  | send fresh => cases hfree
  | writeDone => cases hfree

/-- **What happens outside the lock** leaves the send side alone. -/
theorem toSender_of_step (hfree : c.isLocked e = false) (h : clientMachine.Step c e d) :
    d.toSender = c.toSender := by
  have hstep : clientMachine.step c e = (clientMachine.step c e).map (withSender c.toSender) :=
    step_withSender c.toSender c hfree
  rw [h.2] at hstep
  have heq : d = d.withSender c.toSender := Except.ok.inj hstep
  rw [heq]
  rfl

/-- Outside the lock the input thread, and a read, leave `handle_write` where it is. -/
theorem handler_of_step (hfree : c.isLocked e = false) (hevent : e.thread = .input ∨
    ∃ bytes, e = .readDone bytes) (h : clientMachine.Step c e d) : d.handler = c.handler := by
  cases e with
  | getline line =>
      cases h.2
      show (c.getline line).handler = c.handler
      rcases getline_cases line c with heq | heq | ⟨inputMsg, -, -, -, heq⟩
      all_goals exact (congrArg (fun c => c.handler) heq :)
  | branch =>
      obtain ⟨inputMsg, -, rfl⟩ := step_branch h
      rfl
  | readDone bytes =>
      obtain ⟨buffer, exit, u, -, hu, rfl⟩ := step_readDone h
      rcases hu with ⟨-, rfl⟩ | ⟨data, -, hprocess⟩
      · rfl
      · rcases processPacket_cases hprocess with
          ⟨-, response, parsed, -, rfl⟩ | ⟨-, rfl | ⟨notify, parsed, rfl⟩⟩ <;> rfl
  | send fresh => cases hfree
  | _ => simp [ClientEvent.thread] at hevent

/-- Whether it can happen does not depend on the send side. -/
theorem enabled_withSender {s : Sender} (hfree : c.isLocked e = false) :
    clientMachine.enabled (c.withSender s) e ↔ clientMachine.enabled c e := by
  cases e with
  | getline line => exact Iff.rfl
  | branch => exact Iff.rfl
  | connectDone error => exact Iff.rfl
  | readFailed => exact Iff.rfl
  | readDone bytes => exact Iff.rfl
  | writeResumed => exact Iff.rfl
  | send fresh => cases hfree
  | writeDone => cases hfree

/-- The network thread leaves the input thread where it is. -/
theorem input_of_step (hthread : e.thread = .network) (h : clientMachine.Step c e d) :
    d.input = c.input := by
  cases e with
  | connectDone error => exact (sameDialogue_of_step h trivial).input
  | readFailed => exact (sameDialogue_of_step h trivial).input
  | writeDone => exact (sameDialogue_of_step h trivial).input
  | writeResumed => exact (sameDialogue_of_step h trivial).input
  | readDone bytes =>
      obtain ⟨buffer, exit, u, -, hu, rfl⟩ := step_readDone h
      rcases hu with ⟨-, rfl⟩ | ⟨data, -, hprocess⟩
      · rfl
      · rcases processPacket_cases hprocess with
          ⟨-, response, parsed, -, rfl⟩ | ⟨-, rfl | ⟨notify, parsed, rfl⟩⟩ <;> rfl
  | getline line => cases hthread
  | branch => cases hthread
  | send fresh => cases hthread

end ChatClient

open ChatClient in
/-- **What happens outside the lock does not touch what is under it.** -/
theorem independent_clientLayout : clientLayout.Independent where
  keeps := by
    intro c d e u hlocked henabled hthread hfree hstep
    have hsender := toSender_of_step hfree hstep
    cases e with
    | send fresh =>
        have hinput := input_of_step (ClientThread.eq_other hthread) hstep
        refine ⟨rfl, ?_, ?_⟩
        · show (d.input matches .branching _ _) = true
          rw [hinput]
          exact henabled
        · show d.criticalSection (.send fresh) = c.criticalSection (.send fresh)
          rw [criticalSection, criticalSection, hinput]
    | writeDone =>
        have hhandler := handler_of_step hfree (.inl (ClientThread.eq_other hthread)) hstep
        refine ⟨rfl, ?_, rfl⟩
        show d.handler = none ∧ d.toSender.completed < d.toSender.started.length
        rw [hhandler, hsender]
        exact henabled
    | writeResumed =>
        have hhandler := handler_of_step hfree (.inl (ClientThread.eq_other hthread)) hstep
        obtain ⟨packet, hpacket⟩ := isLocked_writeResumed.mp hlocked
        refine ⟨isLocked_writeResumed.mpr ⟨packet, hhandler.trans hpacket⟩, ?_, ?_⟩
        · show d.handler ≠ none
          rw [hhandler]
          exact henabled
        · show d.criticalSection .writeResumed = c.criticalSection .writeResumed
          rw [criticalSection, criticalSection, hhandler]
    | _ => cases hlocked
  commutes := by
    intro a e u sec hlocked hentry hthread m hm s s' t' r r' hms hfree hstep
    obtain ⟨accesses, finish, rfl⟩ := exists_lockedSection hentry
    obtain ⟨access, -, rfl⟩ := List.mem_map.mp hm
    obtain ⟨⟨q, r''⟩, haccess, hs'⟩ := Except.exists_of_bind_eq_ok hms
    obtain ⟨rfl, rfl⟩ := Prod.mk.inj (Except.ok.inj hs')
    replace hfree : s.isLocked u = false := hfree
    obtain ⟨henabled, hstep⟩ := hstep
    replace henabled : clientMachine.enabled s u := (enabled_withSender hfree).mp henabled
    rw [step_withSender _ _ hfree] at hstep
    cases ht : clientMachine.step s u with
    | error f =>
        rw [ht] at hstep
        cases hstep
    | ok t =>
        rw [ht] at hstep
        cases hstep
        have hsender := toSender_of_step hfree ⟨henabled, ht⟩
        refine ⟨hfree, t, ⟨henabled, ht⟩, ?_⟩
        simp only [underLock, bind, pure, Except.pure, hsender, haccess, Except.bind]

namespace ChatClient

variable {c : ChatClient} {e : ClientEvent}

/-- **Once entered, a section does not fault**: a packet that cannot be built fails before the
lock is taken, and the queue is not empty when a write completes. -/
theorem exists_step_of_entry {mark : UInt32} {es : List ClientEvent}
    (h : clientMachine.Run (.launched mark) es c) (henabled : clientMachine.enabled c e)
    (hlocked : c.isLocked e = true) {sec : Mutex.Section ChatClient Fault SendLocals}
    (hentry : c.criticalSection e = .ok sec) : ∃ d, clientMachine.step c e = .ok d := by
  by_cases hsend : ∃ fresh, e = .send fresh
  · obtain ⟨fresh, rfl⟩ := hsend
    rw [step_eq_section c _ hlocked, hentry]
    rw [criticalSection] at hentry
    split at hentry
    · simp only [bind] at hentry
      split at hentry
      all_goals
        obtain ⟨⟨pkt, size⟩, -, hsec⟩ := Except.exists_of_bind_eq_ok hentry
        cases hsec
        exact ⟨_, run_sendSection pkt size c⟩
    · cases hentry
      exact ⟨c, rfl⟩
  · refine exists_step h henabled ?_ fun fresh heq => hsend ⟨fresh, heq⟩
    rintro bytes rfl
    cases hlocked

end ChatClient

/-- **The sections of the client may be taken for single steps.** However the steps of the two
threads interleave, what they do is a run of `clientMachine`; while one of them is in a section,
it gets on by itself, without a fault, and when it has released the lock, the section is taken. -/
theorem client_sections_atomic {mark : UInt32} {es : List (Mutex.Event ClientEvent)}
    {s : Mutex.State ChatClient ClientEvent Fault SendLocals}
    (h : clientLayout.fine.Run ⟨.launched mark, none⟩ es s) :
    ∃ c, clientMachine.Run (.launched mark) (es.filterMap Mutex.Event.completed) c ∧
      (s.held = none → s.shared = c) ∧
      ∀ held, s.held = some held → ∃ d, clientMachine.Step c held.event d ∧
        clientLayout.fine.Run s
          (List.replicate held.rest.length .micro ++ [.leave held.event]) ⟨d, none⟩ := by
  obtain ⟨c, hrun, habstracts⟩ := Mutex.Layout.atomic independent_clientLayout h
  refine ⟨c, hrun, ?_, ?_⟩
  · intro hnone
    rw [Mutex.Layout.Abstracts, hnone] at habstracts
    exact habstracts
  · intro held hheld
    have habs := habstracts
    rw [Mutex.Layout.Abstracts, hheld] at habs
    obtain ⟨hlocked, henabled, sec, done, hentry, -⟩ := habs
    obtain ⟨d, hd⟩ := ChatClient.exists_step_of_entry hrun henabled hlocked hentry
    exact ⟨d, ⟨henabled, hd⟩, habstracts.exists_run hheld hd⟩

/-- A login up to the middle of `post_send`, where the connection is made. -/
def loginInSteps : List (Mutex.Event ClientEvent) :=
  [.free (.getline (some [98])), .free .branch, .enter (.send fun _ => 0), .micro, .micro,
    .free (.connectDone false)]

/-- The rest of `post_send` is done by `main` alone, and then the login is posted. -/
theorem client_sections_atomic_login :
    ∃ s : Mutex.State ChatClient ClientEvent Fault SendLocals,
      clientLayout.fine.Run ⟨.launched 0, none⟩ loginInSteps s ∧
      ∃ c d, clientMachine.Run (.launched 0) [.getline (some [98]), .branch, .connectDone false] c ∧
        clientMachine.Step c (.send fun _ => 0) d ∧
        clientLayout.fine.Run s [.micro, .micro, .leave (.send fun _ => 0)] ⟨d, none⟩ := by
  have hrun : ∃ s, clientLayout.fine.Run ⟨.launched 0, none⟩ loginInSteps s ∧
      ∃ held, s.held = some held ∧ held.event = .send (fun _ => 0) ∧ held.rest.length = 2 := by
    refine ⟨_, .cons ⟨⟨rfl, rfl, fun _ h => nomatch h⟩, rfl⟩ <|
      .cons ⟨⟨rfl, rfl, fun _ h => nomatch h⟩, rfl⟩ <|
      .cons ⟨⟨rfl, rfl, rfl⟩, rfl⟩ <|
      .cons ⟨⟨_, rfl, List.cons_ne_nil _ _⟩, rfl⟩ <|
      .cons ⟨⟨_, rfl, List.cons_ne_nil _ _⟩, rfl⟩ <|
      .cons ⟨⟨rfl, ⟨rfl, rfl⟩, ?_⟩, rfl⟩ <| .nil _, _, rfl, rfl, rfl⟩
    rintro _ ⟨⟩ ⟨⟩
  obtain ⟨s, hrun, held, hheld, hevent, hrest⟩ := hrun
  obtain ⟨c, hcoarse, -, hleave⟩ := client_sections_atomic hrun
  obtain ⟨d, hstep, hfine⟩ := hleave held hheld
  rw [hevent] at hstep hfine
  rw [hrest] at hfine
  exact ⟨s, hrun, c, d, hcoarse, hstep, hfine⟩

end AsioChat
