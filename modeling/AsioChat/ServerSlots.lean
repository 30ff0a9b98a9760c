import AsioChat.Lib.Pool
import AsioChat.ServerSteps

/-!
# The Session Slots

Who owns a session: `session_queue_`, the outstanding `async_accept` or a live
connection. The server's handlers move the sessions as a `Pool` moves its slots, so what
holds of pools holds of the server. A failed `async_accept` is the pool's failed offer:
`handle_accept` does nothing then, the session is in no place any more, and
`is_accepting_` stays set, so no other `async_accept` is ever started.

## Main results

* `Represents.step`, `exists_pool_run`: every run of the server is a run of a pool.
* `slotsKept_iff`: no session is lost and the server keeps listening if and only if no
  `async_accept` failed.
* `slotsExclusive_of_run`: no session is ever in two places, and every connected session
  has exactly one read outstanding.
* `slots_in_order`: sessions are accepted into in the order in which they became free.
-/

namespace AsioChat

/-! ### The connections in the record -/

/-- Whether a session is connected after a call, unless it is accepted while connected or
closed while not. -/
def Call.connection (i : ℕ) (connected : Bool) : Call → Option Bool
  | accepted id =>
    if id = i then (if connected = false then some true else none) else some connected
  | closed id =>
    if id = i then (if connected = true then some false else none) else some connected
  | _ => some connected

/-- Whether a session is connected after some calls. There is a value only if between
two accepts of the session there is exactly one close, and between two closes one
accept. -/
def connectedAfter (i : ℕ) (calls : List Call) : Option Bool :=
  calls.foldlM (Call.connection i) false

/-- Whether the slot is connected after one more call. -/
theorem connectedAfter_snoc (i : ℕ) (calls : List Call) (call : Call) :
    connectedAfter i (calls ++ [call]) =
      (connectedAfter i calls).bind fun connected => Call.connection i connected call := by
  simp [connectedAfter, List.foldlM_append]

/-- A call that neither accepts nor closes. -/
theorem connectedAfter_snoc_of_eq {i : ℕ} {calls : List Call} {call : Call}
    (hcall : ∀ connected, call.connection i connected = some connected) :
    connectedAfter i (calls ++ [call]) = connectedAfter i calls := by
  rw [connectedAfter_snoc]
  simp only [hcall, Option.bind_fun_some]

/-! ### The server as a pool -/

/-- Whether a session is connected, and how many reads are outstanding on it. -/
def Session.slot (session : Session) : Bool × ℕ := (session.isOpen, session.reading)

namespace ChatServer

variable {s t : ChatServer} {id : ℕ}

/-- Two states that agree on everything that says who owns a session. -/
structure SameSlots (s t : ChatServer) : Prop where
  isAccepting : t.isAccepting = s.isAccepting
  acceptor : t.acceptor = s.acceptor
  sessionQueue : t.sessionQueue = s.sessionQueue
  slot : ∀ i : ℕ, t.sessionList[i]?.map Session.slot = s.sessionList[i]?.map Session.slot
  connected : ∀ i, connectedAfter i t.calls = connectedAfter i s.calls

/-- Where nothing happens, the slots stay. -/
theorem SameSlots.refl (s : ChatServer) : SameSlots s s :=
  ⟨rfl, rfl, rfl, fun _ => rfl, fun _ => rfl⟩

/-- Two steps after one another leave the slots. -/
theorem SameSlots.trans {u : ChatServer} (h₁ : SameSlots s t) (h₂ : SameSlots t u) :
    SameSlots s u :=
  ⟨h₂.isAccepting.trans h₁.isAccepting, h₂.acceptor.trans h₁.acceptor,
    h₂.sessionQueue.trans h₁.sessionQueue, fun i => (h₂.slot i).trans (h₁.slot i),
    fun i => (h₂.connected i).trans (h₁.connected i)⟩

/-- Changing what else a session holds. -/
theorem sameSlots_modifySession (s : ChatServer) (id : ℕ) {f : Session → Session}
    (hf : ∀ session, (f session).slot = session.slot) : SameSlots s (s.modifySession id f) :=
  ⟨rfl, rfl, rfl, map_modifySession Session.slot s id hf, fun _ => rfl⟩

/-- **`process_packet` moves no session.** -/
theorem sameSlots_processPacket {data : List UInt8} {fresh : ℕ → UInt8}
    (h : s.processPacket id data fresh = .ok t) : SameSlots s t := by
  have hslot := map_processPacket Session.slot (fun _ _ => rfl) (fun _ _ _ => rfl) h
  rcases processPacket_cases h with ⟨-, rfl⟩ | ⟨request, -, rfl⟩ | ⟨session, request, -, -, -, rfl⟩
  · exact .refl _
  · refine ⟨rfl, rfl, rfl, hslot, fun i => ?_⟩
    rw [calls_loggedIn]
    exact connectedAfter_snoc_of_eq fun _ => rfl
  · refine ⟨?_, ?_, ?_, hslot, fun i => ?_⟩
    · rw [notified_eq]
    · rw [notified_eq]
    · rw [notified_eq]
    · rw [calls_notified]
      exact connectedAfter_snoc_of_eq fun _ => rfl

/-- The server's bookkeeping is that of a pool, with the connected sessions in use: each of
them with one read outstanding, all others with none, and closed as often as accepted. -/
structure Represents (n : ℕ) (s : ChatServer) (p : Pool ℕ) : Prop where
  isAccepting : s.isAccepting = p.offering
  acceptor : s.acceptor = p.pending
  sessionQueue : s.sessionQueue = p.free
  slot : ∀ i : ℕ, s.sessionList[i]?.map Session.slot =
    if i < n then some (p.inUse i, if p.inUse i = true then 1 else 0) else none
  connected : ∀ i, connectedAfter i s.calls = some (p.inUse i)

variable {n : ℕ} {p : Pool ℕ}

/-- The pool stays represented while the slots stay. -/
theorem Represents.of_sameSlots (h : Represents n s p) (hsame : SameSlots s t) :
    Represents n t p :=
  ⟨hsame.isAccepting.trans h.isAccepting, hsame.acceptor.trans h.acceptor,
    hsame.sessionQueue.trans h.sessionQueue, fun i => (hsame.slot i).trans (h.slot i),
    fun i => (hsame.connected i).trans (h.connected i)⟩

/-- `post_accept` offers a slot. -/
theorem Represents.postAccept (h : Represents n s p) : Represents n s.postAccept p.offer := by
  obtain ⟨isAccepting, acceptor, sessionList, sessionQueue, calls⟩ := s
  obtain ⟨offering, pending, free, inUse⟩ := p
  obtain ⟨hoffering, hpending, hfree, hslot, hconnected⟩ := h
  obtain rfl : sessionQueue = free := hfree
  cases sessionQueue with
  | nil => exact ⟨rfl, hpending, rfl, hslot, hconnected⟩
  | cons id queue => exact ⟨rfl, congrArg (· ++ [id]) hpending, rfl, hslot, hconnected⟩

/-- A change that opens or closes one session. -/
theorem Represents.slot_modifySession (h : Represents n s p) (id : ℕ) {f : Session → Session}
    {g : Bool × ℕ → Bool × ℕ} {b : Bool} (hf : ∀ session, (f session).slot = g session.slot)
    (hg : g (p.inUse id, if p.inUse id = true then 1 else 0) = (b, if b = true then 1 else 0))
    (i : ℕ) : (s.modifySession id f).sessionList[i]?.map Session.slot =
      if i < n then some (Function.update p.inUse id b i,
        if Function.update p.inUse id b i = true then 1 else 0) else none := by
  rw [map_modifySession_eq Session.slot s id hf, h.slot]
  by_cases hlt : i < n
  · rw [if_pos hlt, if_pos hlt, Option.map_some]
    by_cases hid : id = i
    · subst hid
      rw [if_pos rfl, hg, Function.update_self]
    · rw [if_neg hid, Function.update_of_ne (Ne.symm hid)]
  · rw [if_neg hlt, if_neg hlt, Option.map_none]

/-- A session that exists is one of the slots, and agrees with it. -/
theorem Represents.slot_eq (h : Represents n s p) {i : ℕ} {session : Session}
    (hsession : s.sessionList[i]? = some session) :
    i < n ∧ session.isOpen = p.inUse i ∧
      session.reading = if p.inUse i = true then 1 else 0 := by
  have hslot := h.slot i
  rw [hsession] at hslot
  by_cases hlt : i < n
  · rw [if_pos hlt] at hslot
    have heq := Option.some.inj hslot
    exact ⟨hlt, congrArg Prod.fst heq, congrArg Prod.snd heq⟩
  · rw [if_neg hlt] at hslot
    cases hslot

/-- A session with a read outstanding is connected. -/
theorem Represents.inUse_of_reading (h : Represents n s p) (hhas : s.Has id (0 < ·.reading)) :
    p.inUse id = true := by
  obtain ⟨session, hsession, hreading⟩ := hhas
  by_contra huse
  rw [(h.slot_eq hsession).2.2, if_neg huse] at hreading
  exact absurd hreading (Nat.lt_irrefl 0)

/-- The pool's event behind a completion. -/
def poolEvent : ServerEvent → Option (Pool.Event ℕ)
  | .acceptDone id false => some (.take id)
  | .acceptDone id true => some (.fail id)
  | .readFailed id => some (.release id)
  | _ => none

variable {e : ServerEvent}

/-- What accepting or closing one session does to the connections in the record. -/
theorem Represents.connected_record (h : Represents n s p) {call : Call} {b : Bool}
    (hcall : ∀ i, call.connection i (p.inUse i) = some (Function.update p.inUse id b i)) (i : ℕ) :
    connectedAfter i (s.calls ++ [call]) = some (Function.update p.inUse id b i) := by
  rw [connectedAfter_snoc, h.connected i, Option.bind_some, hcall]

/-- A completed `async_accept` takes the slot offered, or loses it. -/
theorem Represents.acceptDone (h : Represents n s p) (hexclusive : p.Exclusive (List.range n))
    {error : Bool} (hstep : chatMachine.Step s (.acceptDone id error) t) :
    ∃ q, (Pool.machine ℕ).Run p (poolEvent (.acceptDone id error)).toList q ∧
      Represents n t q := by
  obtain ⟨⟨hmem, -⟩, hstep⟩ := hstep
  cases hstep
  have hpending : id ∈ p.pending := h.acceptor ▸ hmem
  have hidle := hexclusive.idle id (List.mem_append_left _ hpending)
  cases error with
  | true =>
      refine ⟨p.fail id, .cons (Pool.step_iff.mpr ⟨hpending, rfl⟩) (.nil _), ?_⟩
      exact ⟨h.isAccepting, congrArg (·.erase id) h.acceptor, h.sessionQueue, h.slot, h.connected⟩
  | false =>
      refine ⟨p.take id, .cons (Pool.step_iff.mpr ⟨⟨hpending, hidle⟩, rfl⟩) (.nil _), ?_⟩
      refine Represents.postAccept ⟨h.isAccepting, congrArg (·.erase id) h.acceptor,
        h.sessionQueue, ?_, h.connected_record fun i => ?_⟩
      · rw [sessionList_accepted]
        exact h.slot_modifySession id (g := fun slot => (true, slot.2 + 1)) (fun _ => rfl)
          (by simp [hidle])
      · rw [Call.connection]
        by_cases hid : id = i
        · subst hid
          rw [if_pos rfl, if_pos hidle, Function.update_self]
        · rw [if_neg hid, Function.update_of_ne (Ne.symm hid)]

/-- A completed read moves no session: a new read replaces it. -/
theorem Represents.readDone (h : Represents n s p) {bytes : List UInt8} {fresh : ℕ → UInt8}
    (hstep : chatMachine.Step s (.readDone id bytes fresh) t) : Represents n t p := by
  have huse := h.inUse_of_reading hstep.1.1
  obtain ⟨_, buffer, _, u, -, -, hu, rfl⟩ := step_readDone hstep
  have hsame : SameSlots (s.received id buffer) u := by
    rcases hu with ⟨-, rfl⟩ | ⟨data, -, hprocess⟩
    · exact .refl _
    · exact sameSlots_processPacket hprocess
  refine h.of_sameSlots
    ⟨hsame.isAccepting, hsame.acceptor, hsame.sessionQueue, fun i => ?_, hsame.connected⟩
  have hnext := map_modifySession_eq Session.slot u id
    (f := fun session => { session with reading := session.reading + 1 })
    (g := fun slot => (slot.1, slot.2 + 1)) fun _ => rfl
  have hbuffer := map_modifySession_eq Session.slot (s.readCompleted id) id
    (f := fun session => { session with toPacketBuffer := buffer })
    (g := fun slot => slot) fun _ => rfl
  have hdone := map_modifySession_eq Session.slot s id
    (f := fun session => { session with reading := session.reading - 1 })
    (g := fun slot => (slot.1, slot.2 - 1)) fun _ => rfl
  rw [postReceive, hnext, hsame.slot, received, hbuffer, readCompleted, hdone, h.slot]
  by_cases hlt : i < n
  · by_cases hid : id = i
    · subst hid
      simp [hlt, huse]
    · simp [hlt, hid]
  · simp [hlt]

/-- A failed read releases the slot. -/
theorem Represents.readFailed (h : Represents n s p)
    (hstep : chatMachine.Step s (.readFailed id) t) :
    ∃ q, (Pool.machine ℕ).Run p (poolEvent (.readFailed id)).toList q ∧ Represents n t q := by
  have huse := h.inUse_of_reading hstep.1
  obtain ⟨-, hstep⟩ := hstep
  cases hstep
  refine ⟨p.release id, .cons (Pool.step_iff.mpr ⟨huse, rfl⟩) (.nil _), ?_⟩
  have hclosed : Represents n ((s.readCompleted id).closeSocket id)
      { p with free := p.free ++ [id], inUse := Function.update p.inUse id false } := by
    refine ⟨h.isAccepting, h.acceptor, congrArg (· ++ [id]) h.sessionQueue, ?_,
      h.connected_record fun i => ?_⟩
    · rw [sessionList_closeSocket]
      exact h.slot_modifySession id (g := fun slot => (false, slot.2 - 1)) (fun _ => rfl)
        (by simp [huse])
    · rw [Call.connection]
      by_cases hid : id = i
      · subst hid
        rw [if_pos rfl, if_pos huse, Function.update_self]
      · rw [if_neg hid, Function.update_of_ne (Ne.symm hid)]
  have hoffering := hclosed.isAccepting
  simp only [handleReceiveError, closeSession, Pool.release]
  by_cases haccepting : p.offering = false
  · rw [if_pos (hoffering.trans haccepting), if_pos haccepting]
    exact hclosed.postAccept
  · rw [if_neg (hoffering ▸ haccepting), if_neg haccepting]
    exact hclosed

/-- **Every step of the server is matched by the pool.** -/
theorem Represents.step (h : Represents n s p) (hexclusive : p.Exclusive (List.range n))
    (hstep : chatMachine.Step s e t) :
    ∃ q, (Pool.machine ℕ).Run p (poolEvent e).toList q ∧ Represents n t q := by
  cases e with
  | acceptDone id error => exact h.acceptDone hexclusive hstep
  | readDone id bytes fresh => exact ⟨p, .nil p, h.readDone hstep⟩
  | readFailed id => exact h.readFailed hstep
  | writeDone id =>
      obtain ⟨session, sender, -, -, rfl⟩ := step_writeDone hstep
      exact ⟨p, .nil p, h.of_sameSlots (sameSlots_modifySession s id fun _ => rfl)⟩

/-- The server after `init` and `start` is a pool with all slots free but the first. -/
theorem represents_started (mark : ℕ → UInt32) (n : ℕ) :
    Represents n (started mark n) (Pool.initial (List.range n)) := by
  refine Represents.postAccept ⟨rfl, rfl, rfl, fun i => ?_, fun i => rfl⟩
  by_cases hlt : i < n
  · simp [constructed, init, hlt, Session.slot, Session.constructed]
  · simp [constructed, init, hlt]

/-- **Every run of the server is a run of a pool.** -/
theorem exists_pool_run {mark : ℕ → UInt32} {es : List ServerEvent}
    (h : chatMachine.Run (started mark n) es s) :
    ∃ p, (Pool.machine ℕ).Run (Pool.initial (List.range n)) (es.filterMap poolEvent) p ∧
      Represents n s p := by
  refine h.simulation (represents_started mark n) ?_
  intro _ s e t es' p _ hrun hrep hstep
  exact hrep.step (Pool.exclusive_of_run List.nodup_range hrun) hstep

/-- No session is lost and the server listens while it has capacity: every session is
queued, being accepted into or connected, `is_accepting_` says whether an `async_accept` is
outstanding, and one is if a session is queued. -/
structure SlotsKept (n : ℕ) (s : ChatServer) : Prop where
  kept : ∀ i < n, i ∈ s.sessionQueue ∨ i ∈ s.acceptor ∨ s.Has i (·.isOpen = true)
  isAccepting : s.isAccepting = true ↔ s.acceptor ≠ []
  listening : s.sessionQueue ≠ [] → s.acceptor ≠ []

/-- A session is connected when its slot is in use. -/
theorem Represents.has_isOpen_iff (h : Represents n s p) {i : ℕ} (hlt : i < n) :
    s.Has i (·.isOpen = true) ↔ p.inUse i = true := by
  constructor
  · rintro ⟨session, hsession, hopen⟩
    exact (h.slot_eq hsession).2.1.symm.trans hopen
  · intro huse
    have hslot := h.slot i
    rw [if_pos hlt] at hslot
    obtain ⟨session, hsession, -⟩ := Option.map_eq_some_iff.mp hslot
    exact ⟨session, hsession, (h.slot_eq hsession).2.1.trans huse⟩

/-- In every run, a session has one read outstanding if it is open, and none if it is not. -/
theorem reading_eq {mark : ℕ → UInt32} {n : ℕ} {es : List ServerEvent}
    (h : chatMachine.Run (started mark n) es s) {i : ℕ} {session : Session}
    (hsession : s.sessionList[i]? = some session) :
    session.reading = if session.isOpen = true then 1 else 0 := by
  obtain ⟨p, -, hrep⟩ := exists_pool_run h
  obtain ⟨-, hopen, hreading⟩ := hrep.slot_eq hsession
  rw [hreading, hopen]

/-- In every run, a session with a read outstanding is open. -/
theorem isOpen_of_reading {mark : ℕ → UInt32} {n : ℕ} {es : List ServerEvent}
    (h : chatMachine.Run (started mark n) es s) (id : ℕ) (hreading : s.Has id (0 < ·.reading)) :
    s.Has id (·.isOpen = true) := by
  obtain ⟨p, -, hrep⟩ := exists_pool_run h
  have huse := hrep.inUse_of_reading hreading
  obtain ⟨session, hsession, -⟩ := hreading
  exact ⟨session, hsession, (hrep.slot_eq hsession).2.1.trans huse⟩

/-- The sessions are those that `init` constructs. -/
theorem lt_of_sessionList {mark : ℕ → UInt32} {n : ℕ} {es : List ServerEvent}
    (h : chatMachine.Run (started mark n) es s) {i : ℕ} {session : Session}
    (hsession : s.sessionList[i]? = some session) : i < n := by
  obtain ⟨p, -, hrep⟩ := exists_pool_run h
  exact (hrep.slot_eq hsession).1

/-- The server keeps its sessions when the pool is complete. -/
theorem Represents.slotsKept_iff_complete (h : Represents n s p) :
    s.SlotsKept n ↔ p.Complete (List.range n) := by
  constructor
  · rintro ⟨hkept, hisAccepting, hlistening⟩
    rw [h.isAccepting, h.acceptor] at hisAccepting
    rw [h.sessionQueue, h.acceptor] at hlistening
    refine ⟨fun i hi => ?_, hisAccepting, hlistening⟩
    have hlt := List.mem_range.mp hi
    rw [← h.has_isOpen_iff hlt, ← h.sessionQueue, ← h.acceptor]
    exact hkept i hlt
  · rintro ⟨hcovered, hoffering, hoffers⟩
    rw [← h.isAccepting, ← h.acceptor] at hoffering
    rw [← h.sessionQueue, ← h.acceptor] at hoffers
    refine ⟨fun i hlt => ?_, hoffering, hoffers⟩
    rw [h.has_isOpen_iff hlt, h.sessionQueue, h.acceptor]
    exact hcovered i (List.mem_range.mpr hlt)

end ChatServer

/-- **No session is lost and the server keeps listening if and only if no `async_accept`
failed**, in every state of every run. -/
theorem slotsKept_iff {mark : ℕ → UInt32} {n : ℕ} {es : List ServerEvent} {s : ChatServer}
    (h : chatMachine.Run (.started mark n) es s) :
    s.SlotsKept n ↔ ∀ id, .acceptDone id true ∉ es := by
  obtain ⟨p, hrun, hrep⟩ := ChatServer.exists_pool_run h
  rw [hrep.slotsKept_iff_complete, Pool.complete_iff List.nodup_range hrun]
  refine forall_congr' fun id => not_congr ?_
  rw [List.mem_filterMap]
  constructor
  · rintro ⟨e, he, hpool⟩
    match e, hpool with
    | .acceptDone _ true, rfl => exact he
  · exact fun he => ⟨_, he, rfl⟩

/-- Two clients connect to a server of two sessions, and one of them leaves. -/
theorem slotsKept_of_two_clients : ∃ s,
    chatMachine.Run (.started (fun _ => 0) 2)
      [.acceptDone 0 false, .acceptDone 1 false, .readFailed 0] s ∧ s.SlotsKept 2 := by
  obtain ⟨s, hrun, -⟩ := Machine.exists_run_of_exec chatMachine (.started (fun _ => 0) 2)
    [.acceptDone 0 false, .acceptDone 1 false, .readFailed 0] (fun _ => ()) (b := ())
    (by decide +kernel)
  exact ⟨s, hrun, (slotsKept_iff hrun).mpr (by simp)⟩

/-- The first `async_accept` of a server with one session fails: the session is gone, and
the server counts as accepting for ever. -/
theorem slot_lost : ∃ s,
    chatMachine.Run (.started (fun _ => 0) 1) [.acceptDone 0 true] s ∧ ¬ s.SlotsKept 1 := by
  refine ⟨_, .cons ⟨by decide +kernel, rfl⟩ (.nil _), fun hkept => ?_⟩
  exact hkept.isAccepting.mp (by decide +kernel) (by decide +kernel)

/-! ### Exclusion -/

namespace ChatServer

/-- No session is shared: the queue holds no session twice and only sessions that exist;
no session is in two places; at most one `async_accept` is outstanding; exactly the
connected sessions have a read outstanding, one each; and a session was closed once
between two accepts, and has been closed since the last one exactly if it is not
connected. -/
structure SlotsExclusive (n : ℕ) (s : ChatServer) : Prop where
  nodup : s.sessionQueue.Nodup
  lt : ∀ i ∈ s.sessionQueue, i < n
  queue_acceptor : ∀ i ∈ s.sessionQueue, i ∉ s.acceptor
  queue_open : ∀ i ∈ s.sessionQueue, ¬ s.Has i (·.isOpen = true)
  acceptor_open : ∀ i ∈ s.acceptor, ¬ s.Has i (·.isOpen = true)
  length_acceptor : s.acceptor.length ≤ 1
  reading : ∀ (i : ℕ) (session : Session), s.sessionList[i]? = some session →
    session.reading = if session.isOpen = true then 1 else 0
  connected : ∀ (i : ℕ) (session : Session), s.sessionList[i]? = some session →
    connectedAfter i s.calls = some session.isOpen

end ChatServer

/-- **No session slot is ever shared**, in every state of every run. -/
theorem slotsExclusive_of_run {mark : ℕ → UInt32} {n : ℕ} {es : List ServerEvent}
    {s : ChatServer} (h : chatMachine.Run (.started mark n) es s) : s.SlotsExclusive n := by
  obtain ⟨p, hrun, hrep⟩ := ChatServer.exists_pool_run h
  have hexclusive := Pool.exclusive_of_run List.nodup_range hrun
  have hnodup := List.nodup_append.mp hexclusive.nodup
  have hlt : ∀ i ∈ p.pending ++ p.free, i < n := fun i hi =>
    List.mem_range.mp (hexclusive.mem i (.inl hi))
  have hclosed : ∀ i ∈ p.pending ++ p.free, ¬ s.Has i (·.isOpen = true) := by
    intro i hi hopen
    have huse := (hrep.has_isOpen_iff (hlt i hi)).mp hopen
    rw [hexclusive.idle i hi] at huse
    cases huse
  refine ⟨?_, ?_, ?_, ?_, ?_, ?_, ?_, ?_⟩
  · rw [hrep.sessionQueue]
    exact hnodup.2.1
  · rw [hrep.sessionQueue]
    exact fun i hi => hlt i (List.mem_append_right _ hi)
  · rw [hrep.sessionQueue, hrep.acceptor]
    exact fun i hfree hpending => hnodup.2.2 i hpending i hfree rfl
  · rw [hrep.sessionQueue]
    exact fun i hi => hclosed i (List.mem_append_right _ hi)
  · rw [hrep.acceptor]
    exact fun i hi => hclosed i (List.mem_append_left _ hi)
  · rw [hrep.acceptor]
    exact hexclusive.length_le
  · intro i session hsession
    obtain ⟨-, hopen, hreading⟩ := hrep.slot_eq hsession
    rw [hreading, hopen]
  · intro i session hsession
    rw [hrep.connected, (hrep.slot_eq hsession).2.1]

/-- A session is accepted, left and accepted again. -/
theorem slotsExclusive_of_reaccept : ∃ s,
    chatMachine.Run (.started (fun _ => 0) 1)
      [.acceptDone 0 false, .readFailed 0, .acceptDone 0 false] s ∧ s.SlotsExclusive 1 := by
  obtain ⟨s, hrun, -⟩ := Machine.exists_run_of_exec chatMachine (.started (fun _ => 0) 1)
    [.acceptDone 0 false, .readFailed 0, .acceptDone 0 false] (fun _ => ()) (b := ())
    (by decide +kernel)
  exact ⟨s, hrun, slotsExclusive_of_run hrun⟩

/-- The session of a completed `async_accept`, successful or not. -/
def ServerEvent.acceptedInto : ServerEvent → Option ℕ
  | acceptDone id _ => some id
  | _ => none

/-- The session that a failed read closes. -/
def ServerEvent.closes : ServerEvent → Option ℕ
  | readFailed id => some id
  | _ => none

/-- **Sessions are accepted into in the order in which they became free**: over every run, the
sessions of the completed `async_accept`s, that of the outstanding one and those in
`session_queue_` are, in this order, the sessions that `init` queued and those closed since, in
order. -/
theorem slots_in_order {mark : ℕ → UInt32} {n : ℕ} {es : List ServerEvent} {s : ChatServer}
    (h : chatMachine.Run (.started mark n) es s) :
    es.filterMap ServerEvent.acceptedInto ++ (s.acceptor ++ s.sessionQueue) =
      List.range n ++ es.filterMap ServerEvent.closes := by
  obtain ⟨p, hrun, hrep⟩ := ChatServer.exists_pool_run h
  have horder := Pool.places_of_run List.nodup_range hrun
  rw [List.filterMap_filterMap, List.filterMap_filterMap] at horder
  have hleft : (fun e => (ChatServer.poolEvent e).bind Pool.Event.left) =
      ServerEvent.acceptedInto := by
    funext e
    cases e with
    | acceptDone id error => cases error <;> rfl
    | readDone id bytes fresh => rfl
    | readFailed id => rfl
    | writeDone id => rfl
  have hreleased : (fun e => (ChatServer.poolEvent e).bind Pool.Event.released) =
      ServerEvent.closes := by
    funext e
    cases e with
    | acceptDone id error => cases error <;> rfl
    | readDone id bytes fresh => rfl
    | readFailed id => rfl
    | writeDone id => rfl
  rw [hleft, hreleased] at horder
  rw [hrep.acceptor, hrep.sessionQueue]
  exact horder

/-- Two sessions, the second one left first and so the next to be accepted into. -/
theorem slots_in_order_two : ∃ s,
    chatMachine.Run (.started (fun _ => 0) 2)
      [.acceptDone 0 false, .acceptDone 1 false, .readFailed 1, .readFailed 0] s ∧
    [0, 1] ++ (s.acceptor ++ s.sessionQueue) = [0, 1] ++ [1, 0] := by
  obtain ⟨s, hrun, -⟩ := Machine.exists_run_of_exec chatMachine (.started (fun _ => 0) 2)
    [.acceptDone 0 false, .acceptDone 1 false, .readFailed 1, .readFailed 0] (fun _ => ()) (b := ())
    (by decide +kernel)
  exact ⟨s, hrun, slots_in_order hrun⟩

end AsioChat
