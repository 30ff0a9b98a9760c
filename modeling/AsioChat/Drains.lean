import AsioChat.ClientLock
import AsioChat.SystemFaults
import Mathlib.Algebra.Order.BigOperators.Group.Finset
import Mathlib.Order.RelClasses

/-!
# The System Drains

What happens to what is underway when nobody types and nobody comes or goes: writes complete,
and what was written is read, in pieces of any size. A request that is read can put a notice on
the way to every client, but no notice causes a request. So the deliveries come to an end, in
whatever order they are taken; and where they end, everything that was written has been
processed, unless the server has gone wrong. What goes over a connection that one of the sides has
closed may still be read, but it need not be.

## Main definitions

* `System.Delivers`, `deliveries`: the completions of writes, and the reads of what is underway.
* `System.IsDue`: those of them that are bound to happen.
* `System.underway`: what goes down, up to the server first, and then down to the clients.

## Main results

* `System.underway_of_step`: every delivery brings it down.
* `System.enabled_serve`, `System.enabled_arrive`: while something is underway, it can be read.
* `system_drains`: the deliveries end, and where they end everything has arrived.
-/

namespace AsioChat

/-! ### Completions -/

namespace ChatServer

variable {s t : ChatServer} {mark : ℕ → UInt32} {n : ℕ} {es : List ServerEvent} {id : ℕ}

/-- The number of writes in flight on a session. -/
def outstandingOn (s : ChatServer) (i : ℕ) : ℕ :=
  (s.sessionList[i]?.map fun session => session.outstanding).getD 0

/-- The number of writes in flight. -/
def outstanding (s : ChatServer) : ℕ :=
  ∑ i ∈ Finset.range s.sessionList.length, s.outstandingOn i

/-- **A completed write** starts no other one. -/
theorem startedOn_of_writeDone (h : chatMachine.Run (started mark n) es s)
    (hstep : chatMachine.Step s (.writeDone id) t) :
    (∀ i, t.startedOn i = s.startedOn i) ∧ t.outstanding < s.outstanding := by
  obtain ⟨session, sender, hsession, hwrite, rfl⟩ := step_writeDone hstep
  obtain ⟨session', hsession', hcompleted⟩ := hstep.1
  cases hsession.symm.trans hsession'
  have hsender : sender.started = session.started ∧
      sender.completed = session.completed + 1 := by
    rcases Session.sendStep_complete (inv_of_sessionList h hsession) hcompleted with
      ⟨-, hok⟩ | ⟨-, herror⟩
    · cases hwrite.symm.trans hok
      exact ⟨rfl, rfl⟩
    · cases hwrite.symm.trans herror
  have hlength := (List.getElem?_eq_some_iff.mp hsession).1
  constructor
  · intro i
    by_cases hi : id = i
    · subst hi
      simp [startedOn, hsession, hsender.1]
    · simp [startedOn, hi]
  · have hsame : ∀ i, i ≠ id → (s.modifySession id fun session =>
        { session with toSender := sender }).outstandingOn i = s.outstandingOn i := by
      intro i hi
      simp [outstandingOn, Ne.symm hi]
    have hless : (s.modifySession id fun session =>
        { session with toSender := sender }).outstandingOn id < s.outstandingOn id := by
      simp only [outstandingOn, getElem?_modifySession, hsession, Option.map_some, if_true,
        Option.getD_some, Sender.outstanding, hsender.1, hsender.2]
      omega
    rw [outstanding, outstanding, modifySession, List.length_modify]
    refine Finset.sum_lt_sum (fun i _ => ?_) ⟨id, Finset.mem_range.mpr hlength, hless⟩
    by_cases hi : i = id
    · exact hi ▸ hless.le
    · exact (hsame i hi).le

/-- An open session has a read outstanding. -/
theorem reading_of_isOpen (h : chatMachine.Run (started mark n) es s)
    (hopen : s.Has id (·.isOpen = true)) : s.Has id (0 < ·.reading) := by
  obtain ⟨session, hsession, hopen⟩ := hopen
  have hreading := reading_eq h hsession
  rw [if_pos hopen] at hreading
  exact ⟨session, hsession, Nat.lt_of_lt_of_eq Nat.one_pos hreading.symm⟩

end ChatServer

namespace ChatClient

variable {c d : ChatClient} {mark : UInt32} {es : List ClientEvent}

/-- What the client has still to do for the writes it has started: a completion, and what
`handle_write` does behind its critical section. -/
def unfinished (c : ChatClient) : ℕ := 2 * c.outstanding + if c.handler = none then 0 else 1

/-- **A completed write**, and what `handle_write` does behind its critical section, starts no
other one. -/
theorem started_of_completion (h : clientMachine.Run (.launched mark) es c) {e : ClientEvent}
    (hstep : clientMachine.Step c e d) (he : e = .writeDone ∨ e = .writeResumed) :
    d.started = c.started ∧ d.unfinished < c.unfinished := by
  obtain ⟨_, hrun⟩ := exists_send_run h
  have hinv := sendInv_of_run hrun
  obtain ⟨henabled, hstep⟩ := hstep
  rcases he with rfl | rfl
  · obtain ⟨-, queue, -, hok⟩ := sendStep_complete hinv.inv henabled
    have hidle : c.handler = none := henabled.1
    have hlt : c.completed < c.started.length := henabled.2
    simp only [clientMachine, step, hok] at hstep
    cases hstep
    refine ⟨rfl, ?_⟩
    simp only [unfinished, hidle, Sender.outstanding, if_true, reduceCtorEq, if_false]
    omega
  · cases hhandler : c.handler with
    | none => exact absurd hhandler henabled
    | some data =>
        obtain rfl := hinv.handler data hhandler
        simp only [clientMachine, step, sendStep, hhandler, resumeWrite] at hstep
        cases hstep
        refine ⟨rfl, ?_⟩
        simp only [unfinished, hhandler, if_true, reduceCtorEq, if_false]
        omega

end ChatClient

/-! ### What is underway -/

namespace Peer

variable {p : Peer} {s t : ChatServer}

/-- What is underway to the server: bytes, and writes that are not finished. -/
def upload (p : Peer) : ℕ := p.toServer.flatten.length + p.client.unfinished

/-- What the server writes is not underway to it. -/
@[simp] theorem upload_feed (freed : Option (ℕ → UInt8)) (s t : ChatServer) (p : Peer) :
    (p.feed freed s t).upload = p.upload := by
  rw [upload, upload, toServer_feed, client_feed]

/-- Nothing new is underway if the client starts no write. -/
theorem toServer_advance {freed : Option (ℕ → UInt8)} {c : ChatClient}
    (h : c.started = p.client.started) : (p.advance freed c).toServer = p.toServer := by
  simp [advance, h]

/-- The connection was accepted, and neither side has closed it. -/
def IsKept (p : Peer) : Prop := p.client.isOpen = true ∧ p.On fun _ => True

instance (p : Peer) : Decidable p.IsKept := inferInstanceAs (Decidable (_ ∧ _))

end Peer

namespace System

variable {ι : Type} {w w' : System ι} {e : SystemEvent ι} {action : SystemAction ι}

/-- What is delivered when nobody types, connects or leaves: the completions of writes, and
the bytes underway. -/
def Delivers (w : System ι) : SystemAction ι → Prop
  | .client _ e => e = .writeDone ∨ e = .writeResumed
  | .server e => ∃ id, e = .writeDone id
  | .serve k n _ => w.upBytes k n ≠ []
  | .arrive k n => w.downBytes k n ≠ []
  | .establish _ | .accept _ _ | .hangUp _ => False

/-- What is bound to be delivered: a write completes, and what is underway on a connection that
neither side has closed is read. -/
def IsDue (w : System ι) : SystemAction ι → Prop
  | .serve k _ _ | .arrive k _ => (w.peer k).IsKept
  | .client _ _ | .server _ => True
  | .establish _ | .accept _ _ | .hangUp _ => False

/-- A delivery is nothing that was excluded. -/
theorem Delivers.cond (h : w.Delivers e.action) (htidy : w.Tidy e) :
    w.Tidy e ∧ FromClients e ∧ w.ShortNames e.action := by
  obtain ⟨action, raced, freed⟩ := e
  refine ⟨htidy, ?_, ?_⟩
  · cases action with
    | server e =>
        obtain ⟨id, rfl⟩ := h
        rfl
    | _ => rfl
  · cases action with
    | client k e =>
        rcases h with rfl | rfl <;>
        · intro hsend
          cases hsend
    | _ => trivial

variable {mark : ℕ → UInt32} {m : ℕ} {marks : ι → UInt32}

/-- **While something is underway to the server**, it can be read. -/
theorem enabled_serve (h : w.Sound mark m marks) {k : ι} {κ : Connection}
    (hκ : (w.peer k).connection = some κ) (hlive : κ.isLive = true)
    (hup : (w.peer k).toServer ≠ []) (fresh : ℕ → UInt8) :
    w.Enabled (.serve k 1 fresh) ∧ w.Orderly (.serve k 1 fresh) ∧
      w.Delivers (.serve k 1 fresh) := by
  obtain ⟨r, _, _, _, -, -, -, htransfers, -⟩ := (h.linked.up k).serving κ hκ hlive
  obtain ⟨es, hrun⟩ := h.reached.server
  have hreading := ChatServer.reading_of_isOpen hrun (h.reached.exclusive.isOpen k κ hκ hlive)
  have hframes := (h.linked.up k).isFrame
  obtain ⟨hfits, hbytes⟩ := htransfers.fits_one (fun q hq => (hframes q hq).ne_nil) hup
  have hlength : (w.upBytes k 1).length ≤ 1 := List.length_take_le _ _
  exact ⟨⟨κ, hκ, hlive, hreading, hlength.trans (by decide)⟩, hfits, hbytes⟩

/-- **While something is underway to a client** that reads, it arrives. -/
theorem enabled_arrive (h : w.Sound mark m marks) {k : ι}
    (hidle : (w.peer k).client.handler = none) (hreading : 0 < (w.peer k).client.reading)
    (hdown : (w.peer k).toClient ≠ []) :
    w.Enabled (.arrive k 1) ∧ w.Orderly (.arrive k 1) ∧ w.Delivers (.arrive k 1) := by
  obtain ⟨_, _, -, htransfers, -⟩ := (h.linked.down k).arriving
  have hframes := (h.linked.down k).isFrame
  obtain ⟨hfits, hbytes⟩ := htransfers.fits_one (fun q hq => (hframes q hq).ne_nil) hdown
  have hlength : (w.downBytes k 1).length ≤ 1 := List.length_take_le _ _
  exact ⟨⟨hidle, hreading, hlength.trans (by decide)⟩, hfits, hbytes⟩

variable [Fintype ι]

/-- What is underway: to the server, and to the clients. -/
def underway (w : System ι) : ℕ × ℕ :=
  (∑ k, (w.peer k).upload, ∑ k, (w.peer k).toClient.flatten.length + w.server.outstanding)

/-- Less is underway, to the server or, with the same underway there, to the clients. -/
abbrev Less : ℕ × ℕ → ℕ × ℕ → Prop := Prod.Lex (· < ·) (· < ·)

/-- Less is underway to the server if it is for one client and not more for the others. -/
theorem less_of_upload (k : ι) (hk : (w'.peer k).upload < (w.peer k).upload)
    (hother : ∀ j, j ≠ k → (w'.peer j).upload = (w.peer j).upload) :
    Less w'.underway w.underway := by
  refine .left _ _ (Finset.sum_lt_sum (fun j _ => ?_) ⟨k, Finset.mem_univ k, hk⟩)
  by_cases hj : j = k
  · exact hj ▸ hk.le
  · exact (hother j hj).le

/-- Less is underway to the clients. -/
theorem less_of_download (hup : ∀ j, (w'.peer j).upload = (w.peer j).upload)
    (hdown : w'.underway.2 < w.underway.2) : Less w'.underway w.underway := by
  have hsame : w'.underway.1 = w.underway.1 := Finset.sum_congr rfl fun j _ => hup j
  rw [show w'.underway = (w.underway.1, w'.underway.2) from Prod.ext hsame rfl]
  exact .right _ hdown

variable [DecidableEq ι]

/-- **Every delivery** leaves less underway. -/
theorem underway_of_step (h : w.Reached mark m marks) (hstep : (systemMachine ι).Step w e w')
    (hcalm : e.IsCalm) (hdelivers : w.Delivers e.action) : Less w'.underway w.underway := by
  obtain ⟨action, rfl⟩ := hcalm.exists_eq
  obtain ⟨henabled, hstep⟩ := hstep
  cases action with
  | client k e =>
      obtain ⟨c, hclient, hstep⟩ := Except.exists_of_bind_eq_ok hstep
      cases hstep
      obtain ⟨es, hrun⟩ := h.client k
      replace hclient : clientMachine.Step (w.peer k).client e c :=
        ⟨henabled.1, (ChatClient.stepRaced_none _ _).symm.trans hclient⟩
      obtain ⟨hstarted, hless⟩ := ChatClient.started_of_completion hrun hclient hdelivers
      refine less_of_upload k ?_ fun j hj => ?_
      · rw [peer_setPeer, if_pos rfl, Peer.upload, Peer.toServer_advance hstarted]
        exact Nat.add_lt_add_left hless _
      · rw [peer_setPeer, if_neg hj]
  | server e =>
      obtain ⟨id, rfl⟩ := hdelivers
      obtain ⟨hserver, hpeer⟩ := serverStep_eq_ok hstep
      obtain ⟨es, hrun⟩ := h.server
      obtain ⟨hstarted, hless⟩ := ChatServer.startedOn_of_writeDone hrun ⟨henabled.1, hserver⟩
      have hsame : ∀ j, w'.peer j = w.peer j := fun j =>
        (hpeer j).trans (Peer.feed_eq_self _ hstarted)
      refine less_of_download (fun j => by rw [hsame]) ?_
      simp only [underway, hsame]
      exact Nat.add_lt_add_left hless _
  | serve k n fresh =>
      obtain ⟨κ, hκ, hlive, henabled⟩ := henabled
      simp only [systemMachine, step, SystemEvent.calm, hκ] at hstep
      obtain ⟨u, hu, hstep⟩ := Except.exists_of_bind_eq_ok hstep
      obtain ⟨-, hpeer⟩ := serverStep_eq_ok hu
      cases hstep
      refine less_of_upload k ?_ fun j hj => ?_
      · rw [peer_setPeer, if_pos rfl, Peer.upload, Peer.upload, hpeer, Peer.client_feed]
        exact Nat.add_lt_add_right (Pipe.length_flatten_drop_lt hdelivers) _
      · rw [peer_setPeer, if_neg hj, hpeer, Peer.upload_feed]
  | arrive k n =>
      obtain ⟨c, hclient, hstep⟩ := Except.exists_of_bind_eq_ok hstep
      cases hstep
      replace hclient : clientMachine.Step (w.peer k).client (.readDone (w.downBytes k n)) c :=
        ⟨henabled, (ChatClient.stepRaced_none _ _).symm.trans hclient⟩
      have hsender := ChatClient.toSender_of_step rfl hclient
      have hhandler := ChatClient.handler_of_step rfl (.inr ⟨_, rfl⟩) hclient
      refine less_of_download (fun j => ?_) (Nat.add_lt_add_right (Finset.sum_lt_sum (fun j _ => ?_)
        ⟨k, Finset.mem_univ k, ?_⟩) _)
      · rw [peer_setPeer]
        split
        · rename_i hj
          subst hj
          have hstarted : c.started = (w.peer j).client.started := congrArg (·.started) hsender
          have hunfinished : c.unfinished = (w.peer j).client.unfinished := by
            rw [ChatClient.unfinished, ChatClient.unfinished, hsender, hhandler]
          show ((w.peer j).advance none c).toServer.flatten.length + c.unfinished = _
          rw [Peer.toServer_advance hstarted, hunfinished]
          rfl
        · rfl
      · rw [peer_setPeer]
        split
        · rename_i hj
          subst hj
          exact (Pipe.length_flatten_drop_lt hdelivers).le
        · exact Nat.le_refl _
      · rw [peer_setPeer, if_pos rfl]
        exact Pipe.length_flatten_drop_lt hdelivers
  | establish k => exact hdelivers.elim
  | accept k id => exact hdelivers.elim
  | hangUp k => exact hdelivers.elim

end System

/-- The tidy runs in which only what is underway goes on. -/
def deliveries (ι : Type) [DecidableEq ι] : Machine (System ι) (SystemEvent ι) Fault :=
  (systemMachine ι).restrict fun w e => w.Tidy e ∧ w.Delivers e.action

/-- Everything that was written has arrived, on the connections that neither side has closed: the
server has processed all requests of the clients, and the clients that read have been told all
that was written for them. -/
structure System.Arrived {ι : Type} (w : System ι) : Prop where
  processed : ∀ k κ, (w.peer k).IsKept → (w.peer k).connection = some κ →
    (w.peer k).toServer = [] ∧
      w.server.requestsSince κ = (w.peer k).client.started.filterMap Write.request
  told : ∀ k, (w.peer k).IsKept → 0 < (w.peer k).client.reading → (w.peer k).toClient = [] ∧
    heard (w.peer k).client.calls = (w.peer k).handed.filterMap Write.call

/-- Where no delivery is due, everything has arrived. -/
theorem System.Sound.arrived {ι : Type} [DecidableEq ι] {mark : ℕ → UInt32} {m : ℕ}
    {marks : ι → UInt32} {w : System ι} (h : w.Sound mark m marks)
    (hrest : ∀ e, (deliveries ι).enabled w e → ¬ w.IsDue e.action) : w.Arrived := by
  have hcalm : ∀ action, w.Enabled action → w.Orderly action → w.Delivers action →
      ¬ w.IsDue action := fun action henabled horderly hdelivers =>
    hrest (.calm action) ⟨henabled, ⟨⟨rfl, rfl⟩, horderly⟩, hdelivers⟩
  constructor
  · intro k κ hkept hκ
    obtain ⟨κ', hκ', hlive, -⟩ := hkept.2
    cases hκ.symm.trans hκ'
    have hnil : (w.peer k).toServer = [] := by
      by_contra hup
      obtain ⟨henabled, horderly, hdelivers⟩ := enabled_serve h hκ hlive hup fun _ => 0
      exact hcalm _ henabled horderly hdelivers hkept
    exact ⟨hnil, ((h.linked.up k).processed hκ).all hnil⟩
  · intro k hkept hreading
    have hidle : (w.peer k).client.handler = none := by
      by_contra hhandler
      exact hcalm (.client k .writeResumed) ⟨hhandler, rfl, trivial⟩
        (fun hsend => by cases hsend) (.inr rfl) trivial
    have hnil : (w.peer k).toClient = [] := by
      by_contra hdown
      obtain ⟨henabled, horderly, hdelivers⟩ := enabled_arrive h hidle hreading hdown
      exact hcalm _ henabled horderly hdelivers hkept
    obtain ⟨g, i, -, htransfers, hheard⟩ := (h.linked.down k).arriving
    rw [hnil] at htransfers
    have hi : i = (w.peer k).handed.length := htransfers.eq_length.trans (List.length_map _)
    rw [hi, List.take_length] at hheard
    exact ⟨hnil, hheard⟩

/-- **The system drains.** In every tidy run in which only the clients are on the server and no
over-long name is posted, and from any state of it: writes completing and what is underway being
read, in any order, do not go on for ever; and where nothing that is due can go on any more, the
next of it goes wrong, or everything that was written has arrived. -/
theorem system_drains {ι : Type} [DecidableEq ι] [Fintype ι] {mark : ℕ → UInt32} {m : ℕ}
    {marks : ι → UInt32} {es : List (SystemEvent ι)} {w : System ι}
    (h : ((systemMachine ι).restrict fun w e => w.Tidy e ∧ System.FromClients e ∧
      w.ShortNames e.action).Run (.initial mark m marks) es w) :
    ¬ (deliveries ι).Endless w ∧ ∀ es' w', (deliveries ι).Run w es' w' →
      (∀ e u, w'.IsDue e.action → ¬ (deliveries ι).Step w' e u) →
        (∃ e f, (deliveries ι).enabled w' e ∧ w'.Faults e.action f) ∨ w'.Arrived := by
  have hsound := System.sound_of_run h
  have hstep : ∀ w e w', w.Sound mark m marks → (deliveries ι).Step w e w' →
      w'.Sound mark m marks := by
    intro w e w' hsound hstep
    obtain ⟨hstep, htidy, hdelivers⟩ := Machine.step_restrict_iff.mp hstep
    exact hsound.step hstep (hdelivers.cond htidy)
  constructor
  · refine Machine.not_endless (WellFounded.prod_lex wellFounded_lt wellFounded_lt) hstep
      System.underway (fun w e w' hsound hstep => ?_) hsound
    obtain ⟨hstep, htidy, hdelivers⟩ := Machine.step_restrict_iff.mp hstep
    exact System.underway_of_step hsound.reached hstep htidy.1 hdelivers
  · intro es' w' hrun hrest
    have hsound' := hrun.invariant hstep hsound
    by_cases hfault : ∃ e f, (deliveries ι).enabled w' e ∧ w'.Faults e.action f
    · exact .inl hfault
    · refine .inr (hsound'.arrived fun e henabled hdue => ?_)
      obtain ⟨hsystem, htidy, hdelivers⟩ := henabled
      cases hresult : (systemMachine ι).step w' e with
      | ok u => exact hrest e u hdue ⟨⟨hsystem, htidy, hdelivers⟩, hresult⟩
      | error f =>
          exact hfault ⟨e, f, ⟨hsystem, htidy, hdelivers⟩,
            (hsound'.step_eq_error_iff hsystem (hdelivers.cond htidy)).mp hresult⟩

/-- While `Bob` says `hi`, and nobody says anything else. -/
theorem system_drains_bobSaysHi : ∃ w,
    ((systemMachine Bool).restrict fun w e => w.Tidy e ∧ System.FromClients e ∧
      w.ShortNames e.action).Run (.initial (fun _ => 0) 2 fun _ => 0) (bobSaysHi.take 19) w ∧
    ¬ w.Arrived ∧ ∃ es' w', (deliveries Bool).Run w es' w' ∧
      ((∃ e f, (deliveries Bool).enabled w' e ∧ w'.Faults e.action f) ∨ w'.Arrived) := by
  obtain ⟨w, hrun, hw⟩ := Machine.exists_run_of_exec
    ((systemMachine Bool).restrict fun w e => w.Tidy e ∧ System.FromClients e ∧
      w.ShortNames e.action) (.initial (fun _ => 0) 2 fun _ => 0) (bobSaysHi.take 19)
    (fun w => decide ((w.peer true).IsKept ∧ (w.peer true).connection = some ⟨0, 0, 0, none⟩ ∧
      (w.peer true).toServer ≠ [])) (b := true) (by decide +kernel)
  obtain ⟨hkept, hconnected, hup⟩ := of_decide_eq_true hw
  obtain ⟨hends, hend⟩ := system_drains hrun
  obtain ⟨es', w', hrun', hrest⟩ := Machine.exists_end hends
  exact ⟨w, hrun, fun h => hup (h.processed true _ hkept hconnected).1, es', w', hrun',
    hend es' w' hrun' fun e u _ => hrest e u⟩

end AsioChat
