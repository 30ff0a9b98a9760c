import AsioChat.Delivery
import AsioChat.Resume

/-!
# Silence

The client writes a packet at once, or never. A packet that is posted while another one is
being written leaves a null entry in the queue, which `handle_write` takes for the end of it,
and which no handler ever takes off the queue again. So from the first packet that is not
written at once nothing is written any more: the server hears nothing more of the client, which
goes on to take lines from the console and to print what the others say.

## Main results

* `client_silenced_iff`: a client writes nothing any more exactly if it has posted a packet
  that it has not written.
* `silenced_for_good`: what the server processes of such a client is what was written until
  then, however the system runs on.
-/

namespace AsioChat

namespace ChatClient

variable {c d : ClientSender} {es es' : List SendEvent}

/-- **A step of a client with a packet that is not written** writes nothing, and leaves a packet
that is not written. -/
theorem silenced_of_step (hinv : SendInv es c) (hstep : ∃ e, clientSendMachine.Step c e d)
    (hsilenced : c.started ≠ c.posted) : d.started = c.started ∧ d.started ≠ d.posted := by
  have hlt : c.started.length < c.posted.length :=
    lt_of_le_of_ne hinv.inv.started.length_le fun heq =>
      hsilenced (hinv.inv.started.eq_of_length heq)
  suffices hmore : d.started = c.started ∧ c.posted.length ≤ d.posted.length by
    refine ⟨hmore.1, fun heq => ?_⟩
    rw [← heq, hmore.1] at hmore
    omega
  obtain ⟨e, henabled, hstep⟩ := hstep
  cases e with
  | post packet size =>
      -- what is posted and not completed is in the queue
      have hposted := hinv.inv.posted
      have hne : c.sendDataQueue ≠ [] := by
        intro hnil
        have hflow := hinv.inv.flow.resolve_right fun hstalled => hstalled.2 hnil
        rw [Sender.Flowing, hnil, List.length_nil] at hflow
        rw [hnil, List.length_nil] at hposted
        omega
      cases hstep
      rw [postSend_eq, Sender.postSend_of_ne_nil hne]
      exact ⟨rfl, by simp⟩
  | complete =>
      obtain ⟨-, queue, -, hok⟩ := sendStep_complete hinv.inv henabled
      cases hok.symm.trans hstep
      exact ⟨rfl, Nat.le_refl _⟩
  | resume =>
      obtain ⟨data, hdata⟩ := Option.ne_none_iff_exists'.mp henabled
      have hnull : c.handler = some none := hinv.handler data hdata ▸ hdata
      simp only [clientSendMachine, sendStep, hnull, resumeWrite] at hstep
      cases hstep
      exact ⟨rfl, Nat.le_refl _⟩

/-- A client with a packet that is not written writes nothing any more. -/
theorem silenced_of_run (h : clientSendMachine.Run initialSender es c)
    (hrun : clientSendMachine.Run c es' d) (hsilenced : c.started ≠ c.posted) :
    d.started = c.started ∧ d.started ≠ d.posted := by
  induction hrun generalizing es with
  | nil c => exact ⟨rfl, hsilenced⟩
  | cons hstep _ ih =>
      obtain ⟨hsame, hstill⟩ := silenced_of_step (sendInv_of_run h) ⟨_, hstep⟩ hsilenced
      obtain ⟨hsame', hstill'⟩ := ih (h.append (.cons hstep (.nil _))) hstill
      exact ⟨hsame'.trans hsame, hstill'⟩

/-- A client that has written all it has posted comes to an empty queue without writing. -/
theorem exists_run_queue_nil (hinv : SendInv es c) (hall : c.started = c.posted) :
    ∃ es' d, clientSendMachine.Run c es' d ∧ d.started = c.started ∧ d.sendDataQueue = [] := by
  have hlength := congrArg List.length hall
  have hposted := hinv.inv.posted
  by_cases hnil : c.sendDataQueue = []
  · exact ⟨[], c, .nil c, rfl, hnil⟩
  · have hpos := List.length_pos_of_ne_nil hnil
    -- the one write in flight completes, once a `handle_write` that is running has returned
    obtain ⟨es', hreturned⟩ := exists_run_of_handler hinv.handler
    have hlt : c.completed < c.started.length := by omega
    have henabled : clientSendMachine.enabled ⟨c.toSender, none⟩ .complete := ⟨rfl, hlt⟩
    obtain ⟨hflow, queue, hqueue, hok⟩ :=
      sendStep_complete (c := ⟨c.toSender, none⟩) hinv.inv henabled
    have hcomplete : clientSendMachine.Step ⟨c.toSender, none⟩ .complete
        ⟨{ c.toSender with sendDataQueue := queue, completed := c.completed + 1 }, some none⟩ :=
      ⟨henabled, hok⟩
    have hlast : queue = [] := by
      have hflow : c.started.length = c.completed + min 1 c.sendDataQueue.length := hflow
      have hqueue : c.sendDataQueue = none :: queue := hqueue
      rw [hqueue, List.length_cons] at hflow hposted
      exact List.length_eq_zero_iff.mp (by omega)
    exact ⟨_, _, hreturned.of_restrict.append (.cons hcomplete (.nil _)), rfl, hlast⟩

end ChatClient

/-- **The client writes a packet at once, or never**: in every state of every run, however it goes
on, nothing is written any more if and only if the client has posted a packet that it has not
written. -/
theorem client_silenced_iff {es : List SendEvent} {c : ClientSender}
    (h : clientSendMachine.Run ChatClient.initialSender es c) :
    (∀ es' d, clientSendMachine.Run c es' d → d.started = c.started) ↔ c.started ≠ c.posted := by
  constructor
  · intro hsilent hall
    obtain ⟨es', d, hrun, hsame, hnil⟩ :=
      ChatClient.exists_run_queue_nil (ChatClient.sendInv_of_run h) hall
    -- the next packet that is posted is written
    have hpost : clientSendMachine.Step d (.post chatRequest 16)
        { d with toSender := ChatClient.postSend false 16 (some chatRequest) d.toSender } :=
      ⟨trivial, rfl⟩
    have hstarted := hsilent _ _ (hrun.append (.cons hpost (.nil _)))
    rw [ChatClient.postSend_eq, Sender.postSend_of_nil hnil, ← hsame] at hstarted
    simp at hstarted
  · intro hsilenced es' d hrun
    exact (ChatClient.silenced_of_run h hrun hsilenced).1

/-- Two requests are posted at once: the second is never written, nor are any after it. -/
theorem client_silenced_twoAtOnce : ∃ c,
    clientSendMachine.Run ChatClient.initialSender
      [.post chatRequest 16, .post chatRequest 16] c ∧
    ∀ es' d, clientSendMachine.Run c es' d → d.started = c.started := by
  obtain ⟨c, hrun, hsilenced⟩ := Machine.exists_run_of_exec clientSendMachine
    ChatClient.initialSender [.post chatRequest 16, .post chatRequest 16]
    (fun c => decide (c.started ≠ c.posted)) (b := true) (by decide +kernel)
  exact ⟨c, hrun, (client_silenced_iff hrun).mpr (of_decide_eq_true hsilenced)⟩

/-! ### In the system -/

namespace System

variable {ι : Type} [DecidableEq ι] {w w' : System ι} {es : List (SystemEvent ι)}
  {mark : ℕ → UInt32} {m : ℕ} {marks : ι → UInt32}

/-- Over any interval of a tidy run of the system a client runs as it does alone. -/
theorem exists_client_run (h : w.Reached mark m marks)
    (hrun : ((systemMachine ι).restrict System.Tidy).Run w es w') (k : ι) :
    ∃ es', clientMachine.Run (w.peer k).client es' (w'.peer k).client := by
  induction hrun with
  | nil w => exact ⟨[], .nil _⟩
  | cons hstep _ ih =>
      obtain ⟨hstep, htidy⟩ := Machine.step_restrict_iff.mp hstep
      obtain ⟨es', hclient⟩ := ih (h.step hstep htidy)
      rcases (peerStep_of_step h hstep htidy k).client_step with heq | ⟨e', hstep'⟩
      · exact ⟨es', heq ▸ hclient⟩
      · exact ⟨e' :: es', .cons hstep' hclient⟩

end System

/-- **A client that is silenced is silenced for good.** Take any tidy run of the system, with any
number of clients, and whoever else is on the server. From the moment at which a client has posted
a packet that it has not written, however the run goes on, the client writes nothing, and the
server processes nothing on its connection, until it closes it, but what was written before. -/
theorem silenced_for_good {ι : Type} [DecidableEq ι] {mark : ℕ → UInt32} {m : ℕ}
    {marks : ι → UInt32} {es es' : List (SystemEvent ι)} {w w' : System ι}
    (h : ((systemMachine ι).restrict System.Tidy).Run (.initial mark m marks) es w)
    (hrun : ((systemMachine ι).restrict System.Tidy).Run w es' w') {k : ι}
    (hsilenced : (w.peer k).client.started ≠ (w.peer k).client.posted) :
    (w'.peer k).client.started = (w.peer k).client.started ∧
      ∀ κ, (w'.peer k).connection = some κ →
        w'.server.requestsSince κ <+: (w.peer k).client.started.filterMap Write.request := by
  obtain ⟨hreached, -⟩ := System.linked_of_run (fun _ _ htidy => htidy) h
  obtain ⟨-, hlinked'⟩ := System.linked_of_run (fun _ _ htidy => htidy) (h.append hrun)
  obtain ⟨es₀, hclient⟩ := hreached.client k
  obtain ⟨es₁, hsend⟩ := ChatClient.exists_send_run hclient
  obtain ⟨es₂, hclient'⟩ := System.exists_client_run hreached hrun k
  obtain ⟨es₃, hsend'⟩ := ChatClient.exists_send_run_of_run hclient'
  have hsame := (ChatClient.silenced_of_run hsend hsend' hsilenced).1
  refine ⟨hsame, fun κ hκ => ?_⟩
  rw [← hsame]
  exact ((hlinked'.up k).processed hκ).begins

/-- A client that is typed into while its login is being written. -/
def typedAhead : List (SystemEvent Bool) :=
  [.establish true, .establish false,
    .client true (.connectDone false), .client false (.connectDone false),
    .accept true 0, .accept false 1,
    .client true (.getline (some [66, 111, 98])), .client true .branch,
    .client true (.send fun _ => 0),
    .client true (.getline (some [104, 105])), .client true .branch,
    .client true (.send fun _ => 0)].map .calm

/-- The login is served and replied to, and the client says something. -/
def saidInVain : List (SystemEvent Bool) :=
  [.serve true 12 fun _ => 0, .serve true 5 fun _ => 0, .client true .writeDone,
    .client true .writeResumed, .arrive true 10, .arrive true 4,
    .client true (.getline (some [104, 105])), .client true .branch,
    .client true (.send fun _ => 0)].map .calm

/-- The server processes the login, the client is told so, and what it says then is lost. -/
theorem silenced_for_good_typedAhead : ∃ w w',
    ((systemMachine Bool).restrict System.Tidy).Run (.initial (fun _ => 0) 2 fun _ => 0)
      typedAhead w ∧
    ((systemMachine Bool).restrict System.Tidy).Run w saidInVain w' ∧
    (w'.peer true).client.posted.length = 3 ∧
    (w'.peer true).client.started = (w.peer true).client.started ∧
    ∀ κ, (w'.peer true).connection = some κ →
      w'.server.requestsSince κ <+: (w.peer true).client.started.filterMap Write.request := by
  obtain ⟨w, hrun, hexec⟩ := Machine.exists_run_of_exec ((systemMachine Bool).restrict System.Tidy)
    (.initial (fun _ => 0) 2 fun _ => 0) typedAhead
    (fun w => (decide ((w.peer true).client.started ≠ (w.peer true).client.posted),
      (((systemMachine Bool).restrict System.Tidy).exec w saidInVain).map
        fun w' => (w'.peer true).client.posted.length))
    (b := (true, some 3)) (by decide +kernel)
  obtain ⟨hsilenced, hexec'⟩ := Prod.mk.inj hexec
  obtain ⟨w', hrun', hposted⟩ := Machine.exists_run_of_exec
    ((systemMachine Bool).restrict System.Tidy) w _
    (fun w' => (w'.peer true).client.posted.length) hexec'
  exact ⟨w, w', hrun, hrun', hposted, silenced_for_good hrun hrun' (of_decide_eq_true hsilenced)⟩

end AsioChat
