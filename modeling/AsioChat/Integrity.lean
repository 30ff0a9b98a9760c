import AsioChat.Delivery

/-!
# Nobody Else

What holds if only the clients are on the server: what is processed on any session was posted by a
client, and so what a client shows was typed at one.

## Main results

* `System.AllPosted.step`: every step keeps that every request recorded was posted.
* `noticed_typed`: what a client shows was typed at one.
-/

namespace AsioChat

namespace System

variable {ι : Type} {w w' : System ι} {e : SystemEvent ι} {j : ι}

/-- The condition on a step that the server reads from none but the clients. -/
def FromClients (e : SystemEvent ι) : Prop :=
  (e.action matches .server (.readDone _ _ _)) = false

instance (e : SystemEvent ι) : Decidable (FromClients e) := inferInstanceAs (Decidable (_ = _))

/-- Every request the server has recorded was posted by a client. -/
def AllPosted (w : System ι) : Prop :=
  ∀ i, ∀ request ∈ w.server.calls.filterMap (Call.request i), ∃ k,
    request ∈ (w.peer k).client.requests

/-- The requests before the accept were recorded before. -/
theorem Linked.requestsBefore_le (h : w.Linked) {k : ι} {κ : Connection}
    (hκ : (w.peer k).connection = some κ) (hlive : κ.isLive = true) :
    κ.requestsBefore ≤ (w.server.calls.filterMap (Call.request κ.id)).length := by
  obtain ⟨r, _, old, new, -, hreceives, -, -, hdispatched, hold, -⟩ := (h.up k).serving κ hκ hlive
  rw [hreceives.requests, hdispatched, List.filterMap_append, List.length_append, hold]
  exact Nat.le_add_right _ _

variable [DecidableEq ι] {mark : ℕ → UInt32} {m : ℕ} {marks : ι → UInt32}

/-- **Without anybody else, every request that is recorded was posted by a client.** -/
theorem AllPosted.step (h : w.AllPosted) (hreached : w.Reached mark m marks) (hlinked : w.Linked)
    (hlinked' : w'.Linked) (hstep : (systemMachine ι).Step w e w') (htidy : w.Tidy e)
    (hfrom : FromClients e) : w'.AllPosted := by
  have hpeers := peerStep_of_step hreached hstep htidy
  have hgrows : ∀ {request : Request}, (∃ k, request ∈ (w.peer k).client.requests) →
      ∃ k, request ∈ (w'.peer k).client.requests := by
    rintro request ⟨k, hmem⟩
    refine ⟨k, ?_⟩
    rcases (hpeers k).client_step with heq | ⟨e', hclient⟩
    · rw [heq]
      exact hmem
    · exact (ChatClient.requests_prefix_of_step hclient).subset hmem
  rcases server_of_step hstep with
    hserver | ⟨e', hserver, hread | haction | ⟨k, κ, bytes, fresh, hread⟩⟩
  · intro i request hmem
    exact hgrows (h i request (hserver ▸ hmem))
  · intro i request hmem
    rw [ChatServer.requests_of_step hserver (hread i)] at hmem
    exact hgrows (h i request hmem)
  · intro i request hmem
    rw [ChatServer.requests_of_step hserver] at hmem
    · exact hgrows (h i request hmem)
    · rintro bytes fresh rfl
      rw [FromClients, haction] at hfrom
      cases hfrom
  · obtain ⟨hκ, hlive, hκ', rfl⟩ := hread
    intro i request hmem
    by_cases hid : κ.id = i
    · -- the requests before the accept were there before, those since are the client's
      subst hid
      obtain ⟨es, hrun⟩ := hreached.server
      obtain ⟨ρ, -, hshows⟩ := ChatServer.exists_shows hrun
      obtain ⟨new, -, hcalls, -, -⟩ :=
        hshows.step (ChatServer.isOpen_of_reading hrun) hserver
      have hbefore := hlinked.requestsBefore_le hκ hlive
      rw [← List.take_append_drop κ.requestsBefore
        (w'.server.calls.filterMap (Call.request κ.id)), List.mem_append] at hmem
      rcases hmem with hmem | hmem
      · rw [hcalls, List.filterMap_append, List.take_append_of_le_length hbefore] at hmem
        exact hgrows (h κ.id request (List.mem_of_mem_take hmem))
      · rw [← ChatServer.requestsSince_of_live hlive] at hmem
        have hbegins := ((hlinked'.up k).processed hκ').begins
        exact ⟨k, ((hlinked'.up k).started.filterMap _).subset (hbegins.subset hmem)⟩
    · have hother : ∀ bytes' fresh', ServerEvent.readDone κ.id bytes fresh ≠
          .readDone i bytes' fresh' := fun _ _ heq => hid (by cases heq; rfl)
      rw [ChatServer.requests_of_step hserver hother] at hmem
      exact hgrows (h i request hmem)

omit [DecidableEq ι] in
/-- Nothing is recorded before anything happens. -/
theorem allPosted_initial (mark : ℕ → UInt32) (m : ℕ) (marks : ι → UInt32) :
    (initial mark m marks).AllPosted := by
  intro i request hmem
  rw [initial, ChatServer.started, ChatServer.start, ChatServer.calls_postAccept] at hmem
  cases hmem

/-- What holds in every tidy run without anybody else. -/
theorem allPosted_of_run {C : System ι → SystemEvent ι → Prop}
    (hC : ∀ w e, C w e → w.Tidy e ∧ FromClients e) {es : List (SystemEvent ι)}
    (h : ((systemMachine ι).restrict C).Run (initial mark m marks) es w) :
    w.Reached mark m marks ∧ w.Linked ∧ w.AllPosted := by
  refine h.invariant (I := fun w => w.Reached mark m marks ∧ w.Linked ∧ w.AllPosted) ?_
    ⟨reached_initial mark m marks, linked_initial mark m marks, allPosted_initial mark m marks⟩
  rintro w e w' ⟨hreached, hlinked, hposted⟩ hstep
  obtain ⟨hstep, hcond⟩ := Machine.step_restrict_iff.mp hstep
  obtain ⟨htidy, hfrom⟩ := hC w e hcond
  have hlinked' := hlinked.step hreached hstep htidy
  exact ⟨hreached.step hstep htidy, hlinked',
    hposted.step hreached hlinked hlinked' hstep htidy hfrom⟩

end System

/-- The name a session carries is empty, or that of a login recorded for it. -/
theorem sessionName_eq_nil_or_mem (i : ℕ) (calls : List Call) :
    sessionName i calls = [] ∨
      ∃ request, .login i request ∈ calls ∧ sessionName i calls = request.name := by
  induction calls using List.reverseRecOn with
  | nil => exact .inl rfl
  | append_singleton calls call ih =>
      rw [sessionName_snoc]
      have hold : sessionName i calls = [] ∨ ∃ request,
          .login i request ∈ calls ++ [call] ∧ sessionName i calls = request.name :=
        ih.imp_right fun ⟨request, hmem, hname⟩ =>
          ⟨request, List.mem_append_left _ hmem, hname⟩
      cases call with
      | accepted id => exact hold
      | closed id => exact hold
      | chat id request packet => exact hold
      | login id request =>
          simp only [Call.sessionName]
          split
          · rename_i hid
            exact .inr ⟨request, by simp [hid], rfl⟩
          · exact hold

/-- A line that was posted was typed. -/
theorem typed_of_mem_requests {mark : UInt32} {es : List ClientEvent} {c : ChatClient}
    (h : clientMachine.Run (.launched mark) es c) :
    (∀ request, .chat request ∈ c.requests → request.message ∈ typedLines c.calls) ∧
      (∀ request, .login request ∈ c.requests → request.name ∈ typedLines c.calls) := by
  obtain ⟨names, chats, hinv⟩ := ChatClient.linesInv_of_run h
  rw [hinv.requests, hinv.typed, ChatClient.requestsFor]
  constructor
  · intro request hmem
    rcases List.mem_append.mp hmem with hmem | hmem
    · obtain ⟨line, -, heq⟩ := List.mem_map.mp hmem
      cases heq
    · obtain ⟨line, hline, heq⟩ := List.mem_map.mp hmem
      cases heq
      exact List.mem_append_left _ (List.mem_append_right _ hline)
  · intro request hmem
    rcases List.mem_append.mp hmem with hmem | hmem
    · obtain ⟨line, hline, heq⟩ := List.mem_map.mp hmem
      cases heq
      exact List.mem_append_left _ (List.mem_append_left _ hline)
    · obtain ⟨line, -, heq⟩ := List.mem_map.mp hmem
      cases heq

/-- **What a client shows was typed at a client**, where nobody else is on the server: in every
tidy run, every notice that a client has processed was parsed, its message is a line accepted by
one of the clients, and its name is empty or a line accepted by one of them, up to its first NUL
byte. -/
theorem noticed_typed {ι : Type} [DecidableEq ι] {mark : ℕ → UInt32} {m : ℕ} {marks : ι → UInt32}
    {es : List (SystemEvent ι)} {w : System ι}
    (h : ((systemMachine ι).restrict fun w e => w.Tidy e ∧ System.FromClients e).Run
      (.initial mark m marks) es w) {k : ι} {notify : ChatNotify} {parsed : Bool}
    (hmem : .noticed notify parsed ∈ (w.peer k).client.calls) :
    parsed = true ∧ (∃ j, notify.message ∈ typedLines (w.peer j).client.calls) ∧
      (notify.name = [] ∨
        ∃ j, ∃ name ∈ typedLines (w.peer j).client.calls, notify.name = cString name) := by
  obtain ⟨hreached, hlinked, hposted⟩ := System.allPosted_of_run (fun _ _ hcond => hcond) h
  obtain ⟨es', hrun⟩ := hreached.server
  obtain ⟨ρ, hroom, hshows⟩ := ChatServer.exists_shows hrun
  have hheard : .noticed notify parsed ∈ heard (w.peer k).client.calls :=
    List.mem_filter.mpr ⟨hmem, rfl⟩
  cases hκ : (w.peer k).connection with
  | none =>
      obtain ⟨_, _, -, -, hcalls⟩ := (hlinked.down k).arriving
      rw [(hlinked.down k).waiting hκ, List.take_nil] at hcalls
      rw [hcalls] at hheard
      cases hheard
  | some κ =>
      obtain ⟨news, hnews, hbegins⟩ := (hlinked.down k).exists_news hshows hκ
      obtain ⟨message, hnewsMem, htold⟩ :=
        List.mem_map.mp (((hlinked.down k).told hnews).1.subset hheard)
      have hinbox := hbegins.subset hnewsMem
      cases message with
      | welcome => cases htold
      | said name text =>
          cases htold
          obtain ⟨before, i, after, hevents, hname⟩ :=
            Room.mem_inbox_of_run hroom (List.mem_of_mem_drop hinbox)
          obtain ⟨calls, rest, hcalls, rfl, hrest⟩ := List.map_eq_append_iff.mp hevents
          obtain ⟨call, calls', rfl, hcall, rfl⟩ := List.map_eq_cons_iff.mp hrest
          rw [ChatServer.names_roomEvent] at hname
          have htyped := fun j => typed_of_mem_requests (hreached.client j).choose_spec
          refine ⟨rfl, ?_, ?_⟩
          · cases call with
            | chat id request packet =>
                cases hcall
                obtain ⟨j, hj⟩ := hposted i (.chat request) (List.mem_filterMap.mpr
                  ⟨.chat i request packet, by simp [hcalls], if_pos rfl⟩)
                exact ⟨j, (htyped j).1 request hj⟩
            | accepted id => cases hcall
            | closed id => cases hcall
            | login id request => cases hcall
          · rcases sessionName_eq_nil_or_mem i calls with hnil | ⟨request, hlogin, hlast⟩
            · rw [hnil] at hname
              exact .inl hname
            · rw [hlast] at hname
              obtain ⟨j, hj⟩ := hposted i (.login request) (List.mem_filterMap.mpr
                ⟨.login i request, by simp [hcalls, hlogin], if_pos rfl⟩)
              exact .inr ⟨j, request.name, (htyped j).2 request hj, hname⟩

/-- The other client shows `hi`, by `Bob`, and both were typed. -/
theorem noticed_typed_bobSaysHi : ∃ w,
    ((systemMachine Bool).restrict fun w e => w.Tidy e ∧ System.FromClients e).Run
      (.initial (fun _ => 0) 2 fun _ => 0) bobSaysHi w ∧
    .noticed ⟨some [66, 111, 98], some [104, 105]⟩ true ∈ (w.peer false).client.calls ∧
    (∃ j, [104, 105] ∈ typedLines (w.peer j).client.calls) ∧
    ∃ j, ∃ name ∈ typedLines (w.peer j).client.calls, [66, 111, 98] = cString name := by
  obtain ⟨w, hrun, hnoticed⟩ := Machine.exists_run_of_exec
    ((systemMachine Bool).restrict fun w e => w.Tidy e ∧ System.FromClients e)
    (.initial (fun _ => 0) 2 fun _ => 0) bobSaysHi
    (fun w => decide (.noticed ⟨some [66, 111, 98], some [104, 105]⟩ true ∈
      (w.peer false).client.calls)) (b := true) (by decide +kernel)
  have hmem := of_decide_eq_true hnoticed
  obtain ⟨-, hmessage, hname⟩ := noticed_typed hrun hmem
  exact ⟨w, hrun, hmem, hmessage, hname.resolve_left (List.cons_ne_nil _ _)⟩

end AsioChat
