import AsioChat.Downlink

/-!
# Delivery

What arrives in the system, from the lines the clients type to the notices they show. As long as
the steps are tidy (`System.Tidy`: nothing disturbs them, no read holds bytes of two packets, and no
request is posted without a connection and no over-long chat), the server processes the requests
of every client in the order in which they were posted, each once and unaltered, and every client
is told what its session is told in the room, in order, once and unaltered. Packets left in a
queue (`Send`) are missing at the end, never in between.

## Main results

* `System.Linked.step`: every step keeps both ways of every connection.
* `system_delivers`: what the server has processed of every client, and what every client was
  told, in every tidy run.
-/

namespace AsioChat

namespace System

variable {ι : Type} {w w' : System ι} {e : SystemEvent ι}

/-- Both ways of every connection. -/
structure Linked (w : System ι) : Prop where
  up : ∀ k, (w.peer k).Uplink w.server
  down : ∀ k, (w.peer k).Downlink w.server

variable [DecidableEq ι] {mark : ℕ → UInt32} {m : ℕ} {marks : ι → UInt32}

/-- **Every tidy step keeps both ways of every connection.** -/
theorem Linked.step (h : w.Linked) (hreached : w.Reached mark m marks)
    (hstep : (systemMachine ι).Step w e w') (htidy : w.Tidy e) : w'.Linked := by
  have hpeer := peerStep_of_step hreached hstep htidy
  have hreached' := hreached.step hstep htidy
  exact ⟨fun k => uplink_of_step hreached hreached' (h.up k) (hpeer k) htidy.2,
    fun k => downlink_of_step hreached (h.down k) (hpeer k) htidy.2⟩

omit [DecidableEq ι] in
/-- Nothing is underway before anything happens. -/
theorem linked_initial (mark : ℕ → UInt32) (m : ℕ) (marks : ι → UInt32) :
    (initial mark m marks).Linked := by
  refine ⟨fun k => ⟨List.forall_mem_nil _, List.prefix_rfl, fun _ => rfl, fun κ hκ => ?_,
    fun κ hκ => ?_⟩, fun k => ⟨fun _ => rfl, fun κ hκ => ?_, fun κ hκ => ?_,
    List.forall_mem_nil _, ?_⟩⟩
  · cases hκ
  · cases hκ
  · cases hκ
  · cases hκ
  · exact ⟨.empty, 0, PacketBuffer.holds_constructed_init (marks k), Pipe.Transfers.begin [] false,
      rfl⟩

/-- Both ways of every connection, in every tidy run. -/
theorem linked_of_run {C : System ι → SystemEvent ι → Prop} (hC : ∀ w e, C w e → w.Tidy e)
    {es : List (SystemEvent ι)}
    (h : ((systemMachine ι).restrict C).Run (initial mark m marks) es w) :
    w.Reached mark m marks ∧ w.Linked := by
  refine h.invariant (I := fun w => w.Reached mark m marks ∧ w.Linked) ?_
    ⟨reached_initial mark m marks, linked_initial mark m marks⟩
  rintro w e w' ⟨hreached, hlinked⟩ hstep
  obtain ⟨hstep, htidy⟩ := Machine.step_restrict_iff.mp hstep
  exact ⟨hreached.step hstep (hC w e htidy), hlinked.step hreached hstep (hC w e htidy)⟩

end System

/-- What the promise of the system to a client is, for a room that the server shows: until it has
closed the connection, the server has processed the first of its requests, in order, and all it has
written once nothing is underway; and the client was told the first messages that were told its
seat since the accept, in order, one for every packet written for it once nothing is underway. -/
structure Peer.Delivered (p : Peer) (κ : Connection) (s : ChatServer)
    (ρ : Room.State ℕ (List UInt8)) : Prop where
  processed : s.requestsSince κ <+: p.client.requests
  allProcessed : p.toServer = [] → s.requestsSince κ = p.client.started.filterMap Write.request
  told : heard p.client.calls <+: ((ρ.inbox κ.id).drop κ.postedBefore).map ClientCall.told
  allTold : p.toClient = [] → (heard p.client.calls).length = p.handed.length

/-- What conveys messages is recorded as the messages. -/
theorem filterMap_call_of_conveys {writes : List Write} {news : List (Room.Message (List UInt8))}
    (h : List.Forall₂ Write.Conveys writes news) :
    writes.filterMap Write.call = news.map ClientCall.told := by
  induction h with
  | nil => rfl
  | cons hconveys _ ih =>
      rw [List.filterMap_cons, hconveys.isFor.2, ih]
      rfl

/-- What is handed to a client conveys the first messages that its seat was told since the
accept. -/
theorem Peer.Downlink.exists_news {p : Peer} {s : ChatServer} {ρ : Room.State ℕ (List UInt8)}
    (h : p.Downlink s) (hshows : s.Shows ρ) {κ : Connection} (hκ : p.connection = some κ) :
    ∃ news, List.Forall₂ Write.Conveys p.handed news ∧
      news <+: (ρ.inbox κ.id).drop κ.postedBefore := by
  obtain ⟨rest, hrest⟩ := h.posted κ hκ
  have hconveys : ∃ news, List.Forall₂ Write.Conveys (p.handed ++ rest) news ∧
      news <+: (ρ.inbox κ.id).drop κ.postedBefore := by
    cases hsession : s.sessionList[κ.id]? with
    | none =>
        rw [ChatServer.postedTo, hsession] at hrest
        rw [hrest, Option.map_none, Option.getD_none, List.drop_nil]
        exact ⟨[], .nil, List.nil_prefix⟩
    | some session =>
        rw [ChatServer.postedTo, hsession] at hrest
        rw [hrest]
        exact ⟨_, List.forall₂_drop _ (hshows κ.id session hsession).posted, List.prefix_rfl⟩
  obtain ⟨news, hnews, hbegins⟩ := hconveys
  have htake := List.forall₂_take p.handed.length hnews
  rw [List.take_left] at htake
  exact ⟨_, htake, (List.take_prefix _ news).trans hbegins⟩

/-- The client was told what was handed to it, as far as it has arrived. -/
theorem Peer.Downlink.told {p : Peer} {s : ChatServer} (h : p.Downlink s)
    {news : List (Room.Message (List UInt8))} (hnews : List.Forall₂ Write.Conveys p.handed news) :
    heard p.client.calls <+: news.map ClientCall.told ∧
      (p.toClient = [] → heard p.client.calls = news.map ClientCall.told) := by
  obtain ⟨g, k, -, htransfers, hheard⟩ := h.arriving
  rw [← filterMap_call_of_conveys hnews, hheard]
  refine ⟨(List.take_prefix k p.handed).filterMap _, fun hnil => ?_⟩
  rw [hnil] at htransfers
  have hk : k = p.handed.length := htransfers.eq_length.trans (List.length_map _)
  rw [hk, List.take_length]

/-- **The system delivers.** In every tidy run, with any number of clients, and whoever else is on
the server: there is a run of the room, by the calls of the server, such that every client whose
connection was accepted is delivered to. -/
theorem system_delivers {ι : Type} [DecidableEq ι] {mark : ℕ → UInt32} {m : ℕ}
    {marks : ι → UInt32} {es : List (SystemEvent ι)} {w : System ι}
    (h : ((systemMachine ι).restrict System.Tidy).Run (.initial mark m marks) es w) :
    ∃ ρ, chatRoom.Run (.initial []) (w.server.calls.map Call.roomEvent) ρ ∧
      ∀ k κ, (w.peer k).connection = some κ → (w.peer k).Delivered κ w.server ρ := by
  obtain ⟨hreached, hlinked⟩ := System.linked_of_run (fun _ _ htidy => htidy) h
  obtain ⟨es', hrun⟩ := hreached.server
  obtain ⟨ρ, hroom, hshows⟩ := ChatServer.exists_shows hrun
  refine ⟨ρ, hroom, fun k κ hκ => ?_⟩
  obtain ⟨news, hnews, hbegins⟩ := (hlinked.down k).exists_news hshows hκ
  obtain ⟨htold, hallTold⟩ := (hlinked.down k).told hnews
  have hstarted : (w.peer k).client.started.filterMap Write.request <+:
      (w.peer k).client.requests := (hlinked.up k).started.filterMap _
  obtain ⟨hprocessed, hall⟩ := (hlinked.up k).processed hκ
  refine ⟨hprocessed.trans hstarted, hall, htold.trans (hbegins.map _), fun hnil => ?_⟩
  rw [hallTold hnil, List.length_map]
  exact hnews.length_eq.symm

/-- Two clients: one logs in as `Bob` and says `hi`, which arrives at the other. -/
def bobSaysHi : List (SystemEvent Bool) :=
  [.establish true, .establish false,
    .client true (.connectDone false), .client false (.connectDone false),
    .accept true 0, .accept false 1,
    .client true (.getline (some [66, 111, 98])), .client true .branch,
    .client true (.send fun _ => 0),
    .serve true 12 fun _ => 0, .serve true 5 fun _ => 0,
    .client true .writeDone, .client true .writeResumed,
    .arrive true 10, .arrive true 4, .server (.writeDone 0),
    .client true (.getline (some [104, 105])), .client true .branch,
    .client true (.send fun _ => 0),
    .serve true 12 fun _ => 0, .serve true 4 fun _ => 0,
    .arrive false 10, .arrive false 10, .arrive false 1].map .calm

/-- The system delivers it. -/
theorem system_delivers_bobSaysHi : ∃ w ρ,
    ((systemMachine Bool).restrict System.Tidy).Run (.initial (fun _ => 0) 2 fun _ => 0)
      bobSaysHi w ∧
    (∀ k, (w.peer k).connection.isSome = true) ∧
    chatRoom.Run (.initial []) (w.server.calls.map Call.roomEvent) ρ ∧
    ∀ k κ, (w.peer k).connection = some κ → (w.peer k).Delivered κ w.server ρ := by
  obtain ⟨w, hrun, hconnected⟩ := Machine.exists_run_of_exec
    ((systemMachine Bool).restrict System.Tidy) (.initial (fun _ => 0) 2 fun _ => 0) bobSaysHi
    (fun w => decide (∀ k, (w.peer k).connection.isSome = true)) (b := true) (by decide +kernel)
  obtain ⟨ρ, hroom, hdelivered⟩ := system_delivers hrun
  exact ⟨w, ρ, hrun, of_decide_eq_true hconnected, hroom, hdelivered⟩

/-- If the threads of the client are in `calculate_crc` at once, the reply to `Bob` can get lost. -/
example :
    ((systemMachine Bool).exec (.initial (fun _ => 0) 2 fun _ => 0)
      (bobSaysHi.take 14 ++ [⟨.arrive true 4, some 0, none⟩])).map (fun w =>
        ((w.peer true).handed.length, (w.peer true).toClient, heard (w.peer true).client.calls)) =
      some (1, [], []) := by
  decide +kernel

end AsioChat
