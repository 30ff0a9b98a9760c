import AsioChat.ServerNames
import AsioChat.ServerSessions

/-!
# Isolation

All sessions of the server live in one object, and a chat on one of them is posted to all. But
what others do reaches a session only by what is sent on it: the packet it is receiving, whether
it is connected, its name, and the requests that were processed on it, depend on nothing but
the accepts, reads and disconnects of its own.

## Main results

* `sessionName_eq`: the name of a session is a matter of its own requests.
* `session_isolated`: two runs that agree on what happens on a session agree on the session.
-/

namespace AsioChat

/-- The name after a request. -/
def Request.name (name : List UInt8) : Request → List UInt8
  | login request => request.name
  | chat _ => name

/-- The latest login name of a session is that of the latest login among its requests. -/
theorem sessionName_eq (i : ℕ) (calls : List Call) :
    sessionName i calls = (calls.filterMap (Call.request i)).foldl Request.name [] := by
  induction calls using List.reverseRecOn with
  | nil => rfl
  | append_singleton calls call ih =>
      rw [sessionName_snoc, ih, List.filterMap_append, List.foldl_append]
      cases call with
      | accepted id => rfl
      | closed id => rfl
      | login id request => by_cases hid : id = i <;> simp [Call.sessionName, Call.request, hid,
          Request.name]
      | chat id request packet => by_cases hid : id = i <;> simp [Call.sessionName, Call.request,
          hid, Request.name]

/-- A session apart from what is sent on it: its buffer, whether its socket is open, how many
reads are outstanding on it, and its name. -/
def Session.own (session : Session) : PacketBuffer × Bool × ℕ × List UInt8 :=
  (session.toPacketBuffer, session.isOpen, session.reading, session.name)

/-- **What the first accept finds in the mark does not matter**: two receivers that differ in it
are the same as soon as something has happened. -/
theorem Receiver.eq_of_run {side : Side} {mark mark' : UInt32} {es : List ReceiverEvent}
    {r r' : Receiver} (h : (receiverMachine side).Run (.initial mark) es r)
    (h' : (receiverMachine side).Run (.initial mark') es r') (hsome : mark = mark' ∨ es ≠ []) :
    r = r' := by
  cases h with
  | nil _ =>
      obtain rfl := hsome.resolve_right fun hne => hne rfl
      exact (Machine.Run.nil _).unique h'
  | @cons _ t _ e es hstep hrest =>
      cases h' with
      | @cons _ t' _ _ _ hstep' hrest' =>
          cases e with
          | connect =>
              -- `init` sets the mark
              have hsame : t = t' := Except.ok.inj (hstep.2.symm.trans hstep'.2)
              exact hrest.unique (hsame ▸ hrest')
          | read bytes => cases hstep.1.1
          | disconnect => cases hstep.1

/-- **A session is isolated from the others.** Take any two runs of the server, with whatever
accepts, reads, disconnects and completed writes on the other sessions, and even a different
number of them. If the accepts of a session, what is read on it and its disconnects are the
same, so is the session, apart from what is sent on it, and so are the requests processed on
it. What the mark of the session happens to be before the first accept matters only until then. -/
theorem session_isolated {mark mark' : ℕ → UInt32} {n n' : ℕ} {es es' : List ServerEvent}
    {s s' : ChatServer} {i : ℕ} (h : chatMachine.Run (.started mark n) es s)
    (h' : chatMachine.Run (.started mark' n') es' s') (hi : i < n) (hi' : i < n')
    (hsame : es.filterMap (receiverEvent i) = es'.filterMap (receiverEvent i))
    (hsome : mark i = mark' i ∨ es.filterMap (receiverEvent i) ≠ []) :
    s.sessionList[i]?.map Session.own = s'.sessionList[i]?.map Session.own ∧
      s.calls.filterMap (Call.request i) = s'.calls.filterMap (Call.request i) := by
  obtain ⟨r, hrun, hreceives⟩ := ChatServer.exists_receiver_run h hi
  obtain ⟨r', hrun', hreceives'⟩ := ChatServer.exists_receiver_run h' hi'
  rw [← hsame] at hrun'
  obtain rfl := Receiver.eq_of_run hrun hrun' hsome
  have hrequests := hreceives.requests.trans hreceives'.requests.symm
  refine ⟨?_, hrequests⟩
  -- what a session has of its own, in terms of its receive side and its requests
  have hown : ∀ {mark : ℕ → UInt32} {n : ℕ} {es : List ServerEvent} {s : ChatServer},
      chatMachine.Run (.started mark n) es s → ChatServer.Receives i s r →
      s.sessionList[i]?.map Session.own = some (r.buffer, r.isOpen,
        if r.isOpen = true then 1 else 0,
        (s.calls.filterMap (Call.request i)).foldl Request.name []) := by
    intro mark n es s h hreceives
    obtain ⟨session, hsession, -⟩ := Option.map_eq_some_iff.mp hreceives.side
    obtain ⟨hbuffer, hopen⟩ := hreceives.side_eq hsession
    have hreading := ChatServer.reading_eq h hsession
    have hname := (ChatServer.namesInv_of_run h).name i session.name (by rw [hsession]; rfl)
    rw [sessionName_eq] at hname
    rw [hsession, Option.map_some, Session.own, hbuffer, hreading, hopen, hname]
  rw [hown h hreceives, hown h' hreceives', hrequests]

/-- `Bob` logs in, alone on the server and with somebody else on it who leaves in between. -/
theorem session_isolated_bob : ∃ s s',
    chatMachine.Run (.started (fun _ => 0) 1)
      (.acceptDone 0 false :: readsOf 0 (loginPacket [66, 111, 98])) s ∧
    chatMachine.Run (.started (fun _ => 7) 2)
      (.acceptDone 0 false :: .acceptDone 1 false :: .readDone 1 [1, 2, 3] (fun _ => 0) ::
        .readDone 0 ((loginPacket [66, 111, 98]).take 12) (fun _ => 0) :: .readFailed 1 ::
        [.readDone 0 ((loginPacket [66, 111, 98]).drop 12) fun _ => 0]) s' ∧
    s.sessionList[0]?.map Session.own = s'.sessionList[0]?.map Session.own ∧
    s.calls.filterMap (Call.request 0) = s'.calls.filterMap (Call.request 0) := by
  obtain ⟨s, hrun, -⟩ := Machine.exists_run_of_exec chatMachine (.started (fun _ => 0) 1)
    (.acceptDone 0 false :: readsOf 0 (loginPacket [66, 111, 98])) (fun _ => ()) (b := ())
    (by decide +kernel)
  obtain ⟨s', hrun', -⟩ := Machine.exists_run_of_exec chatMachine (.started (fun _ => 7) 2)
    (.acceptDone 0 false :: .acceptDone 1 false :: .readDone 1 [1, 2, 3] (fun _ => 0) ::
      .readDone 0 ((loginPacket [66, 111, 98]).take 12) (fun _ => 0) :: .readFailed 1 ::
      [.readDone 0 ((loginPacket [66, 111, 98]).drop 12) fun _ => 0]) (fun _ => ()) (b := ())
    (by decide +kernel)
  exact ⟨s, s', hrun, hrun', session_isolated hrun hrun' (by decide) (by decide) rfl
    (.inr (List.cons_ne_nil _ _))⟩

end AsioChat
