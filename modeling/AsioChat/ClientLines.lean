import AsioChat.Conversation

/-!
# The Lines of a Client

The loop of `main`, from the lines it accepts to the requests it posts, in every run of the
client and whatever the server sends: no line is lost, repeated or overtaken on the way, and
`is_logged_in` is never taken back, so the requests are logins first and chats from some line on.

## Main results

* `ChatClient.LinesInv.step`: what every step preserves.
* `requests_eq_lines`: the requests are the lines accepted, but for the one in hand.
-/

namespace AsioChat

namespace ChatClient

/-- The requests the client has posted. -/
def requests (c : ChatClient) : List Request := c.posted.filterMap Write.request

/-- The line the input thread has accepted and not posted yet. -/
def inHand (c : ChatClient) : List (List UInt8) :=
  match c.input with
  | .connected line | .branching line _ => [line]
  | _ => []

variable {c d : ChatClient} {e : ClientEvent} {names chats : List (List UInt8)}

/-- Only the input thread posts. -/
theorem posted_of_step (hstep : clientMachine.Step c e d) (hsend : ∀ fresh, e ≠ .send fresh) :
    d.posted = c.posted := by
  cases e with
  | connectDone error => exact (sameDialogue_of_step hstep trivial).posted
  | readFailed => exact (sameDialogue_of_step hstep trivial).posted
  | writeDone => exact (sameDialogue_of_step hstep trivial).posted
  | writeResumed => exact (sameDialogue_of_step hstep trivial).posted
  | readDone bytes =>
      obtain ⟨buffer, exit, u, -, hu, rfl⟩ := step_readDone hstep
      rcases hu with ⟨-, rfl⟩ | ⟨data, -, hprocess⟩
      · rfl
      · rcases processPacket_cases hprocess with
          ⟨-, response, parsed, -, rfl⟩ | ⟨-, rfl | ⟨notify, parsed, rfl⟩⟩ <;> rfl
  | getline line =>
      cases hstep.2
      rcases getline_cases line c with heq | heq | ⟨inputMsg, -, -, -, heq⟩
      all_goals exact (congrArg (fun c => c.posted) heq :)
  | branch =>
      obtain ⟨inputMsg, -, rfl⟩ := step_branch hstep
      rfl
  | send fresh => exact absurd rfl (hsend fresh)

/-- Requests are only added. -/
theorem requests_prefix_of_step (hstep : clientMachine.Step c e d) :
    c.requests <+: d.requests := by
  by_cases hsend : ∃ fresh, e = .send fresh
  · obtain ⟨fresh, rfl⟩ := hsend
    obtain ⟨line, loggedIn, pkt, size, -, -, rfl⟩ := step_send hstep
    have hposted : (c.post size pkt).posted = c.posted ++ [⟨some pkt, size⟩] :=
      posted_post size pkt c
    show c.posted.filterMap Write.request <+: (c.post size pkt).posted.filterMap Write.request
    rw [hposted, List.filterMap_append]
    exact List.prefix_append _ _
  · rw [requests, requests, posted_of_step hstep fun fresh heq => hsend ⟨fresh, heq⟩]

/-- The requests for some lines taken for names, and then some taken for chats. -/
def requestsFor (names chats : List (List UInt8)) : List Request :=
  names.map (requestFor false) ++ chats.map (requestFor true)

/-- What holds of the lines in every run: the first were posted as logins and the next as chats,
and one may be in hand; and who has chatted, or is about to, is logged in. -/
structure LinesInv (c : ChatClient) (names chats : List (List UInt8)) : Prop where
  requests : c.requests = requestsFor names chats
  typed : typedLines c.calls = names ++ chats ++ c.inHand
  loggedIn : chats ≠ [] → c.isLoggedIn = true
  branching : ∀ line loggedIn, c.input = .branching line loggedIn →
    if loggedIn = true then c.isLoggedIn = true else chats = []

/-- A step that leaves the lines where they are. -/
theorem LinesInv.of_eq (h : LinesInv c names chats) (hposted : d.posted = c.posted)
    (hcalls : typedLines d.calls = typedLines c.calls) (hinput : d.input = c.input)
    (hloggedIn : c.isLoggedIn = true → d.isLoggedIn = true) : LinesInv d names chats := by
  refine ⟨?_, ?_, fun hchats => hloggedIn (h.loggedIn hchats), fun line loggedIn hline => ?_⟩
  · rw [ChatClient.requests, hposted]
    exact h.requests
  · rw [hcalls, h.typed, inHand, inHand, hinput]
  · have hbranching := h.branching line loggedIn (hinput ▸ hline)
    split at hbranching
    · rename_i htrue
      rw [if_pos htrue]
      exact hloggedIn hbranching
    · rename_i hfalse
      rw [if_neg hfalse]
      exact hbranching

/-- A line is accepted, or the loop ends. -/
theorem LinesInv.getline (h : LinesInv c names chats) (hreading : c.input = .reading)
    (line : Option (List UInt8)) : LinesInv (c.getline line) names chats := by
  have htyped := h.typed
  rw [inHand, hreading, List.append_nil] at htyped
  rcases getline_cases line c with heq | heq | ⟨inputMsg, -, -, -, heq⟩
  · rw [heq]
    exact ⟨h.requests, htyped.trans (List.append_nil _).symm, h.loggedIn, fun _ _ hline => by
      cases hline⟩
  · rw [heq]
    exact h
  · rw [heq]
    refine ⟨h.requests, ?_, h.loggedIn, fun _ _ hline => by cases hline⟩
    show typedLines (c.calls ++ [.typed inputMsg]) = names ++ chats ++ [inputMsg]
    rw [typedLines_append, htyped]
    rfl

/-- The request for the line in hand is posted. -/
theorem LinesInv.send (h : LinesInv c names chats) {fresh : ℕ → UInt8} {line pkt : List UInt8}
    {loggedIn : Bool} {size : UInt32} (hinput : c.input = .branching line loggedIn)
    (hbuild : (if loggedIn = false then buildLogin fresh line else buildChat fresh line) =
      .ok (pkt, size)) :
    ∃ names' chats', LinesInv { (c.post size pkt).record (.posted pkt) with input := .reading }
      names' chats' := by
  have htyped := h.typed
  rw [inHand, hinput] at htyped
  have hrequests : (c.post size pkt).posted.filterMap Write.request =
      requestsFor names chats ++ [requestFor loggedIn line] := by
    have hrequest := request_of_build hbuild
    rw [posted_post, List.filterMap_append, ← h.requests, List.filterMap_cons, hrequest]
    rfl
  have hcalls : typedLines (c.calls ++ [.posted pkt]) = typedLines c.calls := by
    rw [typedLines_append]
    exact List.append_nil _
  have hbranching := h.branching line loggedIn hinput
  cases loggedIn with
  | false =>
      -- a login behind no chat
      obtain rfl : chats = [] := hbranching
      refine ⟨names ++ [line], [], ?_, ?_, h.loggedIn, fun _ _ hline => by cases hline⟩
      · refine hrequests.trans ?_
        simp only [requestsFor, List.map_append, List.map_nil, List.append_nil, List.map_singleton]
      · refine (hcalls.trans htyped).trans ?_
        simp only [inHand, List.append_nil]
  | true =>
      refine ⟨names, chats ++ [line], ?_, ?_, fun _ => hbranching, fun _ _ hline => by
        cases hline⟩
      · refine hrequests.trans ?_
        simp only [requestsFor, List.map_append, List.append_assoc, List.map_singleton]
      · refine (hcalls.trans htyped).trans ?_
        simp only [inHand, List.append_nil, List.append_assoc]

/-- **Every step keeps the lines**, posted or in hand. -/
theorem LinesInv.step (h : LinesInv c names chats) (hstep : clientMachine.Step c e d) :
    ∃ names' chats', LinesInv d names' chats' := by
  have hquiet : e.Quiet → ∃ names' chats', LinesInv d names' chats' := fun hquiet => by
    have hsame := sameDialogue_of_step hstep hquiet
    exact ⟨names, chats, h.of_eq hsame.posted (by rw [hsame.calls]) hsame.input
      fun hlog => hsame.isLoggedIn.trans hlog⟩
  cases e with
  | connectDone error => exact hquiet trivial
  | readFailed => exact hquiet trivial
  | writeDone => exact hquiet trivial
  | writeResumed => exact hquiet trivial
  | readDone bytes =>
      obtain ⟨buffer, exit, u, -, hu, rfl⟩ := step_readDone hstep
      refine ⟨names, chats, ?_⟩
      rcases hu with ⟨-, rfl⟩ | ⟨data, -, hprocess⟩
      · exact h.of_eq rfl rfl rfl fun hlog => hlog
      · rcases processPacket_cases hprocess with
          ⟨-, response, parsed, -, rfl⟩ | ⟨-, rfl | ⟨notify, parsed, rfl⟩⟩
        · refine h.of_eq rfl ?_ rfl fun _ => rfl
          exact (typedLines_append ..).trans (List.append_nil _)
        · exact h.of_eq rfl rfl rfl fun hlog => hlog
        · refine h.of_eq rfl ?_ rfl fun hlog => hlog
          exact (typedLines_append ..).trans (List.append_nil _)
  | getline line =>
      obtain ⟨henabled, hd⟩ := hstep
      cases hd
      exact ⟨names, chats, h.getline henabled line⟩
  | branch =>
      obtain ⟨line, hinput, rfl⟩ := step_branch hstep
      have htyped := h.typed
      rw [inHand, hinput] at htyped
      refine ⟨names, chats, h.requests, htyped, h.loggedIn, fun line' loggedIn' hline => ?_⟩
      cases hline
      split
      · assumption
      · rename_i hfalse
        by_contra hchats
        exact hfalse (h.loggedIn hchats)
  | send fresh =>
      obtain ⟨line, loggedIn, pkt, size, hinput, hbuild, rfl⟩ := step_send hstep
      exact h.send hinput hbuild

/-- The lines are where they belong, in every run. -/
theorem linesInv_of_run {mark : UInt32} {es : List ClientEvent}
    (h : clientMachine.Run (.launched mark) es c) : ∃ names chats, LinesInv c names chats := by
  refine h.invariant (I := fun c => ∃ names chats, LinesInv c names chats) ?_ ?_
  · rintro c e d ⟨names, chats, hinv⟩ hstep
    exact hinv.step hstep
  · exact ⟨[], [], rfl, rfl, fun hne => absurd rfl hne, fun _ _ hline => by cases hline⟩

end ChatClient

/-- **The requests of a client are the lines it accepted**, in order and each once, first as
logins and from some line on as chats; only the line in hand is not posted yet. In every run
of the client, whatever the server sends and however it interleaves with the input thread. -/
theorem requests_eq_lines {mark : UInt32} {es : List ClientEvent} {c : ChatClient}
    (h : clientMachine.Run (.launched mark) es c) :
    ∃ names chats, c.requests = ChatClient.requestsFor names chats ∧
      typedLines c.calls = names ++ chats ++ c.inHand ∧ (chats ≠ [] → c.isLoggedIn = true) := by
  obtain ⟨names, chats, hinv⟩ := ChatClient.linesInv_of_run h
  exact ⟨names, chats, hinv.requests, hinv.typed, hinv.loggedIn⟩

/-- `Bob` and `hi` were posted, and `ho` is in hand. -/
theorem requests_eq_lines_three : ∃ c es, clientMachine.Run (.launched 0) es c ∧
    c.inHand = [[104, 111]] ∧
    typedLines c.calls = [[66, 111, 98], [104, 105], [104, 111]] ∧
    ∃ names chats, c.requests = ChatClient.requestsFor names chats ∧
      typedLines c.calls = names ++ chats ++ c.inHand := by
  obtain ⟨c, hrun, hlines⟩ := Machine.exists_run_of_exec clientMachine (.launched 0)
    [.connectDone false, .getline (some [66, 111, 98]), .branch, .send fun _ => 0,
      .readDone ((replyPacket fun _ => 0).take 10), .readDone ((replyPacket fun _ => 0).drop 10),
      .getline (some [104, 105]), .branch, .send fun _ => 0, .getline (some [104, 111])]
    (fun c => (c.inHand, typedLines c.calls))
    (b := ([[104, 111]], [[66, 111, 98], [104, 105], [104, 111]])) (by decide +kernel)
  obtain ⟨hinHand, htyped⟩ := Prod.mk.inj hlines
  obtain ⟨names, chats, hrequests, heq, -⟩ := requests_eq_lines hrun
  exact ⟨c, _, hrun, hinHand, htyped, names, chats, hrequests, heq⟩

end AsioChat
