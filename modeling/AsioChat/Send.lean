import AsioChat.Receive

/-!
# Sending

`post_send` and `handle_write` of the server's session and of the client, with the queue
`send_data_queue_` between them. Both programs mean to keep one write in flight and the
packets behind it in the queue. But both push `send_data` onto the queue before they
assign `data` to it, so every entry is null: the server dereferences it when a write
completes with another packet waiting, and the client takes it for an empty queue and
never writes again.

The server's `handle_write` is one step. The client's is two, its critical section and
what follows it, with calls of `post_send` by the input thread in between. The runs of
both are in `SendRuns`.

## Main results

* `ChatClient.postSend_eq`: the two ways of writing `post_send` are the same function.
* `Sender.Inv`: the invariant of both programs; the queue holds one null entry for
  every packet whose write is not completed.
* `Sender.Inv.postSend`, `Sender.Inv.complete`: posting and completing keep it, and whether
  a completion leaves the sender stalled.
-/

namespace AsioChat

/-- `shared_byte`: null, or the memory it points to. -/
abbrev SharedByte := Option (List UInt8)

/-- The arguments of a write or of a call of `post_send`. -/
structure Write where
  data : SharedByte
  size : UInt32
  deriving DecidableEq, Repr

/-- The send side of a session or of the client: its queue, the writes started on its
socket and how many of them completed, and the packets passed to `post_send`. -/
structure Sender where
  sendDataQueue : List SharedByte
  started : List Write
  completed : ℕ
  posted : List Write
  deriving DecidableEq, Repr

namespace Sender

/-- Nothing sent yet. -/
def initial : Sender := ⟨[], [], 0, []⟩

/-- The number of writes in flight. -/
def outstanding (s : Sender) : ℕ := s.started.length - s.completed

/-- `boost::asio::async_write`. -/
def asyncWrite (data : SharedByte) (size : UInt32) (s : Sender) : Sender :=
  { s with started := s.started ++ [⟨data, size⟩] }

/-- `send_data_queue_.push_back`. -/
def pushBack (data : SharedByte) (s : Sender) : Sender :=
  { s with sendDataQueue := s.sendDataQueue ++ [data] }

/-- `send_data_queue_.pop_front`, which is undefined for an empty queue. -/
def popFront (s : Sender) : Except Fault Sender :=
  match s.sendDataQueue with
  | [] => .error .outOfRange
  | _ :: queue => .ok { s with sendDataQueue := queue }

/-- Taking an entry off the queue posts nothing. -/
theorem posted_popFront {s t : Sender} (h : s.popFront = .ok t) : t.posted = s.posted := by
  rw [popFront] at h
  split at h
  · cases h
  · cases h
    rfl

/-- A call of `post_send` from outside is recorded. -/
def record (immediately : Bool) (data : SharedByte) (size : UInt32) (s : Sender) : Sender :=
  if immediately = false then { s with posted := s.posted ++ [⟨data, size⟩] } else s

end Sender

/-- `session::post_send`. -/
def Session.postSend (immediately : Bool) (size : UInt32) (data : SharedByte) (s : Sender) :
    Sender :=
  let s := s.record immediately data size
  let sendData : SharedByte := none
  let s := if immediately = false then s.pushBack sendData else s
  let sendData := data
  if immediately = false ∧ s.sendDataQueue.length > 1 then s
  else s.asyncWrite sendData size

/-- `session::handle_write`, after a write completed, successfully or not. -/
def Session.handleWrite (s : Sender) : Except Fault Sender := do
  let s ← s.popFront
  match s.sendDataQueue with
  | [] => return s
  | none :: _ => .error .nullDereference
  | some packet :: _ =>
    let header := PacketHeader.ofBytes packet
    return Session.postSend true header.contentSize (some packet) s

/-- `ChatClient::post_send`, one step under its lock. -/
def ChatClient.postSend (immediately : Bool) (size : UInt32) (data : SharedByte) (s : Sender) :
    Sender :=
  let s := s.record immediately data size
  let sendData : SharedByte := none
  let s := if immediately = false then s.pushBack sendData else s
  let sendData := data
  if immediately = true ∨ s.sendDataQueue.length < 2 then s.asyncWrite sendData size
  else s

/-- The critical section of `ChatClient::handle_write`, with the `data` it leaves
behind. -/
def ChatClient.handleWrite (s : Sender) : Except Fault (SharedByte × Sender) := do
  let s ← s.popFront
  match s.sendDataQueue with
  | [] => return (none, s)
  | data :: _ => return (data, s)

/-- What `ChatClient::handle_write` does after its critical section. -/
def ChatClient.resumeWrite (data : SharedByte) (s : Sender) : Sender :=
  match data with
  | none => s
  | some packet =>
    let header := PacketHeader.ofBytes packet
    ChatClient.postSend true header.contentSize (some packet) s

/-- The two programs write `post_send` with opposite tests, to the same effect. -/
theorem ChatClient.postSend_eq (immediately : Bool) (size : UInt32) (data : SharedByte)
    (s : Sender) :
    ChatClient.postSend immediately size data s = Session.postSend immediately size data s := by
  cases immediately with
  | true => simp [ChatClient.postSend, Session.postSend]
  | false =>
      simp only [ChatClient.postSend, Session.postSend, Bool.false_eq_true, false_or, true_and,
        if_true]
      by_cases hlen : ((s.record false data size).pushBack none).sendDataQueue.length < 2
      · rw [if_pos hlen, if_neg (by omega)]
      · rw [if_neg hlen, if_pos (by omega)]

/-! ### The invariant of both programs -/

namespace Sender

variable {s : Sender} {data : SharedByte} {size : UInt32}

/-- A packet posted to an empty queue is written at once. -/
theorem postSend_of_nil (h : s.sendDataQueue = []) :
    Session.postSend false size data s =
      { s with sendDataQueue := [none], started := s.started ++ [⟨data, size⟩],
               posted := s.posted ++ [⟨data, size⟩] } := by
  simp [Session.postSend, record, pushBack, asyncWrite, h]

/-- A packet posted to a nonempty queue leaves a null entry behind. -/
theorem postSend_of_ne_nil (h : s.sendDataQueue ≠ []) :
    Session.postSend false size data s =
      { s with sendDataQueue := s.sendDataQueue ++ [none],
               posted := s.posted ++ [⟨data, size⟩] } := by
  have hpos := List.length_pos_of_ne_nil h
  simp [Session.postSend, record, pushBack, hpos]

/-- Every packet posted is recorded. -/
@[simp] theorem posted_postSend (s : Sender) :
    (Session.postSend false size data s).posted = s.posted ++ [⟨data, size⟩] := by
  by_cases h : s.sendDataQueue = []
  · rw [postSend_of_nil h]
  · rw [postSend_of_ne_nil h]

/-- Posting completes nothing. -/
@[simp] theorem completed_postSend (s : Sender) :
    (Session.postSend false size data s).completed = s.completed := by
  by_cases h : s.sendDataQueue = []
  · rw [postSend_of_nil h]
  · rw [postSend_of_ne_nil h]

/-- A write is in flight exactly when the queue is not empty. -/
def Flowing (s : Sender) : Prop :=
  s.started.length = s.completed + min 1 s.sendDataQueue.length

/-- Packets are waiting, and no write is in flight that could bring them on. -/
def Stalled (s : Sender) : Prop :=
  s.started.length = s.completed ∧ s.sendDataQueue ≠ []

/-- The invariant: every entry of the queue is null, there is one for every packet whose
write is not completed, and the writes were started in the order of the posts. -/
structure Inv (s : Sender) : Prop where
  null : ∀ data ∈ s.sendDataQueue, data = none
  posted : s.posted.length = s.completed + s.sendDataQueue.length
  started : s.started <+: s.posted
  flow : s.Flowing ∨ s.Stalled

/-- Nothing is in the queue before anything happens. -/
theorem inv_initial : initial.Inv :=
  ⟨fun _ h => (List.not_mem_nil h).elim, rfl, List.nil_prefix, .inl rfl⟩

/-- With nothing in flight, a flowing sender has an empty queue and has written
everything. -/
theorem Inv.of_flowing (h : s.Inv) (hflow : s.Flowing) (hout : s.outstanding = 0) :
    s.sendDataQueue = [] ∧ s.started = s.posted := by
  unfold Flowing at hflow
  unfold outstanding at hout
  have hnil : s.sendDataQueue = [] := List.eq_nil_of_length_eq_zero (by omega)
  have hposted := h.posted
  rw [hnil, List.length_nil] at hposted hflow
  exact ⟨hnil, h.started.eq_of_length (by omega)⟩

/-- With a write in flight, a sender is flowing, and its queue is not empty. -/
theorem Inv.of_outstanding (h : s.Inv) (hout : s.completed < s.started.length) :
    s.Flowing ∧ ∃ queue, s.sendDataQueue = none :: queue := by
  have hflow : s.Flowing := h.flow.resolve_right fun hstalled => by
    have := hstalled.1
    omega
  refine ⟨hflow, ?_⟩
  cases hqueue : s.sendDataQueue with
  | nil =>
      rw [Flowing, hqueue, List.length_nil] at hflow
      omega
  | cons data queue =>
      obtain rfl := h.null data (by rw [hqueue]; exact List.mem_cons_self)
      exact ⟨queue, rfl⟩

/-- Posting keeps the invariant, and whether the sender is flowing. -/
theorem Inv.postSend (h : s.Inv) (size : UInt32) (data : SharedByte) :
    (Session.postSend false size data s).Inv ∧
      ((Session.postSend false size data s).Flowing ↔ s.Flowing) := by
  have hposted := h.posted
  by_cases hqueue : s.sendDataQueue = []
  · have hflow : s.Flowing := h.flow.resolve_right fun hstalled => hstalled.2 hqueue
    have hlen := hflow
    rw [Flowing, hqueue, List.length_nil] at hlen
    rw [hqueue, List.length_nil] at hposted
    have heq : s.started = s.posted := h.started.eq_of_length (by omega)
    rw [postSend_of_nil hqueue]
    have hflow' : Flowing { s with
        sendDataQueue := [none], started := s.started ++ [⟨data, size⟩],
        posted := s.posted ++ [⟨data, size⟩] } := by
      simp only [Flowing, List.length_append, List.length_singleton]
      omega
    refine ⟨⟨by simp, ?_, ?_, .inl hflow'⟩, iff_of_true hflow' hflow⟩
    · simp only [List.length_append, List.length_singleton]
      omega
    · simp only [heq]
      exact List.prefix_rfl
  · have hpos := List.length_pos_of_ne_nil hqueue
    rw [postSend_of_ne_nil hqueue]
    have hiff : Flowing { s with
        sendDataQueue := s.sendDataQueue ++ [none],
        posted := s.posted ++ [⟨data, size⟩] } ↔ s.Flowing := by
      simp only [Flowing, List.length_append, List.length_singleton]
      omega
    refine ⟨⟨?_, ?_, h.started.trans (List.prefix_append _ _), ?_⟩, hiff⟩
    · exact List.forall_mem_append.mpr ⟨h.null, List.forall_mem_singleton.mpr rfl⟩
    · simp only [List.length_append, List.length_singleton]
      omega
    · exact h.flow.imp hiff.mpr fun hstalled => ⟨hstalled.1, by simp⟩

/-- A completion takes the front entry off the queue. Whether the sender then still flows
depends on whether another packet is waiting. -/
theorem Inv.complete (h : s.Inv) {queue : List SharedByte} (hflow : s.Flowing)
    (hqueue : s.sendDataQueue = none :: queue) :
    Inv { s with sendDataQueue := queue, completed := s.completed + 1 } ∧
      (Flowing { s with sendDataQueue := queue, completed := s.completed + 1 } ↔ queue = []) := by
  have hposted := h.posted
  rw [hqueue, List.length_cons] at hposted
  rw [Flowing, hqueue, List.length_cons] at hflow
  have hiff : Flowing { s with sendDataQueue := queue, completed := s.completed + 1 } ↔
      queue = [] := by
    rw [← List.length_eq_zero_iff]
    simp only [Flowing]
    omega
  refine ⟨⟨fun d hd => ?_, ?_, h.started, ?_⟩, hiff⟩
  · exact h.null d (by rw [hqueue]; exact List.mem_cons_of_mem _ hd)
  · simp only
    omega
  · by_cases hnil : queue = []
    · exact .inl (hiff.mpr hnil)
    · exact .inr ⟨by simp only; omega, hnil⟩

end Sender

end AsioChat
