import AsioChat.Lib.Machine
import Mathlib.Data.Set.Insert
import Mathlib.Logic.Function.Basic

/-!
# Chat Rooms

A room has seats, of any kind and number. A seat is taken and left again; whoever sits on it
may sign in with a name, which is confirmed to the seat alone, and say something, which is
told to every seat that is taken, the speaker's own included, under the name that the speaker's
seat carries. A name stays with the seat until the next one is signed in, also when the seat is
left. What is shown of a name is a parameter.

This is what a chat server is for, said in terms of seats and texts: there are no packets,
no queues and no sockets here.

## Main results

* `Room.exists_tells`: what a step tells a seat.
* `Room.inbox_of_run`: what a seat is told over an interval in which it is never left.
* `Room.said_of_run`: that is everything that is said, in order, and besides only its own
  welcomes.
* `Room.mem_inbox_of_run`: what a seat was told was said by somebody, under the name the
  speaker's seat carried then.
-/

universe u v

namespace Room

variable {Seat : Type u} {Text : Type v}

/-- What happens in a room. -/
inductive Event (Seat : Type u) (Text : Type v)
  | enter (i : Seat)
  | leave (i : Seat)
  | signIn (i : Seat) (name : Text)
  | say (i : Seat) (text : Text)

/-- What a seat is told: that its name was signed in, or what somebody said. -/
inductive Message (Text : Type v)
  | welcome
  | said (name text : Text)

/-- Whether a message was said by somebody. -/
def Message.isSaid : Message Text → Bool
  | welcome => false
  | said _ _ => true

/-- A room: who is present, the names on the seats, and what each seat was told. -/
@[ext] structure State (Seat : Type u) (Text : Type v) where
  present : Set Seat
  name : Seat → Text
  inbox : Seat → List (Message Text)

/-- An empty room, with one name on all seats. -/
def State.initial (blank : Text) : State Seat Text := ⟨∅, fun _ => blank, fun _ => []⟩

variable [DecidableEq Seat]

/-- The names on the seats after an event. -/
def Event.names (shown : Text → Text) (name : Seat → Text) : Event Seat Text → Seat → Text
  | .signIn i new => Function.update name i (shown new)
  | _ => name

/-- What is said at an event, with the name it is said under. -/
def Event.spoken (name : Seat → Text) : Event Seat Text → List (Message Text)
  | .say i text => [.said (name i) text]
  | _ => []

/-- The names on the seats after some events. -/
def names (shown : Text → Text) (name : Seat → Text) (es : List (Event Seat Text)) :
    Seat → Text :=
  es.foldl (Event.names shown) name

/-- What is said in some events, in order, each under the name its speaker's seat carries
then. -/
def spoken (shown : Text → Text) : (Seat → Text) → List (Event Seat Text) → List (Message Text)
  | _, [] => []
  | name, e :: es => e.spoken name ++ spoken shown (e.names shown name) es

/-- What an event tells a seat that is taken: that its name was signed in, or what is said. -/
def Event.told (i : Seat) (name : Seat → Text) : Event Seat Text → List (Message Text)
  | .signIn j _ => if i = j then [.welcome] else []
  | .say j text => [.said (name j) text]
  | _ => []

/-- What some events tell a seat that is taken throughout, in order. -/
def toldTo (shown : Text → Text) (i : Seat) :
    (Seat → Text) → List (Event Seat Text) → List (Message Text)
  | _, [] => []
  | name, e :: es => e.told i name ++ toldTo shown i (e.names shown name) es

open Classical in
/-- What happens to the room at an event. -/
noncomputable def State.step (shown : Text → Text) (r : State Seat Text) :
    Event Seat Text → State Seat Text
  | .enter i => { r with present := insert i r.present }
  | .leave i => { r with present := r.present \ {i} }
  | .signIn i name => { r with
      name := Function.update r.name i (shown name)
      inbox := Function.update r.inbox i (r.inbox i ++ [.welcome]) }
  | .say i text => { r with
      inbox := fun j => r.inbox j ++ if j ∈ r.present then [.said (r.name i) text] else [] }

/-- A seat is taken if it is free; whoever leaves, signs in or speaks sits on a seat. -/
def State.Enabled (r : State Seat Text) : Event Seat Text → Prop
  | .enter i => i ∉ r.present
  | .leave i => i ∈ r.present
  | .signIn i _ => i ∈ r.present
  | .say i _ => i ∈ r.present

/-- The runs of a room. -/
noncomputable def machine (Seat : Type u) [DecidableEq Seat] (Text : Type v)
    (shown : Text → Text) : Machine (State Seat Text) (Event Seat Text) Empty where
  enabled := State.Enabled
  step r e := .ok (r.step shown e)

variable {shown : Text → Text} {r r' : State Seat Text} {e : Event Seat Text}
  {es : List (Event Seat Text)} {i : Seat}

/-- A step of the room is an event that is possible. -/
theorem step_iff : (machine Seat Text shown).Step r e r' ↔ r.Enabled e ∧ r' = r.step shown e := by
  constructor
  · rintro ⟨henabled, hstep⟩
    exact ⟨henabled, (Except.ok.inj hstep).symm⟩
  · rintro ⟨henabled, rfl⟩
    exact ⟨henabled, rfl⟩

/-- A step changes the names as its event does. -/
@[simp] theorem name_step (r : State Seat Text) (e : Event Seat Text) :
    (r.step shown e).name = e.names shown r.name := by
  cases e <;> rfl

/-- The names at the end of a run. -/
theorem name_of_run (h : (machine Seat Text shown).Run r es r') :
    r'.name = names shown r.name es := by
  induction h with
  | nil r => rfl
  | cons hstep _ ih =>
      obtain ⟨-, rfl⟩ := step_iff.mp hstep
      rw [ih, name_step]
      rfl

/-- What an event tells a seat. -/
def Event.Tells (i : Seat) (r : State Seat Text) (news : List (Message Text)) :
    Event Seat Text → Prop
  | .enter _ => news = []
  | .leave _ => news = []
  | .signIn j _ => (i = j ∧ news = [.welcome]) ∨ (i ≠ j ∧ news = [])
  | .say j text =>
    (i ∈ r.present ∧ news = [.said (r.name j) text]) ∨ (i ∉ r.present ∧ news = [])

variable (shown) in
/-- **What a step tells a seat**: a welcome, what is said, or nothing. -/
theorem exists_tells (r : State Seat Text) (i : Seat) (e : Event Seat Text) :
    ∃ news, (r.step shown e).inbox i = r.inbox i ++ news ∧ e.Tells i r news := by
  cases e with
  | enter j => exact ⟨[], (List.append_nil _).symm, rfl⟩
  | leave j => exact ⟨[], (List.append_nil _).symm, rfl⟩
  | signIn j name =>
      by_cases hij : i = j
      · subst hij
        exact ⟨[.welcome], Function.update_self i _ r.inbox, .inl ⟨rfl, rfl⟩⟩
      · refine ⟨[], ?_, .inr ⟨hij, rfl⟩⟩
        rw [List.append_nil]
        exact Function.update_of_ne hij _ r.inbox
  | say j text =>
      by_cases hi : i ∈ r.present
      · exact ⟨[.said (r.name j) text], by simp only [State.step, if_pos hi], .inl ⟨hi, rfl⟩⟩
      · exact ⟨[], by simp only [State.step, if_neg hi], .inr ⟨hi, rfl⟩⟩

/-- What an event tells a seat, if the seat is taken. -/
theorem Event.Tells.eq_told {news : List (Message Text)} (h : e.Tells i r news)
    (hi : i ∈ r.present) : news = e.told i r.name := by
  cases e with
  | enter j => exact h
  | leave j => exact h
  | signIn j name =>
      rcases h with ⟨rfl, rfl⟩ | ⟨hij, rfl⟩
      · exact (if_pos rfl).symm
      · exact (if_neg hij).symm
  | say j text =>
      rcases h with ⟨-, rfl⟩ | ⟨hout, -⟩
      · rfl
      · exact absurd hi hout

/-- What an event tells a seat that is taken is what is said at it, apart from welcomes. -/
theorem Event.filter_told (i : Seat) (name : Seat → Text) (e : Event Seat Text) :
    (e.told i name).filter Message.isSaid = e.spoken name := by
  cases e with
  | enter j => rfl
  | leave j => rfl
  | signIn j new =>
      rw [told]
      split <;> rfl
  | say j text => rfl

/-- **What a seat is told that is taken throughout** is everything that is said, in order, each
under the name its speaker's seat carries then, apart from welcomes. -/
theorem filter_toldTo (shown : Text → Text) (i : Seat) (name : Seat → Text)
    (es : List (Event Seat Text)) :
    (toldTo shown i name es).filter Message.isSaid = spoken shown name es := by
  induction es generalizing name with
  | nil => rfl
  | cons e es ih => rw [toldTo, spoken, List.filter_append, ih, Event.filter_told]

/-- A seat that is not left stays taken. -/
theorem mem_present_step (hi : i ∈ r.present) (hleave : e ≠ .leave i) :
    i ∈ (r.step shown e).present := by
  cases e with
  | enter j => exact Set.mem_insert_of_mem j hi
  | leave j =>
      refine ⟨hi, fun hij => ?_⟩
      rw [Set.mem_singleton_iff] at hij
      exact hleave (hij ▸ rfl)
  | signIn j name => exact hi
  | say j text => exact hi

/-- **What a seat is told over an interval in which it is never left.** -/
theorem inbox_of_run (h : (machine Seat Text shown).Run r es r') (hi : i ∈ r.present)
    (hleave : ∀ e ∈ es, e ≠ .leave i) :
    r'.inbox i = r.inbox i ++ toldTo shown i r.name es := by
  induction h with
  | nil r => exact (List.append_nil _).symm
  | @cons r _ _ e _ hstep _ ih =>
      obtain ⟨-, rfl⟩ := step_iff.mp hstep
      obtain ⟨news, hinbox, htells⟩ := exists_tells shown r i e
      rw [ih (mem_present_step hi (hleave e List.mem_cons_self))
        fun e' he' => hleave e' (List.mem_cons_of_mem _ he')]
      rw [hinbox, htells.eq_told hi, name_step, toldTo, List.append_assoc]

/-- **What a seat was told was said by somebody**, under the name the speaker's seat carried
then. -/
theorem mem_inbox_of_run {blank name text : Text}
    (h : (machine Seat Text shown).Run (.initial blank) es r) (hmem : .said name text ∈ r.inbox i) :
    ∃ before j after, es = before ++ .say j text :: after ∧
      name = names shown (fun _ => blank) before j := by
  refine h.history_induction (P := fun es r => .said name text ∈ r.inbox i →
    ∃ before j after, es = before ++ .say j text :: after ∧
      name = names shown (fun _ => blank) before j) ?_ ?_ hmem
  · intro hmem
    exact absurd hmem List.not_mem_nil
  · intro es r e t hrun ih hstep hmem
    obtain ⟨-, rfl⟩ := step_iff.mp hstep
    obtain ⟨news, hinbox, htells⟩ := exists_tells shown r i e
    rw [hinbox, List.mem_append] at hmem
    rcases hmem with hmem | hmem
    · obtain ⟨before, j, after, rfl, hname⟩ := ih hmem
      exact ⟨before, j, after ++ [e], by simp, hname⟩
    · cases e with
      | enter j => exact absurd hmem (by rw [htells]; exact List.not_mem_nil)
      | leave j => exact absurd hmem (by rw [htells]; exact List.not_mem_nil)
      | signIn j new =>
          rcases htells with ⟨-, rfl⟩ | ⟨-, rfl⟩
          · cases List.mem_singleton.mp hmem
          · exact absurd hmem List.not_mem_nil
      | say j said =>
          rcases htells with ⟨-, rfl⟩ | ⟨-, rfl⟩
          · obtain ⟨rfl, rfl⟩ := Message.said.inj (List.mem_singleton.mp hmem)
            exact ⟨es, j, [], rfl, congrFun (name_of_run hrun) j⟩
          · exact absurd hmem List.not_mem_nil

end Room
