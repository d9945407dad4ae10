import Mathlib.Logic.Function.Basic
import Mathlib.Tactic.Common
import Devcroft.Library.Interleaving

/-!
# Funnels

Several threads send messages into one bounded queue, which one receiver empties. A thread has at
most one message in hand, and waits with it as long as the queue is full. The messages of each
thread come out in the order in which it made them, none is lost or doubled while the receiver is
there, and the receiver finds the end once every thread has ended and the queue is empty.
-/

namespace Funneling

/-- Where a sending thread stands. -/
inductive Sender (α : Type) where
  | working
  /-- It has a message in hand. -/
  | holding (message : α)
  | ended
  deriving DecidableEq

/-- What a thread has in hand. -/
def Sender.held {α : Type} : Sender α → List α
  | holding message => [message]
  | _ => []

/-- The threads, and what is between them and the receiver. -/
structure Funnel (ι α : Type) where
  senders : ι → Sender α
  /-- The messages that wait, each with who sent it. -/
  queue : List (ι × α)
  /-- Whether the receiver is there. -/
  receiving : Bool

/-- What happens. -/
inductive Act (ι α : Type) where
  /-- A thread makes a message. -/
  | make (i : ι) (message : α)
  /-- A thread sends what it has in hand, and perhaps ends with it. -/
  | send (i : ι) (last : Bool)
  | stop (i : ι)
  | take
  /-- The receiver goes, and the messages that wait go with it. -/
  | drop
  deriving DecidableEq

section Stepping

variable {ι α : Type} [DecidableEq ι]

/-- The funnel with a thread elsewhere. -/
def Funnel.put (f : Funnel ι α) (i : ι) (sender : Sender α) : Funnel ι α :=
  { f with senders := Function.update f.senders i sender }

/-- One step, with room for so many messages. A send to a receiver that has gone fails, and the
thread ends. -/
def Funnel.step (capacity : ℕ) (f : Funnel ι α) : Act ι α → Option (Funnel ι α)
  | .make i message =>
    match f.senders i with
    | .working => some (f.put i (.holding message))
    | _ => none
  | .send i last =>
    match f.senders i with
    | .holding message =>
      if f.receiving then
        if f.queue.length < capacity then
          some { f.put i (if last then .ended else .working) with
            queue := f.queue ++ [(i, message)] }
        else none
      else some (f.put i .ended)
    | _ => none
  | .stop i =>
    match f.senders i with
    | .working => some (f.put i .ended)
    | _ => none
  | .take =>
    match f.queue with
    | [] => none
    | _ :: rest => some { f with queue := rest }
  | .drop => if f.receiving then some { f with queue := [], receiving := false } else none

/-- Nothing will come any more. -/
def Funnel.Finished (f : Funnel ι α) : Prop := f.queue = [] ∧ ∀ i, f.senders i = .ended

variable {capacity : ℕ} {f f' : Funnel ι α} {i : ι} {message : α}

@[simp] theorem Funnel.put_self (f : Funnel ι α) (i : ι) (sender : Sender α) :
    (f.put i sender).senders i = sender := Function.update_self ..

theorem Funnel.put_of_ne {j : ι} (h : j ≠ i) (sender : Sender α) :
    (f.put i sender).senders j = f.senders j := Function.update_of_ne h ..

@[simp] theorem Funnel.put_queue (f : Funnel ι α) (i : ι) (sender : Sender α) :
    (f.put i sender).queue = f.queue := rfl

@[simp] theorem Funnel.put_receiving (f : Funnel ι α) (i : ι) (sender : Sender α) :
    (f.put i sender).receiving = f.receiving := rfl

/-- What a step of a funnel does. -/
inductive FunnelStep (capacity : ℕ) (f : Funnel ι α) : Act ι α → Funnel ι α → Prop
  | make {i : ι} {message : α} (hworking : f.senders i = .working) :
    FunnelStep capacity f (.make i message) (f.put i (.holding message))
  | send {i : ι} {message : α} {last : Bool} (hholding : f.senders i = .holding message)
    (hreceiving : f.receiving = true) (hroom : f.queue.length < capacity) :
    FunnelStep capacity f (.send i last)
      { f.put i (if last then .ended else .working) with queue := f.queue ++ [(i, message)] }
  | fail {i : ι} {message : α} {last : Bool} (hholding : f.senders i = .holding message)
    (hreceiving : f.receiving = false) : FunnelStep capacity f (.send i last) (f.put i .ended)
  | stop {i : ι} (hworking : f.senders i = .working) :
    FunnelStep capacity f (.stop i) (f.put i .ended)
  | take {i : ι} {message : α} {rest : List (ι × α)} (hqueue : f.queue = (i, message) :: rest) :
    FunnelStep capacity f .take { f with queue := rest }
  | drop (hreceiving : f.receiving = true) :
    FunnelStep capacity f .drop { f with queue := [], receiving := false }

/-- Every step is one of these. -/
theorem Funnel.step_cases {a : Act ι α} (h : f.step capacity a = some f') :
    FunnelStep capacity f a f' := by
  cases a with
  | make i message =>
    rw [step] at h
    split at h
    · next hworking =>
      cases h
      exact .make hworking
    · cases h
  | send i last =>
    rw [step] at h
    split at h
    · next message hholding =>
      split at h
      · next hreceiving =>
        split at h
        · next hroom =>
          cases h
          exact .send hholding hreceiving hroom
        · cases h
      · next hreceiving =>
        cases h
        exact .fail hholding (Bool.eq_false_iff.mpr hreceiving)
    · cases h
  | stop i =>
    rw [step] at h
    split at h
    · next hworking =>
      cases h
      exact .stop hworking
    · cases h
  | take =>
    rw [step] at h
    split at h
    · cases h
    · next entry rest hqueue =>
      cases h
      exact .take hqueue
  | drop =>
    rw [step] at h
    split at h
    · next hreceiving =>
      cases h
      exact .drop hreceiving
    · cases h

/-- What is in hand can be sent, if there is room. -/
theorem Funnel.isSome_send (hholding : f.senders i = .holding message)
    (hroom : f.queue.length < capacity) (last : Bool) :
    (f.step capacity (.send i last)).isSome := by
  rw [step, hholding]
  dsimp only
  rw [if_pos hroom]
  split <;> rfl

/-- The thread that a step is of. -/
def Act.of? : Act ι α → Option ι
  | make i _ | send i _ | stop i => some i
  | take | drop => none

variable {a : Act ι α}

/-- The other threads stay where they are. -/
theorem FunnelStep.senders_of_ne (h : FunnelStep capacity f a f') {j : ι} (hj : a.of? ≠ some j) :
    f'.senders j = f.senders j := by
  cases h with
  | make | send | fail | stop => exact Funnel.put_of_ne (fun heq => hj (congrArg some heq.symm)) _
  | take | drop => rfl

/-- A thread that has ended does nothing more. -/
theorem FunnelStep.of?_ne (h : FunnelStep capacity f a f') {j : ι} (hj : f.senders j = .ended) :
    a.of? ≠ some j := by
  rintro heq
  cases h with
  | make hsender | send hsender | fail hsender | stop hsender =>
    cases heq
    cases hsender.symm.trans hj
  | take | drop => cases heq

theorem FunnelStep.ended (h : FunnelStep capacity f a f') {j : ι} (hj : f.senders j = .ended) :
    f'.senders j = .ended := by
  rw [h.senders_of_ne (h.of?_ne hj), hj]

/-- A receiver that has gone does not come back. -/
theorem FunnelStep.receiving (h : FunnelStep capacity f a f') (hthere : f'.receiving = true) :
    f.receiving = true := by
  cases h with
  | drop => cases hthere
  | make | send | fail | stop | take => exact hthere

end Stepping

section Taking

variable {ι α : Type}

/-- The messages that a step takes out. -/
def takes (f : Funnel ι α) : Act ι α → List (ι × α)
  | .take => f.queue.take 1
  | _ => []

/-- What has been taken out so far. -/
def taken (past : List (Funnel ι α × Act ι α)) : List (ι × α) :=
  past.flatMap fun p => takes p.1 p.2

@[simp] theorem taken_nil : taken ([] : List (Funnel ι α × Act ι α)) = [] := rfl

@[simp] theorem taken_append (past more : List (Funnel ι α × Act ι α)) :
    taken (past ++ more) = taken past ++ taken more := List.flatMap_append

@[simp] theorem taken_single (f : Funnel ι α) (a : Act ι α) : taken [(f, a)] = takes f a :=
  List.append_nil _

/-- Only a `take` takes. -/
theorem takes_of_ne {f : Funnel ι α} {a : Act ι α} (h : a ≠ .take) : takes f a = [] := by
  cases a with
  | take => exact (h rfl).elim
  | _ => rfl

end Taking

section Carrying

variable {ι α : Type} [DecidableEq ι]

/-- The messages of one thread. -/
def of (i : ι) (entries : List (ι × α)) : List α :=
  entries.filterMap fun entry => if entry.1 = i then some entry.2 else none

@[simp] theorem of_nil (i : ι) : of i ([] : List (ι × α)) = [] := rfl

@[simp] theorem of_append (i : ι) (entries more : List (ι × α)) :
    of i (entries ++ more) = of i entries ++ of i more := List.filterMap_append

@[simp] theorem of_single (i j : ι) (message : α) :
    of i [(j, message)] = if j = i then [message] else [] := by
  by_cases h : j = i <;> simp [of, h]

theorem mem_of_iff {i : ι} {message : α} {entries : List (ι × α)} :
    message ∈ of i entries ↔ (i, message) ∈ entries := by
  simp [of]

/-- The message that a step makes. -/
def Act.makes (i : ι) : Act ι α → List α
  | make j message => if j = i then [message] else []
  | _ => []

/-- What a thread has made so far. -/
def made (i : ι) (past : List (Funnel ι α × Act ι α)) : List α :=
  past.flatMap fun p => p.2.makes i

@[simp] theorem made_nil (i : ι) : made i ([] : List (Funnel ι α × Act ι α)) = [] := rfl

@[simp] theorem made_append (i : ι) (past more : List (Funnel ι α × Act ι α)) :
    made i (past ++ more) = made i past ++ made i more := List.flatMap_append

@[simp] theorem made_single (i : ι) (f : Funnel ι α) (a : Act ι α) :
    made i [(f, a)] = a.makes i := List.append_nil _

/-- The messages that have been taken out and those that wait are, thread by thread, what was made
before what is in hand. Nothing is taken out once the receiver is gone. -/
structure Carried (past : List (Funnel ι α × Act ι α)) (f : Funnel ι α) : Prop where
  whole : f.receiving = true →
    ∀ i, of i (taken past ++ f.queue) ++ (f.senders i).held = made i past
  begins : ∀ i, of i (taken past) <+: made i past
  gone : f.receiving = false → f.queue = []

variable {capacity : ℕ} {f f' : Funnel ι α} {past : List (Funnel ι α × Act ι α)} {a : Act ι α}

/-- A thread that has ended makes nothing more. -/
theorem FunnelStep.makes_of_ended (h : FunnelStep capacity f a f') {j : ι}
    (hj : f.senders j = .ended) : a.makes j = [] := by
  have hother := h.of?_ne hj
  cases a with
  | make i message => exact if_neg fun heq => hother (congrArg some heq)
  | _ => rfl

/-- At the beginning nothing has been made. -/
theorem carried_nil (hsenders : ∀ i, (f.senders i).held = []) (hqueue : f.queue = []) :
    Carried [] f := by
  refine ⟨fun _ i => ?_, fun i => List.nil_prefix, fun _ => hqueue⟩
  simp [hqueue, hsenders]

/-- What has been taken out is still a beginning after a step that takes nothing. -/
theorem Carried.begins_later (h : Carried past f) (ha : a ≠ .take) (i : ι) :
    of i (taken (past ++ [(f, a)])) <+: made i (past ++ [(f, a)]) := by
  rw [taken_append, taken_single, takes_of_ne ha, List.append_nil, made_append]
  exact (h.begins i).trans (List.prefix_append _ _)

/-- A thread makes a message or stops, and the others stay where they are. -/
theorem Carried.put (h : Carried past f) (ha : a ≠ .take) {i : ι} {sender : Sender α}
    (hother : ∀ j ≠ i, a.makes j = [])
    (hheld : (f.senders i).held ++ a.makes i = sender.held) :
    Carried (past ++ [(f, a)]) (f.put i sender) := by
  refine ⟨fun hreceiving j => ?_, h.begins_later ha, h.gone⟩
  have hwhole := h.whole hreceiving j
  rw [taken_append, taken_single, takes_of_ne ha, List.append_nil, made_append, made_single,
    Funnel.put_queue, ← hwhole, List.append_assoc]
  by_cases hj : j = i
  · subst hj
    rw [Funnel.put_self, hheld]
  · rw [Funnel.put_of_ne hj, hother j hj, List.append_nil]

/-- Every step keeps the messages. -/
theorem Carried.step (h : Carried past f) (hstep : FunnelStep capacity f a f') :
    Carried (past ++ [(f, a)]) f' := by
  cases hstep with
  | @make i message hworking =>
    apply h.put (by simp)
    · intro j hj
      exact if_neg (Ne.symm hj)
    · simp [hworking, Sender.held, Act.makes]
  | @send i message last hholding hreceiving hroom =>
    refine ⟨fun _ j => ?_, h.begins_later (by simp), fun hgone => ?_⟩
    · have hwhole := h.whole hreceiving j
      rw [taken_append, taken_single, takes_of_ne (by simp), List.append_nil, made_append,
        made_single]
      simp only [Act.makes, List.append_nil]
      rw [← hwhole, ← List.append_assoc, of_append, of_single]
      by_cases hj : j = i
      · subst hj
        rw [Funnel.put_self, hholding, if_pos rfl]
        cases last <;> simp [Sender.held]
      · rw [Funnel.put_of_ne hj, if_neg (Ne.symm hj), List.append_nil]
    · cases hreceiving.symm.trans hgone
  | @fail i message last hholding hreceiving =>
    refine ⟨fun hthere => ?_, h.begins_later (by simp), h.gone⟩
    cases hreceiving.symm.trans hthere
  | @stop i hworking =>
    apply h.put (by simp)
    · intro j hj
      rfl
    · rw [hworking]
      rfl
  | @take i message rest hqueue =>
    have hthere : f.receiving = true := by
      by_contra hgone
      rw [h.gone (Bool.eq_false_iff.mpr hgone)] at hqueue
      cases hqueue
    have htakes : takes f .take = [(i, message)] := by
      rw [takes, hqueue]
      rfl
    have hmoved : taken past ++ f.queue = taken (past ++ [(f, .take)]) ++ rest := by
      rw [taken_append, taken_single, htakes, hqueue, List.append_assoc]
      rfl
    have hwhole : ∀ j, of j (taken (past ++ [(f, .take)]) ++ rest) ++ (f.senders j).held =
        made j (past ++ [(f, .take)]) := by
      intro j
      rw [← hmoved, h.whole hthere j, made_append, made_single]
      exact (List.append_nil _).symm
    refine ⟨fun _ => hwhole, fun j => ?_, fun hgone => ?_⟩
    · rw [← hwhole j, of_append, List.append_assoc]
      exact List.prefix_append _ _
    · cases hthere.symm.trans hgone
  | drop hreceiving => exact ⟨nofun, h.begins_later (by simp), fun _ => rfl⟩

/-- Once everything of a thread has come through, it is what the thread has made. -/
theorem Carried.of_ended (h : Carried past f) (hreceiving : f.receiving = true)
    (hqueue : f.queue = []) {i : ι} (hended : f.senders i = .ended) :
    of i (taken past) = made i past := by
  have hwhole := h.whole hreceiving i
  rw [hqueue, hended, List.append_nil] at hwhole
  simpa only [Sender.held, List.append_nil] using hwhole

end Carrying

end Funneling
