import Mathlib.Data.List.Infix
import Mathlib.Tactic.Common

/-!
# Conduits

A conduit is a row of queues. What is put in at its entrance is passed on from queue to queue
and taken out at its exit, and the end of the input follows it on the same way. From the
outside a conduit is a single queue, as long as nobody on the way gives up; and if somebody
does, what is taken out is still the beginning of what was put in.
-/

namespace Conduit

/-- A queue, and whether the end of the input has come to it. -/
structure Queue (α : Type) where
  held : List α
  closed : Bool
  deriving DecidableEq

/-- What happens to a conduit. Its queues are counted from the entrance. -/
inductive Act (α : Type) where
  /-- Items are put in at the entrance. -/
  | put (items : List α)
  /-- The input ends. -/
  | close
  /-- The first items of a queue are passed on to the next one. -/
  | pass (i n : ℕ)
  /-- The end of the input is passed on from a queue that is through. -/
  | finish (i : ℕ)
  /-- A queue is given up: what it holds stays there, and the next one is ended. -/
  | abandon (i : ℕ)
  /-- Items are taken out at the exit. -/
  | take (items : List α)
  /-- The end of the input is found at the exit. -/
  | eof
  deriving DecidableEq

/-- What can be seen from outside. -/
def Act.visible {α : Type} : Act α → Bool
  | put _ | close | take _ | eof => true
  | pass _ _ | finish _ | abandon _ => false

/-- A queue is given up. -/
def Act.gives {α : Type} : Act α → Bool
  | abandon _ => true
  | _ => false

/-- The same behind one more queue. -/
def Act.shift {α : Type} : Act α → Act α
  | pass i n => pass (i + 1) n
  | finish i => finish (i + 1)
  | abandon i => abandon (i + 1)
  | a => a

@[simp] theorem Act.visible_shift {α : Type} (a : Act α) : a.shift.visible = a.visible := by
  cases a <;> rfl

@[simp] theorem Act.gives_shift {α : Type} (a : Act α) : a.shift.gives = a.gives := by
  cases a <;> rfl

/-- What an action puts in. -/
def Act.input {α : Type} : Act α → List α
  | put items => items
  | _ => []

/-- What an action takes out. -/
def Act.output {α : Type} : Act α → List α
  | take items => items
  | _ => []

variable {α : Type}

/-- Something happens to the `i`-th queue and the next one. -/
def atHop (f : Queue α → Queue α → Option (Queue α × Queue α)) :
    ℕ → List (Queue α) → Option (List (Queue α))
  | 0, q :: r :: rest => (f q r).map fun p => p.1 :: p.2 :: rest
  | i + 1, q :: rest => (atHop f i rest).map (q :: ·)
  | _, _ => none

/-- Pass on some items. -/
def passOn (n : ℕ) (q r : Queue α) : Option (Queue α × Queue α) :=
  if 0 < n ∧ n ≤ q.held.length ∧ r.closed = false then
    some (⟨q.held.drop n, q.closed⟩, ⟨r.held ++ q.held.take n, r.closed⟩)
  else none

/-- Pass on the end of the input. -/
def finishHop (q r : Queue α) : Option (Queue α × Queue α) :=
  if q.held.isEmpty ∧ q.closed = true ∧ r.closed = false then some (q, ⟨r.held, true⟩) else none

/-- Give up on a queue. -/
def abandonHop (q r : Queue α) : Option (Queue α × Queue α) :=
  if r.closed = false then some (q, ⟨r.held, true⟩) else none

/-- Something happens to the first queue. -/
def atEntrance (f : Queue α → Queue α) : List (Queue α) → Option (List (Queue α))
  | q :: rest => if q.closed then none else some (f q :: rest)
  | [] => none

/-- The last queue. -/
def outlet : List (Queue α) → Queue α
  | [] => ⟨[], false⟩
  | [q] => q
  | _ :: r :: rest => outlet (r :: rest)

/-- The last queue is through. -/
def atEnd (c : List (Queue α)) : Bool := (outlet c).closed && (outlet c).held.isEmpty

section Exit

variable [DecidableEq α]

/-- Items are taken out of the last queue. -/
def takeOut (items : List α) : List (Queue α) → Option (List (Queue α))
  | [] => none
  | [q] => if items <+: q.held then some [⟨q.held.drop items.length, q.closed⟩] else none
  | q :: r :: rest => (takeOut items (r :: rest)).map (q :: ·)

/-- A conduit after an action, if it is possible. -/
def step (c : List (Queue α)) : Act α → Option (List (Queue α))
  | .put items => atEntrance (fun q => ⟨q.held ++ items, q.closed⟩) c
  | .close => atEntrance (fun q => ⟨q.held, true⟩) c
  | .pass i n => atHop (passOn n) i c
  | .finish i => atHop finishHop i c
  | .abandon i => atHop abandonHop i c
  | .take items => takeOut items c
  | .eof => if atEnd c then some c else none

/-- A conduit after some actions, if all of them are possible. -/
def run (c : List (Queue α)) (acts : List (Act α)) : Option (List (Queue α)) := acts.foldlM step c

end Exit

/-- All that a conduit holds, in the order in which it comes out. -/
def contents : List (Queue α) → List α
  | [] => []
  | q :: rest => contents rest ++ q.held

/-- Whether the input of a conduit has ended. -/
def ended : List (Queue α) → Bool
  | [] => false
  | q :: _ => q.closed

/-- A conduit as a single queue. -/
def whole (c : List (Queue α)) : Queue α := ⟨contents c, ended c⟩

/-- The end of the input has come to each queue only behind all of it. -/
def Orderly : List (Queue α) → Prop
  | [] => True
  | q :: rest => (ended rest = true → q.closed = true ∧ q.held = []) ∧ Orderly rest

/-- A conduit of so many hops that nothing was put into. -/
def fresh (n : ℕ) : List (Queue α) := List.replicate (n + 1) ⟨[], false⟩

theorem contents_eq_of_whole_eq {c c' : List (Queue α)} (h : whole c' = whole c) :
    contents c' = contents c := congrArg Queue.held h

theorem ended_eq_of_whole_eq {c c' : List (Queue α)} (h : whole c' = whole c) :
    ended c' = ended c := congrArg Queue.closed h

/-- What two queues next to each other can do. -/
structure Passes (q r q' r' : Queue α) : Prop where
  contents : r'.held ++ q'.held = r.held ++ q.held
  closed : q'.closed = q.closed
  still : r.closed = false

theorem passes_of_passOn {n : ℕ} {q r q' r' : Queue α} (h : passOn n q r = some (q', r')) :
    Passes q r q' r' ∧ r'.closed = false := by
  unfold passOn at h
  split at h
  · next hn =>
    obtain ⟨rfl, rfl⟩ := Prod.mk.inj (Option.some.inj h)
    exact ⟨⟨by simp [List.append_assoc], rfl, hn.2.2⟩, hn.2.2⟩
  · cases h

theorem passes_of_finishHop {q r q' r' : Queue α} (h : finishHop q r = some (q', r')) :
    Passes q r q' r' ∧ q'.closed = true ∧ q'.held = [] := by
  unfold finishHop at h
  split at h
  · next hq =>
    obtain ⟨rfl, rfl⟩ := Prod.mk.inj (Option.some.inj h)
    exact ⟨⟨rfl, rfl, hq.2.2⟩, hq.2.1, List.isEmpty_iff.mp hq.1⟩
  · cases h

theorem passes_of_abandonHop {q r q' r' : Queue α} (h : abandonHop q r = some (q', r')) :
    Passes q r q' r' := by
  unfold abandonHop at h
  split at h
  · next hr =>
    obtain ⟨rfl, rfl⟩ := Prod.mk.inj (Option.some.inj h)
    exact ⟨rfl, rfl, hr⟩
  · cases h

section Hops

variable {f : Queue α → Queue α → Option (Queue α × Queue α)} {i : ℕ} {c c' : List (Queue α)}

/-- What happens between two queues leaves all that the conduit holds, and its input. -/
theorem whole_atHop (hf : ∀ q r q' r', f q r = some (q', r') → Passes q r q' r')
    (h : atHop f i c = some c') : whole c' = whole c := by
  induction c generalizing i c' with
  | nil => cases i <;> cases h
  | cons q rest ih =>
    cases i with
    | zero =>
      cases rest with
      | nil => cases h
      | cons r rest =>
        obtain ⟨⟨q', r'⟩, hpair, rfl⟩ := Option.map_eq_some_iff.mp h
        have hpasses := hf q r q' r' hpair
        simp only [whole, contents, ended, List.append_assoc, hpasses.contents, hpasses.closed]
    | succ i =>
      obtain ⟨rest', hrest, rfl⟩ := Option.map_eq_some_iff.mp h
      simp only [whole, contents, ended, contents_eq_of_whole_eq (ih hrest)]

/-- What happens between two queues keeps a conduit orderly, if the end of the input is passed on
behind all of it. -/
theorem orderly_atHop
    (hf : ∀ q r q' r', f q r = some (q', r') →
      Passes q r q' r' ∧ (r'.closed = true → q'.closed = true ∧ q'.held = []))
    (h : atHop f i c = some c') (hc : Orderly c) : Orderly c' := by
  induction c generalizing i c' with
  | nil => cases i <;> cases h
  | cons q rest ih =>
    cases i with
    | zero =>
      cases rest with
      | nil => cases h
      | cons r rest =>
        obtain ⟨⟨q', r'⟩, hpair, rfl⟩ := Option.map_eq_some_iff.mp h
        obtain ⟨hpasses, hfollows⟩ := hf q r q' r' hpair
        obtain ⟨-, hr, hrest⟩ := hc
        refine ⟨hfollows, fun hended => ?_, hrest⟩
        -- The queue behind cannot have been ended before this one.
        have hclosed := (hr hended).1
        rw [hpasses.still] at hclosed
        cases hclosed
    | succ i =>
      obtain ⟨rest', hrest, rfl⟩ := Option.map_eq_some_iff.mp h
      have hwhole := whole_atHop (fun q r q' r' hpair => (hf q r q' r' hpair).1) hrest
      refine ⟨fun hended => hc.1 ?_, ih hrest hc.2⟩
      rw [← ended_eq_of_whole_eq hwhole]
      exact hended

/-- What happens between two queues happens in front of others too. -/
theorem atHop_append (h : atHop f i c = some c') (post : List (Queue α)) :
    atHop f i (c ++ post) = some (c' ++ post) := by
  induction c generalizing i c' with
  | nil => cases i <;> cases h
  | cons q rest ih =>
    cases i with
    | zero =>
      cases rest with
      | nil => cases h
      | cons r rest =>
        obtain ⟨⟨q', r'⟩, hpair, rfl⟩ := Option.map_eq_some_iff.mp h
        simp only [List.cons_append, atHop, hpair, Option.map_some]
    | succ i =>
      obtain ⟨rest', hrest, rfl⟩ := Option.map_eq_some_iff.mp h
      simp only [List.cons_append, atHop, ih hrest, Option.map_some]

end Hops

section Ends

variable {c c' : List (Queue α)}

/-- Nothing happens at the entrance once the input has ended. -/
theorem whole_atEntrance {f : Queue α → Queue α} (h : atEntrance f c = some c') :
    ∃ q rest, c = q :: rest ∧ c' = f q :: rest ∧ q.closed = false := by
  cases c with
  | nil => cases h
  | cons q rest =>
    simp only [atEntrance] at h
    split at h
    · cases h
    · next hclosed =>
      exact ⟨q, rest, rfl, (Option.some.inj h).symm, Bool.eq_false_iff.mpr hclosed⟩

/-- What happens at the entrance keeps a conduit orderly. -/
theorem orderly_atEntrance {f : Queue α → Queue α} (h : atEntrance f c = some c')
    (hc : Orderly c) : Orderly c' := by
  obtain ⟨q, rest, rfl, rfl, hclosed⟩ := whole_atEntrance h
  refine ⟨fun hended => ?_, hc.2⟩
  rw [(hc.1 hended).1] at hclosed
  cases hclosed

theorem outlet_cons {q : Queue α} (hne : c ≠ []) : outlet (q :: c) = outlet c := by
  cases c with
  | nil => exact (hne rfl).elim
  | cons r rest => rfl

/-- When the end of the input has come to the last queue of an orderly conduit, that holds all that
is left. -/
theorem whole_of_closed (h : (outlet c).closed = true) (hc : Orderly c) :
    whole c = ⟨(outlet c).held, true⟩ := by
  induction c with
  | nil => cases h
  | cons q rest ih =>
    cases rest with
    | nil => exact congrArg (Queue.mk q.held) h
    | cons r rest =>
      have hwhole := ih h hc.2
      obtain ⟨hclosed, hheld⟩ := hc.1 (congrArg Queue.closed hwhole)
      have hrest : contents (r :: rest) = (outlet (r :: rest)).held := congrArg Queue.held hwhole
      rw [whole, contents, hrest, hheld, List.append_nil, ended, hclosed]
      rfl

/-- At the end of an orderly conduit nothing is left in it, and its input has ended. -/
theorem whole_of_atEnd (h : atEnd c = true) (hc : Orderly c) : whole c = ⟨[], true⟩ := by
  obtain ⟨hclosed, hheld⟩ := Bool.and_eq_true_iff.mp h
  rw [whole_of_closed hclosed hc, List.isEmpty_iff.mp hheld]

theorem contents_fresh (n : ℕ) : contents (fresh n : List (Queue α)) = [] := by
  induction n with
  | zero => rfl
  | succ n ih => exact (List.append_nil _).trans ih

theorem orderly_fresh (n : ℕ) : Orderly (fresh n : List (Queue α)) := by
  induction n with
  | zero => exact ⟨nofun, trivial⟩
  | succ n ih => exact ⟨nofun, ih⟩

variable [DecidableEq α]

theorem takeOut_cons {q : Queue α} (items : List α) (hne : c ≠ []) :
    takeOut items (q :: c) = (takeOut items c).map (q :: ·) := by
  cases c with
  | nil => exact (hne rfl).elim
  | cons r rest => rfl

/-- What is taken out comes first in all that the conduit holds. -/
theorem contents_takeOut {items : List α} (h : takeOut items c = some c') :
    contents c = items ++ contents c' ∧ ended c' = ended c := by
  induction c generalizing c' with
  | nil => cases h
  | cons q rest ih =>
    cases rest with
    | nil =>
      simp only [takeOut] at h
      split at h
      · next hprefix =>
        obtain rfl := Option.some.inj h
        obtain ⟨rest, hrest⟩ := hprefix
        refine ⟨?_, rfl⟩
        simp only [contents, List.nil_append, ← hrest, List.drop_left]
      · cases h
    | cons r rest =>
      obtain ⟨rest', hrest, rfl⟩ := Option.map_eq_some_iff.mp h
      obtain ⟨hcontents, -⟩ := ih hrest
      refine ⟨?_, rfl⟩
      rw [contents, hcontents, List.append_assoc, ← contents]

/-- Taking out keeps a conduit orderly. -/
theorem orderly_takeOut {items : List α} (h : takeOut items c = some c') (hc : Orderly c) :
    Orderly c' := by
  induction c generalizing c' with
  | nil => cases h
  | cons q rest ih =>
    cases rest with
    | nil =>
      simp only [takeOut] at h
      split at h
      · obtain rfl := Option.some.inj h
        exact ⟨nofun, trivial⟩
      · cases h
    | cons r rest =>
      obtain ⟨rest', hrest, rfl⟩ := Option.map_eq_some_iff.mp h
      refine ⟨fun hended => hc.1 ?_, ih hrest hc.2⟩
      rw [← (contents_takeOut hrest).2]
      exact hended

end Ends

section Runs

variable [DecidableEq α] {c c' : List (Queue α)} {a : Act α} {acts : List (Act α)}

/-- What cannot be seen leaves all that a conduit holds, and its input. -/
theorem whole_of_hidden (h : step c a = some c') (ha : a.visible = false) :
    whole c' = whole c := by
  cases a with
  | pass i n => exact whole_atHop (fun _ _ _ _ hpair => (passes_of_passOn hpair).1) h
  | finish i => exact whole_atHop (fun _ _ _ _ hpair => (passes_of_finishHop hpair).1) h
  | abandon i => exact whole_atHop (fun _ _ _ _ hpair => passes_of_abandonHop hpair) h
  | put _ | close | take _ | eof => cases ha

/-- Who finds the end of the input changes nothing. -/
theorem step_eof (h : step c .eof = some c') : atEnd c = true ∧ c' = c := by
  simp only [step] at h
  split at h
  · next hend => exact ⟨hend, (Option.some.inj h).symm⟩
  · cases h

/-- Nothing is lost or made up in a step. -/
theorem contents_step (h : step c a = some c') :
    a.output ++ contents c' = contents c ++ a.input := by
  cases a with
  | put items =>
    obtain ⟨q, rest, rfl, rfl, -⟩ := whole_atEntrance h
    simp only [Act.output, Act.input, contents, List.nil_append, List.append_assoc]
  | close =>
    obtain ⟨q, rest, rfl, rfl, -⟩ := whole_atEntrance h
    simp only [Act.output, Act.input, contents, List.nil_append, List.append_nil]
  | pass _ _ | finish _ | abandon _ =>
    have hcontents := contents_eq_of_whole_eq (whole_of_hidden h rfl)
    simp only [Act.output, Act.input, hcontents, List.nil_append, List.append_nil]
  | take items =>
    rw [(contents_takeOut h).1]
    exact (List.append_nil _).symm
  | eof =>
    obtain ⟨-, rfl⟩ := step_eof h
    simp only [Act.output, Act.input, List.nil_append, List.append_nil]

/-- The input stays ended, and nothing is put in then. -/
theorem input_of_ended (h : step c a = some c') (hc : ended c = true) :
    a.input = [] ∧ ended c' = true := by
  cases a with
  | put _ | close =>
    obtain ⟨q, rest, rfl, -, hclosed⟩ := whole_atEntrance h
    exact absurd hc (by simp [ended, hclosed])
  | pass _ _ | finish _ | abandon _ =>
    exact ⟨rfl, (ended_eq_of_whole_eq (whole_of_hidden h rfl)).trans hc⟩
  | take items => exact ⟨rfl, (contents_takeOut h).2.trans hc⟩
  | eof =>
    obtain ⟨-, rfl⟩ := step_eof h
    exact ⟨rfl, hc⟩

/-- A conduit stays orderly while nobody gives up. -/
theorem orderly_step (h : step c a = some c') (ha : a.gives = false) (hc : Orderly c) :
    Orderly c' := by
  cases a with
  | put items => exact orderly_atEntrance h hc
  | close => exact orderly_atEntrance h hc
  | pass i n =>
    refine orderly_atHop (fun q r q' r' hpair => ?_) h hc
    obtain ⟨hpasses, hopen⟩ := passes_of_passOn hpair
    exact ⟨hpasses, fun hclosed => absurd hclosed (by simp [hopen])⟩
  | finish i =>
    refine orderly_atHop (fun q r q' r' hpair => ?_) h hc
    obtain ⟨hpasses, hthrough⟩ := passes_of_finishHop hpair
    exact ⟨hpasses, fun _ => hthrough⟩
  | abandon i => cases ha
  | take items => exact orderly_takeOut h hc
  | eof => exact (step_eof h).2 ▸ hc

/-- A step of a conduit in which nobody gives up is one of a single queue, or cannot be seen. -/
theorem step_whole (h : step c a = some c') (ha : a.gives = false) (hc : Orderly c) :
    if a.visible then step [whole c] a = some [whole c'] else whole c' = whole c := by
  cases a with
  | put items =>
    obtain ⟨q, rest, rfl, rfl, hclosed⟩ := whole_atEntrance h
    simp [Act.visible, step, atEntrance, whole, contents, ended, hclosed]
  | close =>
    obtain ⟨q, rest, rfl, rfl, hclosed⟩ := whole_atEntrance h
    simp [Act.visible, step, atEntrance, whole, contents, ended, hclosed]
  | pass _ _ | finish _ => exact whole_of_hidden h rfl
  | abandon i => cases ha
  | take items =>
    obtain ⟨hcontents, hended⟩ := contents_takeOut h
    simp [Act.visible, step, takeOut, whole, hcontents, hended]
  | eof =>
    obtain ⟨hend, rfl⟩ := step_eof h
    simp [Act.visible, step, atEnd, outlet, whole_of_atEnd hend hc]

/-- What is put in in some actions. -/
def inputs (acts : List (Act α)) : List α := acts.flatMap Act.input

/-- What is taken out in some actions. -/
def outputs (acts : List (Act α)) : List α := acts.flatMap Act.output

theorem run_cons : run c (a :: acts) = some c' ↔
    ∃ d, step c a = some d ∧ run d acts = some c' := by
  rw [run, List.foldlM_cons]
  exact Option.bind_eq_some_iff

theorem run_append {acts' : List (Act α)} : run c (acts ++ acts') = some c' ↔
    ∃ d, run c acts = some d ∧ run d acts' = some c' := by
  rw [run, List.foldlM_append]
  exact Option.bind_eq_some_iff

/-- Nothing is lost or made up in a run. -/
theorem contents_run (h : run c acts = some c') :
    outputs acts ++ contents c' = contents c ++ inputs acts := by
  induction acts generalizing c with
  | nil =>
    obtain rfl := Option.some.inj h
    exact (List.append_nil _).symm
  | cons a acts ih =>
    obtain ⟨d, hstep, hrun⟩ := run_cons.mp h
    calc outputs (a :: acts) ++ contents c'
        = a.output ++ (outputs acts ++ contents c') := by
          simp only [outputs, List.flatMap_cons, List.append_assoc]
      _ = (a.output ++ contents d) ++ inputs acts := by rw [ih hrun, List.append_assoc]
      _ = contents c ++ inputs (a :: acts) := by
          rw [contents_step hstep, List.append_assoc, inputs, inputs, List.flatMap_cons]

/-- A conduit stays orderly in a run in which nobody gives up. -/
theorem orderly_run (h : run c acts = some c') (ha : ∀ a ∈ acts, a.gives = false)
    (hc : Orderly c) : Orderly c' := by
  induction acts generalizing c with
  | nil => exact Option.some.inj h ▸ hc
  | cons a acts ih =>
    obtain ⟨d, hstep, hrun⟩ := run_cons.mp h
    obtain ⟨hfirst, hrest⟩ := List.forall_mem_cons.mp ha
    exact ih hrun hrest (orderly_step hstep hfirst hc)

/-- From the outside, a conduit in which nobody gives up is a single queue: what can be seen of a
run is a run of that queue. -/
theorem run_whole (h : run c acts = some c') (ha : ∀ a ∈ acts, a.gives = false)
    (hc : Orderly c) : run [whole c] (acts.filter Act.visible) = some [whole c'] := by
  induction acts generalizing c with
  | nil =>
    obtain rfl := Option.some.inj h
    rfl
  | cons a acts ih =>
    obtain ⟨d, hstep, hrun⟩ := run_cons.mp h
    obtain ⟨hfirst, hrest⟩ := List.forall_mem_cons.mp ha
    have hwhole := step_whole hstep hfirst hc
    have hlater := ih hrun hrest (orderly_step hstep hfirst hc)
    split at hwhole
    · next hvisible =>
      rw [List.filter_cons_of_pos hvisible]
      exact run_cons.mpr ⟨_, hwhole, hlater⟩
    · next hvisible =>
      rwa [List.filter_cons_of_neg hvisible, ← hwhole]

/-- After the end of the input nothing is put in. -/
theorem inputs_of_ended (h : run c acts = some c') (hc : ended c = true) : inputs acts = [] := by
  induction acts generalizing c with
  | nil => rfl
  | cons a acts ih =>
    obtain ⟨d, hstep, hrun⟩ := run_cons.mp h
    obtain ⟨hinput, hended⟩ := input_of_ended hstep hc
    rw [inputs, List.flatMap_cons, hinput, List.nil_append, ← inputs, ih hrun hended]

/-- Only closing ends the input. -/
theorem ended_step (h : step c a = some c') (hc : ended c' = true) :
    a = .close ∨ ended c = true := by
  cases a with
  | put items =>
    obtain ⟨q, rest, rfl, rfl, -⟩ := whole_atEntrance h
    exact Or.inr hc
  | close => exact Or.inl rfl
  | pass _ _ | finish _ | abandon _ =>
    exact Or.inr ((ended_eq_of_whole_eq (whole_of_hidden h rfl)).symm.trans hc)
  | take items => exact Or.inr ((contents_takeOut h).2.symm.trans hc)
  | eof =>
    obtain ⟨-, rfl⟩ := step_eof h
    exact Or.inr hc

/-- An input that has ended was closed. -/
theorem close_of_ended (h : run c acts = some c') (hc : ended c' = true) :
    Act.close ∈ acts ∨ ended c = true := by
  induction acts generalizing c with
  | nil =>
    obtain rfl := Option.some.inj h
    exact Or.inr hc
  | cons a acts ih =>
    obtain ⟨d, hstep, hrun⟩ := run_cons.mp h
    rcases ih hrun with hmem | hd
    · exact Or.inl (List.mem_cons_of_mem _ hmem)
    · rcases ended_step hstep hd with rfl | hfirst
      · exact Or.inl List.mem_cons_self
      · exact Or.inr hfirst

/-- Once the end of the input has come to the last queue, all of it is there or taken out. -/
theorem outputs_of_closed (h : run c acts = some c') (ha : ∀ a ∈ acts, a.gives = false)
    (hc : Orderly c) (hclosed : (outlet c').closed = true) :
    outputs acts ++ (outlet c').held = contents c ++ inputs acts := by
  have hwhole := whole_of_closed hclosed (orderly_run h ha hc)
  rw [← contents_run h]
  exact congrArg (outputs acts ++ ·) (congrArg Queue.held hwhole).symm

/-- Who finds the end of the input has taken out all of it. -/
theorem outputs_of_eof (h : run c acts = some c') (ha : ∀ a ∈ acts, a.gives = false)
    (hc : Orderly c) (heof : Act.eof ∈ acts) : outputs acts = contents c ++ inputs acts := by
  obtain ⟨before, after, rfl⟩ := List.append_of_mem heof
  obtain ⟨d, hbefore, hrun⟩ := run_append.mp h
  obtain ⟨d', hstep, hafter⟩ := run_cons.mp hrun
  have horderly := orderly_run hbefore (fun a hmem => ha a (List.mem_append_left _ hmem)) hc
  obtain ⟨hend, rfl⟩ := step_eof hstep
  have hwhole := whole_of_atEnd hend horderly
  have hempty : contents d' = [] := congrArg Queue.held hwhole
  -- Behind the end nothing is put in, so nothing comes out any more.
  have hnone := inputs_of_ended hafter (congrArg Queue.closed hwhole)
  have hrest := contents_run hafter
  rw [hnone, hempty, List.append_nil] at hrest
  have htaken := contents_run hbefore
  rw [hempty, List.append_nil] at htaken
  have hout : outputs (before ++ .eof :: after) = outputs before := by
    rw [outputs, List.flatMap_append, List.flatMap_cons, ← outputs, ← outputs,
      (List.append_eq_nil_iff.mp hrest).1]
    simp [Act.output]
  have hin : inputs (before ++ .eof :: after) = inputs before := by
    rw [inputs, List.flatMap_append, List.flatMap_cons, ← inputs, ← inputs, hnone]
    simp [Act.input]
  rw [hout, hin, htaken]

/-- What cannot be seen of a part of a conduit happens in front of further queues too. -/
theorem run_append_post (h : run c acts = some c') (ha : ∀ a ∈ acts, a.visible = false)
    (post : List (Queue α)) : run (c ++ post) acts = some (c' ++ post) := by
  induction acts generalizing c with
  | nil =>
    obtain rfl := Option.some.inj h
    rfl
  | cons a acts ih =>
    obtain ⟨d, hstep, hrun⟩ := run_cons.mp h
    obtain ⟨hfirst, hrest⟩ := List.forall_mem_cons.mp ha
    refine run_cons.mpr ⟨d ++ post, ?_, ih hrun hrest⟩
    cases a with
    | pass i n => exact atHop_append hstep post
    | finish i => exact atHop_append hstep post
    | abandon i => exact atHop_append hstep post
    | put _ | close | take _ | eof => cases hfirst

/-- What cannot be seen of a part of a conduit happens behind a further queue too. -/
theorem run_shift (h : run c acts = some c') (ha : ∀ a ∈ acts, a.visible = false) (q : Queue α) :
    run (q :: c) (acts.map Act.shift) = some (q :: c') := by
  induction acts generalizing c with
  | nil =>
    obtain rfl := Option.some.inj h
    rfl
  | cons a acts ih =>
    obtain ⟨d, hstep, hrun⟩ := run_cons.mp h
    obtain ⟨hfirst, hrest⟩ := List.forall_mem_cons.mp ha
    refine run_cons.mpr ⟨q :: d, ?_, ih hrun hrest⟩
    cases a with
    | pass _ _ | finish _ | abandon _ =>
      simp only [step] at hstep
      simp only [Act.shift, step, atHop, hstep, Option.map_some]
    | put _ | close | take _ | eof => cases hfirst

/-- What comes out of a conduit is the beginning of what was put in, even if somebody gave up. -/
theorem outputs_isPrefix {n : ℕ} (h : run (fresh n) acts = some c') :
    outputs acts <+: inputs acts := by
  have hcontents := contents_run h
  rw [contents_fresh, List.nil_append] at hcontents
  exact ⟨_, hcontents⟩

end Runs

end Conduit
