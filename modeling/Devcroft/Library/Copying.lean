import Devcroft.Library.Conduit

/-!
# Copying threads

A thread that copies reads from one leg of a connection and writes what it has read to the next
leg, until its input ends or something fails; then it ends the next leg. Legs with such threads
between them are a conduit: what a thread has read and not yet written is a queue of its own.
-/

namespace Conduit

/-- How a thread copies. -/
structure Manner where
  /-- The most that one read returns, if there is a bound. -/
  size : Option ℕ
  /-- Whether it flushes what it has written before it reads on. -/
  flushes : Bool
  deriving DecidableEq

/-- Where a thread that copies is. -/
inductive Copier (α : Type) where
  | reading
  /-- With what it has still to write. -/
  | writing (rest : List α)
  | flushing
  /-- Behind its loop, with what it could not write. -/
  | stopped (lost : List α)
  /-- Behind the end of its output. -/
  | shut (lost : List α)
  deriving DecidableEq

/-- What a thread that copies does. -/
inductive CopyAct (α : Type) where
  | read (chunk : List α)
  /-- The input is found to have ended. -/
  | eof
  /-- The output takes this many of the items. -/
  | write (n : ℕ)
  | flush
  /-- The call that the thread is in fails. -/
  | fail
  /-- The output is ended. -/
  | shutdown
  deriving DecidableEq

variable {α : Type}

/-- What a thread has read and not written, and whether it has stopped. -/
def Copier.queue : Copier α → Queue α
  | reading => ⟨[], false⟩
  | writing rest => ⟨rest, false⟩
  | flushing => ⟨[], false⟩
  | stopped lost => ⟨lost, true⟩
  | shut lost => ⟨lost, true⟩

/-- Nothing was lost in a thread. -/
def Copier.Sound : Copier α → Prop
  | stopped lost => lost = []
  | shut lost => lost = []
  | _ => True

/-- A thread has ended its output. -/
def Copier.isShut : Copier α → Bool
  | shut _ => true
  | _ => false

/-- Where a thread goes on when this is left of what it has read. -/
def Manner.next (m : Manner) : List α → Copier α
  | [] => if m.flushes then .flushing else .reading
  | rest => .writing rest

/-- One read may return so much. -/
def Manner.Reads (m : Manner) (n : ℕ) : Prop := 0 < n ∧ ∀ size ∈ m.size, n ≤ size

instance (m : Manner) (n : ℕ) : Decidable (m.Reads n) :=
  inferInstanceAs (Decidable (0 < n ∧ ∀ size ∈ m.size, n ≤ size))

/-- A thread between two legs. -/
structure Hop (α : Type) where
  manner : Manner
  copier : Copier α
  /-- The leg behind it. -/
  leg : Queue α

/-- A connection over several legs. -/
structure Path (α : Type) where
  first : Queue α
  hops : List (Hop α)

/-- What happens on such a connection. -/
inductive PathAct (α : Type) where
  /-- The one end sends. -/
  | send (items : List α)
  /-- The one end ends its output. -/
  | close
  /-- A thread does something. -/
  | hop (i : ℕ) (a : CopyAct α)
  /-- The other end receives. -/
  | receive (items : List α)
  /-- The other end finds the end of its input. -/
  | eof
  deriving DecidableEq

/-- What can be seen from the ends. -/
def PathAct.seen : PathAct α → Option (Act α)
  | send items => some (.put items)
  | close => some .close
  | hop _ _ => none
  | receive items => some (.take items)
  | eof => some .eof

/-- A call of a thread fails. -/
def PathAct.fails : PathAct α → Bool
  | hop _ .fail => true
  | _ => false

/-- The queues of a connection. -/
def queues (leg : Queue α) : List (Hop α) → List (Queue α)
  | [] => [leg]
  | h :: rest => leg :: h.copier.queue :: queues h.leg rest

/-- A connection over threads of these manners that was just made. -/
def Path.start (manners : List Manner) : Path α :=
  ⟨⟨[], false⟩, manners.map fun m => ⟨m, .reading, ⟨[], false⟩⟩⟩

/-- The last leg. -/
def lastLeg : Queue α → List (Hop α) → Queue α
  | leg, [] => leg
  | _, h :: rest => lastLeg h.leg rest

section Steps

variable [DecidableEq α]

/-- A thread goes on, between its input and its output. -/
def Copier.step (m : Manner) (input : Queue α) (c : Copier α) (output : Queue α) :
    CopyAct α → Option (Queue α × Copier α × Queue α)
  | .read chunk =>
    match c with
    | .reading =>
      if chunk <+: input.held ∧ m.Reads chunk.length then
        some (⟨input.held.drop chunk.length, input.closed⟩, .writing chunk, output)
      else none
    | _ => none
  | .eof =>
    match c with
    | .reading =>
      if input.held.isEmpty ∧ input.closed = true then some (input, .stopped [], output) else none
    | _ => none
  | .write n =>
    match c with
    | .writing rest =>
      if 0 < n ∧ n ≤ rest.length ∧ output.closed = false then
        some (input, m.next (rest.drop n), ⟨output.held ++ rest.take n, output.closed⟩)
      else none
    | _ => none
  | .flush =>
    match c with
    | .flushing => some (input, .reading, output)
    | _ => none
  | .fail =>
    match c with
    | .reading | .flushing => some (input, .stopped [], output)
    | .writing rest => some (input, .stopped rest, output)
    | _ => none
  | .shutdown =>
    match c with
    | .stopped lost =>
      if output.closed = false then some (input, .shut lost, ⟨output.held, true⟩) else none
    | _ => none

/-- The `i`-th thread goes on. -/
def hopStep (a : CopyAct α) :
    ℕ → Queue α → List (Hop α) → Option (Queue α × List (Hop α))
  | 0, leg, h :: rest =>
    (h.copier.step h.manner leg h.leg a).map fun (leg', copier, out) =>
      (leg', ⟨h.manner, copier, out⟩ :: rest)
  | i + 1, leg, h :: rest =>
    (hopStep a i h.leg rest).map fun (out, rest') => (leg, ⟨h.manner, h.copier, out⟩ :: rest')
  | _, _, [] => none

/-- The other end receives. -/
def receiveLast (items : List α) : Queue α → List (Hop α) → Option (Queue α × List (Hop α))
  | leg, [] =>
    if items <+: leg.held then some (⟨leg.held.drop items.length, leg.closed⟩, []) else none
  | leg, h :: rest =>
    (receiveLast items h.leg rest).map fun (out, rest') =>
      (leg, ⟨h.manner, h.copier, out⟩ :: rest')

/-- A connection after an action, if it is possible. -/
def Path.step (p : Path α) : PathAct α → Option (Path α)
  | .send items =>
    if p.first.closed then none else some { p with first := ⟨p.first.held ++ items, false⟩ }
  | .close => if p.first.closed then none else some { p with first := ⟨p.first.held, true⟩ }
  | .hop i a => (hopStep a i p.first p.hops).map fun (leg, hops) => ⟨leg, hops⟩
  | .receive items => (receiveLast items p.first p.hops).map fun (leg, hops) => ⟨leg, hops⟩
  | .eof =>
    let leg := lastLeg p.first p.hops
    if leg.held.isEmpty ∧ leg.closed = true then some p else none

/-- A connection after some actions, if all of them are possible. -/
def Path.run (p : Path α) (acts : List (PathAct α)) : Option (Path α) := acts.foldlM Path.step p

end Steps

/-- The connection as a conduit. -/
def Path.conduit (p : Path α) : List (Queue α) := queues p.first p.hops

/-- Nothing was lost on a connection. -/
def Path.Sound (p : Path α) : Prop := ∀ h ∈ p.hops, h.copier.Sound

section Simulation

variable [DecidableEq α]

/-- Some actions on a conduit that cannot be seen bring it from one state to another, and if nobody
is to give up nobody does. -/
def Inner (c c' : List (Queue α)) (keeps : Prop) : Prop :=
  ∃ acts, run c acts = some c' ∧ (∀ a ∈ acts, a.visible = false) ∧
    (keeps → ∀ a ∈ acts, a.gives = false)

theorem Inner.refl (c : List (Queue α)) (keeps : Prop) : Inner c c keeps :=
  ⟨[], rfl, by simp, by simp⟩

theorem Inner.one {c c' : List (Queue α)} {keeps : Prop} {a : Act α} (h : step c a = some c')
    (hvisible : a.visible = false) (hgives : keeps → a.gives = false) : Inner c c' keeps :=
  ⟨[a], run_cons.mpr ⟨c', h, rfl⟩, by simpa using hvisible, by simpa using hgives⟩

theorem Inner.mono {c c' : List (Queue α)} {keeps keeps' : Prop} (h : Inner c c' keeps)
    (himp : keeps' → keeps) : Inner c c' keeps' := by
  obtain ⟨acts, hrun, hvisible, hgives⟩ := h
  exact ⟨acts, hrun, hvisible, fun hkeeps => hgives (himp hkeeps)⟩

theorem Inner.post {c c' : List (Queue α)} {keeps : Prop} (h : Inner c c' keeps)
    (post : List (Queue α)) : Inner (c ++ post) (c' ++ post) keeps := by
  obtain ⟨acts, hrun, hvisible, hgives⟩ := h
  exact ⟨acts, run_append_post hrun hvisible post, hvisible, hgives⟩

theorem Inner.shift {c c' : List (Queue α)} {keeps : Prop} (h : Inner c c' keeps) (q : Queue α) :
    Inner (q :: c) (q :: c') keeps := by
  obtain ⟨acts, hrun, hvisible, hgives⟩ := h
  refine ⟨acts.map Act.shift, run_shift hrun hvisible q, ?_, fun hkeeps => ?_⟩
  · simpa using hvisible
  · simpa using hgives hkeeps

end Simulation

section Threads

/-- Reading on, a thread holds what is left of what it has read. -/
theorem Manner.queue_next (m : Manner) (rest : List α) : (m.next rest).queue = ⟨rest, false⟩ := by
  unfold Manner.next
  split
  · split <;> rfl
  · rfl

theorem Manner.sound_next (m : Manner) (rest : List α) : (m.next rest).Sound := by
  unfold Manner.next
  split
  · split <;> trivial
  · trivial

/-- What a thread that copies can do. -/
inductive CopyStep (m : Manner) (q r : Queue α) :
    Copier α → CopyAct α → Queue α → Copier α → Queue α → Prop where
  | read {chunk : List α} (hchunk : chunk <+: q.held) (hreads : m.Reads chunk.length) :
      CopyStep m q r .reading (.read chunk) ⟨q.held.drop chunk.length, q.closed⟩ (.writing chunk) r
  | eof (hheld : q.held = []) (hclosed : q.closed = true) :
      CopyStep m q r .reading .eof q (.stopped []) r
  | write {n : ℕ} {rest : List α} (hpos : 0 < n) (hle : n ≤ rest.length)
      (hopen : r.closed = false) :
      CopyStep m q r (.writing rest) (.write n) q (m.next (rest.drop n))
        ⟨r.held ++ rest.take n, r.closed⟩
  | flush : CopyStep m q r .flushing .flush q .reading r
  | fail {c : Copier α} (hrunning : c.queue.closed = false) :
      CopyStep m q r c .fail q (.stopped c.queue.held) r
  | shutdown {lost : List α} (hopen : r.closed = false) :
      CopyStep m q r (.stopped lost) .shutdown q (.shut lost) ⟨r.held, true⟩

variable {m : Manner} {c c' : Copier α} {q r q' r' : Queue α} {a : CopyAct α}

/-- Nothing is lost by what does not fail. -/
theorem CopyStep.sound (h : CopyStep m q r c a q' c' r') (hc : c.Sound) (ha : a ≠ .fail) :
    c'.Sound := by
  cases h with
  | read => trivial
  | eof => rfl
  | write => exact m.sound_next _
  | flush => trivial
  | fail => exact (ha rfl).elim
  | shutdown => exact hc

theorem Manner.isShut_next (m : Manner) (rest : List α) : (m.next rest).isShut = false := by
  unfold Manner.next
  split
  · split <;> rfl
  · rfl

/-- A thread does not end its input, and ends its output when it is done. -/
theorem CopyStep.closed (h : CopyStep m q r c a q' c' r') :
    q'.closed = q.closed ∧ (r.closed = c.isShut → r'.closed = c'.isShut) := by
  cases h with
  | write hpos hle hopen => exact ⟨rfl, fun _ => hopen.trans (m.isShut_next _).symm⟩
  | @fail c hrunning =>
    refine ⟨rfl, fun hr => hr.trans ?_⟩
    cases c <;> first | rfl | cases hrunning
  | shutdown => exact ⟨rfl, fun _ => rfl⟩
  | _ => exact ⟨rfl, id⟩

/-- A thread that has ended its output does nothing more, and only so it comes to that. -/
theorem CopyStep.isShut (h : CopyStep m q r c a q' c' r') :
    c.isShut = false ∧ (c'.isShut = true ↔ a = .shutdown) := by
  cases h with
  | write => exact ⟨rfl, by simp [Manner.isShut_next]⟩
  | @fail c hrunning =>
    refine ⟨?_, by simp [Copier.isShut]⟩
    cases c <;> first | rfl | cases hrunning
  | _ => simp [Copier.isShut]

variable [DecidableEq α]

/-- Every step of a thread that copies is one of these. -/
theorem Copier.step_cases (h : c.step m q r a = some (q', c', r')) :
    CopyStep m q r c a q' c' r' := by
  cases a <;> cases c <;> simp only [Copier.step, reduceCtorEq] at h
  case read.reading chunk =>
    split at h
    · next hread =>
      obtain ⟨rfl, rfl, rfl⟩ := by simpa using h
      exact .read hread.1 hread.2
    · cases h
  case eof.reading =>
    split at h
    · next hend =>
      obtain ⟨rfl, rfl, rfl⟩ := by simpa using h
      exact .eof (List.isEmpty_iff.mp hend.1) hend.2
    · cases h
  case write.writing n rest =>
    split at h
    · next hwrite =>
      obtain ⟨rfl, rfl, rfl⟩ := by simpa using h
      exact .write hwrite.1 hwrite.2.1 hwrite.2.2
    · cases h
  case flush.flushing =>
    obtain ⟨rfl, rfl, rfl⟩ := by simpa using h
    exact .flush
  case shutdown.stopped lost =>
    split at h
    · next hopen =>
      obtain ⟨rfl, rfl, rfl⟩ := by simpa using h
      exact .shutdown hopen
    · cases h
  all_goals
    obtain ⟨rfl, rfl, rfl⟩ := by simpa using h
    exact .fail rfl

/-- What a thread does can be done in its part of the conduit. -/
theorem CopyStep.inner (h : CopyStep m q r c a q' c' r') :
    Inner [q, c.queue, r] [q', c'.queue, r'] (c.Sound ∧ a ≠ .fail) := by
  cases h with
  | @read chunk hchunk hreads =>
    refine .one (a := .pass 0 chunk.length) ?_ rfl fun _ => rfl
    have hheld : q.held.take chunk.length = chunk := (List.prefix_iff_eq_take.mp hchunk).symm
    have hpass : passOn chunk.length q ⟨[], false⟩ =
        some (⟨q.held.drop chunk.length, q.closed⟩, ⟨chunk, false⟩) := by
      rw [passOn, if_pos ⟨hreads.1, hchunk.length_le, rfl⟩, hheld, List.nil_append]
    simp only [step, atHop, Copier.queue, hpass, Option.map_some]
  | eof hheld hclosed =>
    refine .one (a := .finish 0) ?_ rfl fun _ => rfl
    simp [step, atHop, finishHop, Copier.queue, hheld, hclosed]
  | @write n rest hpos hle hopen =>
    refine .one (a := .pass 1 n) ?_ rfl fun _ => rfl
    have hpass : passOn n ⟨rest, false⟩ r =
        some (⟨rest.drop n, false⟩, ⟨r.held ++ rest.take n, r.closed⟩) := by
      rw [passOn, if_pos ⟨hpos, hle, hopen⟩]
    rw [Manner.queue_next]
    simp only [step, atHop, Copier.queue, hpass, Option.map_some]
  | flush => exact .refl _ _
  | fail hrunning =>
    refine .one (a := .abandon 0) ?_ rfl fun h => (h.2 rfl).elim
    have habandon : abandonHop q c.queue = some (q, ⟨c.queue.held, true⟩) := by
      rw [abandonHop, if_pos hrunning]
    simp only [step, atHop, habandon, Option.map_some]
    rfl
  | @shutdown lost hopen =>
    by_cases hlost : lost = []
    · subst hlost
      refine .one (a := .finish 1) ?_ rfl fun _ => rfl
      simp [step, atHop, finishHop, Copier.queue, hopen]
    · refine .one (a := .abandon 1) ?_ rfl fun h => (hlost h.1).elim
      simp [step, atHop, abandonHop, Copier.queue, hopen]

end Threads

section Paths

theorem queues_ne_nil (leg : Queue α) (hops : List (Hop α)) : queues leg hops ≠ [] := by
  cases hops <;> simp [queues]

/-- The last leg is where the conduit ends. -/
theorem outlet_queues (leg : Queue α) (hops : List (Hop α)) :
    outlet (queues leg hops) = lastLeg leg hops := by
  induction hops generalizing leg with
  | nil => rfl
  | cons hop rest ih =>
    rw [queues, outlet_cons (by simp), outlet_cons (queues_ne_nil _ _), ih, lastLeg]

variable [DecidableEq α] {leg leg' : Queue α} {hops hops' : List (Hop α)}

/-- Nothing was lost in any of some threads. -/
def AllSound (hops : List (Hop α)) : Prop := ∀ h ∈ hops, h.copier.Sound

/-- What a thread of a connection does can be done in the conduit. -/
theorem hopStep_inner {a : CopyAct α} {i : ℕ} (h : hopStep a i leg hops = some (leg', hops')) :
    Inner (queues leg hops) (queues leg' hops') (AllSound hops ∧ a ≠ .fail) ∧
      (AllSound hops → a ≠ .fail → AllSound hops') := by
  induction i generalizing leg leg' hops hops' with
  | zero =>
    cases hops with
    | nil => cases h
    | cons hop rest =>
      obtain ⟨⟨q', c', r'⟩, hstep, heq⟩ := Option.map_eq_some_iff.mp h
      obtain ⟨rfl, rfl⟩ := Prod.mk.inj heq
      have hcases := Copier.step_cases hstep
      have hinner := hcases.inner
      constructor
      · cases rest with
        | nil =>
          refine hinner.mono fun hsound => ⟨hsound.1 hop List.mem_cons_self, hsound.2⟩
        | cons next rest =>
          refine (hinner.post (next.copier.queue :: queues next.leg rest)).mono fun hsound => ?_
          exact ⟨hsound.1 hop List.mem_cons_self, hsound.2⟩
      · intro hsound ha
        obtain ⟨hfirst, hrest⟩ := List.forall_mem_cons.mp hsound
        exact List.forall_mem_cons.mpr ⟨hcases.sound hfirst ha, hrest⟩
  | succ i ih =>
    cases hops with
    | nil => cases h
    | cons hop rest =>
      obtain ⟨⟨out, rest'⟩, hstep, heq⟩ := Option.map_eq_some_iff.mp h
      obtain ⟨rfl, rfl⟩ := Prod.mk.inj heq
      obtain ⟨hinner, hsound⟩ := ih hstep
      constructor
      · refine ((hinner.shift _).shift _).mono fun hall => ?_
        exact ⟨fun h hmem => hall.1 h (List.mem_cons_of_mem _ hmem), hall.2⟩
      · intro hall ha
        obtain ⟨hfirst, hrest⟩ := List.forall_mem_cons.mp hall
        exact List.forall_mem_cons.mpr ⟨hfirst, hsound hrest ha⟩

/-- What the other end receives is taken out of the conduit. -/
theorem takeOut_queues {items : List α} (h : receiveLast items leg hops = some (leg', hops')) :
    takeOut items (queues leg hops) = some (queues leg' hops') ∧
      (AllSound hops → AllSound hops') := by
  induction hops generalizing leg leg' hops' with
  | nil =>
    simp only [receiveLast] at h
    split at h
    · next hprefix =>
      obtain ⟨rfl, rfl⟩ := Prod.mk.inj (Option.some.inj h)
      exact ⟨by rw [queues, takeOut, if_pos hprefix]; rfl, id⟩
    · cases h
  | cons hop rest ih =>
    obtain ⟨⟨out, rest'⟩, hstep, heq⟩ := Option.map_eq_some_iff.mp h
    obtain ⟨rfl, rfl⟩ := Prod.mk.inj heq
    obtain ⟨htake, hsound⟩ := ih hstep
    constructor
    · rw [queues, takeOut_cons _ (by simp), takeOut_cons _ (queues_ne_nil _ _), htake]
      rfl
    · intro hall
      obtain ⟨hfirst, hrest⟩ := List.forall_mem_cons.mp hall
      exact List.forall_mem_cons.mpr ⟨hfirst, hsound hrest⟩

variable {p p' : Path α} {a : PathAct α} {acts : List (PathAct α)}

/-- The other end finds the end of a connection whose last leg has ended and is empty. -/
theorem Path.step_eof (h : p.step .eof = some p') :
    (lastLeg p.first p.hops).held = [] ∧ (lastLeg p.first p.hops).closed = true ∧ p' = p := by
  simp only [Path.step] at h
  split at h
  · next hend => exact ⟨List.isEmpty_iff.mp hend.1, hend.2, (Option.some.inj h).symm⟩
  · cases h

/-- What happens on a connection happens in the conduit: what can be seen of it is the same, and
nobody gives up unless a call fails, or something was lost before. -/
theorem Path.step_conduit (h : p.step a = some p') :
    ∃ inner, Conduit.run p.conduit inner = some p'.conduit ∧
      inner.filter Act.visible = a.seen.toList ∧
      (AllSound p.hops → a.fails = false →
        AllSound p'.hops ∧ ∀ b ∈ inner, b.gives = false) := by
  cases a with
  | send items =>
    simp only [Path.step] at h
    split at h
    · cases h
    · next hopen =>
      obtain rfl := Option.some.inj h
      refine ⟨[.put items], run_cons.mpr ⟨_, ?_, rfl⟩, rfl,
        fun hall _ => ⟨hall, by simp [Act.gives]⟩⟩
      cases hhops : p.hops <;>
        simp [Conduit.step, atEntrance, Path.conduit, queues, hhops, hopen]
  | close =>
    simp only [Path.step] at h
    split at h
    · cases h
    · next hopen =>
      obtain rfl := Option.some.inj h
      refine ⟨[.close], run_cons.mpr ⟨_, ?_, rfl⟩, rfl, fun hall _ => ⟨hall, by simp [Act.gives]⟩⟩
      cases hhops : p.hops <;>
        simp [Conduit.step, atEntrance, Path.conduit, queues, hhops, hopen]
  | hop i b =>
    obtain ⟨⟨leg, hops⟩, hstep, rfl⟩ := Option.map_eq_some_iff.mp h
    obtain ⟨⟨inner, hrun, hvisible, hgives⟩, hsound⟩ := hopStep_inner hstep
    refine ⟨inner, hrun, ?_, fun hall hfails => ?_⟩
    · exact List.filter_eq_nil_iff.mpr fun b hb => by simp [hvisible b hb]
    · have hb : b ≠ .fail := by
        rintro rfl
        cases hfails
      exact ⟨hsound hall hb, hgives ⟨hall, hb⟩⟩
  | receive items =>
    obtain ⟨⟨leg, hops⟩, hstep, rfl⟩ := Option.map_eq_some_iff.mp h
    obtain ⟨htake, hsound⟩ := takeOut_queues hstep
    exact ⟨[.take items], run_cons.mpr ⟨_, htake, rfl⟩, rfl,
      fun hall _ => ⟨hsound hall, by simp [Act.gives]⟩⟩
  | eof =>
    obtain ⟨hheld, hclosed, rfl⟩ := step_eof h
    refine ⟨[.eof], run_cons.mpr ⟨_, ?_, rfl⟩, rfl, fun hall _ => ⟨hall, by simp [Act.gives]⟩⟩
    have hat : atEnd p'.conduit = true := by
      rw [Path.conduit, atEnd, outlet_queues, hheld, hclosed]
      rfl
    rw [Conduit.step, if_pos hat]

/-- On a connection over one thread, this thread goes on or nothing changes in it. -/
theorem Path.step_single {q : Queue α} {hop : Hop α} (h : (⟨q, [hop]⟩ : Path α).step a = some p') :
    ∃ q' hop', p' = ⟨q', [hop']⟩ ∧
      ((∃ b, a = .hop 0 b ∧
          CopyStep hop.manner q hop.leg hop.copier b q' hop'.copier hop'.leg) ∨
        (∀ i b, a ≠ .hop i b) ∧ hop'.copier = hop.copier ∧ hop'.leg.closed = hop.leg.closed) := by
  cases a with
  | send _ | close =>
    simp only [Path.step] at h
    split at h
    · cases h
    · obtain rfl := Option.some.inj h
      exact ⟨_, hop, rfl, Or.inr ⟨nofun, rfl, rfl⟩⟩
  | hop i b =>
    obtain ⟨⟨leg, hops⟩, hstep, rfl⟩ := Option.map_eq_some_iff.mp h
    cases i with
    | zero =>
      obtain ⟨⟨q', c', r'⟩, hcopier, heq⟩ := Option.map_eq_some_iff.mp hstep
      obtain ⟨rfl, rfl⟩ := Prod.mk.inj heq
      exact ⟨q', ⟨hop.manner, c', r'⟩, rfl, Or.inl ⟨b, rfl, Copier.step_cases hcopier⟩⟩
    | succ i =>
      obtain ⟨result, hnone, -⟩ := Option.map_eq_some_iff.mp hstep
      cases i <;> cases hnone
  | receive items =>
    obtain ⟨⟨leg, hops⟩, hstep, rfl⟩ := Option.map_eq_some_iff.mp h
    obtain ⟨⟨out, rest⟩, hlast, heq⟩ := Option.map_eq_some_iff.mp hstep
    obtain ⟨rfl, rfl⟩ := Prod.mk.inj heq
    simp only [receiveLast] at hlast
    split at hlast
    · obtain ⟨rfl, rfl⟩ := Prod.mk.inj (Option.some.inj hlast)
      exact ⟨q, _, rfl, Or.inr ⟨nofun, rfl, rfl⟩⟩
    · cases hlast
  | eof =>
    obtain ⟨-, -, rfl⟩ := step_eof h
    exact ⟨q, hop, rfl, Or.inr ⟨nofun, rfl, rfl⟩⟩

/-- A run of a connection is a run of the conduit. -/
theorem Path.run_conduit (h : p.run acts = some p') :
    ∃ inner, Conduit.run p.conduit inner = some p'.conduit ∧
      inner.filter Act.visible = acts.filterMap PathAct.seen ∧
      (AllSound p.hops → (∀ a ∈ acts, a.fails = false) → ∀ b ∈ inner, b.gives = false) := by
  induction acts generalizing p with
  | nil =>
    obtain rfl := Option.some.inj h
    exact ⟨[], rfl, rfl, by simp⟩
  | cons a acts ih =>
    rw [Path.run, List.foldlM_cons] at h
    obtain ⟨d, hstep, hrun⟩ := Option.bind_eq_some_iff.mp h
    obtain ⟨first, hfirst, hseen, hgives⟩ := step_conduit hstep
    obtain ⟨later, hlater, hseen', hgives'⟩ := ih hrun
    refine ⟨first ++ later, run_append.mpr ⟨_, hfirst, hlater⟩, ?_, fun hall hfails => ?_⟩
    · rw [List.filter_append, hseen, hseen', List.filterMap_cons]
      cases a.seen <;> rfl
    · obtain ⟨hfails, hrest⟩ := List.forall_mem_cons.mp hfails
      obtain ⟨hall', hnone⟩ := hgives hall hfails
      intro b hb
      rcases List.mem_append.mp hb with hb | hb
      · exact hnone b hb
      · exact hgives' hall' hrest b hb

end Paths

section Ends

/-- What is sent in some actions. -/
def sent (acts : List (PathAct α)) : List α := inputs (acts.filterMap PathAct.seen)

/-- What is received in some actions. -/
def received (acts : List (PathAct α)) : List α := outputs (acts.filterMap PathAct.seen)

/-- What cannot be seen neither puts in nor takes out. -/
theorem flatMap_filter_visible {f : Act α → List α} (hf : ∀ a, a.visible = false → f a = [])
    (inner : List (Act α)) : (inner.filter Act.visible).flatMap f = inner.flatMap f := by
  induction inner with
  | nil => rfl
  | cons a inner ih =>
    cases ha : a.visible with
    | false => rw [List.filter_cons_of_neg (by simp [ha]), List.flatMap_cons, hf a ha, ih]; rfl
    | true => rw [List.filter_cons_of_pos ha, List.flatMap_cons, List.flatMap_cons, ih]

theorem inputs_filter_visible (inner : List (Act α)) :
    inputs (inner.filter Act.visible) = inputs inner :=
  flatMap_filter_visible (fun a ha => by cases a <;> first | rfl | cases ha) inner

theorem outputs_filter_visible (inner : List (Act α)) :
    outputs (inner.filter Act.visible) = outputs inner :=
  flatMap_filter_visible (fun a ha => by cases a <;> first | rfl | cases ha) inner

theorem conduit_start (manners : List Manner) :
    (Path.start manners : Path α).conduit = fresh (2 * manners.length) := by
  induction manners with
  | nil => rfl
  | cons m manners ih => exact congrArg (⟨[], false⟩ :: ⟨[], false⟩ :: ·) ih

theorem allSound_start (manners : List Manner) : AllSound (Path.start manners : Path α).hops := by
  intro h hmem
  obtain ⟨m, -, rfl⟩ := List.mem_map.mp hmem
  trivial

variable [DecidableEq α] {p : Path α} {acts : List (PathAct α)} {manners : List Manner}

/-- What happens on a connection that was just made happens in a conduit that nothing was put
into. -/
theorem Path.run_fresh (h : (Path.start manners).run acts = some p) :
    ∃ inner, Conduit.run (fresh (2 * manners.length)) inner = some p.conduit ∧
      inner.filter Act.visible = acts.filterMap PathAct.seen ∧ inputs inner = sent acts ∧
      outputs inner = received acts ∧
      ((∀ a ∈ acts, a.fails = false) → ∀ b ∈ inner, b.gives = false) := by
  obtain ⟨inner, hrun, hseen, hgives⟩ := Path.run_conduit h
  rw [conduit_start] at hrun
  refine ⟨inner, hrun, hseen, ?_, ?_, hgives (allSound_start manners)⟩
  · rw [sent, ← hseen, inputs_filter_visible]
  · rw [received, ← hseen, outputs_filter_visible]

/-- What is received over a connection is the beginning of what was sent, whatever fails. -/
theorem received_isPrefix (h : (Path.start manners).run acts = some p) :
    received acts <+: sent acts := by
  obtain ⟨inner, hrun, -, hsent, hreceived, -⟩ := Path.run_fresh h
  rw [← hsent, ← hreceived]
  exact outputs_isPrefix hrun

/-- Who finds the end of a connection on which nothing fails has received all that was sent. -/
theorem received_of_eof (h : (Path.start manners).run acts = some p)
    (hfails : ∀ a ∈ acts, a.fails = false) (heof : PathAct.eof ∈ acts) :
    received acts = sent acts := by
  obtain ⟨inner, hrun, hseen, hsent, hreceived, hgives⟩ := Path.run_fresh h
  have hmem : Act.eof ∈ inner := by
    have hfilter : Act.eof ∈ inner.filter Act.visible := by
      rw [hseen]
      exact List.mem_filterMap.mpr ⟨_, heof, rfl⟩
    exact (List.mem_filter.mp hfilter).1
  have houtputs := outputs_of_eof hrun (hgives hfails) (orderly_fresh _) hmem
  rw [← hsent, ← hreceived, houtputs, contents_fresh, List.nil_append]

/-- Once the last leg of a connection on which nothing fails has ended, all that was sent is there
or received. -/
theorem received_of_closed (h : (Path.start manners).run acts = some p)
    (hfails : ∀ a ∈ acts, a.fails = false) (hclosed : (lastLeg p.first p.hops).closed = true) :
    received acts ++ (lastLeg p.first p.hops).held = sent acts := by
  obtain ⟨inner, hrun, -, hsent, hreceived, hgives⟩ := Path.run_fresh h
  rw [← outlet_queues] at hclosed ⊢
  have houtputs := outputs_of_closed hrun (hgives hfails) (orderly_fresh _) hclosed
  rw [contents_fresh, List.nil_append] at houtputs
  rw [← hsent, ← hreceived]
  exact houtputs

/-- The last leg of a connection on which nothing fails ends only when the first was ended. -/
theorem close_of_closed (h : (Path.start manners).run acts = some p)
    (hfails : ∀ a ∈ acts, a.fails = false) (hclosed : (lastLeg p.first p.hops).closed = true) :
    PathAct.close ∈ acts := by
  obtain ⟨inner, hrun, hseen, -, -, hgives⟩ := Path.run_fresh h
  rw [← outlet_queues] at hclosed
  have horderly := orderly_run hrun (hgives hfails) (orderly_fresh _)
  have hended := congrArg Queue.closed (whole_of_closed hclosed horderly)
  have hclose : Act.close ∈ inner := by
    rcases close_of_ended hrun hended with hmem | hfresh
    · exact hmem
    · cases hfresh
  have hfilter : Act.close ∈ acts.filterMap PathAct.seen := by
    rw [← hseen]
    exact List.mem_filter.mpr ⟨hclose, rfl⟩
  obtain ⟨a, hmem, ha⟩ := List.mem_filterMap.mp hfilter
  cases a with
  | close => exact hmem
  | _ => cases ha

/-- A single queue does what a connection without threads does. -/
theorem step_direct {q : Queue α} {c : List (Queue α)} {a : PathAct α} {b : Act α}
    (hseen : a.seen = some b) (h : Conduit.step [q] b = some c) :
    ∃ q', c = [q'] ∧ (⟨q, []⟩ : Path α).step a = some ⟨q', []⟩ := by
  cases a with
  | send items =>
    obtain rfl := Option.some.inj hseen
    simp only [Conduit.step, atEntrance] at h
    split at h
    · cases h
    · next hopen => exact ⟨_, (Option.some.inj h).symm, by simp [Path.step, hopen]⟩
  | close =>
    obtain rfl := Option.some.inj hseen
    simp only [Conduit.step, atEntrance] at h
    split at h
    · cases h
    · next hopen => exact ⟨_, (Option.some.inj h).symm, by simp [Path.step, hopen]⟩
  | hop i b => cases hseen
  | receive items =>
    obtain rfl := Option.some.inj hseen
    simp only [Conduit.step, takeOut] at h
    split at h
    · next hprefix =>
      obtain rfl := Option.some.inj h
      exact ⟨_, rfl, by rw [Path.step, receiveLast, if_pos hprefix]; rfl⟩
    · cases h
  | eof =>
    obtain rfl := Option.some.inj hseen
    obtain ⟨hend, rfl⟩ := step_eof h
    obtain ⟨hclosed, hheld⟩ := Bool.and_eq_true_iff.mp hend
    simp only [outlet] at hclosed hheld
    exact ⟨_, rfl, by rw [Path.step, lastLeg, if_pos ⟨hheld, hclosed⟩]⟩

/-- A run of a single queue is one of a connection without threads. -/
theorem run_direct {q : Queue α} {c : List (Queue α)} (hacts : ∀ a ∈ acts, a.seen.isSome)
    (h : Conduit.run [q] (acts.filterMap PathAct.seen) = some c) :
    ∃ q', c = [q'] ∧ (⟨q, []⟩ : Path α).run acts = some ⟨q', []⟩ := by
  induction acts generalizing q with
  | nil => exact ⟨q, (Option.some.inj h).symm, rfl⟩
  | cons a acts ih =>
    obtain ⟨hfirst, hrest⟩ := List.forall_mem_cons.mp hacts
    obtain ⟨b, hseen⟩ := Option.isSome_iff_exists.mp hfirst
    rw [List.filterMap_cons_some hseen] at h
    obtain ⟨d, hstep, hrun⟩ := run_cons.mp h
    obtain ⟨q₁, rfl, hfirst⟩ := step_direct hseen hstep
    obtain ⟨q₂, rfl, hlater⟩ := ih hrest hrun
    refine ⟨q₂, rfl, ?_⟩
    rw [Path.run, List.foldlM_cons, hfirst]
    exact hlater

/-- From its ends, a connection on which nothing fails looks like one without threads. -/
theorem Path.run_seen (h : (Path.start manners).run acts = some p)
    (hfails : ∀ a ∈ acts, a.fails = false) :
    ((Path.start []).run (acts.filter fun a => a.seen.isSome)).isSome := by
  obtain ⟨inner, hrun, hseen, -, -, hgives⟩ := Path.run_fresh h
  have hwhole := run_whole hrun (hgives hfails) (orderly_fresh _)
  have hfresh : whole (fresh (2 * manners.length) : List (Queue α)) = ⟨[], false⟩ := by
    rw [whole, contents_fresh]
    rfl
  rw [hfresh, hseen] at hwhole
  have hfilter : acts.filterMap PathAct.seen =
      (acts.filter fun a => a.seen.isSome).filterMap PathAct.seen := by
    rw [List.filterMap_filter]
    congr 1
    funext a
    cases a <;> rfl
  rw [hfilter] at hwhole
  obtain ⟨q', -, hdirect⟩ := run_direct (fun a ha => (List.mem_filter.mp ha).2) hwhole
  rw [Path.start, List.map_nil, hdirect]
  rfl

end Ends

/-- A connection in both directions. -/
structure Duplex (α : Type) where
  up : Path α
  down : Path α

/-- What happens on it. -/
inductive DuplexAct (α : Type) where
  | up (a : PathAct α)
  | down (a : PathAct α)
  deriving DecidableEq

/-- What happens upwards. -/
def DuplexAct.upward : DuplexAct α → Option (PathAct α)
  | up a => some a
  | down _ => none

/-- What happens downwards. -/
def DuplexAct.downward : DuplexAct α → Option (PathAct α)
  | up _ => none
  | down a => some a

/-- A connection in both directions over threads of these manners that was just made. -/
def Duplex.start (manners : List Manner) : Duplex α := ⟨.start manners, .start manners⟩

section Directions

variable [DecidableEq α]

/-- A connection in both directions after an action, if it is possible. -/
def Duplex.step (c : Duplex α) : DuplexAct α → Option (Duplex α)
  | .up a => (c.up.step a).map fun up => { c with up := up }
  | .down a => (c.down.step a).map fun down => { c with down := down }

/-- A connection in both directions after some actions, if all of them are possible. -/
def Duplex.run (c : Duplex α) (acts : List (DuplexAct α)) : Option (Duplex α) :=
  acts.foldlM Duplex.step c

/-- The directions do not touch each other. -/
theorem Duplex.run_directions {c c' : Duplex α} {acts : List (DuplexAct α)}
    (h : c.run acts = some c') :
    c.up.run (acts.filterMap DuplexAct.upward) = some c'.up ∧
      c.down.run (acts.filterMap DuplexAct.downward) = some c'.down := by
  induction acts generalizing c with
  | nil =>
    obtain rfl := Option.some.inj h
    exact ⟨rfl, rfl⟩
  | cons a acts ih =>
    rw [Duplex.run, List.foldlM_cons] at h
    obtain ⟨d, hstep, hrun⟩ := Option.bind_eq_some_iff.mp h
    obtain ⟨hup, hdown⟩ := ih hrun
    cases a with
    | up a =>
      obtain ⟨up, hup', rfl⟩ := Option.map_eq_some_iff.mp hstep
      refine ⟨?_, hdown⟩
      rw [List.filterMap_cons_some (f := DuplexAct.upward) rfl, Path.run, List.foldlM_cons, hup']
      exact hup
    | down a =>
      obtain ⟨down, hdown', rfl⟩ := Option.map_eq_some_iff.mp hstep
      refine ⟨hup, ?_⟩
      rw [List.filterMap_cons_some (f := DuplexAct.downward) rfl, Path.run, List.foldlM_cons,
        hdown']
      exact hdown

end Directions

end Conduit
