import Devcroft.Keeper.Processes

/-!
# What a step does to the children of others

Signals and events leave it as it is whether a child was waited for, and nothing that
has stopped runs again.
-/

namespace Devcroft.Keeper

/-- One list of groups tells the same of the child of an origin as an earlier one: whether it was
waited for has not changed, and what had stopped does not run again. -/
structure SameChild (o : Origin) (groups groups' : List Group) : Prop where
  back : ∀ g' ∈ groups', g'.origin = o → ∃ g ∈ groups, g.origin = o ∧ g.pgid = g'.pgid ∧
    (g'.leader = .reaped ↔ g.leader = .reaped) ∧ (g'.running → g.running)
  forth : ∀ g ∈ groups, g.origin = o → ∃ g' ∈ groups', g'.origin = o ∧ g'.pgid = g.pgid

theorem SameChild.refl (o : Origin) (groups : List Group) : SameChild o groups groups where
  back g hg ho := ⟨g, hg, ho, rfl, Iff.rfl, id⟩
  forth g hg ho := ⟨g, hg, ho, rfl⟩

/-- Changing the groups one by one. -/
theorem sameChild_map {o : Origin} {groups : List Group} {f : Group → Group}
    (hpgid : ∀ g, (f g).pgid = g.pgid) (horigin : ∀ g, (f g).origin = g.origin)
    (hleader : ∀ g, g.origin = o → ((f g).leader = .reaped ↔ g.leader = .reaped))
    (hrunning : ∀ g, g.origin = o → (f g).running → g.running) :
    SameChild o groups (groups.map f) where
  back := by
    intro g' hg' ho
    obtain ⟨g, hg, rfl⟩ := List.mem_map.mp hg'
    rw [horigin] at ho
    exact ⟨g, hg, ho, (hpgid g).symm, hleader g ho, hrunning g ho⟩
  forth := by
    intro g hg ho
    exact ⟨f g, List.mem_map_of_mem hg, (horigin g).trans ho, hpgid g⟩

@[simp] theorem Leader.killed_eq_reaped_iff {l : Leader} : l.killed = .reaped ↔ l = .reaped := by
  cases l <;> simp [Leader.killed]

@[simp] theorem Leader.killed_ne_running (l : Leader) : l.killed ≠ .running := by
  cases l <;> simp [Leader.killed]

@[simp] theorem Group.killed_pgid (target : ℤ) (g : Group) : (g.killed target).pgid = g.pgid := by
  unfold Group.killed
  split
  · rfl
  · split <;> rfl

@[simp] theorem Group.killed_origin (target : ℤ) (g : Group) :
    (g.killed target).origin = g.origin := by
  unfold Group.killed
  split
  · rfl
  · split <;> rfl

theorem Group.killed_leader {target : ℤ} {g : Group} :
    (g.killed target).leader = .reaped ↔ g.leader = .reaped := by
  unfold Group.killed
  split
  · exact Leader.killed_eq_reaped_iff
  · split
    · exact Leader.killed_eq_reaped_iff
    · exact Iff.rfl

theorem Group.running_of_killed {target : ℤ} {g : Group} (h : (g.killed target).running) :
    g.running := by
  unfold Group.killed Group.running at *
  split at h
  · rcases h with h | h
    · exact (Leader.killed_ne_running _ h).elim
    · cases h
  · split at h
    · rcases h with h | h
      · exact (Leader.killed_ne_running _ h).elim
      · exact Or.inr h
    · exact h

/-- A killed group does not run. -/
theorem Group.not_running_killed (g : Group) : ¬(g.killed (-(g.pgid : ℤ))).running := by
  unfold Group.killed Group.running
  rw [if_pos (Or.inr rfl)]
  rintro (h | h)
  · exact Leader.killed_ne_running _ h
  · cases h

theorem sameChild_kill (o : Origin) (target : ℤ) (sig : ℕ) (groups : List Group) :
    SameChild o groups (kill target sig groups) := by
  unfold kill
  split
  · exact sameChild_map (Group.killed_pgid target) (Group.killed_origin target)
      (fun _ _ => Group.killed_leader) fun _ _ => Group.running_of_killed
  · exact .refl o groups

theorem Group.after_leader {g : Group} {e : ChildEvent} :
    (g.after e).leader = .reaped ↔ g.leader = .reaped := by
  cases e with
  | exits status =>
    simp only [Group.after]
    split
    · next h => simp [h]
    · exact Iff.rfl
  | forks =>
    simp only [Group.after]
    split <;> exact Iff.rfl
  | otherExits => exact Iff.rfl

theorem Group.running_of_after {g : Group} {e : ChildEvent} (h : (g.after e).running) :
    g.running := by
  cases e with
  | exits status =>
    simp only [Group.after] at h
    split at h
    · next hrunning => exact Or.inl hrunning
    · exact h
  | forks =>
    simp only [Group.after] at h
    split at h
    · next hrunning => exact hrunning
    · exact h
  | otherExits =>
    rcases h with h | h
    · exact Or.inl h
    · exact Or.inr (Nat.lt_of_lt_of_le h (Nat.sub_le _ _))

theorem Group.after_pgid (g : Group) (e : ChildEvent) : (g.after e).pgid = g.pgid := by
  cases e with
  | exits status => simp only [Group.after]; split <;> rfl
  | forks => simp only [Group.after]; split <;> rfl
  | otherExits => rfl

theorem Group.after_origin (g : Group) (e : ChildEvent) : (g.after e).origin = g.origin := by
  cases e with
  | exits status => simp only [Group.after]; split <;> rfl
  | forks => simp only [Group.after]; split <;> rfl
  | otherExits => rfl

theorem sameChild_childEvent (o o' : Origin) (e : ChildEvent) (groups : List Group) :
    SameChild o groups (childEvent o' e groups) := by
  apply sameChild_map
  · intro g
    split
    · exact g.after_pgid e
    · rfl
  · intro g
    split
    · exact g.after_origin e
    · rfl
  · intro g _
    split
    · exact Group.after_leader
    · exact Iff.rfl
  · intro g _ h
    split at h
    · exact Group.running_of_after h
    · exact h

/-- What waiting for a child does. -/
theorem reap_eq_some {o : Origin} {groups groups' : List Group} {status : ExitStatus}
    (h : reap o groups = some (status, groups')) :
    groups' = groups.map fun g => if g.origin = o then { g with leader := .reaped } else g := by
  unfold reap at h
  split at h
  · cases h
  · split at h
    · exact (Prod.mk.inj (Option.some.inj h)).2.symm
    · cases h

theorem sameChild_reap {o o' : Origin} {groups groups' : List Group} {status : ExitStatus}
    (h : reap o' groups = some (status, groups')) (hne : o ≠ o') :
    SameChild o groups groups' := by
  rw [reap_eq_some h]
  apply sameChild_map
  · intro g
    split <;> rfl
  · intro g
    split <;> rfl
  · intro g ho
    rw [if_neg (ho ▸ hne)]
  · intro g ho
    rw [if_neg (ho ▸ hne)]
    exact id

/-- A spawned child comes last. -/
theorem spawnGroup_eq_some {pid : ℕ} {o : Origin} {req : SpawnRequest} {groups groups' : List Group}
    (h : spawnGroup pid o req groups = some groups') :
    groups' = groups ++ [⟨pid, o, req, .running, 0⟩] := by
  unfold spawnGroup at h
  split at h
  · exact (Option.some.inj h).symm
  · cases h

theorem sameChild_spawnGroup {pid : ℕ} {o o' : Origin} {req : SpawnRequest}
    {groups groups' : List Group} (h : spawnGroup pid o' req groups = some groups') (hne : o ≠ o') :
    SameChild o groups groups' := by
  rw [spawnGroup_eq_some h]
  constructor
  · intro g' hg' ho
    rcases List.mem_append.mp hg' with hg' | hg'
    · exact ⟨g', hg', ho, rfl, Iff.rfl, id⟩
    · obtain rfl := List.mem_singleton.mp hg'
      exact (hne ho.symm).elim
  · intro g hg ho
    exact ⟨g, List.mem_append_left _ hg, ho, rfl⟩

end Devcroft.Keeper
