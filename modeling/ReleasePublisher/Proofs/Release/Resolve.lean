import ReleasePublisher.Release.Resolve

/-!
# What a configuration that is resolved holds

## Main results

* `projectFault?_eq_none_iff`: which project names can be used
* `projectFault?_of_resolve`: the project of a configuration has such a name
-/

namespace ReleasePublisher

/-- **A name that can be used** is not blank, is no dot segment, and has no separator. -/
theorem projectFault?_eq_none_iff {name : String} :
    projectFault? name = none ↔
      Text.isBlankText name = false ∧ (name ≠ "." ∧ name ≠ "..") ∧
        '/' ∉ name.toList ∧ '\\' ∉ name.toList := by
  unfold projectFault?
  split
  · rename_i hblank
    simp [hblank]
  split
  · rename_i hdots
    rcases Bool.or_eq_true _ _ ▸ hdots with hdot | hdot
    · simp [eq_of_beq hdot]
    · simp [eq_of_beq hdot]
  rename_i hblank hdots
  split
  · rename_i hslash
    obtain ⟨c, hc, hsep⟩ := List.any_eq_true.mp hslash
    refine ⟨nofun, fun h => ?_⟩
    rcases Bool.or_eq_true _ _ ▸ hsep with hsep | hsep
    · exact absurd (eq_of_beq hsep ▸ hc) h.2.2.1
    · exact absurd (eq_of_beq hsep ▸ hc) h.2.2.2
  · rename_i hslash
    refine ⟨fun _ => ⟨eq_false_of_ne_true hblank, by simpa using hdots, fun hc => ?_, fun hc => ?_⟩,
      fun _ => rfl⟩
    · exact hslash (List.any_eq_true.mpr ⟨_, hc, rfl⟩)
    · exact hslash (List.any_eq_true.mpr ⟨_, hc, rfl⟩)

theorem checkProject_eq_ok {name project : String} (h : checkProject name = .ok project) :
    project = name ∧ projectFault? name = none := by
  unfold checkProject at h
  split at h
  · cases h
  · exact ⟨(Except.ok.inj h).symm, ‹_›⟩

theorem projectFault?_of_resolveWith {root : Path} {overrides : Overrides} {env : Environment}
    {file : Option (Path × FileConfig)} {c : Config}
    (h : resolveWith root overrides env file = .ok c) : projectFault? c.project = none := by
  unfold resolveWith at h
  extract_lets given at h
  split at h
  · cases h
  · rename_i name hname
    cases hproject : checkProject name with
    | error e =>
      rw [hproject] at h
      cases h
    | ok project =>
      rw [hproject] at h
      obtain ⟨rfl, hfault⟩ := checkProject_eq_ok hproject
      rw [← Except.ok.inj h]
      exact hfault

/-- **The project of a configuration** has a name that can be used. -/
theorem projectFault?_of_resolve {t : FileTree} {root : Path} {overrides : Overrides}
    {env : Environment} {c : Config} (h : resolve t root overrides env = .ok c) :
    projectFault? c.project = none := by
  unfold resolve at h
  cases hfile : FileConfig.load t root with
  | error e =>
    rw [hfile] at h
    cases h
  | ok file =>
    rw [hfile] at h
    exact projectFault?_of_resolveWith h

end ReleasePublisher
