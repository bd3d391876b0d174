import AbleIndex.Proofs.ModuleNames

namespace AbleIndex

namespace Path

variable {root inner p : Path}

theorem Contains.trans (h : root.Contains inner) (hp : inner.Contains p) : root.Contains p := by
  obtain ⟨between, rfl⟩ := h
  obtain ⟨parts, rfl⟩ := hp
  exact ⟨between ++ parts, by simp [append]⟩

theorem isSome_below? : (p.below? root).isSome = true ↔ root.Contains p := by
  rw [Option.isSome_iff_exists]
  exact exists_congr fun parts => below?_eq_some

end Path

variable {s : Settings} {roots before after : List Path} {root inner p : Path}

theorem decides_iff : Decides roots root p ↔ roots.find? (fun other => (p.below? other).isSome) = some root := by
  simp only [List.find?_eq_some_iff_append, Bool.not_eq_true', ← Bool.not_eq_true, Path.isSome_below?]
  rfl

instance (roots : List Path) (root p : Path) : Decidable (Decides roots root p) := decidable_of_iff _ decides_iff.symm

theorem Decides.unique {other : Path} (h : Decides roots root p) (ho : Decides roots other p) : root = other := by
  rw [decides_iff] at h ho
  exact Option.some.inj (h.symm.trans ho)

theorem exists_decides (h : ∃ root ∈ roots, root.Contains p) : ∃ root, Decides roots root p := by
  obtain ⟨root, hroot, hp⟩ := h
  simp only [decides_iff]
  rw [← Option.isSome_iff_exists, List.find?_isSome]
  exact ⟨root, hroot, Path.isSome_below?.mpr hp⟩

theorem moduleName?_eq_none (h : ∀ root ∈ roots, ¬ root.Contains p) : moduleName? s roots p = none := by
  have hnone : roots.findSome? p.below? = none := by
    rw [List.findSome?_eq_none_iff]
    intro root hroot
    exact Path.below?_eq_none (h root hroot)
  rw [moduleName?, hnone, Option.bind_none]

theorem moduleName?_append_of_contains (h : ∃ root ∈ roots, root.Contains p) (later : List Path) :
    moduleName? s (roots ++ later) p = moduleName? s roots p := by
  obtain ⟨root, hroot, hp⟩ := h
  have hfound : (roots.findSome? p.below?).isSome = true := by
    rw [List.findSome?_isSome_iff]
    exact ⟨root, hroot, Path.isSome_below?.mpr hp⟩
  obtain ⟨parts, hparts⟩ := Option.isSome_iff_exists.mp hfound
  rw [moduleName?, moduleName?, List.findSome?_append, hparts, Option.some_or]

theorem moduleName?_skip (h : ¬ inner.Contains p) (before after : List Path) :
    moduleName? s (before ++ inner :: after) p = moduleName? s (before ++ after) p := by
  rw [moduleName?, moduleName?, List.findSome?_append, List.findSome?_append, List.findSome?_cons,
    Path.below?_eq_none h]

theorem moduleName?_shadowed (hroot : root ∈ before) (h : root.Contains inner) (after : List Path) :
    moduleName? s (before ++ inner :: after) p = moduleName? s (before ++ after) p := by
  by_cases hp : inner.Contains p
  · have hfound : ∃ root ∈ before, root.Contains p := ⟨root, hroot, h.trans hp⟩
    rw [moduleName?_append_of_contains hfound, moduleName?_append_of_contains hfound]
  · exact moduleName?_skip hp before after

/-- A module name stays when a root below an earlier one goes, when roots are put behind one that contains the file, and
when the file is given by its absolute path, from wherever. It is made of the components below the first root that
contains the file, and there is none when there are no such components or no such root, whatever the other roots. -/
theorem moduleName?_first_root (h : Host) (s : Settings) (roots : List Path) (file : String) :
    (∀ before inner after, roots = before ++ inner :: after → (∃ root ∈ before, root.Contains inner) →
      moduleName? s (before ++ after) (h.absolute file) = moduleName? s roots (h.absolute file)) ∧
    ((∃ root ∈ roots, root.Contains (h.absolute file)) → ∀ later,
      moduleName? s (roots ++ later) (h.absolute file) = moduleName? s roots (h.absolute file)) ∧
    (∀ other : Host, moduleName? s roots (other.absolute (h.absolute file).text) =
      moduleName? s roots (h.absolute file)) ∧
    ((∀ root ∈ roots, ¬ root.Contains (h.absolute file)) ∧ moduleName? s roots (h.absolute file) = none ∨
      ∃ root parts, Decides roots root (h.absolute file) ∧ h.absolute file = root.append parts ∧
        moduleName? s roots (h.absolute file) = s.nameBelow? parts ∧
        ∀ others decider, Decides others decider (decider.append parts) →
          moduleName? s others (decider.append parts) = moduleName? s roots (h.absolute file)) := by
  refine ⟨?_, fun hc later => moduleName?_append_of_contains hc later, ?_, ?_⟩
  · rintro before inner after rfl ⟨root, hroot, hc⟩
    exact (moduleName?_shadowed hroot hc after).symm
  · intro other
    rw [Host.absolute_text (h.isResolved_absolute file)]
  · by_cases hc : ∃ root ∈ roots, root.Contains (h.absolute file)
    · obtain ⟨root, hd⟩ := exists_decides hc
      obtain ⟨parts, hparts⟩ := hd.1
      rw [hparts] at hd ⊢
      refine .inr ⟨root, parts, hd, rfl, moduleName?_of_decides hd, ?_⟩
      intro others decider hother
      rw [moduleName?_of_decides hother, moduleName?_of_decides hd]
    · push Not at hc
      exact .inl ⟨hc, moduleName?_eq_none hc⟩

theorem moduleName?_first_root_nameless :
    let h : Host := default
    let roots : List Path := [⟨.slash, ["t"]⟩, ⟨.slash, []⟩, ⟨.slash, ["t", "lib"]⟩]
    moduleName? {} roots (h.absolute "/t/lib/../__init__.abl") = none ∧
      moduleName? {} [⟨.slash, []⟩] (h.absolute "/t/lib/../__init__.abl") = some "t" ∧
      moduleName? {} (roots.take 2) (h.absolute "/t/lib/a.abl") = moduleName? {} roots (h.absolute "/t/lib/a.abl") ∧
      ∀ later, moduleName? {} (roots ++ later) (h.absolute "/t/lib/a.abl") = some "lib.a" := by
  intro h roots
  have hcontains : Path.Contains ⟨.slash, ["t"]⟩ (h.absolute "/t/lib/a.abl") := by
    refine ⟨["lib", "a.abl"], ?_⟩
    unfold h
    decide +kernel
  obtain ⟨hremove, hlater, -, -⟩ := moduleName?_first_root h {} roots "/t/lib/a.abl"
  refine ⟨?_, ?_, ?_, ?_⟩
  · unfold roots h
    decide +kernel
  · unfold h
    decide +kernel
  · exact hremove [⟨.slash, ["t"]⟩, ⟨.slash, []⟩] ⟨.slash, ["t", "lib"]⟩ [] rfl
      ⟨⟨.slash, ["t"]⟩, List.mem_cons_self, ["lib"], rfl⟩
  · intro later
    rw [hlater ⟨⟨.slash, ["t"]⟩, List.mem_cons_self, hcontains⟩ later]
    unfold roots h
    decide +kernel

end AbleIndex
