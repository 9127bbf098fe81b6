import Mathlib.Data.List.Nodup
import Mathlib.Data.List.Perm.Basic
import PathPolicy.Proofs.Resolution
import PathPolicy.Proofs.Sorting
import PathPolicy.Synthesis.Run

/-! Work that is shared out to several workers. Every element is in exactly one share, so that the
results, put into the order of the elements, are those of a single worker, and there is an error in
one case if there is one in the other. -/

namespace PathPolicy

section ShareOut

variable {ε α β : Type} {f : α → Except ε β} {xs : List α} {ys : List β} {n : Nat}

theorem mapError_eq_ok_iff {ε' : Type} {g : ε → ε'} {x : Except ε α} {y : α} :
    x.mapError g = .ok y ↔ x = .ok y := by
  cases x <;> simp [Except.mapError]

theorem mapError_eq_error {ε' : Type} {g : ε → ε'} {x : Except ε α} {e : ε'}
    (h : x.mapError g = .error e) : ∃ e', e = g e' := by
  cases x with
  | error e' => exact ⟨e', (Except.error.inj h).symm⟩
  | ok a => cases h

theorem shares_perm (hn : 0 < n) (xs : List α) : (xs.zipIdx).Perm (shares n xs) := by
  have hindices : (xs.zipIdx.map (·.2)).Nodup := by
    rw [List.zipIdx_map_snd]
    exact List.nodup_range'
  have hnodup : (shares n xs).Nodup := by
    refine List.nodup_flatMap.mpr ⟨fun i _ => hindices.of_map.filter _, ?_⟩
    refine List.nodup_range.imp fun {i j} hij => ?_
    rintro ⟨x, k⟩ hi hj
    have hki : k % n = i := by simpa using (List.mem_filter.mp hi).2
    have hkj : k % n = j := by simpa using (List.mem_filter.mp hj).2
    exact hij (hki.symm.trans hkj)
  refine (List.perm_ext_iff_of_nodup hindices.of_map hnodup).mpr fun ⟨x, k⟩ => ?_
  rw [shares, List.mem_flatMap]
  constructor
  · intro hx
    exact ⟨k % n, List.mem_range.mpr (Nat.mod_lt k hn), List.mem_filter.mpr ⟨hx, by simp⟩⟩
  · rintro ⟨i, _, hx⟩
    exact (List.mem_filter.mp hx).1

/-- An indexed result of an indexed element. -/
def Answers (f : α → Except ε β) (x : α × Nat) (y : β × Nat) : Prop :=
  f x.1 = .ok y.1 ∧ x.2 = y.2

theorem mapM_eq_ok_iff : xs.mapM f = .ok ys ↔ List.Forall₂ (fun x y => f x = .ok y) xs ys := by
  refine ⟨forall₂_of_mapM, fun h => ?_⟩
  induction h with
  | nil => rfl
  | cons hxy _ ih =>
    rw [List.mapM_cons, hxy, ih]
    rfl

theorem mapM_answers_eq_ok_iff {xs : List (α × Nat)} {ys : List (β × Nat)} :
    (xs.mapM fun x => (f x.1).map (·, x.2)) = .ok ys ↔ List.Forall₂ (Answers f) xs ys := by
  rw [mapM_eq_ok_iff]
  refine iff_of_eq (congrArg (List.Forall₂ · xs ys) ?_)
  funext x y
  obtain ⟨y, i⟩ := y
  cases hf : f x.1 <;> simp [Answers, Except.map, hf]

theorem forall₂_answers_zipIdx (h : List.Forall₂ (fun x y => f x = .ok y) xs ys) (k : Nat) :
    List.Forall₂ (Answers f) (xs.zipIdx k) (ys.zipIdx k) := by
  induction h generalizing k with
  | nil => exact .nil
  | cons hxy _ ih => exact .cons ⟨hxy, rfl⟩ (ih (k + 1))

theorem exists_zipIdx_of_answers {rs : List (β × Nat)} {k : Nat}
    (h : List.Forall₂ (Answers f) (xs.zipIdx k) rs) :
    ∃ ys, rs = ys.zipIdx k ∧ List.Forall₂ (fun x y => f x = .ok y) xs ys := by
  induction xs generalizing k rs with
  | nil =>
    cases h
    exact ⟨[], rfl, .nil⟩
  | cons x xs ih =>
    rw [List.zipIdx_cons] at h
    cases h with
    | @cons _ r _ rs hxr hrs =>
      obtain ⟨ys, rfl, hys⟩ := ih hrs
      obtain ⟨y, i⟩ := r
      obtain ⟨hy, rfl⟩ := hxr
      exact ⟨y :: ys, rfl, .cons hy hys⟩

/-- Results in any order fall into place by their indices. -/
theorem sortBy_of_perm_zipIdx {rs : List (β × Nat)} (h : rs.Perm ys.zipIdx) :
    sortBy (compareOn Prod.snd) rs = ys.zipIdx := by
  have hindices : ys.zipIdx.Pairwise fun x y => x.2 < y.2 := by
    rw [← List.pairwise_map (f := Prod.snd) (R := fun i j => i < j), List.zipIdx_map_snd]
    exact List.pairwise_lt_range'
  refine sortBy_eq_of_perm h (hindices.imp fun hlt => ?_)
  exact Nat.compare_eq_lt.mpr hlt

theorem shareOut_eq_ok_iff (n : Nat) : shareOut n f xs = .ok ys ↔ xs.mapM f = .ok ys := by
  rw [shareOut]
  split
  · rfl
  · next hn =>
    have hperm := shares_perm (show 0 < n by omega) xs
    constructor
    · intro h
      obtain ⟨rs, hrs, h⟩ := bind_eq_ok h
      obtain ⟨ss, hss, hsr⟩ := List.perm_comp_forall₂ hperm (mapM_answers_eq_ok_iff.mp hrs)
      obtain ⟨zs, rfl, hzs⟩ := exists_zipIdx_of_answers hss
      obtain rfl := Except.ok.inj h
      rw [sortBy_of_perm_zipIdx hsr.symm, List.zipIdx_map_fst, mapM_eq_ok_iff]
      exact hzs
    · intro h
      obtain ⟨rs, hrs, hsr⟩ := List.perm_comp_forall₂ hperm.symm
        (forall₂_answers_zipIdx (mapM_eq_ok_iff.mp h) 0)
      rw [mapM_answers_eq_ok_iff.mpr hrs]
      change Except.ok _ = _
      rw [sortBy_of_perm_zipIdx hsr, List.zipIdx_map_fst]

end ShareOut

namespace Synthesizer

/-- The same options but for the number of workers. -/
def withThreads (s : Synthesizer) (n : Nat) : Synthesizer :=
  { s with options := { s.options with threads := n } }

theorem groupPolicies_withThreads (s : Synthesizer) (m n : Nat) (gs : List RequirementGroup)
    (ps : List GroupPolicy) :
    (s.withThreads m).groupPolicies gs = .ok ps ↔ (s.withThreads n).groupPolicies gs = .ok ps := by
  rw [groupPolicies, groupPolicies, mapError_eq_ok_iff, mapError_eq_ok_iff, shareOut_eq_ok_iff,
    shareOut_eq_ok_iff]
  rfl

section Groups

variable {s : Synthesizer} {store : Store} {gs : List RequirementGroup}

theorem synthesizePartial_of_groups_error {e : Error} (h : s.groups store = .error e) :
    s.synthesizePartial store = .error e := by
  rw [synthesizePartial, h]
  rfl

theorem synthesizePartial_of_groups (h : s.groups store = .ok gs) :
    s.synthesizePartial store = (s.groupPolicies gs).map fun ps =>
      ((ps.foldl s.mergeGroup (.empty, [])).1.finalize,
        (ps.foldl s.mergeGroup (.empty, [])).2) := by
  rw [synthesizePartial, h]
  change s.groupPolicies gs >>= _ = _
  cases s.groupPolicies gs <;> rfl

/-- A run whose requirements are resolved can only fail in the synthesis. -/
theorem exists_synthesis_error {e : Error} (hgs : s.groups store = .ok gs)
    (h : s.synthesizePartial store = .error e) : ∃ e', e = .synthesis e' := by
  rw [synthesizePartial_of_groups hgs] at h
  cases hps : s.groupPolicies gs with
  | ok ps => simp [hps, Except.map] at h
  | error e' =>
    obtain ⟨e', rfl⟩ := mapError_eq_error hps
    rw [hps] at h
    exact ⟨e', (Except.error.inj h).symm⟩

end Groups

theorem synthesizePartial_eq_ok_iff (s : Synthesizer) (store : Store) (m n : Nat)
    (r : PolicyModel × List Conflict) : (s.withThreads m).synthesizePartial store = .ok r ↔
      (s.withThreads n).synthesizePartial store = .ok r := by
  have hof : ∀ k l, (s.withThreads k).synthesizePartial store = .ok r →
      (s.withThreads l).synthesizePartial store = .ok r := by
    intro k l h
    obtain ⟨gs, hgs, h⟩ := bind_eq_ok h
    obtain ⟨ps, hps, h⟩ := bind_eq_ok h
    have hgroups : (s.withThreads l).groups store = .ok gs := hgs
    rw [synthesizePartial_of_groups hgroups, (s.groupPolicies_withThreads k l gs ps).mp hps]
    exact h
  exact ⟨hof m n, hof n m⟩

/-- The number of workers has no effect on the model and on the conflicts, or on an error about a
path. Which group an error of the synthesis itself is about may depend on it. -/
theorem synthesizePartial_withThreads (s : Synthesizer) (store : Store) (n : Nat) :
    (∃ model conflicts, (s.withThreads n).synthesizePartial store = .ok (model, conflicts) ∧
        (s.withThreads 1).synthesizePartial store = .ok (model, conflicts)) ∨
      (∃ e, (s.withThreads n).synthesizePartial store = .error (.path e) ∧
        (s.withThreads 1).synthesizePartial store = .error (.path e)) ∨
      ∃ e e', (s.withThreads n).synthesizePartial store = .error (.synthesis e) ∧
        (s.withThreads 1).synthesizePartial store = .error (.synthesis e') := by
  -- the resolution does not look at the number of workers
  have hgroups : ∀ m, (s.withThreads m).groups store = s.groups store := fun _ => rfl
  cases hgs : s.groups store with
  | error e =>
    obtain ⟨e, rfl⟩ := mapError_eq_error hgs
    exact .inr (.inl ⟨e, synthesizePartial_of_groups_error ((hgroups n).trans hgs),
      synthesizePartial_of_groups_error ((hgroups 1).trans hgs)⟩)
  | ok gs =>
    have hsame := s.synthesizePartial_eq_ok_iff store n 1
    cases hn : (s.withThreads n).synthesizePartial store with
    | ok r => exact .inl ⟨r.1, r.2, rfl, (hsame r).mp hn⟩
    | error e =>
      cases h1 : (s.withThreads 1).synthesizePartial store with
      | ok r => simp [(hsame r).mpr h1] at hn
      | error e' =>
        obtain ⟨e, rfl⟩ := exists_synthesis_error ((hgroups n).trans hgs) hn
        obtain ⟨e', rfl⟩ := exists_synthesis_error ((hgroups 1).trans hgs) h1
        exact .inr (.inr ⟨e, e', rfl, rfl⟩)

end Synthesizer

end PathPolicy
