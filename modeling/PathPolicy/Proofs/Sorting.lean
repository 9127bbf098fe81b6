import Mathlib.Data.List.Destutter
import Mathlib.Data.List.Nodup
import Mathlib.Data.List.Pairwise
import PathPolicy.Sorting

/-! Sorted lists: what is sorted already stays as it is, the least element comes first, the first
element that meets a condition is the least one that does, and filters commute with sorting. Where
only equal elements compare equal, a sorted list without its repetitions is strictly sorted. -/

namespace PathPolicy

variable {α : Type} {cmp : α → α → Ordering}

theorem sortBy_eq_self {xs : List α} (h : xs.Pairwise fun a b => (cmp a b).isLE) :
    sortBy cmp xs = xs := by
  induction xs with
  | nil => rfl
  | cons x xs ih =>
    have hx := List.pairwise_cons.mp h
    rw [sortBy, List.foldr_cons]
    change insertSorted cmp x (sortBy cmp xs) = x :: xs
    rw [ih hx.2]
    cases xs with
    | nil => rfl
    | cons y ys => rw [insertSorted, if_pos (hx.1 y (by simp))]

/-- Elements that are all different under the comparison have one sorted order. -/
theorem sortBy_eq_of_perm [Std.TransCmp cmp] {xs ys : List α} (h : xs.Perm ys)
    (hys : ys.Pairwise fun a b => cmp a b = .lt) : sortBy cmp xs = ys := by
  have hle : ys.Pairwise fun a b => (cmp a b).isLE := hys.imp fun hlt => by simp [hlt]
  have hdiffer : ys.Pairwise fun a b => cmp a b = .lt ∨ cmp b a = .lt := hys.imp .inl
  have hanti : ∀ a ∈ ys, ∀ b ∈ ys, (cmp a b).isLE → (cmp b a).isLE → a = b := by
    intro a ha b hb hab hba
    by_contra hne
    have hsymm : Std.Symm fun a b => cmp a b = .lt ∨ cmp b a = .lt := ⟨fun _ _ => Or.symm⟩
    rcases hdiffer.forall ha hb hne with hlt | hlt
    · simp [Std.OrientedCmp.gt_of_lt hlt] at hba
    · simp [Std.OrientedCmp.gt_of_lt hlt] at hab
  exact ((sortBy_perm cmp xs).trans h).eq_of_pairwise
    (fun a b ha hb => hanti a (h.mem_iff.mp (mem_sortBy.mp ha)) b hb) (sortBy_pairwise cmp xs) hle

theorem sortBy_nodup {xs : List α} (h : xs.Nodup) : (sortBy cmp xs).Nodup :=
  (sortBy_perm cmp xs).nodup_iff.mpr h

theorem sortBy_eq_nil_iff {xs : List α} : sortBy cmp xs = [] ↔ xs = [] := by
  constructor
  · intro h
    exact List.perm_nil.mp (h ▸ (sortBy_perm cmp xs).symm)
  · rintro rfl
    rfl

theorem head_of_sortBy [Std.TransCmp cmp] {xs ys : List α} {a : α} (h : sortBy cmp xs = a :: ys) :
    a ∈ xs ∧ ∀ b ∈ xs, (cmp a b).isLE := by
  have hp := sortBy_pairwise cmp xs
  rw [h] at hp
  refine ⟨mem_sortBy.mp (h ▸ List.mem_cons_self), fun b hb => ?_⟩
  have hm : b ∈ a :: ys := h ▸ mem_sortBy.mpr hb
  rcases List.mem_cons.mp hm with rfl | hm
  · simp [Std.ReflCmp.compare_self]
  · exact (List.pairwise_cons.mp hp).1 b hm

theorem insertSorted_filter [Std.TransCmp cmp] (p : α → Bool) (x : α) {xs : List α}
    (h : xs.Pairwise fun a b => (cmp a b).isLE) :
    (insertSorted cmp x xs).filter p =
      if p x then insertSorted cmp x (xs.filter p) else xs.filter p := by
  induction xs with
  | nil => by_cases hx : p x <;> simp [insertSorted, hx]
  | cons y ys ih =>
    have hy := List.pairwise_cons.mp h
    rw [insertSorted]
    by_cases hle : (cmp x y).isLE
    · -- `x` comes before all of `y :: ys`, so also before those that the filter leaves
      have hfirst : insertSorted cmp x ((y :: ys).filter p) = x :: (y :: ys).filter p := by
        cases hf : (y :: ys).filter p with
        | nil => rfl
        | cons z zs =>
          have hz : z ∈ y :: ys := (List.mem_filter.mp (hf ▸ List.mem_cons_self)).1
          have hxz : (cmp x z).isLE := by
            rcases List.mem_cons.mp hz with rfl | hz
            · exact hle
            · exact Std.TransCmp.isLE_trans hle (hy.1 z hz)
          rw [insertSorted, if_pos hxz]
      rw [if_pos hle, hfirst]
      by_cases hx : p x <;> simp [hx]
    · rw [if_neg hle, List.filter_cons, ih hy.2]
      by_cases hpy : p y
      · by_cases hx : p x
        · simp [hpy, hx, insertSorted, hle]
        · simp [hpy, hx]
      · simp [hpy]

theorem sortBy_filter [Std.TransCmp cmp] (p : α → Bool) (xs : List α) :
    (sortBy cmp xs).filter p = sortBy cmp (xs.filter p) := by
  induction xs with
  | nil => rfl
  | cons x xs ih =>
    have hcons : sortBy cmp (x :: xs) = insertSorted cmp x (sortBy cmp xs) := rfl
    rw [hcons, insertSorted_filter p x (sortBy_pairwise cmp xs), ih, List.filter_cons]
    by_cases hx : p x <;> simp [hx, sortBy]

/-- An element that meets the condition and comes before all others that do is the one found. -/
theorem find?_of_sorted [Std.TransCmp cmp] {p : α → Bool} {xs : List α} {a : α}
    (hsorted : xs.Pairwise fun x y => (cmp x y).isLE) (ha : a ∈ xs) (hp : p a)
    (hfirst : ∀ b ∈ xs, p b → b = a ∨ cmp a b = .lt) : xs.find? p = some a := by
  induction xs with
  | nil => simp at ha
  | cons x xs ih =>
    have hx := List.pairwise_cons.mp hsorted
    by_cases hpx : p x
    · rcases hfirst x (by simp) hpx with rfl | hlt
      · simp [hpx]
      · rcases List.mem_cons.mp ha with rfl | ha
        · simp [hpx]
        · have hgt : cmp x a = .gt := Std.OrientedCmp.gt_of_lt hlt
          simpa [hgt] using hx.1 a ha
    · have hne : a ≠ x := fun he => hpx (he ▸ hp)
      rw [List.find?_cons_of_neg hpx]
      exact ih hx.2 ((List.mem_cons.mp ha).resolve_left hne)
        fun b hb => hfirst b (List.mem_cons_of_mem _ hb)

theorem pairwise_lt_of_isChain_ne [Std.TransCmp cmp] {xs : List α}
    (hle : xs.Pairwise fun a b => (cmp a b).isLE) (hne : xs.IsChain (· ≠ ·))
    (heq : ∀ a ∈ xs, ∀ b ∈ xs, cmp a b = .eq → a = b) :
    xs.Pairwise fun a b => cmp a b = .lt := by
  induction xs with
  | nil => exact .nil
  | cons x xs ih =>
    obtain ⟨hx, hxs⟩ := List.pairwise_cons.mp hle
    have hlt := ih hxs hne.tail fun a ha b hb => heq a (by simp [ha]) b (by simp [hb])
    refine List.pairwise_cons.mpr ⟨fun z hz => ?_, hlt⟩
    cases xs with
    | nil => cases hz
    | cons y ys =>
      have hxy : cmp x y = .lt := by
        have hdiffer : cmp x y ≠ .eq := fun h =>
          (List.isChain_cons_cons.mp hne).1 (heq x (by simp) y (by simp) h)
        have hisLE := hx y (by simp)
        cases hcmp : cmp x y <;> simp_all
      rcases List.mem_cons.mp hz with rfl | hz
      · exact hxy
      · exact Std.TransCmp.lt_trans hxy ((List.pairwise_cons.mp hlt).1 z hz)

section Repetitions

variable [DecidableEq α] {xs : List α} {a b : α}

/-- Of each run of equal elements one stays. -/
theorem eraseReps_eq_destutter (xs : List α) : xs.eraseReps = xs.destutter (· ≠ ·) := by
  have hloop : ∀ (as : List α) (a : α) (acc : List α),
      List.eraseRepsBy.loop (· == ·) a as acc = acc.reverse ++ as.destutter' (· ≠ ·) a := by
    intro as
    induction as with
    | nil => simp [List.eraseRepsBy.loop]
    | cons b bs ih =>
      intro a acc
      rw [List.eraseRepsBy.loop]
      split
      · next hab => rw [ih, List.destutter'_cons_neg _ (by simpa using hab), eq_of_beq hab]
      · next hab => rw [ih, List.destutter'_cons_pos _ (by simpa using hab)]; simp
  cases xs with
  | nil => rfl
  | cons a as => exact hloop as a []

theorem mem_destutter'_ne : b ∈ xs.destutter' (· ≠ ·) a ↔ b ∈ a :: xs := by
  induction xs generalizing a with
  | nil => rfl
  | cons x xs ih =>
    by_cases hax : a = x
    · rw [List.destutter'_cons_neg _ (by simpa using hax), ih, hax]
      simp
    · rw [List.destutter'_cons_pos _ hax, List.mem_cons, ih]
      simp

theorem mem_eraseReps : a ∈ xs.eraseReps ↔ a ∈ xs := by
  rw [eraseReps_eq_destutter]
  cases xs with
  | nil => rfl
  | cons x xs => exact mem_destutter'_ne

theorem eraseReps_pairwise [Std.TransCmp cmp] (hle : xs.Pairwise fun a b => (cmp a b).isLE)
    (heq : ∀ a ∈ xs, ∀ b ∈ xs, cmp a b = .eq → a = b) :
    xs.eraseReps.Pairwise fun a b => cmp a b = .lt := by
  have hsub := List.destutter_sublist (· ≠ ·) xs
  rw [eraseReps_eq_destutter]
  exact pairwise_lt_of_isChain_ne (hle.sublist hsub) (List.isChain_destutter _ xs)
    fun a ha b hb => heq a (hsub.mem ha) b (hsub.mem hb)

end Repetitions

end PathPolicy
