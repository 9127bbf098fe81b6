/-! Stable sorting by a comparison. Elements that compare equal keep their order. -/

namespace PathPolicy

variable {α : Type}

def insertSorted (cmp : α → α → Ordering) (x : α) : List α → List α
  | [] => [x]
  | y :: ys => if (cmp x y).isLE then x :: y :: ys else y :: insertSorted cmp x ys

def sortBy (cmp : α → α → Ordering) (xs : List α) : List α :=
  xs.foldr (insertSorted cmp) []

theorem insertSorted_perm (cmp : α → α → Ordering) (x : α) (xs : List α) :
    (insertSorted cmp x xs).Perm (x :: xs) := by
  induction xs with
  | nil => exact .refl _
  | cons y ys ih =>
    rw [insertSorted]
    split
    · exact .refl _
    · exact (ih.cons y).trans (.swap x y ys)

theorem sortBy_perm (cmp : α → α → Ordering) (xs : List α) : (sortBy cmp xs).Perm xs := by
  induction xs with
  | nil => exact .refl _
  | cons x xs ih => exact (insertSorted_perm cmp x _).trans (ih.cons x)

theorem mem_sortBy {cmp : α → α → Ordering} {x : α} {xs : List α} :
    x ∈ sortBy cmp xs ↔ x ∈ xs :=
  (sortBy_perm cmp xs).mem_iff

theorem insertSorted_pairwise {cmp : α → α → Ordering} [Std.TransCmp cmp] (x : α) {xs : List α}
    (h : xs.Pairwise fun a b => (cmp a b).isLE) :
    (insertSorted cmp x xs).Pairwise fun a b => (cmp a b).isLE := by
  induction xs with
  | nil => simp [insertSorted]
  | cons y ys ih =>
    have hy := List.pairwise_cons.mp h
    rw [insertSorted]
    split
    · next hx =>
      refine List.pairwise_cons.mpr ⟨fun z hz => ?_, h⟩
      rcases List.mem_cons.mp hz with rfl | hz
      · exact hx
      · exact Std.TransCmp.isLE_trans hx (hy.1 z hz)
    · next hx =>
      refine List.pairwise_cons.mpr ⟨fun z hz => ?_, ih hy.2⟩
      rcases List.mem_cons.mp ((insertSorted_perm cmp x ys).mem_iff.mp hz) with rfl | hz
      · have hgt : cmp z y = .gt := by simpa [Ordering.isLE_iff_ne_gt] using hx
        simp [Std.OrientedCmp.lt_of_gt hgt]
      · exact hy.1 z hz

theorem sortBy_pairwise (cmp : α → α → Ordering) [Std.TransCmp cmp] (xs : List α) :
    (sortBy cmp xs).Pairwise fun a b => (cmp a b).isLE := by
  induction xs with
  | nil => exact .nil
  | cons x xs ih => exact insertSorted_pairwise x ih

end PathPolicy
