import Mathlib.Logic.Function.Iterate
import PathPolicy.Graph.Distance

/-! Bounds on shortest distances. A potential that no arc exceeds bounds them from below, and a
chain of arcs bounds them from above. -/

namespace PathPolicy.Distances

variable {arcs : Array (List Arc)} {d : Distances} {a target : Nat} {arc : Arc} {x y : Nat}

def AtMost (d : Distances) (a x : Nat) : Prop := ∃ y, d.get a = some y ∧ y ≤ x

theorem closer_cases (x y : Option Nat) : closer x y = x ∨ closer x y = y := by
  cases x with
  | none => exact .inr rfl
  | some x =>
    cases y with
    | none => exact .inl rfl
    | some y => rcases Nat.le_total x y with h | h <;> simp [closer, h]

theorem exists_closer_left (x : Nat) (y : Option Nat) :
    ∃ z, closer (some x) y = some z ∧ z ≤ x := by
  cases y with
  | none => exact ⟨x, rfl, Nat.le_refl x⟩
  | some y => exact ⟨min x y, rfl, Nat.min_le_left x y⟩

theorem exists_closer_right (x : Option Nat) (y : Nat) :
    ∃ z, closer x (some y) = some z ∧ z ≤ y := by
  cases x with
  | none => exact ⟨y, rfl, Nat.le_refl y⟩
  | some x => exact ⟨min x y, rfl, Nat.min_le_right x y⟩

def best (d : Distances) (out : List Arc) (base : Option Nat) : Option Nat :=
  out.foldl (fun best arc => closer best (d.through arc)) base

theorem best_cases {out : List Arc} {base : Option Nat} (h : d.best out base = some x) :
    base = some x ∨ ∃ arc ∈ out, d.through arc = some x := by
  induction out generalizing base with
  | nil => exact .inl h
  | cons arc out ih =>
    rcases ih h with hbase | ⟨arc', hm, ht⟩
    · rcases closer_cases base (d.through arc) with hc | hc
      · exact .inl (hc ▸ hbase)
      · exact .inr ⟨arc, List.mem_cons_self, hc ▸ hbase⟩
    · exact .inr ⟨arc', List.mem_cons_of_mem _ hm, ht⟩

theorem exists_best_base (out : List Arc) (x : Nat) :
    ∃ z, d.best out (some x) = some z ∧ z ≤ x := by
  induction out generalizing x with
  | nil => exact ⟨x, rfl, Nat.le_refl x⟩
  | cons arc out ih =>
    obtain ⟨y, hy, hle⟩ := exists_closer_left x (d.through arc)
    obtain ⟨z, hz, hle'⟩ := ih y
    refine ⟨z, ?_, by omega⟩
    rw [best, List.foldl_cons, hy]
    exact hz

theorem exists_best_of_mem {out : List Arc} (hm : arc ∈ out) (ht : d.through arc = some x)
    (base : Option Nat) : ∃ z, d.best out base = some z ∧ z ≤ x := by
  induction out generalizing base with
  | nil => simp at hm
  | cons arc' out ih =>
    rw [best, List.foldl_cons]
    rcases List.mem_cons.mp hm with rfl | hm
    · obtain ⟨y, hy, hle⟩ := exists_closer_right base x
      obtain ⟨z, hz, hle'⟩ := exists_best_base (d := d) out y
      rw [ht, hy]
      exact ⟨z, hz, by omega⟩
    · exact ih hm _

theorem get_relax (arcs : Array (List Arc)) (d : Distances) (a : Nat) :
    (relax arcs d).get a = (arcs[a]?).bind fun out => d.best out (d.get a) := by
  rw [get, relax, Array.getElem?_mapIdx]
  cases arcs[a]? <;> rfl

theorem atMost_relax (ha : a < arcs.size) (h : d.AtMost a x) : (relax arcs d).AtMost a x := by
  obtain ⟨y, hy, hle⟩ := h
  obtain ⟨z, hz, hle'⟩ := exists_best_base (d := d) arcs[a] y
  refine ⟨z, ?_, by omega⟩
  rw [get_relax, Array.getElem?_eq_getElem ha, Option.bind_some, hy, hz]

theorem atMost_relax_of_arc (hm : arc ∈ arcs[a]?.getD []) (h : d.AtMost arc.target x) :
    (relax arcs d).AtMost a (arc.cost + x) := by
  obtain ⟨y, hy, hle⟩ := h
  cases hout : arcs[a]? with
  | none => simp [hout] at hm
  | some out =>
    have ht : d.through arc = some (arc.cost + y) := by rw [through, hy]; rfl
    obtain ⟨z, hz, hle'⟩ := exists_best_of_mem (by simpa [hout] using hm) ht (d.get a)
    refine ⟨z, ?_, by omega⟩
    rw [get_relax, hout, Option.bind_some, hz]

theorem get_start {size : Nat} :
    (start size target).get a = if a < size ∧ a = target then some 0 else none := by
  by_cases ha : a < size
  · by_cases ht : a = target
    · subst a
      simp [start, get, ha]
    · simp [start, get, ha, ht]
  · simp [start, get, ha]

theorem stabilize_eq_iterate (step : Distances → Distances) (n : Nat) (d : Distances) :
    stabilize step n d = step^[n] d := by
  induction n generalizing d with
  | zero => rfl
  | succ n ih =>
    rw [stabilize, Function.iterate_succ_apply]
    split
    · next hfix => rw [hfix, Function.iterate_fixed hfix n]
    · exact ih _

def Potential (arcs : Array (List Arc)) (potential : Nat → Nat) : Prop :=
  ∀ a, ∀ arc ∈ arcs[a]?.getD [], potential a ≤ arc.cost + potential arc.target

theorem Potential.le_of_get_iterate {potential : Nat → Nat} (hp : Potential arcs potential)
    (htarget : potential target = 0) {k : Nat}
    (h : ((relax arcs)^[k] (start arcs.size target)).get a = some x) : potential a ≤ x := by
  induction k generalizing a x with
  | zero =>
    rw [Function.iterate_zero_apply, get_start] at h
    split at h
    · next ha =>
      rw [ha.2, htarget]
      exact Nat.zero_le x
    · cases h
  | succ k ih =>
    rw [Function.iterate_succ_apply', get_relax] at h
    obtain ⟨out, hout, hbest⟩ := Option.bind_eq_some_iff.mp h
    rcases best_cases hbest with hbase | ⟨arc, hm, ht⟩
    · exact ih hbase
    · obtain ⟨y, hy, rfl⟩ := Option.map_eq_some_iff.mp ht
      have hle := ih hy
      have hstep := hp a arc (by simpa [hout] using hm)
      omega

theorem Potential.le_of_get_shortest {potential : Nat → Nat} (hp : Potential arcs potential)
    (htarget : potential target = 0) (h : (shortest arcs target).get a = some x) :
    potential a ≤ x := by
  rw [shortest, stabilize_eq_iterate] at h
  exact hp.le_of_get_iterate htarget h

/-- On a set of nodes where the height always falls by the cost of some arc, the height is an upper
bound. -/
theorem atMost_iterate {height : Nat → Nat} {inside : Nat → Prop} (htarget : target < arcs.size)
    (hzero : height target = 0)
    (hstep : ∀ a, inside a → a ≠ target → a < arcs.size ∧ ∃ arc ∈ arcs[a]?.getD [],
      inside arc.target ∧ height arc.target < height a ∧
        arc.cost + height arc.target = height a) {k : Nat} (ha : inside a) (hk : height a ≤ k) :
    ((relax arcs)^[k] (start arcs.size target)).AtMost a (height a) := by
  induction k generalizing a with
  | zero =>
    by_cases hne : a = target
    · subst a
      refine ⟨0, ?_, Nat.zero_le _⟩
      rw [Function.iterate_zero_apply, get_start, if_pos ⟨htarget, rfl⟩]
    · obtain ⟨_, arc, _, _, hlt, _⟩ := hstep a ha hne
      omega
  | succ k ih =>
    rw [Function.iterate_succ_apply']
    by_cases hne : a = target
    · subst a
      exact atMost_relax htarget (ih ha (by omega))
    · obtain ⟨_, arc, hm, hin, hlt, hcost⟩ := hstep a ha hne
      rw [← hcost]
      exact atMost_relax_of_arc hm (ih hin (by omega))

theorem atMost_shortest (height : Nat → Nat) (inside : Nat → Prop) (htarget : target < arcs.size)
    (hzero : height target = 0)
    (hstep : ∀ a, inside a → a ≠ target → a < arcs.size ∧ ∃ arc ∈ arcs[a]?.getD [],
      inside arc.target ∧ height arc.target < height a ∧
        arc.cost + height arc.target = height a) (ha : inside a) (hk : height a ≤ arcs.size) :
    (shortest arcs target).AtMost a (height a) := by
  rw [shortest, stabilize_eq_iterate]
  exact atMost_iterate htarget hzero hstep ha hk

end PathPolicy.Distances
