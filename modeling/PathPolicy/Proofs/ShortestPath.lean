import Mathlib.Data.List.Perm.Subperm
import Mathlib.Data.Nat.Find
import Mathlib.Order.Basic
import PathPolicy.Proofs.Distance

/-! Shortest distances over arcs of positive cost. A node whose distance is greater than those of
`n` other nodes has it after `n` rounds, so that all distances are found in as many rounds as there
are nodes, and each of them is taken by some arc. -/

namespace PathPolicy.Distances

variable {arcs : Array (List Arc)} {target a b : Nat} {arc : Arc} {k x y : Nat}

def after (arcs : Array (List Arc)) (target k : Nat) : Distances :=
  (relax arcs)^[k] (start arcs.size target)

theorem after_succ : after arcs target (k + 1) = relax arcs (after arcs target k) :=
  Function.iterate_succ_apply' _ _ _

/-- The least distance of all rounds. -/
structure Least (arcs : Array (List Arc)) (target a x : Nat) : Prop where
  found : ∃ k, (after arcs target k).get a = some x
  le : ∀ k y, (after arcs target k).get a = some y → x ≤ y

theorem lt_size_of_get_after (h : (after arcs target k).get a = some x) : a < arcs.size := by
  cases k with
  | zero =>
    by_contra ha
    rw [after, Function.iterate_zero_apply, get_start, if_neg fun h => ha h.1] at h
    cases h
  | succ k =>
    by_contra ha
    rw [after_succ, get_relax, Array.getElem?_eq_none (Nat.le_of_not_lt ha)] at h
    cases h

theorem exists_least (h : (after arcs target k).get a = some y) :
    ∃ x, x ≤ y ∧ Least arcs target a x := by
  classical
  have hex : ∃ x k, (after arcs target k).get a = some x := ⟨y, k, h⟩
  exact ⟨Nat.find hex, Nat.find_min' hex ⟨k, h⟩, Nat.find_spec hex,
    fun k y hy => Nat.find_min' hex ⟨k, hy⟩⟩

namespace Least

theorem unique (hx : Least arcs target a x) (hy : Least arcs target a y) : x = y := by
  obtain ⟨k, hk⟩ := hx.found
  obtain ⟨l, hl⟩ := hy.found
  exact (hx.le l y hl).antisymm (hy.le k x hk)

theorem eq_of_atMost (h : Least arcs target a x) (hk : (after arcs target k).AtMost a x) :
    (after arcs target k).get a = some x := by
  obtain ⟨y, hy, hle⟩ := hk
  rw [hy, hle.antisymm (h.le k y hy)]

/-- A distance that is least stays. -/
theorem stays (h : Least arcs target a x) {l : Nat} (hk : (after arcs target k).get a = some x)
    (hl : k ≤ l) : (after arcs target l).get a = some x := by
  induction l, hl using Nat.le_induction with
  | base => exact hk
  | succ l _ ih =>
    refine h.eq_of_atMost ?_
    rw [after_succ]
    exact atMost_relax (lt_size_of_get_after ih) ⟨x, ih, Nat.le_refl x⟩

/-- An arc is one way to go on, so the distance is no greater than that way. -/
theorem exists_of_arc (hm : arc ∈ arcs[a]?.getD []) (h : Least arcs target arc.target y) :
    ∃ x, x ≤ arc.cost + y ∧ Least arcs target a x := by
  obtain ⟨k, hk⟩ := h.found
  obtain ⟨z, hz, hle⟩ := atMost_relax_of_arc hm ⟨y, hk, Nat.le_refl y⟩
  rw [← after_succ] at hz
  obtain ⟨x, hx, hleast⟩ := exists_least hz
  exact ⟨x, hx.trans hle, hleast⟩

/-- A least distance is taken by some arc. -/
theorem exists_arc (h : Least arcs target a x) (hne : a ≠ target) :
    ∃ arc ∈ arcs[a]?.getD [], ∃ y, Least arcs target arc.target y ∧ arc.cost + y = x := by
  obtain ⟨k, hk⟩ := h.found
  induction k with
  | zero =>
    rw [after, Function.iterate_zero_apply, get_start, if_neg fun h => hne h.2] at hk
    cases hk
  | succ k ih =>
    rw [after_succ, get_relax] at hk
    obtain ⟨out, hout, hbest⟩ := Option.bind_eq_some_iff.mp hk
    rcases best_cases hbest with hbase | ⟨arc, hm, ht⟩
    · exact ih hbase
    · obtain ⟨y, hy, rfl⟩ := Option.map_eq_some_iff.mp ht
      have hm' : arc ∈ arcs[a]?.getD [] := by simpa [hout] using hm
      obtain ⟨z, hz, hleast⟩ := exists_least hy
      obtain ⟨w, hw, hleast'⟩ := hleast.exists_of_arc hm'
      have hsame := h.unique hleast'
      obtain rfl : y = z := by omega
      exact ⟨arc, hm', y, hleast, rfl⟩

end Least

open Classical in
/-- The nodes whose least distance is less than `x`. -/
noncomputable def closerNodes (arcs : Array (List Arc)) (target x : Nat) : List Nat :=
  (List.range arcs.size).filter fun a => ∃ y, y < x ∧ Least arcs target a y

theorem mem_closerNodes : a ∈ closerNodes arcs target x ↔ ∃ y, y < x ∧ Least arcs target a y := by
  classical
  rw [closerNodes, List.mem_filter, List.mem_range]
  constructor
  · rintro ⟨_, h⟩
    exact of_decide_eq_true h
  · rintro ⟨y, hy, h⟩
    obtain ⟨k, hk⟩ := h.found
    exact ⟨lt_size_of_get_after hk, decide_eq_true ⟨y, hy, h⟩⟩

theorem length_closerNodes_le : (closerNodes arcs target x).length ≤ arcs.size := by
  classical
  have hle := List.length_filter_le (fun a => decide (∃ y, y < x ∧ Least arcs target a y))
    (List.range arcs.size)
  rw [List.length_range] at hle
  exact hle

theorem length_closerNodes_lt (h : Least arcs target b y) (hy : y < x) :
    (closerNodes arcs target y).length < (closerNodes arcs target x).length := by
  have hnd : (b :: closerNodes arcs target y).Nodup := by
    refine List.nodup_cons.mpr ⟨fun hb => ?_, List.nodup_range.filter _⟩
    obtain ⟨z, hz, hleast⟩ := mem_closerNodes.mp hb
    exact absurd (h.unique hleast) (by omega)
  have hsub : b :: closerNodes arcs target y ⊆ closerNodes arcs target x := by
    intro c hc
    rcases List.mem_cons.mp hc with rfl | hc
    · exact mem_closerNodes.mpr ⟨y, hy, h⟩
    · obtain ⟨z, hz, hleast⟩ := mem_closerNodes.mp hc
      exact mem_closerNodes.mpr ⟨z, hz.trans hy, hleast⟩
  exact (hnd.subperm hsub).length_le

def Positive (arcs : Array (List Arc)) : Prop :=
  ∀ a : Nat, ∀ arc ∈ arcs[a]?.getD [], 0 < arc.cost

theorem Least.get_after (hpos : Positive arcs) (h : Least arcs target a x) :
    (after arcs target (closerNodes arcs target x).length).get a = some x := by
  induction x using Nat.strong_induction_on generalizing a with
  | _ x ih =>
    by_cases hne : a = target
    · subst a
      obtain ⟨k, hk⟩ := h.found
      have hzero : (after arcs target 0).get target = some 0 := by
        rw [after, Function.iterate_zero_apply, get_start,
          if_pos ⟨lt_size_of_get_after hk, rfl⟩]
      obtain rfl := Nat.le_zero.mp (h.le 0 0 hzero)
      exact h.stays hzero (Nat.zero_le _)
    · obtain ⟨arc, hm, y, hy, rfl⟩ := h.exists_arc hne
      have hcost := hpos a arc hm
      have hget := ih y (by omega) hy
      have hlt := length_closerNodes_lt (x := arc.cost + y) hy (by omega)
      have hmost := atMost_relax_of_arc hm ⟨y, hget, Nat.le_refl y⟩
      rw [← after_succ] at hmost
      exact h.stays (h.eq_of_atMost hmost) hlt

section Positive

variable (hpos : Positive arcs)

include hpos

theorem get_shortest_iff : (shortest arcs target).get a = some x ↔ Least arcs target a x := by
  have hleast : ∀ {x}, Least arcs target a x → (shortest arcs target).get a = some x := fun h => by
    rw [shortest, stabilize_eq_iterate]
    exact h.stays (h.get_after hpos) length_closerNodes_le
  refine ⟨fun h => ?_, hleast⟩
  have hround := h
  rw [shortest, stabilize_eq_iterate] at hround
  obtain ⟨y, _, hy⟩ := exists_least hround
  rw [hleast hy] at h
  exact Option.some.inj h ▸ hy

theorem get_shortest_target (h : target < arcs.size) :
    (shortest arcs target).get target = some 0 := by
  refine (get_shortest_iff hpos).mpr ⟨⟨0, ?_⟩, fun _ y _ => Nat.zero_le y⟩
  rw [after, Function.iterate_zero_apply, get_start, if_pos ⟨h, rfl⟩]

/-- Each shortest distance is taken by some arc. -/
theorem exists_arc_of_get_shortest (hne : a ≠ target)
    (h : (shortest arcs target).get a = some x) :
    ∃ arc ∈ arcs[a]?.getD [], (shortest arcs target).through arc = some x := by
  obtain ⟨arc, hm, y, hy, hsum⟩ := ((get_shortest_iff hpos).mp h).exists_arc hne
  refine ⟨arc, hm, ?_⟩
  rw [through, (get_shortest_iff hpos).mpr hy, Option.map_some, hsum]

/-- No arc is a shorter way. -/
theorem atMost_of_arc (hm : arc ∈ arcs[a]?.getD [])
    (h : (shortest arcs target).AtMost arc.target y) :
    (shortest arcs target).AtMost a (arc.cost + y) := by
  obtain ⟨z, hz, hle⟩ := h
  obtain ⟨x, hx, hleast⟩ := ((get_shortest_iff hpos).mp hz).exists_of_arc hm
  exact ⟨x, (get_shortest_iff hpos).mpr hleast, by omega⟩

end Positive

end PathPolicy.Distances
