import PathPolicy.Forwarding.Bgp
import PathPolicy.Proofs.Topology

/-! The routes that a router chooses. Only the candidates of the greatest local preference count,
and the best route stays the same while no other candidate is as good. -/

namespace PathPolicy.Bgp

variable {t : Topology} {maxPaths : Nat} {candidates : List Route} {r x : Route}

instance (t : Topology) : Std.TransCmp (compareRoutes t) :=
  have hpref : Std.TransCmp (compareOn Route.localPref) := inferInstance
  have : Std.TransCmp fun r s => compareOn Route.localPref s r := hpref.opposite
  inferInstanceAs (Std.TransCmp (compareLex (fun r s => compareOn Route.localPref s r)
    (compareLex (compareOn fun r => r.path.length) (compareOn fun r => t.name r.sender))))

theorem localPref_le_of_compareRoutes (h : (compareRoutes t r x).isLE) :
    x.localPref ≤ r.localPref := by
  rw [compareRoutes, compareLex] at h
  by_contra hlt
  have hgt : compareOn Route.localPref x r = .gt := Nat.compare_eq_gt.mpr (Nat.lt_of_not_le hlt)
  simp [hgt] at h

theorem length_le_of_compareRoutes (h : (compareRoutes t r x).isLE)
    (hpref : r.localPref = x.localPref) : r.path.length ≤ x.path.length := by
  have heq : compareOn Route.localPref x r = .eq := Nat.compare_eq_eq.mpr hpref.symm
  simp only [compareRoutes, compareLex, heq, Ordering.eq_then] at h
  by_contra hlt
  have hgt : compareOn (fun r => r.path.length) r x = .gt :=
    Nat.compare_eq_gt.mpr (Nat.lt_of_not_le hlt)
  simp [hgt] at h

theorem name_eq_of_compareRoutes (h : compareRoutes t r x = .eq) :
    t.name r.sender = t.name x.sender := by
  simp only [compareRoutes, compareLex, Ordering.then_eq_eq] at h
  exact Std.LawfulEqOrd.eq_of_compare h.2.2

theorem mem_of_mem_choose (h : r ∈ choose t maxPaths candidates) : r ∈ candidates := by
  rw [choose] at h
  split at h
  · simp at h
  · next best rest hsort =>
    exact mem_sortBy.mp (hsort ▸ (List.mem_filter.mp (List.mem_of_mem_take h)).1)

theorem choose_eq_of_greatest {pref : Nat} (hx : x ∈ candidates) (hpref : x.localPref = pref)
    (hle : ∀ r ∈ candidates, r.localPref ≤ pref) :
    choose t maxPaths candidates =
      (sortBy (compareRoutes t) (candidates.filter (·.localPref = pref))).take maxPaths := by
  rw [choose, ← sortBy_filter]
  split
  · next hsort => simp [hsort]
  · next best rest hsort =>
    obtain ⟨hbest, hfirst⟩ := head_of_sortBy hsort
    have hge := localPref_le_of_compareRoutes (hfirst x hx)
    have heq : best.localPref = pref := Nat.le_antisymm (hle best hbest) (hpref ▸ hge)
    rw [hsort, heq]

theorem head?_choose (hpos : 0 < maxPaths) :
    (choose t maxPaths candidates).head? = (sortBy (compareRoutes t) candidates).head? := by
  rw [choose]
  split
  · next hsort => rw [hsort]
  · next best rest hsort =>
    rw [hsort, List.filter_cons_of_pos (by simp), List.head?_take, if_neg (by omega)]
    rfl

theorem mem_of_head?_sortBy (h : (sortBy (compareRoutes t) candidates).head? = some r) :
    r ∈ candidates ∧ ∀ x ∈ candidates, (compareRoutes t r x).isLE := by
  obtain ⟨rest, hsort⟩ := List.head?_eq_some_iff.mp h
  exact head_of_sortBy hsort

theorem exists_head?_sortBy (h : x ∈ candidates) :
    ∃ r, (sortBy (compareRoutes t) candidates).head? = some r :=
  Option.isSome_iff_exists.mp (List.isSome_head?.mpr (List.ne_nil_of_mem (mem_sortBy.mpr h)))

/-- The best of some candidates is that of others too, if these have no better ones. -/
theorem head?_sortBy_congr {others : List Route}
    (h : (sortBy (compareRoutes t) candidates).head? = some r) (hr : r ∈ others)
    (hbetter : ∀ x ∈ others, (compareRoutes t x r).isLE → x ∈ candidates)
    (hunique : ∀ x ∈ others, compareRoutes t x r = .eq → x = r) :
    (sortBy (compareRoutes t) others).head? = some r := by
  obtain ⟨x, hx⟩ := exists_head?_sortBy (t := t) hr
  obtain ⟨hm, hfirst⟩ := mem_of_head?_sortBy hx
  have hxr := hfirst r hr
  have hrx := (mem_of_head?_sortBy h).2 x (hbetter x hm hxr)
  have heq : compareRoutes t x r = .eq := Std.OrientedCmp.isLE_antisymm hxr hrx
  rw [hx, hunique x hm heq]

end PathPolicy.Bgp
