import PathPolicy.Policy.Node
import PathPolicy.Proofs.OrderedMap
import PathPolicy.Proofs.Sorting
import PathPolicy.Synthesis.Lowering

/-! Route maps after they are arranged. The first clause that applies decides, in the order in which
clauses are sorted, and of the clauses of a group those that permit come first. -/

namespace PathPolicy

namespace RouteMap

variable {cs ds : List Clause} {r : Route}

theorem decide_eq (r : Route) (cs : List Clause) :
    decide r cs = match cs.find? (·.applies r) with
      | some c => c.effect.apply r
      | none => some r := by
  induction cs with
  | nil => rfl
  | cons c cs ih =>
    rw [decide]
    by_cases hc : c.applies r = true
    · simp [hc]
    · simp [hc, ih]

end RouteMap

namespace NodePolicy

variable {cs : List Clause} {r : Route} {c : Clause}

instance : Std.TransCmp compareClauses :=
  inferInstanceAs (Std.TransCmp (compareLex (compareOn Clause.isUnconditional)
    (compareLex (compareOn Clause.prefixList?)
      (compareLex (compareOn Clause.verdict) (compareOn Clause.community?)))))

theorem routeMap_finalize (p : NodePolicy) (b : RouterId) (dir : Direction) :
    p.finalize.routeMap b dir = arrange (p.routeMap b dir) := by
  rw [routeMap, routeMap, finalize, OrderedMap.get?_mapValues]
  cases p.routeMaps.get? ⟨b, dir⟩ <;> rfl

/-- The numbers that clauses get do not change their order. -/
theorem apply_arrange (cs : List Clause) (r : Route) :
    RouteMap.apply (arrange cs) r = RouteMap.decide r (sortBy compareClauses cs) := by
  have hsorted : (arrange cs).Pairwise fun c d => (compareOn Clause.order c d).isLE := by
    rw [arrange, List.pairwise_map]
    have hidx := List.pairwise_lt_range' (s := 0) (n := (sortBy compareClauses cs).length)
    rw [← List.zipIdx_map_snd 0 (sortBy compareClauses cs), List.pairwise_map] at hidx
    refine hidx.imp fun {x y} hlt => ?_
    have hle : (x.2 + 1) * 10 ≤ (y.2 + 1) * 10 := by omega
    simpa [compareOn, Nat.isLE_compare] using hle
  rw [RouteMap.apply, sortBy_eq_self hsorted, arrange]
  generalize sortBy compareClauses cs = ds
  have hfst : ds = ds.zipIdx.map (·.1) := (List.zipIdx_map_fst 0 ds).symm
  conv => rhs; rw [hfst]
  generalize ds.zipIdx = xs
  induction xs with
  | nil => rfl
  | cons x xs ih => simp [RouteMap.decide, Clause.applies, ih]

theorem apply_arrange_of_not_applies (h : ∀ d ∈ cs, d.applies r = false) :
    RouteMap.apply (arrange cs) r = some r := by
  have hnone : (sortBy compareClauses cs).find? (·.applies r) = none :=
    List.find?_eq_none.mpr fun d hd => by simp [h d (mem_sortBy.mp hd)]
  rw [apply_arrange, RouteMap.decide_eq, hnone]

theorem apply_arrange_of_first (hc : c ∈ cs) (happlies : c.applies r = true)
    (hfirst : ∀ d ∈ cs, d.applies r = true → d = c ∨ compareClauses c d = .lt) :
    RouteMap.apply (arrange cs) r = c.effect.apply r := by
  have hfound : (sortBy compareClauses cs).find? (·.applies r) = some c :=
    find?_of_sorted (sortBy_pairwise compareClauses cs) (mem_sortBy.mpr hc) happlies
      fun d hd => hfirst d (mem_sortBy.mp hd)
  rw [apply_arrange, RouteMap.decide_eq, hfound]

end NodePolicy

namespace GroupMark

variable {m : GroupMark} {r : Route} {b : RouterId} {d : Decision} {c : Clause} {v : Nat}

theorem mem_networks_of_applies (h : c ∈ m.clauses b d) (happlies : c.applies r = true) :
    r.network ∈ m.networks := by
  have hcond : m.ofDestination ∈ c.conditions := by
    rw [clauses.eq_def] at h
    split at h
    · split at h
      · rw [List.mem_singleton.mp h, firstHopClause]
        simp
      · rcases List.mem_pair.mp h with rfl | rfl <;> simp [nextHopClause, denyClause]
    · rw [List.mem_singleton.mp h, denyClause]
      simp
  have hholds := List.all_eq_true.mp happlies _ hcond
  simpa [ofDestination, Condition.holds, prefixList, PrefixList.contains] using hholds

theorem applies_denyClause (h : r.network ∈ m.networks) : m.denyClause.applies r = true := by
  simp [denyClause, Clause.applies, ofDestination, Condition.holds, prefixList,
    PrefixList.contains, h]

theorem applies_firstHopClause (h : r.network ∈ m.networks) :
    (m.firstHopClause v).applies r = true := by
  simp [firstHopClause, Clause.applies, ofDestination, Condition.holds, prefixList,
    PrefixList.contains, h]

theorem applies_nextHopClause (h : r.network ∈ m.networks) :
    (m.nextHopClause v).applies r = r.communities.contains m.community := by
  simp [nextHopClause, Clause.applies, ofDestination, Condition.holds, prefixList,
    PrefixList.contains, h]

theorem compareClauses_nextHopClause (m : GroupMark) (v : Nat) :
    NodePolicy.compareClauses (m.nextHopClause v) m.denyClause = .lt := by
  have hconditions : compareOn Clause.isUnconditional (m.nextHopClause v) m.denyClause = .eq := rfl
  have hlist : compareOn Clause.prefixList? (m.nextHopClause v) m.denyClause = .eq :=
    Std.ReflCmp.compare_self (a := some m.prefixList)
  have hverdict : compareOn Clause.verdict (m.nextHopClause v) m.denyClause = .lt := rfl
  simp [NodePolicy.compareClauses, compareLex, hconditions, hlist, hverdict]

/-- What becomes of a route of the group at a router with this decision on the sender. -/
def import? (m : GroupMark) (b : RouterId) (r : Route) : Decision → Option Route
  | .permit localPref =>
    if b = m.destination then some ((r.addCommunity m.community).withLocalPref localPref)
    else if r.communities.contains m.community = true then some (r.withLocalPref localPref)
    else none
  | .deny => none

theorem import?_eq_some {r' : Route} (h : m.import? b r d = some r') :
    ∃ v, d = .permit v ∧ r'.network = r.network ∧ r'.path = r.path ∧ r'.sender = r.sender ∧
      r'.localPref = v ∧ r'.communities.contains m.community = true := by
  cases d with
  | deny => simp [import?] at h
  | permit v =>
    rw [import?] at h
    split at h
    · obtain rfl := Option.some.inj h
      exact ⟨v, rfl, rfl, rfl, rfl, rfl, OrderedSet.contains_add.mpr (.inl rfl)⟩
    · split at h
      · next hcomm =>
        obtain rfl := Option.some.inj h
        exact ⟨v, rfl, rfl, rfl, rfl, rfl, hcomm⟩
      · cases h

theorem exists_import? (h : b ≠ m.destination → r.communities.contains m.community = true)
    (v : Nat) : ∃ r', m.import? b r (.permit v) = some r' := by
  by_cases hb : b = m.destination
  · simp [import?, hb]
  · simp [import?, hb, h hb]

section Arrange

-- clauses of other groups do not apply to the routes of a group
variable {cs : List Clause} (hr : r.network ∈ m.networks)
  (hmem : ∀ c ∈ cs, c.applies r = true → c ∈ m.clauses b d)
  (hall : ∀ c ∈ m.clauses b d, ∃ c' ∈ cs, c'.same c = true)

include hmem hall

theorem mem_of_mem_clauses (hc : c ∈ m.clauses b d) (happlies : c.applies r = true)
    (hunique : ∀ x ∈ m.clauses b d, x.conditions = c.conditions → x = c) : c ∈ cs := by
  obtain ⟨c', hc', hsame⟩ := hall c hc
  obtain ⟨hcond, heff⟩ : c'.conditions = c.conditions ∧ c'.effect = c.effect := by
    simpa [Clause.same] using hsame
  have happlies' : c'.applies r = true := by rw [Clause.applies, hcond]; exact happlies
  exact hunique c' (hmem c' hc' happlies') hcond ▸ hc'

/-- A single clause of the group that always applies decides alone. -/
theorem apply_arrange_of_singleton (hc : m.clauses b d = [c]) (happlies : c.applies r = true) :
    RouteMap.apply (NodePolicy.arrange cs) r = c.effect.apply r := by
  have hmem' : c ∈ cs := mem_of_mem_clauses hmem hall (by simp [hc]) happlies
    fun x hx _ => by simpa [hc] using hx
  exact NodePolicy.apply_arrange_of_first hmem' happlies
    fun x hx hx' => .inl (by simpa [hc] using hmem x hx hx')

include hr

theorem apply_arrange_of_ne_destination (hd : d = .permit v) (hb : b ≠ m.destination) :
    RouteMap.apply (NodePolicy.arrange cs) r = m.import? b r d := by
  subst d
  have hcs : m.clauses b (.permit v) = [m.nextHopClause v, m.denyClause] := by
    simp [clauses, hb]
  have hne : (m.nextHopClause v).conditions ≠ m.denyClause.conditions := by
    simp [nextHopClause, denyClause]
  by_cases hcomm : r.communities.contains m.community = true
  · have happ : (m.nextHopClause v).applies r = true := (applies_nextHopClause hr).trans hcomm
    have hnext : m.nextHopClause v ∈ cs :=
      mem_of_mem_clauses hmem hall (by simp [hcs]) happ fun x hx hcond => by
        rw [hcs] at hx
        rcases List.mem_pair.mp hx with rfl | rfl
        · rfl
        · exact absurd hcond.symm hne
    rw [NodePolicy.apply_arrange_of_first hnext happ fun x hx happlies => by
      rcases List.mem_pair.mp (hcs ▸ hmem x hx happlies) with rfl | rfl
      · exact .inl rfl
      · exact .inr (compareClauses_nextHopClause m v)]
    simp [import?, hb, hcomm, nextHopClause, Effect.apply, SetAction.apply]
  · have hdeny : m.denyClause ∈ cs :=
      mem_of_mem_clauses hmem hall (by simp [hcs]) (applies_denyClause hr) fun x hx hcond => by
        rw [hcs] at hx
        rcases List.mem_pair.mp hx with rfl | rfl
        · exact absurd hcond hne
        · rfl
    rw [NodePolicy.apply_arrange_of_first hdeny (applies_denyClause hr) fun x hx happlies => by
      rcases List.mem_pair.mp (hcs ▸ hmem x hx happlies) with rfl | rfl
      · exact absurd ((applies_nextHopClause hr).symm.trans happlies) hcomm
      · exact .inl rfl]
    simp [import?, hb, hcomm, denyClause, Effect.apply]

theorem apply_arrange_clauses :
    RouteMap.apply (NodePolicy.arrange cs) r = m.import? b r d := by
  cases hd : d with
  | deny =>
    have hcs : m.clauses b d = [m.denyClause] := by simp [clauses, hd]
    rw [apply_arrange_of_singleton hmem hall hcs (applies_denyClause hr)]
    rfl
  | permit v =>
    by_cases hb : b = m.destination
    · have hcs : m.clauses b d = [m.firstHopClause v] := by simp [clauses, hd, hb]
      rw [apply_arrange_of_singleton hmem hall hcs (applies_firstHopClause hr)]
      simp [import?, hb, firstHopClause, Effect.apply, SetAction.apply]
    · rw [← hd]
      exact apply_arrange_of_ne_destination hr hmem hall hd hb

end Arrange

end GroupMark

end PathPolicy
