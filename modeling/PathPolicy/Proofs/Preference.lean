import PathPolicy.Proofs.ClauseCount
import PathPolicy.Proofs.Consistency
import PathPolicy.Proofs.Marks
import PathPolicy.Proofs.MemberOrder
import PathPolicy.Proofs.OspfRoutes
import PathPolicy.Proofs.StaticTraffic

/-! The order of the members of a requirement, as the model sees it. A next hop that an earlier member
takes is preferred to one that only later members take: by its local preference, by its distance, or
by the cost of the way over it. -/

namespace PathPolicy

open RequirementGroup ResolvedRequirement

namespace GroupMark

variable {m : GroupMark} {b : RouterId} {d : Decision} {c c' : Clause} {v : Nat}

/-- A clause that permits routes of the group. -/
def Permitting (m : GroupMark) (c : Clause) : Prop :=
  c.prefixList? = some m.prefixList ∧ c.verdict = .permit

theorem permitting_iff_of_same (h : c.same c' = true) : m.Permitting c ↔ m.Permitting c' := by
  obtain ⟨hconditions, heffect⟩ := Clause.same_iff.mp h
  rw [Permitting, Permitting, Clause.prefixList?, Clause.prefixList?, Clause.verdict,
    Clause.verdict, hconditions, heffect]

theorem exists_permitting (m : GroupMark) (b : RouterId) (v : Nat) :
    ∃ c ∈ m.clauses b (.permit v), m.Permitting c := by
  by_cases hb : b = m.destination
  · exact ⟨m.firstHopClause v, by simp [clauses, hb], rfl, rfl⟩
  · exact ⟨m.nextHopClause v, by simp [clauses, hb], rfl, rfl⟩

/-- The permitting clause for a decision sets its local preference. -/
theorem localPref?_of_permitting (hc : c ∈ m.clauses b (.permit v)) (h : m.Permitting c) :
    c.localPref? = some v := by
  by_cases hb : b = m.destination
  · rw [clauses, if_pos hb, List.mem_singleton] at hc
    rw [hc]
    rfl
  · rw [clauses, if_neg hb] at hc
    rcases List.mem_pair.mp hc with rfl | rfl
    · rfl
    · cases h.2

end GroupMark

namespace NodePolicy

/-- Routes of the group from this neighbor are permitted, with this local preference. -/
structure SetsLocalPref (p : NodePolicy) (m : GroupMark) (b : RouterId) (v : Nat) : Prop where
  permitted : ∃ c ∈ p.routeMap b .incoming, m.Permitting c
  localPref : ∀ c ∈ p.routeMap b .incoming, m.Permitting c → c.localPref? = some v

/-- Static traffic to the network may go over this next hop, at this distance. -/
structure HasDistance (p : NodePolicy) (network : Address) (b : RouterId) (v : Nat) : Prop where
  routed : ⟨network, b, v⟩ ∈ p.staticRoutes
  distance : ∀ r ∈ p.staticRoutes, r.network = network → r.nextHop = b → r.distance = v

end NodePolicy

namespace Ospf

variable {t : Topology} {m : PolicyModel} {d a : RouterId} {x : Nat}

/-- The least cost of a walk to the destination. -/
structure IsDistance (t : Topology) (m : PolicyModel) (d a : RouterId) (x : Nat) : Prop where
  walk : ∃ p, t.Walk d a p ∧ pathCost m p = x
  le : ∀ p, t.Walk d a p → x ≤ pathCost m p

theorem isDistance_of_get_distances (hpos : Distances.Positive (arcs t m))
    (hmax : ∀ a, 0 < maxPaths m a) (hd : d < t.size) (hx : (distances t m d).get a = some x) :
    IsDistance t m d a x := by
  refine ⟨?_, fun p hp => ?_⟩
  · by_cases hne : a = d
    · subst a
      rw [Distances.get_shortest_target hpos (by rwa [size_arcs])] at hx
      exact ⟨[d], .here, Option.some.inj hx⟩
    · obtain ⟨p, _, hwalk, _, hchain⟩ := exists_route_of_get_distances hpos hmax hne hx
      rw [get_distances_of_nearer hpos hd hwalk hchain] at hx
      exact ⟨p, hwalk, Option.some.inj hx⟩
  · obtain ⟨y, hy, hle⟩ := atMost_of_walk hpos hd hp
    rw [hx] at hy
    exact Option.some.inj hy ▸ hle

end Ospf

/-- The router prefers `b` to `c` for the traffic of the group. -/
def RequirementGroup.Prefers (g : RequirementGroup) (t : Topology) (community : Option Community)
    (model : PolicyModel) (a b c : RouterId) : Prop :=
  match g.protocol with
  | .bgp => ∃ v w, (model.policy a).SetsLocalPref (g.mark t community) b v ∧
      (model.policy a).SetsLocalPref (g.mark t community) c w ∧ 1 ≤ w ∧ w < v
  | .ospf => ∃ v w x y, (model.policy a).ospfCost? b = some v ∧
      (model.policy a).ospfCost? c = some w ∧ Ospf.IsDistance t model g.destination b x ∧
      Ospf.IsDistance t model g.destination c y ∧ v + x < w + y
  | .static => ∀ network ∈ g.networks t, ∃ v w, (model.policy a).HasDistance network b v ∧
      (model.policy a).HasDistance network c w ∧ 1 ≤ v ∧ v < w

/-- The way over a next hop costs as much as the most preferred way, and once more the number of
routers for each rank in between. -/
theorem cost_add_height {t : Topology} {g : RequirementGroup} {req : ResolvedRequirement}
    {heights : List (RouterId × Nat)} {a b : RouterId} {rank : Nat} (hospf : g.protocol = .ospf)
    (hk : req.kind ≠ .kConnected) (hd : req.Descends g.destination heights)
    (hlt : ∀ a, heightIn heights a < t.size) (hb : (req.ranks.hops a).get? b = some rank) :
    GroupMark.cost (req.decisionFor t g heights a b) + heightIn heights b =
      heightIn heights a + rank * t.size := by
  cases rank with
  | zero => rw [cost_of_preferred hospf hk hd hb, Nat.zero_mul, Nat.add_zero]
  | succ rank =>
    have hdec : req.decisionFor t g heights a b = .permit _ :=
      decisionFor_eq_permit_iff.mpr ⟨rank + 1, hb, rfl⟩
    have hltb := hlt b
    rw [hdec, hospf, permitValue_ospf hk, GroupMark.cost, Nat.succ_mul]
    omega

namespace Synthesizer

variable {s : Synthesizer} {store : Store} {gs : List RequirementGroup} {model : PolicyModel}
  {conflicts : List Conflict} {entries : RouterId → List PolicyEntry} {g : RequirementGroup}
  {community : Option Community} {req : ResolvedRequirement} {a b c : RouterId} {m n v : Nat}

namespace Ran

section Unblamed

variable (h : s.Ran gs model conflicts entries) (hg : (g, community) ∈ s.marked gs)
  (hu : g.Unblamed conflicts)

include h hg hu

theorem setsLocalPref (hbgp : g.protocol = .bgp)
    (hd : g.decision? s.topology a b = some (.permit v)) :
    (model.policy a).SetsLocalPref (g.mark s.topology community) b v := by
  rw [h.policy]
  refine ⟨?_, fun c hc hpermitting => ?_⟩
  · obtain ⟨c, hc, hpermitting⟩ := (g.mark s.topology community).exists_permitting b v
    obtain ⟨e, he, hkey, hprim⟩ := h.exists_entry_of_decision hg hu hd (clause_mem_lower hbgp hc)
    rw [direction_of_bgp hbgp] at hkey
    obtain ⟨c', hc', hsame⟩ := (h.holds a).clause e he c hprim
    rw [hkey] at hc'
    obtain ⟨c'', hc'', hsame'⟩ := NodePolicy.exists_same_mem_arrange hc'
    refine ⟨c'', by rwa [NodePolicy.routeMap_finalize], ?_⟩
    rw [GroupMark.permitting_iff_of_same hsame', GroupMark.permitting_iff_of_same hsame]
    exact hpermitting
  · rw [NodePolicy.routeMap_finalize] at hc
    obtain ⟨c', hc', hsame, -⟩ := NodePolicy.mem_arrange hc
    have hpermitting' := (GroupMark.permitting_iff_of_same hsame).mp hpermitting
    obtain ⟨⟨g', community'⟩, hg', hbgp', _, d, hd', hclause⟩ := h.exists_decision_of_clause hc'
    -- the prefix list tells that the clause is one of this group
    have hlist := hpermitting'.1
    rw [GroupMark.prefixList?_of_mem_clauses hclause] at hlist
    obtain ⟨rfl, rfl⟩ := Prod.mk.inj (eq_of_prefixList hg' hg hbgp' hbgp (Option.some.inj hlist))
    obtain rfl := Option.some.inj (hd.symm.trans hd')
    rw [Clause.localPref?, Clause.actions, (Clause.same_iff.mp hsame).2]
    exact GroupMark.localPref?_of_permitting hclause hpermitting'

theorem hasDistance (hstatic : g.protocol = .static)
    (hagree : (model.policy a).RoutesAgree)
    (hd : g.decision? s.topology a b = some (.permit v)) {network : Address}
    (hnetwork : network ∈ g.networks s.topology) :
    (model.policy a).HasDistance network b v := by
  have hroute := h.staticRoute_mem hg hu hstatic hd hnetwork
  exact ⟨hroute, fun r hr hn hb => hagree r hr _ hroute hn hb⟩

theorem isDistance (hospf : g.protocol = .ospf) (hsize : s.topology.size ≤ denyOspfCost)
    (hground : Resolver.Grounded s.topology g) (hreq : req ∈ g.requirements)
    (hk : req.kind ≠ .kConnected) {heights : List (RouterId × Nat)}
    (hh : req.heights req.ranks g.destination = .ok heights) (hb : req.Uses a b) :
    Ospf.IsDistance s.topology model g.destination b (heightIn heights b) := by
  have hv := hground.valid req hreq
  obtain ⟨p, hp, hhop⟩ := hb
  refine Ospf.isDistance_of_get_distances h.positive_arcs (fun a => h.maxPaths_pos a .ospf)
    hground.destination_lt ?_
  exact Ospf.get_shortest hospf hk hsize hv hground.destination_lt (hv.descends hk hh)
    (h.hasCosts hg hu hospf hreq hv hk hh) hp hhop.right_mem

/-- Of two next hops of a requirement, the one of lower rank is preferred. -/
theorem prefers_of_rank_lt (h' : s.synthesizePartial store = .ok (model, conflicts))
    (hsize : g.protocol = .ospf → s.topology.size ≤ denyOspfCost)
    (hground : Resolver.Grounded s.topology g) (hreq : req ∈ g.requirements)
    (hk : req.kind ≠ .kConnected) (hm : (req.ranks.hops a).get? b = some m)
    (hn : (req.ranks.hops a).get? c = some n) (hmn : m < n) :
    g.Prefers s.topology community model a b c := by
  have hv := hground.valid req hreq
  have hb : req.Uses a b := exists_get?_ranks.mp ⟨m, hm⟩
  have hc : req.Uses a c := exists_get?_ranks.mp ⟨n, hn⟩
  obtain ⟨heights, hh⟩ := exists_heights (h.clear hg hu) hreq hv hb
  have hdb := decision_of_rank (h.clear hg hu) hreq hv hk hh hm
  have hdc := decision_of_rank (h.clear hg hu) hreq hv hk hh hn
  rw [Prefers]
  split
  · next hbgp =>
    rw [hbgp, permitValue_bgp hk] at hdb hdc
    have hlevels := HopRanks.lt_levels hn
    refine ⟨_, _, h.setsLocalPref hg hu hbgp hdb, h.setsLocalPref hg hu hbgp hdc, ?_, ?_⟩
    · rw [leastLocalPref]
      omega
    · omega
  · next hospf =>
    have hd := hv.descends hk hh
    have hlt := hd.lt_size hv hground.destination_lt
    have hcb := cost_add_height (t := s.topology) hospf hk hd hlt hm
    have hcc := cost_add_height (t := s.topology) hospf hk hd hlt hn
    have hmul : m * s.topology.size < n * s.topology.size :=
      Nat.mul_lt_mul_of_pos_right hmn (Nat.zero_lt_of_lt (hlt a))
    rw [decisionFor_eq_permit_iff.mpr ⟨m, hm, rfl⟩] at hcb
    rw [decisionFor_eq_permit_iff.mpr ⟨n, hn, rfl⟩] at hcc
    refine ⟨_, _, _, _, h.ospfCost? hg hu hospf hdb, h.ospfCost? hg hu hospf hdc,
      h.isDistance hg hu hospf (hsize hospf) hground hreq hk hh hb,
      h.isDistance hg hu hospf (hsize hospf) hground hreq hk hh hc, ?_⟩
    omega
  · next hstatic =>
    intro network hnetwork
    rw [hstatic, permitValue_static hk] at hdb hdc
    have hagree := routesAgree_of_synthesizePartial h' a
    refine ⟨_, _, h.hasDistance hg hu hstatic hagree hdb hnetwork,
      h.hasDistance hg hu hstatic hagree hdc hnetwork, ?_⟩
    rw [leastDistance]
    omega

end Unblamed

end Ran

/-- Without conflicts that blame a group, its ordered requirements are preferred in their order at
each router, whatever else the group and the other groups ask for. -/
theorem order_preferred (hfilled : store.Filled s.topology)
    (h : s.synthesizePartial store = .ok (model, conflicts)) (hgs : s.groups store = .ok gs)
    (hg : g ∈ gs) (hu : g.Unblamed conflicts)
    (hsize : g.protocol = .ospf → s.topology.size ≤ 65535) :
    ∃ community, (g, community) ∈ s.marked gs ∧
      ∀ req ∈ g.requirements, req.kind = .order → ∀ a b c i j, req.FirstTakes i a b →
        req.FirstTakes j a c → i < j → g.Prefers s.topology community model a b c := by
  obtain ⟨entries, community, hran, hmarked, _, hground⟩ := exists_ran hfilled h hgs hg
  refine ⟨community, hmarked, fun req hreq horder a b c i j hb hc hij => ?_⟩
  have hk : req.kind ≠ .kConnected := by rw [horder]; decide
  obtain ⟨m, hm⟩ := exists_get?_ranks.mpr hb.uses
  obtain ⟨n, hn⟩ := exists_get?_ranks.mpr hc.uses
  have hmn : m < n := hb.rank_lt hc horder hij hm hn
  exact hran.prefers_of_rank_lt hmarked hu h hsize hground hreq hk hm hn hmn

end Synthesizer

namespace Network.Diamond

/-- The top of the diamond prefers the first of the ordered paths. -/
theorem order_preferred_diamond : ∃ model community,
    run.synthesizePartial (storeOf (ordered .ospf)) = .ok (model, []) ∧
      orderedGroup.Prefers topology community model 0 1 2 := by
  obtain ⟨model, h⟩ := exists_ok_of_toBool (x := run.synthesize (storeOf (ordered .ospf))) (by cbv)
  have hpartial := Synthesizer.synthesizePartial_of_synthesize h
  obtain ⟨community, -, hprefers⟩ := Synthesizer.order_preferred (storeOf_filled _) hpartial
    ordered_groups List.mem_cons_self (fun c hc => absurd hc List.not_mem_nil) (fun _ => by cbv)
  refine ⟨model, community, hpartial, hprefers _ List.mem_cons_self (by decide) 0 1 2 0 1
    ⟨⟨[0, 1, 3], rfl, ?_⟩, fun _ _ _ _ => Nat.zero_le _⟩
    ⟨⟨[0, 2, 3], rfl, ?_⟩, fun j p hp hh => ?_⟩ Nat.zero_lt_one⟩
  · simp [Hop.cons_iff]
  · simp [Hop.cons_iff]
  · cases j with
    | zero =>
      obtain rfl := Option.some.inj hp
      simp [Hop.cons_iff, Hop.not_nil] at hh
    | succ j => exact Nat.le_add_left 1 j

end Network.Diamond

end PathPolicy
