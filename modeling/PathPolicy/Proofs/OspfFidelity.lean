import Mathlib
import PathPolicy.Forwarding.Fidelity
import PathPolicy.Proofs.Distance
import PathPolicy.Proofs.Force

/-! OSPF traffic takes the next hops that a strict requirement asks for. The heights of the
requirement are the distances of its routers, and they are a potential on the whole network: they
fall by exactly the cost of a most preferred hop, and by less than the cost of any other one. -/

namespace PathPolicy

open RequirementGroup ResolvedRequirement

variable {t : Topology} {g : RequirementGroup} {req : ResolvedRequirement}
  {heights : List (RouterId × Nat)} {m : PolicyModel} {a b : RouterId}

theorem cost_of_preferred (hospf : g.protocol = .ospf) (hk : req.kind ≠ .kConnected)
    (hd : req.Descends g.destination heights) (hb : (req.ranks.hops a).get? b = some 0) :
    GroupMark.cost (req.decisionFor t g heights a b) + heightIn heights b = heightIn heights a := by
  have hlt := hd.lt_of_hop a b hb
  have hdec : req.decisionFor t g heights a b = .permit _ :=
    decisionFor_eq_permit_iff.mpr ⟨0, hb, rfl⟩
  rw [hdec, hospf, permitValue_ospf hk, GroupMark.cost]
  omega

theorem lt_cost_of_not_preferred (hospf : g.protocol = .ospf) (hk : req.kind ≠ .kConnected)
    (hsize : t.size ≤ denyOspfCost) (hlt : ∀ a, heightIn heights a < t.size)
    (hb : (req.ranks.hops a).get? b ≠ some 0) :
    heightIn heights a < GroupMark.cost (req.decisionFor t g heights a b) + heightIn heights b := by
  have ha := hlt a
  have hlt' := hlt b
  cases hget : (req.ranks.hops a).get? b with
  | none =>
    have hdec : req.decisionFor t g heights a b = .deny :=
      decisionFor_eq_deny_iff.mpr (get?_ranks_eq_none_iff.mp hget)
    rw [hdec, GroupMark.cost]
    omega
  | some d =>
    have hdec : req.decisionFor t g heights a b = .permit _ :=
      decisionFor_eq_permit_iff.mpr ⟨d, hget, rfl⟩
    have hpos : 1 ≤ d := Nat.one_le_iff_ne_zero.mpr fun he => hb (he ▸ hget)
    have hmul : t.size ≤ d * t.size := Nat.le_mul_of_pos_left t.size hpos
    rw [hdec, hospf, permitValue_ospf hk, GroupMark.cost]
    omega

namespace Ospf

theorem size_arcs (t : Topology) (m : PolicyModel) : (arcs t m).size = t.size := by
  simp [arcs]

theorem getElem?_arcs (ha : a < t.size) : (arcs t m)[a]? = some (arcsOf t m a) := by
  simp [arcs, ha]

theorem mem_arcs {arc : Arc} (h : arc ∈ (arcs t m)[a]?.getD []) :
    t.adjacent a arc.target = true ∧ arc.cost = cost m a arc.target := by
  by_cases ha : a < t.size
  · rw [getElem?_arcs ha, Option.getD_some, arcsOf] at h
    obtain ⟨b, hb, rfl⟩ := List.mem_map.mp h
    exact ⟨Topology.mem_neighbors.mp hb, rfl⟩
  · simp [arcs, ha] at h

theorem arc_mem_arcs (hadj : t.adjacent a b = true) :
    ⟨b, cost m a b⟩ ∈ (arcs t m)[a]?.getD [] := by
  rw [getElem?_arcs (Topology.lt_size_of_adjacent hadj).1, Option.getD_some, arcsOf]
  exact List.mem_map.mpr ⟨b, Topology.mem_neighbors.mpr hadj, rfl⟩

/-- The model has the costs of the requirement at its routers. -/
def HasCosts (t : Topology) (g : RequirementGroup) (req : ResolvedRequirement)
    (heights : List (RouterId × Nat)) (m : PolicyModel) : Prop :=
  ∀ a b c, req.Uses a c → t.adjacent a b = true →
    cost m a b = GroupMark.cost (req.decisionFor t g heights a b)

section Distance

variable (hospf : g.protocol = .ospf) (hk : req.kind ≠ .kConnected) (hsize : t.size ≤ denyOspfCost)
  (hv : req.Valid t g.destination) (hdest : g.destination < t.size)
  (hd : req.Descends g.destination heights) (hcosts : HasCosts t g req heights m)

include hospf hk hsize hv hdest hd hcosts

theorem potential : Distances.Potential (arcs t m) (heightIn heights) := by
  intro a arc harc
  obtain ⟨hadj, hcost⟩ := mem_arcs harc
  by_cases huses : ∃ c, req.Uses a c
  · obtain ⟨c, hc⟩ := huses
    rw [hcost, hcosts a arc.target c hc hadj]
    by_cases hb : (req.ranks.hops a).get? arc.target = some 0
    · exact (cost_of_preferred hospf hk hd hb).ge
    · exact (lt_cost_of_not_preferred hospf hk hsize (hd.lt_size hv hdest) hb).le
  · have hzero : heightIn heights a = 0 := by
      by_cases ha : a = g.destination
      · rw [ha, hd.destination]
      · refine hd.eq_zero a fun p hp hap => huses ?_
        obtain ⟨c, _, hc⟩ := hv.exists_uses hp hap ha
        exact ⟨c, hc⟩
    omega

theorem get_shortest {p : List RouterId} (hp : p ∈ req.paths) (ha : a ∈ p) :
    (Distances.shortest (arcs t m) g.destination).get a = some (heightIn heights a) := by
  have hlt := hd.lt_size hv hdest
  have hpotential := potential hospf hk hsize hv hdest hd hcosts
  obtain ⟨x, hx, hle⟩ := Distances.atMost_shortest (heightIn heights)
    (fun a => ∃ p ∈ req.paths, a ∈ p) (by rw [size_arcs t m]; exact hdest) hd.destination
    (fun a ⟨p, hp, hap⟩ hne => by
      obtain ⟨c, _, hc⟩ := hv.exists_uses hp hap hne
      obtain ⟨b, hb⟩ := exists_preferred hc
      have huses := exists_get?_ranks.mp ⟨0, hb⟩
      have hadj := hv.adjacent_of_uses huses
      have hcost := cost_of_preferred (t := t) hospf hk hd hb
      rw [← hcosts a b c hc hadj] at hcost
      obtain ⟨q, hq, hh⟩ := huses
      exact ⟨by rw [size_arcs]; exact hv.lt_size hdest hp hap, _, arc_mem_arcs hadj,
        ⟨q, hq, hh.right_mem⟩, hd.lt_of_hop a b hb, hcost⟩)
    ⟨p, hp, ha⟩ (by rw [size_arcs]; exact (hlt a).le)
  rw [hx, (hpotential.le_of_get_shortest hd.destination hx).antisymm hle]

theorem mem_hops_iff {p : List RouterId} (hp : p ∈ req.paths) (ha : a ∈ p)
    (hne : a ≠ g.destination) :
    b ∈ (((arcs t m)[a]?.getD []).filter fun arc =>
      (Distances.shortest (arcs t m) g.destination).through arc =
        some (heightIn heights a)).map (·.target) ↔ (req.ranks.hops a).get? b = some 0 := by
  obtain ⟨c, _, hc⟩ := hv.exists_uses hp ha hne
  have hpotential := potential hospf hk hsize hv hdest hd hcosts
  constructor
  · intro hb
    obtain ⟨arc, harc, rfl⟩ := List.mem_map.mp hb
    obtain ⟨hm, hthrough⟩ := List.mem_filter.mp harc
    obtain ⟨x, hx, hsum⟩ := Option.map_eq_some_iff.mp (of_decide_eq_true hthrough)
    have hle := hpotential.le_of_get_shortest hd.destination hx
    obtain ⟨hadj, hcost⟩ := mem_arcs hm
    by_contra hb
    have hlt := lt_cost_of_not_preferred (t := t) hospf hk hsize (hd.lt_size hv hdest) hb
    rw [← hcosts a arc.target c hc hadj, ← hcost] at hlt
    omega
  · intro hb
    have huses := exists_get?_ranks.mp ⟨0, hb⟩
    have hadj := hv.adjacent_of_uses huses
    obtain ⟨q, hq, hh⟩ := huses
    have hget := get_shortest hospf hk hsize hv hdest hd hcosts hq hh.right_mem
    have hcost := cost_of_preferred (t := t) hospf hk hd hb
    rw [← hcosts a b c hc hadj] at hcost
    refine List.mem_map.mpr ⟨_, List.mem_filter.mpr ⟨arc_mem_arcs hadj, decide_eq_true ?_⟩, rfl⟩
    rw [Distances.through, hget, Option.map_some, hcost]

end Distance

theorem targets_nodup (t : Topology) (m : PolicyModel) (a : RouterId) :
    (((arcs t m)[a]?.getD []).map (·.target)).Nodup := by
  by_cases ha : a < t.size
  · rw [getElem?_arcs ha, Option.getD_some, arcsOf, List.map_map]
    exact (List.map_id' (t.neighbors a)).symm ▸ t.neighbors_nodup a
  · simp [arcs, ha]

theorem nextHops_forwarding {d : RouterId} (ha : a < t.size) (hne : a ≠ d) :
    (forwarding t m d).nextHops a =
      hopsOf m (arcs t m) (Distances.shortest (arcs t m) d) a := by
  have hm : a ∈ (List.range t.size).filter (· ≠ d) :=
    List.mem_filter.mpr ⟨List.mem_range.mpr ha, by simpa using hne⟩
  have hget := OrderedMap.get?_ofList_map
    (hopsOf m (arcs t m) (Distances.shortest (arcs t m) d)) (List.nodup_range.filter _) hm
  rw [ForwardingState.nextHops, forwarding, ForwardingState.ofHops]
  exact congrArg (Option.getD · []) hget

end Ospf

namespace Synthesizer

variable {s : Synthesizer} {store : Store} {gs : List RequirementGroup} {model : PolicyModel}
  {conflicts : List Conflict} {entries : RouterId → List PolicyEntry}
  {community : Option Community}

theorem Ran.hasCosts (h : s.Ran gs model conflicts entries) (hg : (g, community) ∈ s.marked gs)
    (hu : g.Unblamed conflicts) (hospf : g.protocol = .ospf) (hreq : req ∈ g.requirements)
    (hv : req.Valid s.topology g.destination) (hk : req.kind ≠ .kConnected)
    (hh : req.heights req.ranks g.destination = .ok heights) :
    Ospf.HasCosts s.topology g req heights model := by
  intro a b c huses hadj
  have hdec := decision_of_strict (h.clear hg hu) hreq hv hk hh huses hadj
  rw [Ospf.cost, h.ospfCost? hg hu hospf hdec, Option.getD_some]

/-- Without conflicts that blame a group, its strict requirements have exactly the next hops that
they ask for, whatever costs the rest of the network has. -/
theorem ospf_nextHops_iff_expects (hsize : s.topology.size ≤ 65535)
    (hfilled : store.Filled s.topology)
    (h : s.synthesizePartial store = .ok (model, conflicts)) (hgs : s.groups store = .ok gs)
    (hg : g ∈ gs) (hospf : g.protocol = .ospf) (hu : g.Unblamed conflicts) :
    ∃ state, ForwardingState.compute s.topology model .ospf g.destination = .ok state ∧
      ∀ req ∈ g.requirements, req.kind ≠ .kConnected → ∀ p ∈ req.paths, ∀ a ∈ p,
        a ≠ g.destination → ∀ b, b ∈ state.nextHops a ↔ req.Expects a b := by
  obtain ⟨entries, community, hran, hmarked, _, hground⟩ := exists_ran hfilled h hgs hg
  refine ⟨_, rfl, fun req hreq hk p hp a ha hne b => ?_⟩
  have hv := hground.valid req hreq
  have hdest := hground.destination_lt
  obtain ⟨c, _, hc⟩ := hv.exists_uses hp ha hne
  obtain ⟨heights, hh⟩ := exists_heights (hran.clear hmarked hu) hreq hv hc
  have hd := hv.descends hk hh
  have hcosts := hran.hasCosts hmarked hu hospf hreq hv hk hh
  have hexpects : ∀ b, (req.ranks.hops a).get? b = some 0 ↔ req.Expects a b := fun b =>
    get?_ranks_eq_zero_iff hv (hground.single req hreq) hne
  have hmem := fun b => Ospf.mem_hops_iff (b := b) hospf hk hsize hv hdest hd hcosts hp ha hne
  have hnd := (Ospf.targets_nodup s.topology model a).sublist
    (List.filter_sublist (p := fun arc => (Distances.shortest (Ospf.arcs s.topology model)
      g.destination).through arc = some (heightIn heights a)) |>.map (·.target))
  have hlen := hran.length_le_maxPaths (a := a) hmarked hu hreq hv hk (by simp [hospf]) hnd
    fun b hb => (hexpects b).mp ((hmem b).mp hb)
  rw [Ospf.nextHops_forwarding (hv.lt_size hdest hp ha) hne, Ospf.hopsOf,
    Ospf.get_shortest hospf hk hsize hv hdest hd hcosts hp ha, ← hexpects, ← hmem]
  rw [hospf] at hlen
  exact (List.take_of_length_le hlen).symm ▸ Iff.rfl

end Synthesizer

namespace Network.Diamond

def orderedGroup : RequirementGroup :=
  ⟨.ospf, 3, [⟨(ordered .ospf).reference 0, false, [[0, 1, 3], [0, 2, 3]]⟩]⟩

theorem ordered_groups : run.groups (storeOf (ordered .ospf)) = .ok [orderedGroup] := by cbv

/-- Traffic from the top of the diamond takes the first of the ordered paths. -/
theorem ospf_nextHops_iff_expects_diamond : ∃ model state,
    run.synthesizePartial (storeOf (ordered .ospf)) = .ok (model, []) ∧
      ForwardingState.compute topology model .ospf 3 = .ok state ∧
      ∀ b, b ∈ state.nextHops 0 ↔ b = 1 := by
  obtain ⟨model, h⟩ := exists_ok_of_toBool (x := run.synthesize (storeOf (ordered .ospf))) (by cbv)
  have hpartial := Synthesizer.synthesizePartial_of_synthesize h
  have hsize : topology.size ≤ 65535 := by cbv
  obtain ⟨state, hstate, hiff⟩ := Synthesizer.ospf_nextHops_iff_expects hsize (storeOf_filled _)
    hpartial ordered_groups List.mem_cons_self rfl (fun c hc => absurd hc List.not_mem_nil)
  refine ⟨model, state, hpartial, hstate, fun b => ?_⟩
  rw [hiff _ List.mem_cons_self (by decide) [0, 1, 3] (by decide) 0 (by decide) (by decide) b,
    expects_iff_find? (.inr rfl)]
  have hfind : ([[0, 1, 3], [0, 2, 3]] : List (List RouterId)).find? (0 ∈ ·) = some [0, 1, 3] :=
    rfl
  simp only [hfind, Option.some.injEq, exists_eq_left']
  simp [Hop.cons_iff, Hop.not_nil, eq_comm]

end Network.Diamond

end PathPolicy
