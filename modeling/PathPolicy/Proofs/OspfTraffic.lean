import PathPolicy.Proofs.OspfFidelity
import PathPolicy.Proofs.ShortestPath
import PathPolicy.Proofs.Traffic

/-! OSPF traffic of the routers on the members of a group takes hops that the group allows. A denied
hop is never worth taking, since its cost is greater than the distance of any such router: routers on
strict members are near, and the members of the others have hops of the default cost. -/

namespace PathPolicy

open RequirementGroup ResolvedRequirement

variable {s : Synthesizer} {gs : List RequirementGroup} {model : PolicyModel}
  {conflicts : List Conflict} {entries : RouterId → List PolicyEntry} {g : RequirementGroup}
  {community : Option Community} {a b : RouterId} {p : List RouterId}

abbrev Ospf.distances (t : Topology) (m : PolicyModel) (d : RouterId) : Distances :=
  Distances.shortest (Ospf.arcs t m) d

/-- The primary next hop is the first hop of a shortest path. -/
theorem Ospf.exists_head?_nextHops {t : Topology} {m : PolicyModel} {d x : Nat}
    (hpos : Distances.Positive (Ospf.arcs t m)) (hmax : 0 < Ospf.maxPaths m a) (ha : a < t.size)
    (hne : a ≠ d) (hx : (Ospf.distances t m d).get a = some x) :
    ∃ arc ∈ (Ospf.arcs t m)[a]?.getD [], (Ospf.distances t m d).through arc = some x ∧
      ((Ospf.forwarding t m d).nextHops a).head? = some arc.target := by
  obtain ⟨arc, harc, hthrough⟩ := Distances.exists_arc_of_get_shortest hpos hne hx
  have hmem : arc ∈ ((Ospf.arcs t m)[a]?.getD []).filter fun arc =>
      (Ospf.distances t m d).through arc = some x :=
    List.mem_filter.mpr ⟨harc, decide_eq_true hthrough⟩
  obtain ⟨first, hfirst⟩ :=
    Option.isSome_iff_exists.mp (List.isSome_head?.mpr (List.ne_nil_of_mem hmem))
  obtain ⟨hfirstmem, hfirstx⟩ := List.mem_filter.mp (List.mem_of_head? hfirst)
  refine ⟨first, hfirstmem, of_decide_eq_true hfirstx, ?_⟩
  rw [Ospf.nextHops_forwarding ha hne, Ospf.hopsOf, hx]
  simp only [List.head?_take, if_neg (Nat.ne_of_gt hmax), List.head?_map, hfirst, Option.map_some]

theorem GroupMark.cost_decisionFor_pos {t : Topology} {req : ResolvedRequirement}
    {heights : List (RouterId × Nat)} (hospf : g.protocol = .ospf) :
    0 < GroupMark.cost (req.decisionFor t g heights a b) := by
  rw [decisionFor]
  split
  · next d _ =>
    rw [hospf, GroupMark.cost]
    by_cases hk : req.kind = .kConnected
    · rw [hk, permitValue, defaultOspfCost]
      omega
    · rw [permitValue_ospf hk]
      omega
  · rw [GroupMark.cost, denyOspfCost]
    omega

theorem Resolver.Grounded.lt_size_of_involves {t : Topology} (h : Resolver.Grounded t g)
    (ha : g.Involves a) : a < t.size := by
  obtain ⟨_, p, hp, hap⟩ := ha
  obtain ⟨req, hreq, hpr⟩ := mem_paths.mp hp
  exact (h.valid req hreq).lt_size h.destination_lt hpr hap

namespace Synthesizer.Ran

theorem cost_pos (h : s.Ran gs model conflicts entries) (a b : RouterId) :
    0 < Ospf.cost model a b := by
  rw [Ospf.cost, h.policy]
  cases hc : (((entries a).foldl NodePolicy.commit .empty).finalize).ospfCost? b with
  | none => exact Nat.succ_pos 9
  | some n =>
    obtain ⟨e, he, hkey, hprim⟩ := ((h.holds a).cost_iff b n).mp hc
    obtain ⟨x, _, hbundled⟩ := h.mem a e he
    cases hbundled with
    | @decision k i p hget _ _ hp =>
      obtain rfl : p = .ospfCost n := hprim
      obtain ⟨hospf, rfl⟩ := ospfCost_of_mem_lower hp
      obtain ⟨req, _, a', b', heights, hasks, _⟩ := exists_asks hget
      rw [hasks.intent_eq]
      exact GroupMark.cost_decisionFor_pos hospf
    | network _ _ _ _ => cases hprim
    | maxPaths _ _ => cases hprim

theorem positive_arcs (h : s.Ran gs model conflicts entries) :
    Distances.Positive (Ospf.arcs s.topology model) := by
  intro a arc harc
  rw [(Ospf.mem_arcs harc).2]
  exact h.cost_pos a arc.target

section Ospf

variable (h : s.Ran gs model conflicts entries) (hg : (g, community) ∈ s.marked gs)
  (hu : g.Unblamed conflicts) (hospf : g.protocol = .ospf)
  (hground : Resolver.Grounded s.topology g) (hsize : s.topology.size ≤ 5000)

include h hg hu hospf hground hsize

/-- A router on a strict member is nearer than there are routers. Any other one has the default
cost on its member hops. -/
theorem atMost_or_cost_eq {req : ResolvedRequirement} (hreq : req ∈ g.requirements)
    (huses : req.Uses a b) :
    (Ospf.distances s.topology model g.destination).AtMost a s.topology.size ∨
      Ospf.cost model a b = defaultOspfCost := by
  have hclear := h.clear hg hu
  obtain ⟨v, hv⟩ := exists_permit_of_uses hclear hreq (hground.valid req hreq) huses
  obtain ⟨req', hreq', heights, hh, ⟨c, p, hp, hhop⟩, _, hdec⟩ := exists_asks_of_decision hv
  have hvalid := hground.valid req' hreq'
  by_cases hk : req'.kind = .kConnected
  · obtain ⟨d, _, hvalue⟩ := decisionFor_eq_permit_iff.mp hdec.symm
    rw [hospf, hk, permitValue] at hvalue
    refine .inr ?_
    rw [Ospf.cost, h.ospfCost? hg hu hospf hv, Option.getD_some, GroupMark.cost, hvalue]
  · have hd := hvalid.descends hk hh
    have hdest := hground.destination_lt
    have hcosts := h.hasCosts hg hu hospf hreq' hvalid hk hh
    have hget := Ospf.get_shortest hospf hk (by rw [denyOspfCost]; omega) hvalid hdest hd hcosts
      hp hhop.left_mem
    exact .inl ⟨_, hget, (hd.lt_size hvalid hdest a).le⟩

theorem exists_atMost_of_member {req : ResolvedRequirement} (hreq : req ∈ g.requirements)
    (hp : p ∈ req.paths) (ha : a ∈ p) : ∃ n, n < p.length ∧
      (Ospf.distances s.topology model g.destination).AtMost a
        (s.topology.size + defaultOspfCost * n) := by
  have hvalid := hground.valid req hreq
  refine hvalid.induction_along hp (P := fun a n =>
    (Ospf.distances s.topology model g.destination).AtMost a
      (s.topology.size + defaultOspfCost * n)) ?_ (fun a b n hhop hb => ?_) ha
  · have hlt := hground.destination_lt
    rw [← Ospf.size_arcs s.topology model] at hlt
    exact ⟨0, Distances.get_shortest_target h.positive_arcs hlt, Nat.zero_le _⟩
  · have huses : req.Uses a b := ⟨p, hp, hhop⟩
    rcases h.atMost_or_cost_eq hg hu hospf hground hsize hreq huses with ⟨x, hx, hle⟩ | hcost
    · exact ⟨x, hx, by omega⟩
    · have harc := Ospf.arc_mem_arcs (m := model) (hvalid.adjacent_of_uses huses)
      obtain ⟨x, hx, hle⟩ := Distances.atMost_of_arc h.positive_arcs harc hb
      change x ≤ Ospf.cost model a b + _ at hle
      rw [hcost] at hle
      refine ⟨x, hx, ?_⟩
      rw [Nat.mul_succ]
      omega

/-- The distance of a router on a member is less than the cost of any denied hop. -/
theorem exists_distance_lt (ha : g.Involves a) :
    ∃ x, (Ospf.distances s.topology model g.destination).get a = some x ∧
      x < denyOspfCost := by
  obtain ⟨_, p, hp, hap⟩ := ha
  obtain ⟨req, hreq, hpr⟩ := mem_paths.mp hp
  obtain ⟨n, hn, x, hx, hle⟩ := h.exists_atMost_of_member hg hu hospf hground hsize hreq hpr hap
  have hlen := (hground.valid req hreq).length_le_size hground.destination_lt hpr
  refine ⟨x, hx, ?_⟩
  rw [defaultOspfCost] at hle
  rw [denyOspfCost]
  omega

/-- Shortest distances of member routers come from hops that the group allows. -/
theorem allows_of_arc (ha : g.Involves a) {x : Nat}
    (hx : (Ospf.distances s.topology model g.destination).get a = some x)
    {arc : Arc} (harc : arc ∈ (Ospf.arcs s.topology model)[a]?.getD [])
    (hthrough : (Ospf.distances s.topology model g.destination).through arc =
      some x) :
    g.Allows s.topology a arc.target ∧
      ((Ospf.distances s.topology model g.destination).get arc.target).getD 0 <
        x := by
  obtain ⟨x', hx', hlt⟩ := h.exists_distance_lt hg hu hospf hground hsize ha
  obtain rfl : x = x' := Option.some.inj (hx.symm.trans hx')
  obtain ⟨y, hy, hsum⟩ := Option.map_eq_some_iff.mp hthrough
  obtain ⟨hadj, hcost⟩ := Ospf.mem_arcs harc
  have hpos := h.positive_arcs a arc harc
  rw [hy, Option.getD_some]
  refine ⟨?_, by omega⟩
  obtain ⟨d, hd⟩ := exists_decision_of_adjacent (h.clear hg hu) hground.valid ha hadj
  cases d with
  | permit v => exact ⟨v, hd⟩
  | deny =>
    rw [Ospf.cost, h.ospfCost? hg hu hospf hd, Option.getD_some, GroupMark.cost] at hcost
    omega

theorem ospf_leads : (Ospf.forwarding s.topology model g.destination).Leads g.Involves
    fun a b => g.Allows s.topology a b ∧
      ((Ospf.distances s.topology model g.destination).get b).getD 0 <
        ((Ospf.distances s.topology model g.destination).get a).getD 0 := by
  intro a ha
  obtain ⟨x, hx, _⟩ := h.exists_distance_lt hg hu hospf hground hsize ha
  obtain ⟨arc, harc, hthrough, hhead⟩ := Ospf.exists_head?_nextHops h.positive_arcs
    (h.maxPaths_pos a .ospf) (hground.lt_size_of_involves ha) ha.1 hx
  obtain ⟨hallows, hlt⟩ := h.allows_of_arc hg hu hospf hground hsize ha hx harc hthrough
  refine ⟨arc.target, hhead, ⟨hallows, ?_⟩, hallows.involves⟩
  rw [hx, Option.getD_some]
  exact hlt

end Ospf

end Synthesizer.Ran

end PathPolicy
