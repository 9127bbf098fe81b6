import PathPolicy.Proofs.Fan
import PathPolicy.Proofs.OspfFidelity

/-! The costs that OSPF groups permit. They are positive, and below the cost of denied interfaces as
long as the number of ranks at a router times the number of routers is not above it. There may be more
of both in a network of 257 routers, and then a denied interface can cost less than a permitted one. -/

namespace PathPolicy

namespace ResolvedRequirement

variable {t : Topology} {d : RouterId} {req : ResolvedRequirement}
  {heights : List (RouterId × Nat)} {a b : RouterId} {rank : Nat}

/-- There are fewer ranks at a router than other routers. -/
theorem Valid.rank_lt (hv : req.Valid t d) (h : (req.ranks.hops a).get? b = some rank) :
    rank + 1 < t.size := by
  rw [ranks, HopRanks.get?_hops_dense] at h
  obtain ⟨r, hr, hrank⟩ := Option.map_eq_some_iff.mp h
  let hops := (HopRanks.ofRequirement req).hops a
  have huses : ∀ c ∈ hops.keys, req.Uses a c := fun c hc =>
    exists_get?_ofRequirement.mp (OrderedMap.mem_keys_iff.mp hc)
  have hlower : rank < hops.values.eraseDups.length := by
    rw [← hrank, List.countP_lt_length_iff]
    exact ⟨r, List.mem_eraseDups.mpr (OrderedMap.mem_values_iff.mpr ⟨b, hr⟩), by simp⟩
  have hvalues : hops.values.eraseDups.length ≤ hops.keys.length := by
    have hle := ((nodup_eraseDups hops.values).subperm fun _ => List.mem_eraseDups.mp).length_le
    rwa [OrderedMap.values, List.length_map, ← List.length_map (f := Prod.fst)] at hle
  have hothers : (a :: hops.keys).length ≤ t.size := by
    have hnd : (a :: hops.keys).Nodup :=
      List.nodup_cons.mpr ⟨fun ha => hv.ne_of_uses (huses a ha) rfl, hops.keys_nodup⟩
    have hsub : a :: hops.keys ⊆ List.range t.size := by
      intro c hc
      rw [List.mem_range]
      rcases List.mem_cons.mp hc with rfl | hc
      · exact (Topology.lt_size_of_adjacent (hv.adjacent_of_uses
          (exists_get?_ofRequirement.mp ⟨r, hr⟩))).1
      · exact (Topology.lt_size_of_adjacent (hv.adjacent_of_uses (huses c hc))).2
    have hle := (hnd.subperm hsub).length_le
    rwa [List.length_range] at hle
  rw [List.length_cons] at hothers
  omega

/-- The most preferred hops cost at most the height of the router, and each further rank adds the
number of routers. -/
theorem permitValue_lt (hk : req.kind ≠ .kConnected)
    (hlt : ∀ r, heightIn heights r < t.size) (hrank : rank + 1 < t.size) :
    1 ≤ permitValue .ospf req.kind t.size req.ranks heights a b rank ∧
      permitValue .ospf req.kind t.size req.ranks heights a b rank < (rank + 1) * t.size := by
  have ha := hlt a
  rw [permitValue_ospf hk, Nat.add_mul, Nat.one_mul]
  omega

/-- With at most 65536 routers the sum that a cost is taken from needs no more than 32 bits. -/
theorem sum_lt_two_pow (hlt : ∀ r, heightIn heights r < t.size) (hrank : rank + 1 < t.size)
    (hsize : t.size ≤ 65536) (a : RouterId) : heightIn heights a + rank * t.size < 2 ^ 32 := by
  have ha := hlt a
  have hmul : (rank + 1) * t.size ≤ 65535 * 65536 := Nat.mul_le_mul (by omega) hsize
  rw [Nat.add_mul, Nat.one_mul] at hmul
  omega

end ResolvedRequirement

namespace RequirementGroup

open ResolvedRequirement

variable {v : Resolver} {store : Store} {key : GroupKey} {t : Topology} {g : RequirementGroup}
  {community : Option Community} {policy : GroupPolicy} {k : PolicyKey} {cost : Nat}

/-- A permitted cost is the default, or it is bounded by a rank at the router. -/
theorem permitted_cost_cases (hg : Resolver.Grounded t g) (hospf : g.protocol = .ospf)
    (h : g.synthesize t community = .ok policy)
    (hcost : policy.decisions.get? k = some (.permit cost)) :
    cost = defaultOspfCost ∨ ∃ req ∈ g.requirements, req.kind ≠ .kConnected ∧ ∃ rank,
      rank < req.ranks.levels k.router ∧ rank + 1 < t.size ∧ 1 ≤ cost ∧
        cost < (rank + 1) * t.size := by
  obtain ⟨_, hd, _⟩ := (get?_decisions_eq_some_iff h).mp hcost
  obtain ⟨req, hreq, heights, hh, _, _, hdecision⟩ := exists_asks_of_decision hd
  obtain ⟨rank, hrank, hvalue⟩ := decisionFor_eq_permit_iff.mp hdecision.symm
  have hv := hg.valid req hreq
  have hlt := hv.rank_lt hrank
  rw [hospf] at hvalue
  by_cases hk : req.kind = .kConnected
  · rw [hk] at hvalue
    exact .inl hvalue.symm
  · have hdescends := hv.descends hk hh
    obtain ⟨hpos, hbound⟩ := permitValue_lt (a := k.router) (b := k.neighbor) hk
      (hdescends.lt_size hv hg.destination_lt) hlt
    rw [hvalue] at hpos hbound
    exact .inr ⟨req, hreq, hk, rank, HopRanks.lt_levels hrank, hlt, hpos, hbound⟩

/-- Permitted interfaces cost less than denied ones if there are not too many ranks at a router for
the number of routers, and always in networks of at most 256 routers. -/
theorem permitted_cost_lt_deny (hfilled : store.Filled v.topology) (hkey : key ∈ store.keys)
    (hg : v.group store key = .ok (some g)) (hospf : g.protocol = .ospf)
    (h : g.synthesize v.topology community = .ok policy)
    (hcost : policy.decisions.get? k = some (.permit cost)) :
    1 ≤ cost ∧
      ((∀ req ∈ g.requirements, req.kind ≠ .kConnected →
        req.ranks.levels k.router * v.topology.size ≤ denyOspfCost) → cost < denyOspfCost) ∧
      (v.topology.size ≤ 256 → cost < denyOspfCost) := by
  have hground := (Resolver.group_ok hg).grounded hfilled.sound hkey
  rcases permitted_cost_cases hground hospf h hcost with
    rfl | ⟨req, hreq, hk, rank, hlevels, hrank, hpos, hbound⟩
  · exact ⟨by decide, fun _ => by decide, fun _ => by decide⟩
  · refine ⟨hpos, fun hall => ?_, fun hsize => ?_⟩
    · have hmul := Nat.mul_le_mul_right v.topology.size hlevels
      exact hbound.trans_le (hmul.trans (hall req hreq hk))
    · have hmul : (rank + 1) * v.topology.size ≤ 255 * 256 := Nat.mul_le_mul (by omega) hsize
      rw [denyOspfCost]
      omega

end RequirementGroup

namespace Network.Diamond

theorem ordered_group :
    run.resolver.group (storeOf (ordered .ospf)) ⟨.ospf, "D"⟩ = .ok (some orderedGroup) := by cbv

theorem ordered_decisions :
    (orderedGroup.synthesize topology none).toOption.map (fun p =>
      p.decisions.get? ⟨0, 2, .outgoing⟩) = some (some (.permit 5)) := by cbv

/-- The less preferred hop at the top of the diamond. -/
theorem permitted_cost_lt_deny_diamond : ∃ policy,
    orderedGroup.synthesize topology none = .ok policy ∧
      policy.decisions.get? ⟨0, 2, .outgoing⟩ = some (.permit 5) ∧ 1 ≤ 5 ∧ 5 < denyOspfCost := by
  have hkey : ⟨.ospf, "D"⟩ ∈ (storeOf (ordered .ospf)).keys := by decide +kernel
  have hrun := ordered_decisions
  cases h : orderedGroup.synthesize topology none with
  | error e => simp [h, Except.toOption] at hrun
  | ok policy =>
    rw [h] at hrun
    have hcost := Option.some.inj hrun
    obtain ⟨hpos, _, hlt⟩ := RequirementGroup.permitted_cost_lt_deny (v := run.resolver)
      (storeOf_filled _) hkey ordered_group rfl h hcost
    exact ⟨policy, rfl, hcost, hpos, hlt (by cbv)⟩

end Network.Diamond

namespace Network.Fan

/-- The direct link of the fan of 257 routers is permitted, and costs more than a denied one. -/
theorem permitted_cost_exceeds_deny : (store 255).Filled (topology 255) ∧
    (topology 255).size = 257 ∧ ⟨.ospf, (topology 255).name 1⟩ ∈ (store 255).keys ∧
    (run 255).resolver.group (store 255) ⟨.ospf, (topology 255).name 1⟩ = .ok (some (group 255)) ∧
    ∃ policy cost, (group 255).synthesize (topology 255) none = .ok policy ∧
      policy.conflicts = [] ∧
      policy.decisions.get? ⟨0, 1, .outgoing⟩ = some (.permit cost) ∧ denyOspfCost < cost := by
  obtain ⟨policy, cost, h, hconflicts, hget, hlt⟩ := exists_cost 255
  exact ⟨Store.Filled.new.addAll _, size_topology 255, key_mem_store 255, resolver_group 255,
    policy, cost, h, hconflicts, hget, hlt⟩

end Network.Fan

end PathPolicy
