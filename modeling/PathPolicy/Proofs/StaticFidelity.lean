import PathPolicy.Proofs.StaticTraffic

/-! Static traffic of the strict requirements has exactly the next hops that they ask for. The routes
of all groups are in one list at each router, and each group finds its own ones by the loopback
networks of its destination. -/

namespace PathPolicy

open RequirementGroup ResolvedRequirement

/-- Names tell routers apart, so next hops are listed by name and without repetition. -/
theorem Static.hopsOf_pairwise {t : Topology} {p : NodePolicy} {ns : List Address}
    (h : ∀ r ∈ p.staticRoutes, r.network ∈ ns → r.nextHop < t.size) :
    (hopsOf t ns p).Pairwise fun b c => t.name b < t.name c := by
  rw [hopsOf]
  split
  · exact .nil
  · next least _ =>
    have hlt : ∀ b ∈ t.sortedByName (((p.staticRoutes.filter fun r => ns.contains r.network).filter
        (·.distance = least)).map (·.nextHop)), b < t.size := by
      intro b hb
      obtain ⟨r, hr, rfl⟩ := List.mem_map.mp (mem_sortBy.mp hb)
      obtain ⟨hr, hn⟩ := List.mem_filter.mp (List.mem_filter.mp hr).1
      exact h r hr (List.contains_iff_mem.mp hn)
    have hsorted := eraseReps_pairwise (sortBy_pairwise (compareOn t.name) _)
      fun b hb c hc heq => Topology.name_injective (hlt b hb) (hlt c hc)
        (Std.compare_eq_iff_eq.mp heq)
    exact hsorted.imp compare_lt_iff_lt.mp

namespace Synthesizer

variable {s : Synthesizer} {store : Store} {gs : List RequirementGroup} {g : RequirementGroup}
  {model : PolicyModel} {conflicts : List Conflict}

/-- Without conflicts that blame a group, its strict requirements have exactly the next hops that
they ask for, in the order of their names, whatever the other groups have installed. -/
theorem static_nextHops_iff_expects (hfilled : store.Filled s.topology)
    (hdisjoint : store.StaticNetworksDisjoint s.topology)
    (h : s.synthesizePartial store = .ok (model, conflicts)) (hgs : s.groups store = .ok gs)
    (hg : g ∈ gs) (hstatic : g.protocol = .static) (hu : g.Unblamed conflicts) :
    ∃ state, ForwardingState.compute s.topology model .static g.destination = .ok state ∧
      ∀ req ∈ g.requirements, req.kind ≠ .kConnected → ∀ p ∈ req.paths, ∀ a ∈ p,
        a ≠ g.destination →
          ((state.nextHops a).Pairwise fun b c => s.topology.name b < s.topology.name c) ∧
          ∀ b, b ∈ state.nextHops a ↔ req.Expects a b := by
  obtain ⟨entries, community, hran, hmarked, hdistinct, hground⟩ := exists_ran hfilled h hgs hg
  have hd := disjoint_of_store (v := s.resolver) hfilled.sound hdisjoint (groups_ok hgs)
  refine ⟨_, rfl, fun req hreq hk p hp a ha hne => ⟨?_, fun b => ?_⟩⟩
  · rw [Static.nextHops_forwarding hne]
    refine Static.hopsOf_pairwise fun r hr hnetwork => ?_
    have hdecision := decision?_of_staticRoute hran hdistinct hd hmarked hstatic hr hnetwork
    obtain ⟨_, _, _, _, _, hadj, _⟩ := exists_asks_of_decision hdecision
    exact (Topology.lt_size_of_adjacent hadj).2
  · have hv := hground.valid req hreq
    obtain ⟨c, _, huses⟩ := hv.exists_uses hp ha hne
    rw [← get?_ranks_eq_zero_iff hv (hground.single req hreq) hne]
    exact mem_nextHops_iff_rank_zero hran hdistinct hd hmarked hu hstatic hground hreq hk huses

end Synthesizer

namespace Network.Diamond

/-- Static traffic from `S` to `D` is spread over `A` and `B`. -/
def spread : Requirement := .ecmp ⟨.static, "D", [path .static "A", path .static "B"], false⟩

def spreadGroup : RequirementGroup :=
  ⟨.static, 3, [⟨spread.reference 0, false, [[0, 1, 3], [0, 2, 3]]⟩]⟩

theorem spread_groups : run.groups (storeOf spread) = .ok [spreadGroup] := by cbv

theorem spread_staticNetworksDisjoint : (storeOf spread).StaticNetworksDisjoint topology :=
  Store.staticNetworksDisjoint_of_singleton (r := spread) (by decide +kernel)

/-- Static traffic from the top of the diamond is spread over both ways. -/
theorem static_nextHops_iff_expects_diamond : ∃ model state,
    run.synthesizePartial (storeOf spread) = .ok (model, []) ∧
      ForwardingState.compute topology model .static 3 = .ok state ∧
      ((state.nextHops 0).Pairwise fun b c => topology.name b < topology.name c) ∧
      ∀ b, b ∈ state.nextHops 0 ↔ b = 1 ∨ b = 2 := by
  obtain ⟨model, h⟩ := exists_ok_of_toBool (x := run.synthesize (storeOf spread)) (by cbv)
  have hpartial := Synthesizer.synthesizePartial_of_synthesize h
  obtain ⟨state, hstate, hnext⟩ := Synthesizer.static_nextHops_iff_expects (storeOf_filled _)
    spread_staticNetworksDisjoint hpartial spread_groups List.mem_cons_self rfl
    (fun c hc => absurd hc List.not_mem_nil)
  obtain ⟨hsorted, hiff⟩ := hnext _ List.mem_cons_self (by decide) [0, 1, 3] (by decide) 0
    (by decide) (by decide)
  refine ⟨model, state, hpartial, hstate, hsorted, fun b => ?_⟩
  rw [hiff, expects_iff_uses (.inl rfl)]
  simp [Uses, Hop.cons_iff, Hop.not_nil, eq_comm]

end Network.Diamond

end PathPolicy
