import PathPolicy.Proofs.Force

/-! What the final model does to the routes of a BGP group: exported routes pass unchanged, imported
ones are treated by the decision of the group, and the destination announces its networks. -/

namespace PathPolicy

open RequirementGroup

theorem clause_of_mem_lower {m : GroupMark} {b : RouterId} {d : Decision} {c : Clause}
    (h : .clause c ∈ m.lower b d) : m.protocol = .bgp ∧ c ∈ m.clauses b d := by
  rw [GroupMark.lower] at h
  split at h
  · next hp => exact ⟨hp, by simpa using h⟩
  · simp at h
  · simp at h

theorem clause_mem_lower {m : GroupMark} {b : RouterId} {d : Decision} {c : Clause}
    (hp : m.protocol = .bgp) (hc : c ∈ m.clauses b d) : .clause c ∈ m.lower b d := by
  rw [GroupMark.lower, hp]
  exact List.mem_map_of_mem hc

namespace RequirementGroup

variable {t : Topology} {g : RequirementGroup} {community : Option Community}

theorem direction_of_bgp (h : g.protocol = .bgp) : g.direction = .incoming := by
  rw [direction, h]
  rfl

/-- Clauses come from the decisions of BGP groups. -/
theorem Bundled.of_clause {a : RouterId} {e : PolicyEntry} {c : Clause}
    (h : Bundled g (g.mark t community) (g.commitments t) a e) (hc : e.primitive = .clause c) :
    g.protocol = .bgp ∧ e.key.direction = .incoming ∧ (g.commitments t).isConflicted a = false ∧
      ∃ d, g.decision? t a e.key.neighbor = some d ∧
        c ∈ (g.mark t community).clauses e.key.neighbor d := by
  cases h with
  | @decision k i q hget hrouter hconf hq =>
    obtain rfl : q = .clause c := hc
    obtain ⟨hbgp, hclause⟩ := clause_of_mem_lower hq
    have hprotocol : g.protocol = .bgp := hbgp
    obtain ⟨_, _, a', b', _, _, rfl⟩ := exists_asks hget
    obtain rfl : a' = a := hrouter
    refine ⟨hprotocol, direction_of_bgp hprotocol, hconf, i.decision, ?_, hclause⟩
    rw [decision?, hget, Option.map_some]
  | network _ _ _ _ => cases hc
  | maxPaths _ _ => cases hc

end RequirementGroup

namespace Synthesizer.Ran

variable {s : Synthesizer} {gs : List RequirementGroup} {model : PolicyModel}
  {conflicts : List Conflict} {entries : RouterId → List PolicyEntry} {g : RequirementGroup}
  {community : Option Community} {a b : RouterId} {r : Route}

theorem exists_decision_of_clause (h : s.Ran gs model conflicts entries) {dir : Direction}
    {c : Clause} (hc : c ∈ ((entries a).foldl NodePolicy.commit .empty).routeMap b dir) :
    ∃ x ∈ s.marked gs, x.1.protocol = .bgp ∧ dir = .incoming ∧
      ∃ d, x.1.decision? s.topology a b = some d ∧
        c ∈ (x.1.mark s.topology x.2).clauses b d := by
  obtain ⟨e, he, rfl, rfl, hprim⟩ := (h.holds a).clause_mem b dir c hc
  obtain ⟨x, hx, hbundled⟩ := h.mem a e he
  obtain ⟨hbgp, hdir, _, hclause⟩ := hbundled.of_clause hprim
  exact ⟨x, hx, hbgp, hdir, hclause⟩

theorem routeMap_outgoing (h : s.Ran gs model conflicts entries) (a b : RouterId) :
    (model.policy a).routeMap b .outgoing = [] := by
  have hnil : ((entries a).foldl NodePolicy.commit .empty).routeMap b .outgoing = [] := by
    rw [List.eq_nil_iff_forall_not_mem]
    intro c hc
    obtain ⟨_, _, _, hdir, _⟩ := h.exists_decision_of_clause hc
    cases hdir
  rw [h.policy, NodePolicy.routeMap_finalize, hnil]
  rfl

theorem apply_incoming (h : s.Ran gs model conflicts entries)
    (hdistinct : gs.Pairwise Resolver.Distinct) (hdisjoint : NetworksDisjoint s.topology gs)
    (hg : (g, community) ∈ s.marked gs) (hu : g.Unblamed conflicts) (hbgp : g.protocol = .bgp)
    (hr : r.network ∈ g.networks s.topology) :
    RouteMap.apply ((model.policy a).routeMap b .incoming) r =
      match g.decision? s.topology a b with
      | some d => (g.mark s.topology community).import? b r d
      | none => some r := by
  have hmem : ∀ c ∈ ((entries a).foldl NodePolicy.commit .empty).routeMap b .incoming,
      c.applies r = true → ∃ d, g.decision? s.topology a b = some d ∧
        c ∈ (g.mark s.topology community).clauses b d := by
    intro c hc happlies
    obtain ⟨x, hx, hxbgp, _, d, hd, hclause⟩ := h.exists_decision_of_clause hc
    have hnet : r.network ∈ x.1.networks s.topology :=
      GroupMark.mem_networks_of_applies hclause happlies
    obtain rfl := eq_of_common_network hdistinct hdisjoint hx hg hxbgp hbgp hnet hr
    exact ⟨d, hd, hclause⟩
  rw [h.policy, NodePolicy.routeMap_finalize]
  cases hd : g.decision? s.topology a b with
  | none =>
    refine NodePolicy.apply_arrange_of_not_applies fun c hc => ?_
    by_contra hne
    obtain ⟨d, hd', _⟩ := hmem c hc (by simpa using hne)
    simp [hd] at hd'
  | some d =>
    refine GroupMark.apply_arrange_clauses hr (fun c hc happlies => ?_) fun c hc => ?_
    · obtain ⟨d', hd', hclause⟩ := hmem c hc happlies
      rw [hd] at hd'
      exact Option.some.inj hd' ▸ hclause
    · have hlower : Primitive.clause c ∈ (g.mark s.topology community).lower b d :=
        clause_mem_lower hbgp hc
      obtain ⟨e, he, hkey, hprim⟩ := h.exists_entry_of_decision hg hu hd hlower
      rw [direction_of_bgp hbgp] at hkey
      simpa [hkey] using (h.holds a).clause e he c hprim

theorem networks_ne_nil (h : s.Ran gs model conflicts entries)
    (hg : (g, community) ∈ s.marked gs) (hp : g.protocol ≠ .ospf) :
    g.networks s.topology ≠ [] := by
  obtain ⟨p, hp', _⟩ := h.synthesized _ hg
  exact networks_ne_nil_of_synthesize hp' hp

theorem exists_announcement (h : s.Ran gs model conflicts entries)
    (hg : (g, community) ∈ s.marked gs) (hu : g.Unblamed conflicts) (hbgp : g.protocol = .bgp)
    (hreqs : g.requirements ≠ []) : ∃ network ∈ g.networks s.topology,
      Bgp.announcement? s.topology model g.destination = some network := by
  have hne := h.networks_ne_nil hg (by simp [hbgp])
  cases hr : s.topology.router? g.destination with
  | none => simp [RequirementGroup.networks, hr] at hne
  | some router =>
    cases hl : router.loopbacks with
    | nil => simp [RequirementGroup.networks, hr, hl] at hne
    | cons loopback rest =>
      have hmem : loopback.network ∈ g.networks s.topology := by
        simp [RequirementGroup.networks, hr, hl]
      refine ⟨loopback.network, hmem, ?_⟩
      obtain ⟨first, hfirst⟩ := Option.isSome_iff_exists.mp (List.isSome_head?.mpr hreqs)
      have hentry := h.accepted _ hg hu g.destination _
        (.network hbgp hfirst rfl hmem)
      have hannounces : (model.policy g.destination).announces loopback.network = true := by
        rw [h.policy]
        exact ((h.holds g.destination).network_iff _).mpr ⟨_, hentry, rfl⟩
      simp [Bgp.announcement?, hr, hl, hannounces]

end Synthesizer.Ran

/-- The model sends the routes of a BGP group on as the group decided. -/
structure RequirementGroup.Enforced (g : RequirementGroup) (t : Topology)
    (community : Option Community) (network : Address) (m : PolicyModel) : Prop where
  clear : g.Clear t
  announcement : Bgp.announcement? t m g.destination = some network
  outgoing : ∀ a b, (m.policy a).routeMap b .outgoing = []
  incoming : ∀ a b (r : Route), r.network = network →
    RouteMap.apply ((m.policy a).routeMap b .incoming) r =
      match g.decision? t a b with
      | some d => (g.mark t community).import? b r d
      | none => some r

theorem Synthesizer.Ran.exists_enforced {s : Synthesizer} {gs : List RequirementGroup}
    {model : PolicyModel} {conflicts : List Conflict} {entries : RouterId → List PolicyEntry}
    {g : RequirementGroup} {community : Option Community}
    (h : s.Ran gs model conflicts entries) (hdistinct : gs.Pairwise Resolver.Distinct)
    (hdisjoint : NetworksDisjoint s.topology gs) (hg : (g, community) ∈ s.marked gs)
    (hu : g.Unblamed conflicts) (hbgp : g.protocol = .bgp) (hreqs : g.requirements ≠ []) :
    ∃ network, g.Enforced s.topology community network model := by
  obtain ⟨network, hnetwork, hannounced⟩ := h.exists_announcement hg hu hbgp hreqs
  refine ⟨network, h.clear hg hu, hannounced, h.routeMap_outgoing, fun a b r hr => ?_⟩
  exact h.apply_incoming hdistinct hdisjoint hg hu hbgp (hr ▸ hnetwork)

end PathPolicy
