import Mathlib
import PathPolicy.Proofs.Marks

/-! The route maps of the model treat the routes of each BGP group as the group decided, and leave
all other routes alone. This holds of every model, also where groups ended up with conflicts. -/

namespace PathPolicy

open RequirementGroup

/-- The route goes to a loopback network of the destination of the BGP group. -/
def RequirementGroup.Covers (g : RequirementGroup) (t : Topology) (r : Route) : Prop :=
  g.protocol = .bgp ∧ ∃ router, t.router? g.destination = some router ∧
    ∃ loopback ∈ router.loopbacks, loopback.network = r.network

/-- What `a` makes of a route that `b` sends. -/
def PolicyModel.import? (m : PolicyModel) (a b : RouterId) (r : Route) : Option Route :=
  RouteMap.apply ((m.policy a).routeMap b .incoming) r

/-- Routes are dropped, marked and preferred as the groups that they belong to decided. Only the
decisions are those of a policy: destinations and communities are those of the groups. -/
structure PolicyModel.Scoped (m : PolicyModel) (t : Topology) (os : List GroupOutcome) :
    Prop where
  deny : ∀ o ∈ os, ∀ a b r, o.group.Covers t r →
    o.policy.decisions.get? ⟨a, b, .incoming⟩ = some .deny → m.import? a b r = none
  firstHop : ∀ o ∈ os, ∀ a b r v, o.group.Covers t r → b = o.group.destination →
    o.policy.decisions.get? ⟨a, b, .incoming⟩ = some (.permit v) →
      ∃ c, o.community = some c ∧ m.import? a b r = some ((r.addCommunity c).withLocalPref v)
  nextHop : ∀ o ∈ os, ∀ a b r v, o.group.Covers t r → b ≠ o.group.destination →
    o.policy.decisions.get? ⟨a, b, .incoming⟩ = some (.permit v) →
      ∃ c, o.community = some c ∧ m.import? a b r =
        if r.communities.contains c then some (r.withLocalPref v) else none
  other : ∀ a b r, (∀ o ∈ os, o.group.Covers t r →
    o.policy.decisions.get? ⟨a, b, .incoming⟩ = none) → m.import? a b r = some r
  outgoing : ∀ a b, (m.policy a).routeMap b .outgoing = []

namespace Synthesizer

variable {s : Synthesizer} {store : Store} {gs : List RequirementGroup} {ps : List GroupPolicy}
  {p : GroupPolicy} {x : RequirementGroup × Option Community} {o : GroupOutcome}
  {model : PolicyModel} {conflicts : List Conflict} {a b : RouterId} {r : Route} {d : Decision}

theorem covers_iff {t : Topology} {g : RequirementGroup} :
    g.Covers t r ↔ g.protocol = .bgp ∧ r.network ∈ g.networks t := by
  rw [RequirementGroup.Covers, RequirementGroup.networks]
  refine and_congr_right fun _ => ?_
  cases hr : t.router? g.destination with
  | none => simp
  | some router => simp

section Merged

variable (hf : List.Forall₂ (fun x p => x.1.synthesize s.topology x.2 = .ok p) (s.marked gs) ps)
  (hdistinct : gs.Pairwise Resolver.Distinct) (hdisjoint : NetworksDisjoint s.topology gs)

include hf hdistinct hdisjoint

/-- Only the clauses of its own group apply to a route. -/
theorem mem_clauses_of_applies (hx : x ∈ s.marked gs)
    (hsyn : x.1.synthesize s.topology x.2 = .ok p) (hbgp : x.1.protocol = .bgp)
    (hr : r.network ∈ x.1.networks s.topology) {c : Clause}
    (hc : c ∈ ((ps.foldl s.mergeGroup (.empty, [])).1.policy a).routeMap b .incoming)
    (happlies : c.applies r = true) :
    ∃ d, p.decisions.get? ⟨a, b, .incoming⟩ = some d ∧
      c ∈ (x.1.mark s.topology x.2).clauses b d := by
  obtain ⟨_, q, _, hqbgp, y, hy, hsyn', d, hd, hclause⟩ := exists_decision_of_mem_routeMap hf hc
  have hybgp : y.1.protocol = .bgp := (protocol_of_synthesize hsyn').symm.trans hqbgp
  have hnet : r.network ∈ y.1.networks s.topology :=
    GroupMark.mem_networks_of_applies hclause happlies
  obtain rfl := eq_of_common_network hdistinct hdisjoint hy hx hybgp hbgp hnet hr
  obtain rfl : p = q := Except.ok.inj (hsyn.symm.trans hsyn')
  exact ⟨d, hd, hclause⟩

theorem import?_of_decision (ho : o ∈ s.outcomes gs ps) (hcovers : o.group.Covers s.topology r)
    (hd : o.policy.decisions.get? ⟨a, b, .incoming⟩ = some d) :
    ∃ m : GroupMark, m.destination = o.group.destination ∧ o.community = some m.community ∧
      (ps.foldl s.mergeGroup (.empty, [])).1.finalize.import? a b r = m.import? b r d := by
  obtain ⟨hx, hsyn⟩ := (mem_outcomes_iff hf).mp ho
  have hp := policy_mem_of_mem_outcomes hf ho
  obtain ⟨hbgp, hr⟩ := covers_iff.mp hcovers
  refine ⟨o.group.mark s.topology o.community, rfl, (community_mark hx hbgp).symm, ?_⟩
  rw [PolicyModel.import?, PolicyModel.policy_finalize, NodePolicy.routeMap_finalize]
  refine GroupMark.apply_arrange_clauses hr (fun c hc happlies => ?_) fun c hc => ?_
  · obtain ⟨d', hd', hclause⟩ :=
      mem_clauses_of_applies hf hdistinct hdisjoint hx hsyn hbgp hr hc happlies
    rw [hd] at hd'
    exact Option.some.inj hd' ▸ hclause
  · exact exists_same_of_decision (x := (o.group, o.community)) hf hdistinct hdisjoint hp hsyn hbgp
      hd hc

omit hdistinct hdisjoint in
theorem import?_of_no_decision (h : ∀ o ∈ s.outcomes gs ps, o.group.Covers s.topology r →
      o.policy.decisions.get? ⟨a, b, .incoming⟩ = none) :
    (ps.foldl s.mergeGroup (.empty, [])).1.finalize.import? a b r = some r := by
  rw [PolicyModel.import?, PolicyModel.policy_finalize, NodePolicy.routeMap_finalize]
  refine NodePolicy.apply_arrange_of_not_applies fun c hc => ?_
  by_contra happlies
  obtain ⟨_, p, _, hbgp, x, hx, hsyn, d, hd, hclause⟩ := exists_decision_of_mem_routeMap hf hc
  have hnet : r.network ∈ x.1.networks s.topology :=
    GroupMark.mem_networks_of_applies hclause (by simpa using happlies)
  have hxbgp : x.1.protocol = .bgp := (protocol_of_synthesize hsyn).symm.trans hbgp
  have ho : ⟨x.1, x.2, p⟩ ∈ s.outcomes gs ps := (mem_outcomes_iff hf).mpr ⟨hx, hsyn⟩
  have hnone := h _ ho (covers_iff.mpr ⟨hxbgp, hnet⟩)
  simp [hd] at hnone

theorem scoped_foldl_mergeGroup :
    (ps.foldl s.mergeGroup (.empty, [])).1.finalize.Scoped s.topology (s.outcomes gs ps) := by
  have himport := fun {o a b r d} => import?_of_decision (o := o) (a := a) (b := b) (r := r)
    (d := d) hf hdistinct hdisjoint
  refine ⟨?_, ?_, ?_, fun a b r h => import?_of_no_decision hf h, fun a b => ?_⟩
  · intro o ho a b r hcovers hd
    obtain ⟨m, _, _, himport⟩ := himport ho hcovers hd
    exact himport
  · intro o ho a b r v hcovers hb hd
    obtain ⟨m, hdest, hcommunity, himport⟩ := himport ho hcovers hd
    refine ⟨m.community, hcommunity, ?_⟩
    rw [himport, GroupMark.import?, if_pos (hb.trans hdest.symm)]
  · intro o ho a b r v hcovers hb hd
    obtain ⟨m, hdest, hcommunity, himport⟩ := himport ho hcovers hd
    refine ⟨m.community, hcommunity, ?_⟩
    rw [himport, GroupMark.import?, if_neg fun he => hb (he.trans hdest)]
  · have hnil : ((ps.foldl s.mergeGroup (.empty, [])).1.policy a).routeMap b .outgoing = [] := by
      rw [List.eq_nil_iff_forall_not_mem]
      intro c hc
      obtain ⟨hdir, _⟩ := exists_decision_of_mem_routeMap hf hc
      cases hdir
    rw [PolicyModel.policy_finalize, NodePolicy.routeMap_finalize, hnil]
    rfl

end Merged

/-- The route maps do what the BGP groups decided and nothing else, and no bundle of such a group is
rejected. There is one outcome for each group. -/
theorem route_maps_scoped (hfilled : store.Filled s.topology)
    (hdisjoint : store.NetworksDisjoint s.topology)
    (h : s.synthesizePartial store = .ok (model, conflicts)) (hgs : s.groups store = .ok gs)
    (hps : s.groupPolicies gs = .ok ps) :
    (s.outcomes gs ps).map (·.group) = gs ∧ (s.outcomes gs ps).map (·.policy) = ps ∧
      model.Scoped s.topology (s.outcomes gs ps) ∧
      ∀ done o rest before bundle after, s.outcomes gs ps = done ++ o :: rest →
        o.group.protocol = .bgp → o.policy.bundles = before ++ bundle :: after →
          ((s.stateBefore (done.map (·.policy)) o.policy before).1.merge s.topology bundle).2 =
            none := by
  have hf := groupPolicies_ok hps
  have hd := networksDisjoint_of_store hfilled.sound hdisjoint (groups_ok hgs)
  obtain ⟨_, hdistinct⟩ := Resolver.groups_ok (groups_ok hgs)
  have hmodel : model = (ps.foldl s.mergeGroup (.empty, [])).1.finalize := by
    rw [synthesizePartial, hgs] at h
    obtain ⟨gs', hgs', h⟩ := bind_eq_ok h
    obtain rfl := Except.ok.inj hgs'
    obtain ⟨ps', hps', h⟩ := bind_eq_ok h
    obtain rfl : ps = ps' := Except.ok.inj (hps.symm.trans hps')
    exact (Prod.mk.inj (Except.ok.inj h)).1.symm
  rw [hmodel]
  refine ⟨map_group_outcomes hf, map_policy_outcomes hf, scoped_foldl_mergeGroup hf hdistinct hd,
    ?_⟩
  intro done o rest before bundle after hsplit hbgp hbs
  have hpolicies := map_policy_outcomes hf
  rw [hsplit, List.map_append, List.map_cons] at hpolicies
  have ho : o ∈ s.outcomes gs ps := by simp [hsplit]
  have hprotocol := protocol_of_synthesize ((mem_outcomes_iff hf).mp ho).2
  exact (merge_eq_none_of_bgp hf hdistinct hd hpolicies.symm hbs (hprotocol.trans hbgp)).1

end Synthesizer

namespace Network.Diamond

theorem balanced_policies : ∃ p, run.groupPolicies [RequirementGroup.diamond] = .ok [p] ∧
    p.decisions.get? ⟨0, 1, .incoming⟩ = some (.permit 1) := by
  obtain ⟨ps, hps⟩ :=
    exists_ok_of_toBool (x := run.groupPolicies [RequirementGroup.diamond]) (by cbv)
  have hall : (run.groupPolicies [RequirementGroup.diamond]).toOption.map
      (·.map fun p => p.decisions.get? ⟨0, 1, .incoming⟩) = some [some (.permit 1)] := by cbv
  rw [hps] at hall
  obtain ⟨p, rfl, hp⟩ := List.map_eq_singleton_iff.mp (Option.some.inj hall)
  exact ⟨p, hps, hp⟩

/-- The route to `D` as `A` sends it on to `S`. -/
def forwarded : Route :=
  ⟨(loopback 4).network, [1, 3], OrderedSet.add .empty ⟨100, 0⟩, Route.defaultLocalPref, 1⟩

theorem covers_forwarded : RequirementGroup.diamond.Covers topology forwarded := by
  refine ⟨rfl, ⟨"D", some 65004, [loopback 4]⟩, by decide +kernel, loopback 4, ?_, rfl⟩
  exact List.mem_singleton_self _

/-- The top of the diamond takes the route that the left side sends it, and drops routes to the
bottom that come without the community. -/
theorem route_maps_scoped_diamond : ∃ model p,
    run.synthesizePartial (storeOf balanced) = .ok (model, []) ∧
      run.groupPolicies [RequirementGroup.diamond] = .ok [p] ∧
      RequirementGroup.diamond.Covers topology forwarded ∧
      model.import? 0 1 forwarded = some (forwarded.withLocalPref 1) ∧
      ∀ r, RequirementGroup.diamond.Covers topology r →
        r.communities.contains ⟨100, 0⟩ = false → model.import? 0 1 r = none := by
  obtain ⟨model, h⟩ := exists_ok_of_toBool (x := run.synthesize (storeOf balanced)) (by cbv)
  obtain ⟨p, hps, hdecision⟩ := balanced_policies
  have hpartial := Synthesizer.synthesizePartial_of_synthesize h
  obtain ⟨_, _, hscoped, _⟩ := Synthesizer.route_maps_scoped (storeOf_filled balanced)
    balanced_networksDisjoint hpartial balanced_groups hps
  have himport : ∀ r, RequirementGroup.diamond.Covers topology r → model.import? 0 1 r =
      if r.communities.contains ⟨100, 0⟩ then some (r.withLocalPref 1) else none := by
    intro r hcovers
    have hne : 1 ≠ RequirementGroup.diamond.destination := by decide
    obtain ⟨c, hc, himport⟩ := hscoped.nextHop ⟨RequirementGroup.diamond, some ⟨100, 0⟩, p⟩
      List.mem_cons_self 0 1 r 1 hcovers hne hdecision
    obtain rfl : ⟨100, 0⟩ = c := Option.some.inj hc
    exact himport
  refine ⟨model, p, hpartial, hps, covers_forwarded, ?_, fun r hcovers hr => ?_⟩
  · rw [himport forwarded covers_forwarded]
    exact if_pos (by decide)
  · rw [himport r hcovers, hr]
    rfl

end Network.Diamond

end PathPolicy
