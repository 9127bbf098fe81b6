import PathPolicy.Network.Diamond
import PathPolicy.Proofs.Bundles
import PathPolicy.Proofs.Merge
import PathPolicy.Proofs.Workers

/-! A run of the synthesis. The policy of a router is made up of the entries of all groups, and a
group that no conflict blames has all its entries in force. -/

namespace PathPolicy

theorem length_assignCommunities (asn value : Nat) (gs : List RequirementGroup) :
    (assignCommunities asn value gs).length = gs.length := by
  induction gs generalizing value with
  | nil => rfl
  | cons g gs ih =>
    rw [assignCommunities]
    split <;> simp [ih]

/-- A group with the community that it was given and the policy that came of it. -/
structure GroupOutcome where
  group : RequirementGroup
  community : Option Community
  policy : GroupPolicy

namespace Synthesizer

variable {s : Synthesizer} {store : Store} {gs : List RequirementGroup} {g : RequirementGroup}
  {model : PolicyModel} {conflicts : List Conflict}

def marked (s : Synthesizer) (gs : List RequirementGroup) :
    List (RequirementGroup × Option Community) :=
  gs.zip (assignCommunities s.options.communityAsn 0 gs)

theorem map_fst_marked (s : Synthesizer) (gs : List RequirementGroup) :
    (s.marked gs).map (·.1) = gs := by
  rw [marked, List.map_fst_zip (by rw [length_assignCommunities])]

theorem mem_of_mem_marked {x : RequirementGroup × Option Community} (h : x ∈ s.marked gs) :
    x.1 ∈ gs := by
  rw [← map_fst_marked s gs]
  exact List.mem_map_of_mem h

theorem exists_mem_marked (s : Synthesizer) {g : RequirementGroup} (h : g ∈ gs) :
    ∃ community, (g, community) ∈ s.marked gs := by
  rw [← map_fst_marked s gs] at h
  obtain ⟨⟨_, community⟩, hx, rfl⟩ := List.mem_map.mp h
  exact ⟨community, hx⟩

theorem eq_of_mem_marked (hgs : gs.Pairwise Resolver.Distinct)
    {x y : RequirementGroup × Option Community} (hx : x ∈ s.marked gs) (hy : y ∈ s.marked gs)
    (hp : x.1.protocol = y.1.protocol) (hd : x.1.destination = y.1.destination) : x = y := by
  rw [← map_fst_marked s gs, List.pairwise_map] at hgs
  have hsymm : Std.Symm fun x y : RequirementGroup × Option Community =>
      Resolver.Distinct x.1 y.1 := ⟨fun x y h hp hd => h hp.symm hd.symm⟩
  by_contra hne
  exact hgs.forall hx hy hne hp hd

theorem groupPolicies_eq_ok_iff {ps : List GroupPolicy} :
    s.groupPolicies gs = .ok ps ↔
      (s.marked gs).mapM (fun x => x.1.synthesize s.topology x.2) = .ok ps := by
  rw [groupPolicies, mapError_eq_ok_iff, shareOut_eq_ok_iff]
  rfl

theorem groupPolicies_ok {ps : List GroupPolicy} (h : s.groupPolicies gs = .ok ps) :
    List.Forall₂ (fun x p => x.1.synthesize s.topology x.2 = .ok p) (s.marked gs) ps :=
  forall₂_of_mapM (groupPolicies_eq_ok_iff.mp h)

theorem exists_mem_marked_of_mem {ps : List GroupPolicy} {p : GroupPolicy}
    (hf : List.Forall₂ (fun x p => x.1.synthesize s.topology x.2 = .ok p) (s.marked gs) ps)
    (hp : p ∈ ps) : ∃ x ∈ s.marked gs, x.1.synthesize s.topology x.2 = .ok p := by
  have hex := exists_of_forall₂ hf hp
  exact hex

def outcomes (s : Synthesizer) (gs : List RequirementGroup) (ps : List GroupPolicy) :
    List GroupOutcome :=
  List.zipWith (fun x p => ⟨x.1, x.2, p⟩) (s.marked gs) ps

section Outcomes

variable {ps : List GroupPolicy}
  (hf : List.Forall₂ (fun x p => x.1.synthesize s.topology x.2 = .ok p) (s.marked gs) ps)

include hf

theorem map_policy_outcomes : (s.outcomes gs ps).map (·.policy) = ps := by
  rw [outcomes, ← List.map_uncurry_zip_eq_zipWith, List.map_map]
  exact List.map_snd_zip hf.length_eq.ge

theorem map_group_outcomes : (s.outcomes gs ps).map (·.group) = gs := by
  have hmarked : ((s.marked gs).zip ps).map Prod.fst = s.marked gs :=
    List.map_fst_zip hf.length_eq.le
  calc (s.outcomes gs ps).map (·.group)
    _ = (((s.marked gs).zip ps).map Prod.fst).map (·.1) := by
      rw [outcomes, ← List.map_uncurry_zip_eq_zipWith, List.map_map, List.map_map]
      rfl
    _ = gs := by rw [hmarked, map_fst_marked]

/-- A group has one outcome. -/
theorem mem_outcomes_iff {o : GroupOutcome} : o ∈ s.outcomes gs ps ↔
    (o.group, o.community) ∈ s.marked gs ∧
      o.group.synthesize s.topology o.community = .ok o.policy := by
  obtain ⟨g, community, p⟩ := o
  rw [outcomes]
  generalize s.marked gs = xs at hf
  induction hf with
  | nil => simp
  | @cons x q xs ps hq _ ih =>
    rw [List.zipWith_cons_cons, List.mem_cons, List.mem_cons, ih]
    constructor
    · rintro (he | ⟨hx, hsyn⟩)
      · cases he
        exact ⟨.inl rfl, hq⟩
      · exact ⟨.inr hx, hsyn⟩
    · rintro ⟨rfl | hx, hsyn⟩
      · obtain rfl : q = p := Except.ok.inj (hq.symm.trans hsyn)
        exact .inl rfl
      · exact .inr ⟨hx, hsyn⟩

theorem policy_mem_of_mem_outcomes {o : GroupOutcome} (ho : o ∈ s.outcomes gs ps) :
    o.policy ∈ ps := by
  rw [← map_policy_outcomes hf]
  exact List.mem_map_of_mem ho

end Outcomes

/-- A run ended with this model and these conflicts. The entries are in force. -/
structure Ran (s : Synthesizer) (gs : List RequirementGroup) (model : PolicyModel)
    (conflicts : List Conflict) (entries : RouterId → List PolicyEntry) : Prop where
  policy : ∀ a, model.policy a = ((entries a).foldl NodePolicy.commit .empty).finalize
  agree : ∀ a, NodePolicy.CostsAgree (entries a)
  synthesized : ∀ x ∈ s.marked gs, ∃ p, x.1.synthesize s.topology x.2 = .ok p ∧
    p.conflicts ⊆ conflicts
  mem : ∀ a, ∀ e ∈ entries a, ∃ x ∈ s.marked gs,
    x.1.Bundled (x.1.mark s.topology x.2) (x.1.commitments s.topology) a e
  accepted : ∀ x ∈ s.marked gs,
    (∀ c ∈ conflicts, ∀ req ∈ x.1.requirements, c.requirement ≠ req.reference) →
      ∀ a e, x.1.Bundled (x.1.mark s.topology x.2) (x.1.commitments s.topology) a e →
        e ∈ entries a

theorem bundles_of_synthesize {t : Topology} {g : RequirementGroup} {community : Option Community}
    {p : GroupPolicy} (h : g.synthesize t community = .ok p) :
    p.bundles = g.bundles (g.mark t community) (g.commitments t) := by
  rw [RequirementGroup.synthesize_ok h]

theorem exists_of_mem_forall₂ {α β : Type} {R : α → β → Prop} {xs : List α} {ys : List β} {x : α}
    (h : List.Forall₂ R xs ys) (hx : x ∈ xs) : ∃ y ∈ ys, R x y := by
  obtain ⟨y, hy, hR⟩ := exists_of_forall₂ h.flip hx
  exact ⟨y, hy, hR⟩

theorem costsAgree_of_mem {ps : List GroupPolicy}
    (hf : List.Forall₂ (fun x p => x.1.synthesize s.topology x.2 = .ok p) (s.marked gs) ps) :
    ∀ p ∈ ps, ∀ b ∈ p.bundles, NodePolicy.CostsAgree b.entries := by
  intro p hp b hb
  obtain ⟨x, _, hx⟩ := exists_mem_marked_of_mem hf hp
  rw [bundles_of_synthesize hx] at hb
  exact RequirementGroup.costsAgree_of_mem_bundles hb

theorem synthesizePartial_ok (h : s.synthesizePartial store = .ok (model, conflicts)) :
    ∃ gs entries, s.groups store = .ok gs ∧ s.Ran gs model conflicts entries := by
  obtain ⟨gs, hgs, h⟩ := bind_eq_ok h
  obtain ⟨ps, hps, h⟩ := bind_eq_ok h
  have hf := groupPolicies_ok hps
  obtain ⟨⟨entries, hm⟩, _, hconflicts⟩ := merges_empty.foldl_mergeGroup s (costsAgree_of_mem hf)
  rw [List.nil_append] at hm
  obtain ⟨rfl, rfl⟩ := Prod.mk.inj (Except.ok.inj h)
  refine ⟨gs, entries, hgs, fun a => ?_, hm.agree, fun x hx => ?_, fun a e he => ?_,
    fun x hx hno a e he => ?_⟩
  · rw [PolicyModel.policy_finalize, hm.policy]
  · obtain ⟨p, hp, hR⟩ := exists_of_mem_forall₂ hf hx
    exact ⟨p, hR, hconflicts p hp⟩
  · obtain ⟨b, hb, rfl, heb⟩ := hm.mem a e he
    obtain ⟨p, hp, hbp⟩ := List.mem_flatMap.mp hb
    obtain ⟨x, hx, hR⟩ := exists_mem_marked_of_mem hf hp
    rw [bundles_of_synthesize hR] at hbp
    exact ⟨x, hx, .of_mem hbp heb⟩
  · obtain ⟨p, hp, hR⟩ := exists_of_mem_forall₂ hf hx
    obtain ⟨b, hb, rfl, heb⟩ := RequirementGroup.exists_mem_bundles.mpr he
    have hb' : b ∈ ps.flatMap (·.bundles) :=
      List.mem_flatMap.mpr ⟨p, hp, by rw [bundles_of_synthesize hR]; exact hb⟩
    refine hm.accepted b hb' (fun c hc e' he' heq => ?_) heb
    obtain ⟨req, hreq, ho⟩ := (RequirementGroup.Bundled.of_mem hb he').origin
    exact hno c hc req hreq (heq.trans ho)

theorem groups_ok {gs : List RequirementGroup} (h : s.groups store = .ok gs) :
    s.resolver.groups store = .ok gs :=
  mapError_eq_ok_iff.mp h

theorem synthesizePartial_of_synthesize (h : s.synthesize store = .ok model) :
    s.synthesizePartial store = .ok (model, []) := by
  obtain ⟨⟨m, conflicts⟩, hpartial, h⟩ := bind_eq_ok h
  change (if conflicts.isEmpty then pure m else throw (Error.conflicts conflicts)) = _ at h
  split at h
  · next hnil =>
    obtain rfl := Except.ok.inj h
    rw [hpartial, List.isEmpty_iff.mp hnil]
  · cases h

theorem synthesize_eq_ok_iff :
    s.synthesize store = .ok model ↔ s.synthesizePartial store = .ok (model, []) := by
  constructor
  · exact synthesizePartial_of_synthesize
  · intro h
    rw [synthesize, h]
    rfl

/-- Several workers come to the model that a single one comes to. -/
theorem synthesizeParallel_eq_ok_iff (t : Topology) (n : Nat) :
    synthesizeParallel t store n = .ok model ↔ PathPolicy.synthesize t store = .ok model := by
  have hparallel : synthesizeParallel t store n =
      (withThreads ⟨t, .sequential⟩ n).synthesize store := rfl
  have hsingle : PathPolicy.synthesize t store =
      (withThreads ⟨t, .sequential⟩ 1).synthesize store := rfl
  rw [hparallel, hsingle, synthesize_eq_ok_iff, synthesize_eq_ok_iff, synthesizePartial_eq_ok_iff]

/-- The facts about a group of a run that later results start from. -/
theorem exists_ran (hfilled : store.Filled s.topology)
    (h : s.synthesizePartial store = .ok (model, conflicts)) (hgs : s.groups store = .ok gs)
    (hg : g ∈ gs) : ∃ entries community, s.Ran gs model conflicts entries ∧
      (g, community) ∈ s.marked gs ∧ gs.Pairwise Resolver.Distinct ∧
      Resolver.Grounded s.topology g := by
  obtain ⟨gs', entries, hgs', hran⟩ := synthesizePartial_ok h
  obtain rfl : gs = gs' := Except.ok.inj (hgs.symm.trans hgs')
  obtain ⟨hres, hdistinct⟩ := Resolver.groups_ok (groups_ok hgs)
  obtain ⟨community, hmarked⟩ := s.exists_mem_marked hg
  obtain ⟨key, hkey, hresolved⟩ := hres g hg
  exact ⟨entries, community, hran, hmarked, hdistinct, hresolved.grounded hfilled.sound hkey⟩

end Synthesizer

def RequirementGroup.diamond : RequirementGroup :=
  ⟨.bgp, 3, [⟨Network.Diamond.balanced.reference 0, false, [[0, 1, 3], [0, 2, 3]]⟩]⟩

namespace Network.Diamond

def run : Synthesizer := ⟨topology, .sequential⟩

def storeOf (r : Requirement) : Store := ((Store.ofTopology topology).addAll [r]).1

theorem storeOf_filled (r : Requirement) : (storeOf r).Filled topology :=
  Store.Filled.new.addAll [r]

theorem balanced_networksDisjoint : (storeOf balanced).NetworksDisjoint topology := by
  have hreqs : (storeOf balanced).requirements = [balanced] := by decide +kernel
  intro r hr r' hr' _ _ hne
  exact absurd (Store.destination_eq_of_singleton hreqs hr hr') hne

theorem balanced_groups : run.groups (storeOf balanced) = .ok [RequirementGroup.diamond] := by
  decide +kernel

end Network.Diamond

end PathPolicy
