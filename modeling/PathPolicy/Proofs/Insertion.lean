import PathPolicy.Proofs.Dropout
import PathPolicy.Proofs.Origins
import PathPolicy.Proofs.Renumbering

/-! The order in which requirements are added to a store, and how often, has no effect on the
configurations. -/

namespace PathPolicy

namespace Synthesizer

variable {s : Synthesizer} {store store' : Store} {gs gs' : List RequirementGroup}
  {ps ps' : List GroupPolicy}

/-- The synthesis of the groups of a store does not fail. -/
theorem exists_groupPolicies (hfilled : store.Filled s.topology)
    (hgs : s.groups store = .ok gs) : ∃ ps, s.groupPolicies gs = .ok ps := by
  have hall : ∀ x ∈ s.marked gs, ∃ p, x.1.synthesize s.topology x.2 = .ok p := by
    intro x hx
    obtain ⟨key, hkey, hres⟩ := (Resolver.groups_ok (groups_ok hgs)).1 x.1 (mem_of_mem_marked hx)
    exact RequirementGroup.exists_policy (hres.grounded hfilled.sound hkey).valid
      (hres.networks_ne_nil hfilled hkey) x.2
  obtain ⟨ps, hps⟩ := exists_mapM_ok hall
  exact ⟨ps, groupPolicies_eq_ok_iff.mpr hps⟩

theorem marked_alike (h : List.Forall₂ RequirementGroup.Alike gs gs') :
    List.Forall₂ (fun x y => x.1.Alike y.1 ∧ x.2 = y.2) (s.marked gs) (s.marked gs') := by
  have hfrom : ∀ value, List.Forall₂ (fun x y => x.1.Alike y.1 ∧ x.2 = y.2)
      (gs.zip (assignCommunities s.options.communityAsn value gs))
      (gs'.zip (assignCommunities s.options.communityAsn value gs')) := by
    induction h with
    | nil => exact fun _ => .nil
    | @cons g g' gs gs' hg _ ih =>
      intro value
      rw [assignCommunities, assignCommunities, ← hg.protocol]
      split
      · exact .cons ⟨hg, rfl⟩ (ih (value + 1))
      · exact .cons ⟨hg, rfl⟩ (ih value)
  exact hfrom 0

theorem matchingPolicies_of_alike {t : Topology} {g g' : RequirementGroup}
    {community : Option Community} {p p' : GroupPolicy} (h : g.Alike g')
    (hp : g.synthesize t community = .ok p) (hp' : g'.synthesize t community = .ok p') :
    MatchingPolicies p p' := by
  intro hnil
  have hconflicts : ∀ {g : RequirementGroup} {p}, g.synthesize t community = .ok p →
      p.conflicts = (g.commitments t).conflicts := fun h => by
    rw [RequirementGroup.synthesize_ok h]
  have ho := h.sameOutcome (t := t) ((hconflicts hp).symm.trans hnil)
  have hmark : g'.mark t community = g.mark t community := by
    rw [RequirementGroup.mark, RequirementGroup.mark, h.protocol, h.destination, h.networks]
  refine ⟨(hconflicts hp').trans ho.conflicts, ?_⟩
  rw [bundles_of_synthesize hp, bundles_of_synthesize hp', hmark]
  exact h.erase_bundles ho _

theorem matchingPolicies_of_forall₂ {xs ys : List (RequirementGroup × Option Community)}
    (h : List.Forall₂ (fun x y => x.1.Alike y.1 ∧ x.2 = y.2) xs ys)
    (hps : List.Forall₂ (fun x p => x.1.synthesize s.topology x.2 = .ok p) xs ps)
    (hps' : List.Forall₂ (fun x p => x.1.synthesize s.topology x.2 = .ok p) ys ps') :
    List.Forall₂ MatchingPolicies ps ps' := by
  induction h generalizing ps ps' with
  | nil =>
    cases hps
    cases hps'
    exact .nil
  | cons hxy _ ih =>
    cases hps with
    | cons hp hps =>
      cases hps' with
      | cons hp' hps' =>
        refine .cons (matchingPolicies_of_alike hxy.1 hp ?_) (ih hps hps')
        rw [hxy.2]
        exact hp'

/-- A store with the same requirements gives the same configurations. -/
theorem exists_synthesize (h : Store.SameRequirements s.topology store store')
    {m : PolicyModel} (hm : s.synthesize store = .ok m) :
    ∃ m', s.synthesize store' = .ok m' ∧ m'.render s.topology = m.render s.topology := by
  obtain ⟨gs, hgs, hrun⟩ := bind_eq_ok (synthesizePartial_of_synthesize hm)
  obtain ⟨ps, hps, hrun⟩ := bind_eq_ok hrun
  obtain ⟨rfl, hnil⟩ := Prod.mk.inj (Except.ok.inj hrun)
  obtain ⟨gs', hgs', halike⟩ := h.exists_groups (v := s.resolver) (groups_ok hgs)
  have hgs'' : s.groups store' = .ok gs' := by
    rw [groups, hgs']
    rfl
  obtain ⟨ps', hps'⟩ := exists_groupPolicies h.filled' hgs''
  have hmatch := matchingPolicies_of_forall₂ (marked_alike halike) (groupPolicies_ok hps)
    (groupPolicies_ok hps')
  have hstart : Matches (PolicyModel.empty, []) (PolicyModel.empty, []) :=
    fun _ => ⟨rfl, fun _ => rfl⟩
  obtain ⟨hnil', hsame⟩ := hstart.foldl_mergeGroup (s := s) hmatch hnil
  have hpartial : s.synthesizePartial store' =
      .ok ((ps'.foldl s.mergeGroup (.empty, [])).1.finalize,
        (ps'.foldl s.mergeGroup (.empty, [])).2) := by
    rw [synthesizePartial_of_groups hgs'', hps']
    rfl
  refine ⟨_, ?_, hsame.finalize.render s.topology⟩
  rw [synthesize, hpartial, hnil']
  rfl

/-- The configurations depend on the set of requirements only. -/
theorem render_of_same_requirements {rs rs' : List Requirement} (hrs : ∀ r, r ∈ rs ↔ r ∈ rs')
    (hstore : (Store.ofTopology s.topology).addAll rs = (store, none))
    (hstore' : (Store.ofTopology s.topology).addAll rs' = (store', none)) :
    ((∃ m, s.synthesize store = .ok m) ↔ ∃ m, s.synthesize store' = .ok m) ∧
      ∀ m m', s.synthesize store = .ok m → s.synthesize store' = .ok m' →
        m.render s.topology = m'.render s.topology := by
  have hfilled : ∀ {rs : List Requirement} {store},
      (Store.ofTopology s.topology).addAll rs = (store, none) →
        store.Filled s.topology ∧ store.requirements = rs := by
    intro rs store h
    refine ⟨?_, by simpa [Store.ofTopology] using Store.requirements_addAll h⟩
    simpa [h] using Store.Filled.new.addAll (t := s.topology) rs
  obtain ⟨hf, hreqs⟩ := hfilled hstore
  obtain ⟨hf', hreqs'⟩ := hfilled hstore'
  have hsame : Store.SameRequirements s.topology store store' :=
    ⟨hf, hf', fun r => by rw [hreqs, hreqs', hrs]⟩
  refine ⟨⟨?_, ?_⟩, fun m m' hm hm' => ?_⟩
  · rintro ⟨m, hm⟩
    obtain ⟨m', hm', _⟩ := exists_synthesize hsame hm
    exact ⟨m', hm'⟩
  · rintro ⟨m, hm⟩
    obtain ⟨m', hm', _⟩ := exists_synthesize hsame.symm hm
    exact ⟨m', hm'⟩
  · obtain ⟨m'', hm'', hrender⟩ := exists_synthesize hsame hm
    obtain rfl : m' = m'' := Except.ok.inj (hm'.symm.trans hm'')
    exact hrender.symm

end Synthesizer

namespace Network.Diamond

/-- Traffic from `S` to `D` goes over `A` or `B`. -/
def either : Requirement := .kConnected ⟨.bgp, "D", [path .bgp "A", path .bgp "B"], false⟩

/-- The less strict requirement may come first, and the other one twice. -/
theorem render_of_same_requirements_diamond : ∃ m m',
    run.synthesize ((Store.ofTopology topology).addAll [balanced, either]).1 = .ok m ∧
      run.synthesize ((Store.ofTopology topology).addAll [either, balanced, balanced]).1 = .ok m' ∧
        m.render topology = m'.render topology := by
  have hadded : ((Store.ofTopology topology).addAll [balanced, either]).2 = none := by
    decide +kernel
  have hadded' : ((Store.ofTopology topology).addAll [either, balanced, balanced]).2 = none := by
    decide +kernel
  have hrs : ∀ r, r ∈ [balanced, either] ↔ r ∈ [either, balanced, balanced] := by
    intro r
    simp only [List.mem_cons, List.not_mem_nil]
    tauto
  obtain ⟨hiff, hrender⟩ := Synthesizer.render_of_same_requirements (s := run) hrs
    (Prod.ext rfl hadded) (Prod.ext rfl hadded')
  obtain ⟨m, hm⟩ := exists_ok_of_toBool
    (x := run.synthesize ((Store.ofTopology topology).addAll [balanced, either]).1) (by cbv)
  obtain ⟨m', hm'⟩ := hiff.mp ⟨m, hm⟩
  exact ⟨m, m', hm, hm', hrender m m' hm hm'⟩

end Network.Diamond

end PathPolicy
