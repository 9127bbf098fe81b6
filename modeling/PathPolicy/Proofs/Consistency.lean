import Mathlib.Logic.Relation
import PathPolicy.Proofs.Acceptance
import PathPolicy.Proofs.Slots
import PathPolicy.Proofs.StaticRoutes

/-! What is in force after a merge. The entries of a bundle are compared with the policy that was
there before and not with each other, so that an accepted bundle is in force as a whole exactly if it
does not contradict itself. The bundles of groups never do. -/

namespace PathPolicy

open PolicyEntry

namespace NodePolicy

variable {p q : NodePolicy} {e : PolicyEntry} {es : List PolicyEntry} {b : Bundle} {slot : Slot}
  {v : Setting}

/-- The entry is in force, and nothing in the policy contradicts it. -/
def Upholds (p : NodePolicy) (e : PolicyEntry) : Prop :=
  match e.primitive with
  | .clause c =>
    (∃ c' ∈ p.routeMap e.key.neighbor e.key.direction, c'.same c = true) ∧
      ∀ c' ∈ p.routeMap e.key.neighbor e.key.direction, c'.conditions = c.conditions →
        c'.effect = c.effect
  | .ospfCost n => p.ospfCost? e.key.neighbor = some n
  | .staticRoute r => r ∈ p.staticRoutes ∧
      ∀ r' ∈ p.staticRoutes, r'.network = r.network → r'.nextHop = r.nextHop →
        r'.distance = r.distance
  | .maxPaths protocol n => ∃ m, p.maxPaths? protocol = some m ∧ n ≤ m
  | .network a => p.announces a = true
  | .community _ _ | .localPref _ => True

theorem upholds_iff_sets (h : e.setting? = some (slot, v)) :
    p.Upholds e ↔ p.Sets slot v ∧ ∀ v', p.Sets slot v' → v' = v := by
  rw [PolicyEntry.setting?] at h
  rw [Upholds]
  split at h
  · next c hc =>
    obtain ⟨rfl, rfl⟩ := Prod.mk.inj (Option.some.inj h)
    simp only [hc, Sets, Clause.same_iff, Setting.effect.injEq]
    refine and_congr_right fun _ => ⟨?_, fun h c' hc' hcond => ?_⟩
    · rintro h _ ⟨c', hc', hcond, rfl⟩
      rw [h c' hc' hcond]
    · exact Setting.effect.inj (h _ ⟨c', hc', hcond, rfl⟩)
  · next n hn =>
    obtain ⟨rfl, rfl⟩ := Prod.mk.inj (Option.some.inj h)
    simp only [hn, Sets, Setting.number.injEq, exists_eq_right]
    refine ⟨fun h => ⟨h, ?_⟩, And.left⟩
    rintro _ ⟨n', hn', rfl⟩
    rw [Option.some.inj (h.symm.trans hn')]
  · next r hr =>
    obtain ⟨rfl, rfl⟩ := Prod.mk.inj (Option.some.inj h)
    simp only [hr, Sets, Setting.number.injEq]
    constructor
    · rintro ⟨hmem, hall⟩
      refine ⟨⟨r, hmem, rfl, rfl, rfl⟩, ?_⟩
      rintro _ ⟨r', hr', hhop, hnetwork, rfl⟩
      rw [hall r' hr' hnetwork hhop]
    · rintro ⟨⟨r', hr', hhop, hnetwork, hdistance⟩, hall⟩
      have hsame : r' = r := by
        cases r'
        cases r
        simp_all
      exact ⟨hsame ▸ hr', fun r'' hr'' hnetwork hhop =>
        Setting.number.inj (hall _ ⟨r'', hr'', hhop, hnetwork, rfl⟩)⟩
  · cases h

/-- A network has one distance over each next hop. -/
def RoutesAgree (p : NodePolicy) : Prop :=
  ∀ r ∈ p.staticRoutes, ∀ r' ∈ p.staticRoutes, r.network = r'.network → r.nextHop = r'.nextHop →
    r.distance = r'.distance

theorem Coherent.routesAgree (h : p.Coherent) : p.RoutesAgree := by
  intro r hr r' hr' hnetwork hhop
  exact Setting.number.inj (h (.staticRoute r.nextHop r.network) _ _ ⟨r, hr, rfl, rfl, rfl⟩
    ⟨r', hr', hhop.symm, hnetwork.symm, rfl⟩)

/-- No policy upholds two entries that contradict each other. -/
theorem consistent_of_upholds (h : ∀ e ∈ b.entries, p.Upholds e) : b.Consistent := by
  intro e he e' he' slot v v' hv hv'
  have hsets := (upholds_iff_sets hv).mp (h e he)
  exact (hsets.2 v' ((upholds_iff_sets hv').mp (h e' he')).1).symm

theorem Upholds.of_keptBy (h : p.Upholds e) (hpq : p.KeptBy q) (hq : q.Coherent) : q.Upholds e := by
  cases hset : e.setting? with
  | some setting =>
    obtain ⟨slot, v⟩ := setting
    have hv := hpq.sets ((upholds_iff_sets hset).mp h).1
    exact (upholds_iff_sets hset).mpr ⟨hv, fun v' hv' => hq slot v' v hv' hv⟩
  | none =>
    rw [PolicyEntry.setting?] at hset
    cases hprim : e.primitive <;> simp only [hprim, Upholds] at hset h ⊢
    · cases hset
    · cases hset
    · obtain ⟨n, hn, hle⟩ := h
      obtain ⟨n', hn', hle'⟩ := hpq.maxPaths _ n hn
      exact ⟨n', hn', hle.trans hle'⟩
    · cases hset
    · exact hpq.networks _ h

theorem upholds_of_mem_of_setting?_eq_none (he : e ∈ es) (hset : e.setting? = none) :
    (es.foldl commit p).Upholds e := by
  obtain ⟨before, after, rfl⟩ := List.append_of_mem he
  rw [List.foldl_append, List.foldl_cons]
  have hgrows := growsTo_foldl_commit ((before.foldl commit p).commit e) after
  generalize before.foldl commit p = q at hgrows ⊢
  rw [PolicyEntry.setting?] at hset
  rw [Upholds]
  split
  · next hc => simp [hc] at hset
  · next hn => simp [hn] at hset
  · next hr => simp [hr] at hset
  · next pr n hprim =>
    have hmax : (q.commit e).maxPaths? pr = some (max ((q.maxPaths? pr).getD n) n) := by
      rw [maxPaths?_commit, maxPaths?_install, hprim]
      exact if_pos rfl
    obtain ⟨m, hm, hle⟩ := hgrows.maxPaths pr _ hmax
    exact ⟨m, hm, (Nat.le_max_right _ _).trans hle⟩
  · next a hprim =>
    refine hgrows.networks a ?_
    rw [announces_commit, announces_install]
    exact .inl hprim
  · trivial
  · trivial

/-- An accepted bundle without a contradiction is in force. -/
theorem Coherent.upholds_foldl_commit (h : p.Coherent) (hb : b.Consistent)
    (hclash : ∀ e ∈ b.entries, p.clash? e.key e.primitive = none) (he : e ∈ b.entries) :
    (b.entries.foldl commit p).Upholds e := by
  cases hset : e.setting? with
  | some setting =>
    obtain ⟨slot, v⟩ := setting
    have hsets := sets_foldl_commit_of_mem (p := p) he hset
      fun x hx v' hv' => hb x hx e he slot v' v hv' hset
    exact (upholds_iff_sets hset).mpr
      ⟨hsets, fun v' hv' => h.foldl_commit hb hclash slot v' v hv' hsets⟩
  | none => exact upholds_of_mem_of_setting?_eq_none he hset

end NodePolicy

namespace PolicyModel

variable {t : Topology} {m m' : PolicyModel} {b : Bundle} {a : RouterId} {e : PolicyEntry}

/-- The merge of a bundle that is rejected or does not contradict itself. -/
def MergeStep (t : Topology) (m m' : PolicyModel) : Prop :=
  ∃ b : Bundle, ((m.merge t b).2 = none → b.Consistent) ∧ (m.merge t b).1 = m'

abbrev MergeReachable (t : Topology) : PolicyModel → PolicyModel → Prop :=
  Relation.ReflTransGen (MergeStep t)

theorem MergeReachable.coherent (h : MergeReachable t m m') (hm : m.Coherent) : m'.Coherent := by
  induction h with
  | refl => exact hm
  | tail _ hstep ih =>
    obtain ⟨b, hb, rfl⟩ := hstep
    exact ih.merge hb

theorem MergeReachable.keptBy (h : MergeReachable t m m') (a : RouterId) :
    (m.policy a).KeptBy (m'.policy a) := by
  induction h with
  | refl => exact .refl _
  | tail _ hstep ih =>
    obtain ⟨b, _, rfl⟩ := hstep
    exact ih.trans (keptBy_merge t _ b a)

theorem upholds_of_consistent (hm : MergeReachable t .empty m) (haccepted : (m.merge t b).2 = none)
    (hlater : MergeReachable t (m.merge t b).1 m') (hb : b.Consistent) (he : e ∈ b.entries) :
    (m'.policy b.router).Upholds e := by
  have hcoherent : m.Coherent := hm.coherent coherent_empty
  rcases merge_cases t m b with ⟨c, hc, _⟩ | ⟨_, hp, hno⟩
  · rw [haccepted] at hc
    cases hc
  · have hup := (hcoherent b.router).upholds_foldl_commit hb hno he
    rw [← hp] at hup
    exact hup.of_keptBy (hlater.keptBy b.router)
      (hlater.coherent (hcoherent.merge fun _ => hb) b.router)

/-- Suppose that the bundles accepted before and after this one do not contradict themselves. Then an
accepted bundle is in force as a whole, after its merge and after any later ones, exactly if it does
not contradict itself either. -/
theorem upholds_iff_consistent (hm : MergeReachable t .empty m) (haccepted : (m.merge t b).2 = none)
    (hlater : MergeReachable t (m.merge t b).1 m') :
    (∀ e ∈ b.entries, (m'.policy b.router).Upholds e) ↔ b.Consistent :=
  ⟨NodePolicy.consistent_of_upholds,
    fun hb _ he => upholds_of_consistent hm haccepted hlater hb he⟩

end PolicyModel

namespace Network.Diamond

/-- The costs of the interfaces of `S` toward these neighbors. -/
def costs (ns : List (RouterId × Nat)) : Bundle :=
  ⟨0, ns.map fun x => ⟨⟨0, x.1, .outgoing⟩, .ospfCost x.2, (ordered .ospf).reference 0⟩⟩

theorem costs_consistent {ns : List (RouterId × Nat)} (h : (ns.map (·.1)).Nodup) :
    (costs ns).Consistent := by
  intro e he e' he' slot v v' hv hv'
  obtain ⟨x, hx, rfl⟩ := List.mem_map.mp he
  obtain ⟨x', hx', rfl⟩ := List.mem_map.mp he'
  obtain ⟨rfl, rfl⟩ := Prod.mk.inj (Option.some.inj hv)
  obtain ⟨hslot, rfl⟩ := Prod.mk.inj (Option.some.inj hv')
  rw [List.inj_on_of_nodup_map h hx hx' (Slot.cost.inj hslot).symm]

def started : PolicyModel := (PolicyModel.empty.merge topology (costs [(1, 10)])).1

def extended : Bundle := costs [(1, 10), (2, 20)]

theorem started_reachable : PolicyModel.MergeReachable topology .empty started :=
  .single ⟨_, fun _ => costs_consistent (by decide), rfl⟩

/-- A bundle that repeats a cost and adds another one is in force. -/
theorem upholds_iff_consistent_diamond : (started.merge topology extended).2 = none ∧
    ∀ e ∈ extended.entries, ((started.merge topology extended).1.policy 0).Upholds e := by
  have haccepted : (started.merge topology extended).2 = none := by decide +kernel
  have hconsistent : extended.Consistent := costs_consistent (by decide)
  exact ⟨haccepted, (PolicyModel.upholds_iff_consistent started_reachable haccepted .refl).mpr
    hconsistent⟩

def overwriting : Bundle := costs [(2, 10), (2, 20)]

/-- Of two costs for one interface, the second one overwrites the first one, and no conflict is
reported. -/
theorem overwritten_cost_unreported : (started.merge topology overwriting).2 = none ∧
    ((started.merge topology overwriting).1.policy 0).ospfCost? 2 = some 20 ∧
    ¬ ∀ e ∈ overwriting.entries, ((started.merge topology overwriting).1.policy 0).Upholds e := by
  have hcost : ((started.merge topology overwriting).1.policy 0).ospfCost? 2 = some 20 := by
    decide +kernel
  refine ⟨by decide +kernel, hcost, fun h => ?_⟩
  have hfirst : ((started.merge topology overwriting).1.policy 0).ospfCost? 2 = some 10 :=
    h _ List.mem_cons_self
  rw [hcost] at hfirst
  cases hfirst

end Network.Diamond

/-- Each slot of a bundle comes from one decision of its group. -/
theorem RequirementGroup.consistent_of_mem_bundles {t : Topology} {g : RequirementGroup}
    {community : Option Community} {b : Bundle}
    (hb : b ∈ g.bundles (g.mark t community) (g.commitments t)) : b.Consistent := by
  intro e he e' he' slot v v' hv hv'
  cases slot with
  | clause session conditions =>
    obtain ⟨c, hc, rfl, rfl, rfl⟩ := exists_clause_of_setting? hv
    obtain ⟨c', hc', hkey, hconditions, rfl⟩ := exists_clause_of_setting? hv'
    obtain ⟨_, _, _, d, hd, hclause⟩ := (Bundled.of_mem hb he).of_clause hc
    obtain ⟨_, _, _, d', hd', hclause'⟩ := (Bundled.of_mem hb he').of_clause hc'
    rw [(Session.mk.inj hkey).1] at hd' hclause'
    obtain rfl : d = d' := Option.some.inj (hd.symm.trans hd')
    rw [GroupMark.eq_of_conditions hclause hclause' hconditions]
  | cost neighbor =>
    obtain ⟨n, hn, rfl, rfl⟩ := exists_cost_of_setting? hv
    obtain ⟨n', hn', hkey, rfl⟩ := exists_cost_of_setting? hv'
    rw [costsAgree_of_mem_bundles hb e he e' he' n n' hn hn' hkey.symm]
  | staticRoute nextHop network =>
    obtain ⟨r, hr, rfl, rfl, rfl⟩ := exists_staticRoute_of_setting? hv
    obtain ⟨r', hr', hhop, hnetwork, rfl⟩ := exists_staticRoute_of_setting? hv'
    rw [distancesAgree_of_mem_bundles hb e he e' he' r r' hr hr' hnetwork.symm hhop.symm]

namespace Synthesizer

variable {s : Synthesizer} {gs : List RequirementGroup} {ps done rest : List GroupPolicy}
  {p : GroupPolicy} {before after bs : List Bundle} {bundle : Bundle} {e : PolicyEntry}
  {store : Store} {model : PolicyModel} {conflicts : List Conflict}

theorem mergeReachable_foldl_mergeBundle (s : Synthesizer) (state : PolicyModel × List Conflict)
    (h : ∀ b ∈ bs, b.Consistent) :
    PolicyModel.MergeReachable s.topology state.1 (bs.foldl s.mergeBundle state).1 :=
  foldl_mergeBundle_induction s bs (P := PolicyModel.MergeReachable s.topology state.1)
    (fun b hb _ hm => hm.tail ⟨b, fun _ => h b hb, rfl⟩) .refl

theorem mergeReachable_foldl_mergeGroup (s : Synthesizer) (state : PolicyModel × List Conflict)
    (h : ∀ p ∈ ps, ∀ b ∈ p.bundles, b.Consistent) :
    PolicyModel.MergeReachable s.topology state.1 (ps.foldl s.mergeGroup state).1 :=
  foldl_mergeGroup_induction s ps (P := PolicyModel.MergeReachable s.topology state.1)
    (fun p hp b hb _ hm => hm.tail ⟨b, fun _ => h p hp b hb, rfl⟩) .refl

theorem consistent_of_mem
    (hf : List.Forall₂ (fun x p => x.1.synthesize s.topology x.2 = .ok p) (s.marked gs) ps) :
    ∀ p ∈ ps, ∀ b ∈ p.bundles, b.Consistent := by
  intro p hp b hb
  obtain ⟨x, _, hsyn⟩ := exists_mem_marked_of_mem hf hp
  rw [bundles_of_synthesize hsyn] at hb
  exact RequirementGroup.consistent_of_mem_bundles hb

/-- Whatever bundle of a group is accepted is in force after the last merge. -/
theorem upholds_of_accepted
    (hf : List.Forall₂ (fun x p => x.1.synthesize s.topology x.2 = .ok p) (s.marked gs) ps)
    (hps : ps = done ++ p :: rest) (hbs : p.bundles = before ++ bundle :: after)
    (haccepted : ((s.stateBefore done p before).1.merge s.topology bundle).2 = none)
    (he : e ∈ bundle.entries) :
    ((ps.foldl s.mergeGroup (.empty, [])).1.policy bundle.router).Upholds e := by
  have hall := consistent_of_mem hf
  have hp : ∀ b ∈ p.bundles, b.Consistent := hall p (by simp [hps])
  have hdone : ∀ q ∈ done, ∀ b ∈ q.bundles, b.Consistent := fun q hq => hall q (by simp [hps, hq])
  have hrest : ∀ q ∈ rest, ∀ b ∈ q.bundles, b.Consistent := fun q hq => hall q (by simp [hps, hq])
  have hbefore : ∀ b ∈ before, b.Consistent := fun b hb => hp b (by simp [hbs, hb])
  have hafter : ∀ b ∈ after, b.Consistent := fun b hb => hp b (by simp [hbs, hb])
  have hreached : PolicyModel.MergeReachable s.topology .empty (s.stateBefore done p before).1 :=
    (mergeReachable_foldl_mergeGroup s (.empty, []) hdone).trans
      (mergeReachable_foldl_mergeBundle s (_, _ ++ p.conflicts) hbefore)
  refine PolicyModel.upholds_of_consistent hreached haccepted ?_ (hp bundle (by simp [hbs])) he
  rw [foldl_mergeGroup_eq s hps hbs]
  exact (mergeReachable_foldl_mergeBundle s (s.mergeBundle (s.stateBefore done p before) bundle)
    hafter).trans (mergeReachable_foldl_mergeGroup s _ hrest)

theorem routesAgree_of_synthesizePartial (h : s.synthesizePartial store = .ok (model, conflicts))
    (a : RouterId) : (model.policy a).RoutesAgree := by
  obtain ⟨gs, _, h⟩ := bind_eq_ok h
  obtain ⟨ps, hps, h⟩ := bind_eq_ok h
  obtain ⟨rfl, _⟩ := Prod.mk.inj (Except.ok.inj h)
  have hreached := mergeReachable_foldl_mergeGroup s (.empty, [])
    (consistent_of_mem (groupPolicies_ok hps))
  have hagree := (hreached.coherent PolicyModel.coherent_empty a).routesAgree
  rw [PolicyModel.policy_finalize]
  intro r hr r' hr'
  exact hagree r (NodePolicy.mem_staticRoutes_finalize.mp hr) r'
    (NodePolicy.mem_staticRoutes_finalize.mp hr')

end Synthesizer

end PathPolicy
