import PathPolicy.Proofs.Accumulation
import PathPolicy.Proofs.ClauseCount
import PathPolicy.Proofs.Insertion
import PathPolicy.Proofs.Marks

/-! The order of the bundles has no effect on the finished policies. Whether there is a conflict
depends on the set of all bundles only. Without conflicts the final sorting leaves no trace of the
order in which clauses and static routes arrived, since no two of them compare equal. -/

namespace PathPolicy

/-- Lists with the same elements sort to the same list, if different elements never compare equal. -/
theorem sortBy_eq_of_mem_iff {α : Type} {cmp : α → α → Ordering} [Std.TransCmp cmp] {xs ys : List α}
    (hxs : xs.Nodup) (hys : ys.Nodup) (h : ∀ a, a ∈ xs ↔ a ∈ ys)
    (heq : ∀ a ∈ ys, ∀ b ∈ ys, cmp a b = .eq → a = b) : sortBy cmp xs = sortBy cmp ys := by
  have hperm : xs.Perm (sortBy cmp ys) :=
    ((List.perm_ext_iff_of_nodup hxs hys).mpr h).trans (sortBy_perm cmp ys).symm
  refine sortBy_eq_of_perm hperm ?_
  exact pairwise_lt_of_isChain_ne (sortBy_pairwise cmp ys) (sortBy_nodup hys).isChain
    fun a ha b hb => heq a (mem_sortBy.mp ha) b (mem_sortBy.mp hb)

theorem Bundle.Consistent.costsAgree {b : Bundle} (h : b.Consistent) :
    NodePolicy.CostsAgree b.entries := by
  intro e he e' he' n n' hn hn' hkey
  exact Setting.number.inj (h e he e' he' (.cost e.key.neighbor) _ _
    (by rw [PolicyEntry.setting?, hn]) (by rw [PolicyEntry.setting?, hn', hkey]))

namespace NodePolicy

variable {p : NodePolicy} {e : PolicyEntry} {es es' : List PolicyEntry} {b : RouterId}
  {dir : Direction} {c c' : Clause}

theorem compareClauses_eq_of_same (h : c.same c' = true) : compareClauses c c' = .eq := by
  obtain ⟨hconditions, heffect⟩ := Clause.same_iff.mp h
  simp only [compareClauses, compareLex, compareOn, Clause.isUnconditional, Clause.prefixList?,
    Clause.verdict, Clause.community?, hconditions, heffect, Std.ReflCmp.compare_self,
    Ordering.then_self]

theorem keys_eq_of_compareClauses (h : compareClauses c c' = .eq) :
    c.prefixList? = c'.prefixList? ∧ c.verdict = c'.verdict := by
  obtain ⟨_, hrest⟩ := compareLex_eq_eq.mp h
  obtain ⟨hlist, hrest⟩ := compareLex_eq_eq.mp hrest
  obtain ⟨hverdict, _⟩ := compareLex_eq_eq.mp hrest
  exact ⟨Std.LawfulEqOrd.eq_of_compare hlist, Std.LawfulEqOrd.eq_of_compare hverdict⟩

instance : Std.TransCmp compareStaticRoutes :=
  inferInstanceAs (Std.TransCmp (compareLex (compareOn StaticRoute.network)
    (compareLex (compareOn StaticRoute.distance) (compareOn StaticRoute.nextHop))))

theorem eq_of_compareStaticRoutes {r r' : StaticRoute} (h : compareStaticRoutes r r' = .eq) :
    r = r' := by
  obtain ⟨hnetwork, hrest⟩ := compareLex_eq_eq.mp h
  obtain ⟨hdistance, hhop⟩ := compareLex_eq_eq.mp hrest
  cases r
  cases r'
  rw [StaticRoute.mk.injEq]
  exact ⟨Std.LawfulEqOrd.eq_of_compare hnetwork, Std.LawfulEqOrd.eq_of_compare hhop,
    Std.LawfulEqOrd.eq_of_compare hdistance⟩

theorem nodup_staticRoutes_foldl_commit (es : List PolicyEntry) (h : p.staticRoutes.Nodup) :
    (es.foldl commit p).staticRoutes.Nodup := by
  induction es generalizing p with
  | nil => exact h
  | cons e es ih =>
    refine ih ?_
    rw [staticRoutes_commit, staticRoutes_install]
    split
    · split
      · exact h
      · next hno => exact List.concat_eq_append ▸ h.concat hno
    · exact h

/-- A neighbor without clauses has no route map. -/
theorem routeMaps_ne_nil_foldl_commit (es : List PolicyEntry)
    (h : ∀ k, p.routeMaps.get? k ≠ some []) (k : Session) :
    (es.foldl commit p).routeMaps.get? k ≠ some [] := by
  induction es generalizing p with
  | nil => exact h k
  | cons e es ih =>
    refine ih fun k => ?_
    obtain ⟨origins, he⟩ := commit_eq p e
    rw [he]
    change (p.install e).routeMaps.get? k ≠ some []
    cases hprim : e.primitive with
    | clause c =>
      simp only [install, hprim]
      split
      · exact h k
      · rw [OrderedMap.get?_insert]
        split
        · simp
        · exact h k
    | staticRoute r =>
      simp only [install, hprim]
      split <;> exact h k
    | _ =>
      simp only [install, hprim]
      exact h k

theorem get?_routeMaps (h : p.routeMaps.get? ⟨b, dir⟩ ≠ some []) :
    p.routeMaps.get? ⟨b, dir⟩ =
      if p.routeMap b dir = [] then none else some (p.routeMap b dir) := by
  rw [routeMap]
  cases hget : p.routeMaps.get? ⟨b, dir⟩ with
  | none => simp
  | some cs =>
    have hne : cs ≠ [] := fun he => h (by rw [hget, he])
    simp [hne]

/-- Different clauses for the routes of one neighbor never compare equal. -/
def Untied (es : List PolicyEntry) : Prop :=
  ∀ e ∈ es, ∀ e' ∈ es, ∀ c c', e.primitive = .clause c → e'.primitive = .clause c' →
    e.key.neighbor = e'.key.neighbor → e.key.direction = e'.key.direction →
      compareClauses c c' = .eq → c = c'

namespace Untied

variable (hagree : CostsAgree es) (huntied : Untied es)

include hagree huntied

theorem mem_routeMap_iff : c ∈ (es.foldl commit empty).routeMap b dir ↔
    ∃ e ∈ es, e.key.neighbor = b ∧ e.key.direction = dir ∧ e.primitive = .clause c := by
  have hholds := holds_foldl_commit hagree
  refine ⟨hholds.clause_mem b dir c, ?_⟩
  rintro ⟨e, he, rfl, rfl, hprim⟩
  obtain ⟨c', hc', hsame⟩ := hholds.clause e he c hprim
  obtain ⟨e', he', hneighbor, hdirection, hprim'⟩ := hholds.clause_mem _ _ c' hc'
  obtain rfl := huntied e' he' e he c' c hprim' hprim hneighbor hdirection
    (compareClauses_eq_of_same hsame)
  exact hc'

theorem eq_of_compareClauses (hc : c ∈ (es.foldl commit empty).routeMap b dir)
    (hc' : c' ∈ (es.foldl commit empty).routeMap b dir) (h : compareClauses c c' = .eq) :
    c = c' := by
  obtain ⟨e, he, rfl, rfl, hprim⟩ := (huntied.mem_routeMap_iff hagree).mp hc
  obtain ⟨e', he', hneighbor, hdirection, hprim'⟩ := (huntied.mem_routeMap_iff hagree).mp hc'
  exact huntied e he e' he' c c' hprim hprim' hneighbor.symm hdirection.symm h

end Untied

section SameEntries

variable (hagree : CostsAgree es) (huntied : Untied es) (h : ∀ e, e ∈ es' ↔ e ∈ es)

include h

theorem CostsAgree.of_mem_iff (hagree : CostsAgree es) : CostsAgree es' :=
  fun e he e' he' => hagree e ((h e).mp he) e' ((h e').mp he')

theorem Untied.of_mem_iff (huntied : Untied es) : Untied es' :=
  fun e he e' he' => huntied e ((h e).mp he) e' ((h e').mp he')

theorem staticRoutes_finalize_eq :
    (es'.foldl commit empty).finalize.staticRoutes =
      (es.foldl commit empty).finalize.staticRoutes := by
  refine sortBy_eq_of_mem_iff (nodup_staticRoutes_foldl_commit es' .nil)
    (nodup_staticRoutes_foldl_commit es .nil) (fun r => ?_)
    fun _ _ _ _ => eq_of_compareStaticRoutes
  simp only [mem_staticRoutes_foldl_commit, h]

include hagree

theorem ospfCosts_eq : (es'.foldl commit empty).ospfCosts = (es.foldl commit empty).ospfCosts := by
  refine OrderedMap.ext_get? fun b => Option.ext fun n => ?_
  have hcost := (holds_foldl_commit hagree).cost_iff b n
  have hcost' := (holds_foldl_commit (hagree.of_mem_iff h)).cost_iff b n
  simp only [h] at hcost'
  exact hcost'.trans hcost.symm

theorem maxPaths?_of_mem_iff {pr : Protocol} {n : Nat}
    (hn : (es.foldl commit empty).maxPaths? pr = some n) :
    (es'.foldl commit empty).maxPaths? pr = some n := by
  have hholds := holds_foldl_commit hagree
  have hholds' := holds_foldl_commit (hagree.of_mem_iff h)
  obtain ⟨e, he, hprim⟩ := hholds.maxPaths_mem pr n hn
  obtain ⟨m, hm, hnm⟩ := hholds'.maxPaths_le e ((h e).mpr he) pr n hprim
  obtain ⟨e', he', hprim'⟩ := hholds'.maxPaths_mem pr m hm
  obtain ⟨k, hk, hmk⟩ := hholds.maxPaths_le e' ((h e').mp he') pr m hprim'
  obtain rfl : n = k := Option.some.inj (hn.symm.trans hk)
  rwa [Nat.le_antisymm hnm hmk]

theorem maxPaths_eq : (es'.foldl commit empty).maxPaths = (es.foldl commit empty).maxPaths :=
  OrderedMap.ext_get? fun _ => Option.ext fun _ =>
    ⟨maxPaths?_of_mem_iff (hagree.of_mem_iff h) fun e => (h e).symm, maxPaths?_of_mem_iff hagree h⟩

theorem networks_eq : (es'.foldl commit empty).networks = (es.foldl commit empty).networks := by
  refine OrderedSet.ext_toList fun x => ?_
  have hnetwork := (holds_foldl_commit hagree).network_iff x
  have hnetwork' := (holds_foldl_commit (hagree.of_mem_iff h)).network_iff x
  simp only [h] at hnetwork'
  rw [announces, OrderedMap.contains_iff] at hnetwork hnetwork'
  exact hnetwork'.trans hnetwork.symm

include huntied

theorem routeMaps_finalize_eq :
    (es'.foldl commit empty).finalize.routeMaps = (es.foldl commit empty).finalize.routeMaps := by
  have hempty : ∀ k, empty.routeMaps.get? k ≠ some [] := fun k => by simp [empty]
  refine OrderedMap.ext_get? fun k => ?_
  obtain ⟨b, dir⟩ := k
  have hmem : ∀ c, c ∈ (es'.foldl commit empty).routeMap b dir ↔
      c ∈ (es.foldl commit empty).routeMap b dir := by
    intro c
    rw [(huntied.of_mem_iff h).mem_routeMap_iff (hagree.of_mem_iff h),
      huntied.mem_routeMap_iff hagree]
    simp only [h]
  have hnil : (es'.foldl commit empty).routeMap b dir = [] ↔
      (es.foldl commit empty).routeMap b dir = [] := by
    simp only [List.eq_nil_iff_forall_not_mem, hmem]
  have hnodup : ∀ es : List PolicyEntry, ((es.foldl commit empty).routeMap b dir).Nodup :=
    fun es => nodup_routeMap_foldl_commit es List.nodup_nil
  have hsorted : arrange ((es'.foldl commit empty).routeMap b dir) =
      arrange ((es.foldl commit empty).routeMap b dir) := by
    rw [arrange, arrange, sortBy_eq_of_mem_iff (hnodup es') (hnodup es) hmem
      fun c hc c' hc' => huntied.eq_of_compareClauses hagree hc hc']
  simp only [finalize, OrderedMap.get?_mapValues,
    get?_routeMaps (routeMaps_ne_nil_foldl_commit _ hempty _), hnil]
  split
  · rfl
  · simp only [Option.map_some, hsorted]

/-- The finished policy of a router depends on the set of its entries only. -/
theorem erase_finalize_eq :
    (es'.foldl commit empty).finalize.erase = (es.foldl commit empty).finalize.erase := by
  have hmaps := routeMaps_finalize_eq hagree huntied h
  have hcosts := ospfCosts_eq hagree h
  have hroutes := staticRoutes_finalize_eq h
  have hpaths := maxPaths_eq hagree h
  have hnetworks := networks_eq hagree h
  simp only [erase, finalize] at hmaps hroutes ⊢
  rw [hmaps, hcosts, hroutes, hpaths, hnetworks]

end SameEntries

end NodePolicy

namespace Synthesizer

open PathPolicy.Bundle PolicyModel RequirementGroup

variable {s : Synthesizer} {store : Store} {gs : List RequirementGroup} {ps : List GroupPolicy}
  {bs : List Bundle}

theorem silent_iff_compatible (h : ∀ b ∈ bs, b.Consistent) :
    (bs.foldl s.mergeBundle (.empty, [])).2 = [] ↔ Compatible bs :=
  foldl_mergeBundle_snd_eq_nil_iff.trans (accepted_eq_self_iff h)

section Merged

variable (hf : List.Forall₂ (fun x p => x.1.synthesize s.topology x.2 = .ok p) (s.marked gs) ps)

include hf

theorem untied_entriesAt (hbs : bs ⊆ ps.flatMap (·.bundles)) (a : RouterId) :
    NodePolicy.Untied (entriesAt a bs) := by
  have hsource : ∀ e ∈ entriesAt a bs, ∀ c, e.primitive = .clause c → ∃ x ∈ s.marked gs,
      x.1.protocol = .bgp ∧ ∃ d, x.1.decision? s.topology a e.key.neighbor = some d ∧
        c ∈ (x.1.mark s.topology x.2).clauses e.key.neighbor d := by
    intro e he c hprim
    obtain ⟨b, hb, rfl, heb⟩ := mem_entriesAt.mp he
    obtain ⟨p, hp, hbp⟩ := List.mem_flatMap.mp (hbs hb)
    obtain ⟨x, hx, hsyn⟩ := exists_mem_marked_of_mem hf hp
    rw [bundles_of_synthesize hsyn] at hbp
    obtain ⟨hbgp, _, _, hclause⟩ := (Bundled.of_mem hbp heb).of_clause hprim
    exact ⟨x, hx, hbgp, hclause⟩
  intro e he e' he' c c' hprim hprim' hneighbor _ heq
  obtain ⟨x, hx, hbgp, d, hd, hc⟩ := hsource e he c hprim
  obtain ⟨x', hx', hbgp', d', hd', hc'⟩ := hsource e' he' c' hprim'
  obtain ⟨hlist, hverdict⟩ := NodePolicy.keys_eq_of_compareClauses heq
  obtain rfl := eq_of_clauses hx hx' hbgp hbgp' hc hc' hlist
  rw [← hneighbor] at hd' hc'
  obtain rfl : d = d' := Option.some.inj (hd.symm.trans hd')
  exact GroupMark.eq_of_verdict hc' hc hverdict

theorem sameRules_of_perm (hperm : bs.Perm (ps.flatMap (·.bundles)))
    (hcompatible : Compatible (ps.flatMap (·.bundles))) :
    (mergeAll s.topology (ps.flatMap (·.bundles))).finalize.SameRules
      (mergeAll s.topology bs).finalize := by
  intro a
  have hmem : ∀ e, e ∈ entriesAt a bs ↔ e ∈ entriesAt a (ps.flatMap (·.bundles)) := by
    intro e
    simp only [mem_entriesAt, hperm.mem_iff]
  rw [policy_finalize, policy_finalize, policy_mergeAll, policy_mergeAll,
    accepted_eq_self_of_compatible hcompatible,
    accepted_eq_self_of_compatible (hcompatible.mono hperm.subset)]
  exact NodePolicy.erase_finalize_eq (hcompatible a).costsAgree
    (untied_entriesAt hf (List.Subset.refl _) a) hmem

end Merged

/-- All orders of the bundles of a store give a conflict, or none does. Without conflict the finished
policies of all routers are the same, up to the origins that are only noted for conflicts. -/
theorem merge_confluent (hfilled : store.Filled s.topology) (hgs : s.groups store = .ok gs) :
    ∃ ps, s.groupPolicies gs = .ok ps ∧ ∀ bs : List Bundle, bs.Perm (ps.flatMap (·.bundles)) →
      let merged := (ps.flatMap (·.bundles)).foldl s.mergeBundle (.empty, [])
      let reordered := bs.foldl s.mergeBundle (.empty, [])
      (merged.2 = [] ↔ reordered.2 = []) ∧
        (merged.2 = [] → merged.1.finalize.SameRules reordered.1.finalize) := by
  obtain ⟨ps, hps⟩ := exists_groupPolicies hfilled hgs
  refine ⟨ps, hps, fun bs hperm => ?_⟩
  have hf := groupPolicies_ok hps
  have hconsistent : ∀ b ∈ ps.flatMap (·.bundles), b.Consistent := fun b hb => by
    obtain ⟨p, hp, hbp⟩ := List.mem_flatMap.mp hb
    exact consistent_of_mem hf p hp b hbp
  have hconsistent' : ∀ b ∈ bs, b.Consistent := fun b hb => hconsistent b (hperm.mem_iff.mp hb)
  have hmerged := silent_iff_compatible (s := s) hconsistent
  have hreordered := silent_iff_compatible (s := s) hconsistent'
  have hsame : Compatible (ps.flatMap (·.bundles)) ↔ Compatible bs :=
    ⟨fun h => h.mono hperm.subset, fun h => h.mono hperm.symm.subset⟩
  refine ⟨hmerged.trans (hsame.trans hreordered.symm), fun hnil => ?_⟩
  simp only [foldl_mergeBundle_fst]
  exact sameRules_of_perm hf hperm (hmerged.mp hnil)

end Synthesizer

/-- Merging from the destination to the source gives what merging from the source does: at `S` two
clauses for the routes from `A`, and no conflict. -/
theorem Network.Diamond.merge_confluent_reverse : (storeOf balanced).Filled run.topology ∧
    run.groups (storeOf balanced) = .ok [RequirementGroup.diamond] ∧
      ∃ ps, run.groupPolicies [RequirementGroup.diamond] = .ok ps ∧
        let merged := (ps.flatMap (·.bundles)).foldl run.mergeBundle (.empty, [])
        let reordered := (ps.flatMap (·.bundles)).reverse.foldl run.mergeBundle (.empty, [])
        merged.2 = [] ∧ reordered.2 = [] ∧
          ((merged.1.finalize.policy 0).routeMap 1 .incoming).length = 2 ∧
          merged.1.finalize.SameRules reordered.1.finalize := by
  have hfilled : (storeOf balanced).Filled run.topology := storeOf_filled _
  obtain ⟨ps, hps, hany⟩ := Synthesizer.merge_confluent hfilled balanced_groups
  have hrun : (run.groupPolicies [RequirementGroup.diamond]).toOption.map (fun ps =>
      let merged := (ps.flatMap (·.bundles)).foldl run.mergeBundle (.empty, [])
      (merged.2.isEmpty, ((merged.1.finalize.policy 0).routeMap 1 .incoming).length)) =
        some (true, 2) := by cbv
  rw [hps] at hrun
  obtain ⟨hnil, hlength⟩ := Prod.mk.inj (Option.some.inj hrun)
  have hmerged := List.isEmpty_iff.mp hnil
  obtain ⟨hboth, hsame⟩ := hany _ (List.reverse_perm _)
  exact ⟨hfilled, balanced_groups, ps, hps, hmerged, hboth.mp hmerged, hlength, hsame hmerged⟩

end PathPolicy
