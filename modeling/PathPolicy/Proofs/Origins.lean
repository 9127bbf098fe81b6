import PathPolicy.Config.Emit
import PathPolicy.Proofs.Bundles
import PathPolicy.Proofs.Lockstep
import PathPolicy.Proofs.Merge

/-! Origins are noted for conflicts only. Without conflicts, erasing them from bundles and policies
changes neither what is installed nor what is written. -/

namespace PathPolicy

def PolicyEntry.erase (e : PolicyEntry) : PolicyKey × Primitive := (e.key, e.primitive)

def Bundle.erase (b : Bundle) : RouterId × List (PolicyKey × Primitive) :=
  (b.router, b.entries.map (·.erase))

namespace Bundles

variable {m : Bundles} {α : Type}

def erase (m : Bundles) : OrderedMap RouterId (List (PolicyKey × Primitive)) :=
  m.mapValues fun _ es => es.map (·.erase)

theorem map_erase_toList (m : Bundles) : m.toList.map (·.erase) = m.erase.entries := by
  rw [toList, List.map_map]
  rfl

def addErased (m : OrderedMap RouterId (List (PolicyKey × Primitive))) (r : RouterId)
    (es : List (PolicyKey × Primitive)) : OrderedMap RouterId (List (PolicyKey × Primitive)) :=
  m.update r fun old => old.getD [] ++ es

theorem erase_add (m : Bundles) (r : RouterId) (es : List PolicyEntry) :
    (m.add r es).erase = addErased m.erase r (es.map (·.erase)) := by
  refine OrderedMap.ext_get? fun a => ?_
  rw [erase, add, addErased, erase, OrderedMap.get?_mapValues, OrderedMap.get?_update,
    OrderedMap.get?_update, OrderedMap.get?_mapValues, OrderedMap.get?_mapValues]
  split
  · cases m.get? r <;> simp
  · rfl

theorem erase_foldl_add (router : α → RouterId) (entries : α → List PolicyEntry) (xs : List α)
    (m : Bundles) : (xs.foldl (fun m x => m.add (router x) (entries x)) m).erase =
      xs.foldl (fun m x => addErased m (router x) ((entries x).map (·.erase))) m.erase :=
  (List.foldl_hom erase fun m x => (erase_add m (router x) (entries x)).symm).symm

end Bundles

namespace RequirementGroup

variable {t : Topology} {g g' : RequirementGroup} {mark : GroupMark} {s s' : Commitments}

theorem erase_decisionBundles (mark : GroupMark) (s : Commitments) :
    (decisionBundles mark s).erase = ((settled s).mapValues fun _ i => i.decision).entries.foldl
      (fun m e => Bundles.addErased m e.1.router
        ((mark.lower e.1.neighbor e.2).map fun p => (e.1, p))) .empty := by
  rw [decisionBundles, OrderedMap.mapValues, List.foldl_map]
  refine (Bundles.erase_foldl_add (fun x : PolicyKey × Intent => x.1.router)
    (fun x => (mark.lower x.1.neighbor x.2.decision).map fun p => ⟨x.1, p, x.2.origin⟩)
    (settled s).entries .empty).trans ?_
  simp only [List.map_map]
  rfl

theorem erase_withAnnouncement (g : RequirementGroup) (networks : List Address) (m : Bundles) :
    (g.withAnnouncement networks m).erase =
      if g.protocol = .bgp ∧ g.requirements ≠ [] then
        Bundles.addErased m.erase g.destination
          (networks.map fun network => (.ofRouter g.destination, .network network))
      else m.erase := by
  rw [withAnnouncement]
  split
  · next first hbgp hfirst =>
    have hne : g.requirements ≠ [] := List.ne_nil_of_mem (List.mem_of_mem_head? hfirst)
    rw [if_pos ⟨hbgp, hne⟩, Bundles.erase_add, List.map_map]
    rfl
  · next hno =>
    refine (if_neg fun h => ?_).symm
    obtain ⟨first, hfirst⟩ := Option.isSome_iff_exists.mp (List.isSome_head?.mpr h.2)
    exact hno first h.1 hfirst

theorem erase_withMaxPaths (g : RequirementGroup) (s : Commitments) (m : Bundles) :
    (g.withMaxPaths s m).erase =
      ((s.maxPaths.filter fun r _ => !s.isConflicted r).mapValues fun _ m => m.1).entries.foldl
        (fun m e => Bundles.addErased m e.1 [(.ofRouter e.1, .maxPaths g.protocol e.2)])
        m.erase := by
  rw [withMaxPaths, OrderedMap.mapValues, List.foldl_map]
  exact Bundles.erase_foldl_add (fun x : RouterId × Nat × RequirementRef => x.1)
    (fun x => [⟨.ofRouter x.1, .maxPaths g.protocol x.2.1, x.2.2⟩]) _ m

theorem settled_eq (h : s.conflicted = []) : settled s = s.intents :=
  OrderedMap.filter_eq_self fun k _ => by simp [Commitments.isConflicted, h]

theorem filter_maxPaths_eq (h : s.conflicted = []) :
    (s.maxPaths.filter fun r _ => !s.isConflicted r) = s.maxPaths :=
  OrderedMap.filter_eq_self fun r _ => by simp [Commitments.isConflicted, h]

theorem Alike.erase_bundles (h : g.Alike g') (ho : SameOutcome t g g') (mark : GroupMark) :
    (g'.bundles mark (g'.commitments t)).map (·.erase) =
      (g.bundles mark (g.commitments t)).map (·.erase) := by
  have hne : g'.requirements ≠ [] ↔ g.requirements ≠ [] :=
    ⟨h.symm.requirements_ne_nil, h.requirements_ne_nil⟩
  rw [bundles, bundles, Bundles.map_erase_toList, Bundles.map_erase_toList, erase_withMaxPaths,
    erase_withMaxPaths, erase_withAnnouncement, erase_withAnnouncement, erase_decisionBundles,
    erase_decisionBundles, settled_eq ho.conflicted, settled_eq ho.conflicted',
    filter_maxPaths_eq ho.conflicted, filter_maxPaths_eq ho.conflicted']
  have hdecisions := ho.decisions
  have hcounts := ho.pathCounts
  rw [Commitments.decisions, Commitments.decisions] at hdecisions
  rw [Commitments.pathCounts, Commitments.pathCounts] at hcounts
  simp only [hdecisions, hcounts, hne, h.protocol, h.destination]

end RequirementGroup

namespace NodePolicy

variable {p p' : NodePolicy} {es es' : List PolicyEntry}

/-- What a policy has installed. -/
def erase (p : NodePolicy) : NodePolicy := { p with origins := [] }

theorem clash?_erase (p : NodePolicy) (key : PolicyKey) (x : Primitive) :
    p.erase.clash? key x = p.clash? key x := by
  cases x <;> rfl

theorem erase_install (p : NodePolicy) (e : PolicyEntry) :
    (p.install e).erase = p.erase.install e := by
  cases hp : e.primitive with
  | clause c =>
    simp only [install, hp]
    exact apply_ite erase _ _ _
  | staticRoute r =>
    simp only [install, hp]
    exact apply_ite erase _ _ _
  | _ => simp only [install, hp] <;> rfl

theorem erase_commit (p : NodePolicy) (e : PolicyEntry) :
    (p.commit e).erase = p.erase.install e := by
  obtain ⟨origins, he⟩ := commit_eq p e
  rw [he, ← erase_install]
  rfl

theorem erase_foldl_commit (hp : p'.erase = p.erase)
    (hes : es'.map (·.erase) = es.map (·.erase)) :
    (es'.foldl commit p').erase = (es.foldl commit p).erase := by
  induction es generalizing es' p p' with
  | nil =>
    obtain rfl : es' = [] := List.map_eq_nil_iff.mp hes
    exact hp
  | cons e es ih =>
    obtain ⟨e', rest, rfl, he, hrest⟩ := List.map_eq_cons_iff.mp hes
    obtain ⟨hkey, hprim⟩ := Prod.mk.inj he
    rw [List.foldl_cons, List.foldl_cons]
    refine ih ?_ hrest
    rw [erase_commit, erase_commit, hp, install, install, hkey, hprim]

end NodePolicy

namespace PolicyModel

variable {t : Topology} {m m' : PolicyModel} {b b' : Bundle}

/-- The same is installed on each router. -/
def SameRules (m m' : PolicyModel) : Prop := ∀ a, (m'.policy a).erase = (m.policy a).erase

theorem SameRules.merge (h : m.SameRules m') (hb : b'.erase = b.erase)
    (hok : (m.merge t b).2 = none) :
    (m'.merge t b').2 = none ∧ (m.merge t b).1.SameRules (m'.merge t b').1 := by
  obtain ⟨hrouter, hentries⟩ := Prod.mk.inj hb
  rcases merge_cases t m b with ⟨c, hc, _⟩ | ⟨_, hp, hclash⟩
  · simp [hok] at hc
  · have hclash' : ∀ e ∈ b'.entries, (m'.policy b'.router).clash? e.key e.primitive = none := by
      intro e he
      obtain ⟨e₀, he₀, heq⟩ : ∃ e₀ ∈ b.entries, e₀.erase = e.erase :=
        List.mem_map.mp (hentries ▸ List.mem_map_of_mem he)
      obtain ⟨hkey, hprim⟩ := Prod.mk.inj heq
      rw [← hkey, ← hprim, hrouter, ← NodePolicy.clash?_erase, h b.router,
        NodePolicy.clash?_erase]
      exact hclash e₀ he₀
    obtain ⟨hok', hp'⟩ := merge_of_clash?_eq_none t hclash'
    refine ⟨hok', fun a => ?_⟩
    by_cases ha : a = b.router
    · rw [ha, hp, ← hrouter, hp', hrouter]
      exact NodePolicy.erase_foldl_commit (h b.router) hentries
    · rw [policy_merge_of_ne ha, policy_merge_of_ne (hrouter ▸ ha)]
      exact h a

theorem SameRules.finalize (h : m.SameRules m') : m.finalize.SameRules m'.finalize := by
  intro a
  rw [policy_finalize, policy_finalize]
  exact congrArg NodePolicy.finalize (h a)

theorem SameRules.deviceOf (h : m.SameRules m') (t : Topology) (r : RouterId) (router : Router) :
    m'.deviceOf t r router = m.deviceOf t r router := by
  have hfield : ∀ {α : Type} (f : NodePolicy → α),
      f (m'.policy r).erase = f (m.policy r).erase := fun f => congrArg f (h r)
  have hcosts : (m'.policy r).ospfCost? = (m.policy r).ospfCost? := hfield NodePolicy.ospfCost?
  have hmaps : (m'.policy r).routeMap = (m.policy r).routeMap := hfield NodePolicy.routeMap
  have hpaths : (m'.policy r).maxPaths? = (m.policy r).maxPaths? := hfield NodePolicy.maxPaths?
  have hnetworks : (m'.policy r).networks = (m.policy r).networks := hfield NodePolicy.networks
  have hstatic : (m'.policy r).staticRoutes = (m.policy r).staticRoutes :=
    hfield NodePolicy.staticRoutes
  have hlists : (m'.policy r).matchedPrefixLists = (m.policy r).matchedPrefixLists :=
    hfield NodePolicy.matchedPrefixLists
  have hcommunities : (m'.policy r).matchedCommunities = (m.policy r).matchedCommunities :=
    hfield NodePolicy.matchedCommunities
  have hlinks : m'.linkInterface? t r = m.linkInterface? t r := by
    funext b
    rw [linkInterface?, linkInterface?, hcosts]
  have hsessions : m'.sessionRouteMaps r = m.sessionRouteMaps r := by
    funext x
    rw [sessionRouteMaps, sessionRouteMaps, hmaps]
  have hbgp : m'.bgpConfig t r router = m.bgpConfig t r router := by
    funext asn
    rw [bgpConfig, bgpConfig, hnetworks, hpaths]
  rw [PolicyModel.deviceOf, PolicyModel.deviceOf, interfaces, interfaces]
  simp only [hlinks, hpaths, hlists, hcommunities, hsessions, hbgp, hstatic]

theorem SameRules.render (h : m.SameRules m') (t : Topology) : m'.render t = m.render t := by
  have hdevice : m'.device? t = m.device? t := by
    funext r
    rw [device?, device?]
    exact congrArg (Option.map · (t.router? r)) (funext (h.deviceOf t r))
  rw [PolicyModel.render, PolicyModel.render, devices, devices, hdevice]

end PolicyModel

namespace Synthesizer

variable {s : Synthesizer} {state state' : PolicyModel × List Conflict} {b b' : Bundle}
  {bs bs' : List Bundle} {p p' : GroupPolicy} {ps ps' : List GroupPolicy}

theorem mergeBundle_snd (s : Synthesizer) (state : PolicyModel × List Conflict) (b : Bundle) :
    (s.mergeBundle state b).2 = state.2 ++ (state.1.merge s.topology b).2.toList := rfl

theorem conflicts_of_foldl_mergeBundle (h : (bs.foldl s.mergeBundle state).2 = []) :
    state.2 = [] := by
  induction bs generalizing state with
  | nil => exact h
  | cons b bs ih =>
    have hstep := ih h
    rw [mergeBundle_snd] at hstep
    exact (List.append_eq_nil_iff.mp hstep).1

/-- As long as the first run has no conflict, the other one has none and installs the same. -/
def Matches (state state' : PolicyModel × List Conflict) : Prop :=
  state.2 = [] → state'.2 = [] ∧ state.1.SameRules state'.1

theorem Matches.mergeBundle (h : Matches state state') (hb : b'.erase = b.erase) :
    Matches (s.mergeBundle state b) (s.mergeBundle state' b') := by
  intro hnil
  rw [mergeBundle_snd, List.append_eq_nil_iff] at hnil
  obtain ⟨hnil', hsame⟩ := h hnil.1
  obtain ⟨hok', hsame'⟩ := hsame.merge (t := s.topology) hb (by simpa using hnil.2)
  exact ⟨by rw [mergeBundle_snd, hnil', hok']; rfl, hsame'⟩

theorem Matches.foldl_mergeBundle (h : Matches state state')
    (hbs : bs'.map (·.erase) = bs.map (·.erase)) :
    Matches (bs.foldl s.mergeBundle state) (bs'.foldl s.mergeBundle state') := by
  induction bs generalizing bs' state state' with
  | nil =>
    obtain rfl : bs' = [] := List.map_eq_nil_iff.mp hbs
    exact h
  | cons b bs ih =>
    obtain ⟨b', rest, rfl, hb, hrest⟩ := List.map_eq_cons_iff.mp hbs
    rw [List.foldl_cons, List.foldl_cons]
    exact ih (h.mergeBundle hb) hrest

/-- As long as the first policy has no conflict, the other one has none and the same bundles. -/
def MatchingPolicies (p p' : GroupPolicy) : Prop :=
  p.conflicts = [] → p'.conflicts = [] ∧ p'.bundles.map (·.erase) = p.bundles.map (·.erase)

theorem Matches.mergeGroup (h : Matches state state') (hp : MatchingPolicies p p') :
    Matches (s.mergeGroup state p) (s.mergeGroup state' p') := by
  intro hnil
  have hstart : state.2 ++ p.conflicts = [] := conflicts_of_foldl_mergeBundle hnil
  obtain ⟨hconflicts, hbundles⟩ := hp (List.append_eq_nil_iff.mp hstart).2
  refine Matches.foldl_mergeBundle (fun _ => ?_) hbundles hnil
  obtain ⟨hnil', hsame⟩ := h (List.append_eq_nil_iff.mp hstart).1
  exact ⟨by rw [hnil', hconflicts]; rfl, hsame⟩

theorem Matches.foldl_mergeGroup (h : Matches state state')
    (hps : List.Forall₂ MatchingPolicies ps ps') :
    Matches (ps.foldl s.mergeGroup state) (ps'.foldl s.mergeGroup state') := by
  induction hps generalizing state state' with
  | nil => exact h
  | cons hp _ ih => exact ih (h.mergeGroup hp)

end Synthesizer

end PathPolicy
