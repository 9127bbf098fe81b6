import PathPolicy.Proofs.Force
import PathPolicy.Proofs.Harmony

/-! Groups whose members cannot be mixed. A single requirement agrees with itself, and the check for
spliced paths has nothing to report if all simple paths over hops of the members are members. -/

namespace PathPolicy

theorem Intent.agrees_of_decision_eq {i j : Intent} (h : i.decision = j.decision) : i.Agrees j := by
  refine .inl (clash?_eq_none_iff.mpr ?_)
  cases hd : i.decision with
  | deny => exact .inl ⟨rfl, h.symm.trans hd⟩
  | permit v => exact .inr ⟨v, v, rfl, h.symm.trans hd, .inl rfl⟩

theorem Commitments.of_mem_admittedPaths {s : Commitments} {sources path : List RouterId}
    {d : RouterId} (h : path ∈ s.admittedPaths sources d) :
    ∃ a ∈ sources, path.head? = some a ∧ path.getLast? = some d ∧ path.Nodup ∧
      path.IsChain s.Admits := by
  obtain ⟨a, ha, hpath⟩ := List.mem_flatMap.mp h
  have hnodes := nodup_eraseDups (sources ++ s.permittedHops.values.flatten)
  have hsearched := (mem_simplePaths (hnodes.erase a) hnodes.not_mem_erase).mp hpath
  refine ⟨a, List.mem_reverse.mp ha, hsearched.head, hsearched.last, hsearched.nodup, ?_⟩
  exact hsearched.chain.imp fun x y hxy => mem_permittedHops.mp (List.mem_reverse.mp hxy)

namespace RequirementGroup

variable {t : Topology} {g : RequirementGroup} {req : ResolvedRequirement} {s : Commitments}
  {a b : RouterId}

theorem harmonious_of_sole (h : g.requirements = [req]) (hok : ∃ r, req.intents t g = .ok r) :
    g.Harmonious t := by
  have hasked : ∀ i ∈ g.asked t, i ∈ (req.asked t g).intents := by
    intro i hi
    rwa [asked, h, List.flatMap_singleton] at hi
  refine ⟨fun x hx => ?_, fun i hi j hj hkey => ?_⟩
  · rw [h, List.mem_singleton] at hx
    exact hx ▸ hok
  · obtain ⟨r, heights, hr, hover, hir⟩ := ResolvedRequirement.mem_asked.mp (hasked i hi)
    obtain ⟨r', _, hr', _, hjr⟩ := ResolvedRequirement.mem_asked.mp (hasked j hj)
    obtain rfl : r = r' := Except.ok.inj (hr.symm.trans hr')
    obtain ⟨x, y, _, _, rfl⟩ := (hover.mem_iff i).mp hir
    obtain ⟨x', y', _, _, rfl⟩ := (hover.mem_iff j).mp hjr
    obtain ⟨rfl, rfl, _⟩ := PolicyKey.mk.inj hkey
    exact Intent.agrees_of_decision_eq rfl

theorem exists_uses_of_admits (h : (g.combine t).Admits a b) : ∃ req ∈ g.requirements,
    req.Uses a b := by
  obtain ⟨k, i, v, hget, rfl, rfl, hv, _⟩ := h
  obtain ⟨req, hreq, x, y, heights, hasks, rfl⟩ := exists_asks_of_combine hget
  have hpermit : req.decisionFor t g heights x y = .permit v := by
    rw [← hv, hasks.intent_eq]
    rfl
  exact ⟨req, hreq, ResolvedRequirement.uses_of_decisionFor hpermit⟩

theorem checkSplices_eq_self
    (h : ∀ p ∈ s.admittedPaths (g.sources s) g.destination, p ∈ g.paths) :
    g.checkSplices t s = s := by
  have hfold : ∀ ps : List (List RouterId), (∀ p ∈ ps, p ∈ g.paths) → ∀ c : SpliceCheck,
      ps.foldl (SpliceCheck.checkPath t g.direction g.paths) c = c := by
    intro ps hps c
    induction ps with
    | nil => rfl
    | cons p ps ih =>
      have hp : c.checkPath t g.direction g.paths p = c := if_pos (hps p List.mem_cons_self)
      rw [List.foldl_cons, hp]
      exact ih fun q hq => hps q (List.mem_cons_of_mem p hq)
  rw [checkSplices, hfold _ h]
  simp [SpliceCheck.result, Commitments.exclude]

/-- A simple path over hops of the members, from a source to the destination. -/
structure Mixed (g : RequirementGroup) (p : List RouterId) : Prop where
  source : ∃ m ∈ g.paths, m.head? = p.head?
  last : p.getLast? = some g.destination
  nodup : p.Nodup
  chain : p.IsChain fun a b => ∃ req ∈ g.requirements, req.Uses a b

theorem commitments_eq_combine (h : ∀ p, g.Mixed p → p ∈ g.paths) :
    g.commitments t = g.combine t := by
  refine checkSplices_eq_self fun p hp => ?_
  obtain ⟨a, ha, hhead, hlast, hnd, hchain⟩ := Commitments.of_mem_admittedPaths hp
  obtain ⟨m, hm, hma⟩ := List.mem_filterMap.mp
    (List.mem_filter.mp (OrderedSet.mem_ofList.mp ha)).1
  exact h p ⟨⟨m, hm, hma.trans hhead.symm⟩, hlast, hnd,
    hchain.imp fun x y => exists_uses_of_admits⟩

theorem clear_of_members (hh : g.Harmonious t) (h : ∀ p, g.Mixed p → p ∈ g.paths) :
    (g.commitments t).conflicts = [] ∧ g.Clear t := by
  have hnone : (g.commitments t).conflicts = [] := by rw [commitments_eq_combine h, hh.combine]
  refine ⟨hnone, fun a => ?_⟩
  simp [Commitments.isConflicted, (g.combine_spliced t).blames.silent hnone]

end RequirementGroup

end PathPolicy
