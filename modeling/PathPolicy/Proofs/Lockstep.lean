import PathPolicy.Proofs.GroupPolicy
import PathPolicy.Proofs.Harmony

/-! The check for spliced paths sees the decisions only, not the requirements that they come from. So
it goes the same way for groups that are alike. -/

namespace PathPolicy

namespace Commitments

variable {s s' : Commitments}

def permitHop (s : Commitments) (m : OrderedMap RouterId (List RouterId))
    (e : PolicyKey × Decision) : OrderedMap RouterId (List RouterId) :=
  match e.2 with
  | .permit _ =>
    if s.isConflicted e.1.router then m
    else m.update e.1.router fun hops => hops.getD [] ++ [e.1.neighbor]
  | .deny => m

theorem permittedHops_eq_foldl (s : Commitments) :
    s.permittedHops = s.decisions.entries.foldl s.permitHop .empty := by
  rw [decisions, OrderedMap.mapValues, List.foldl_map]
  rfl

theorem permittedHops_congr (hd : s'.decisions = s.decisions)
    (hc : s'.conflicted = s.conflicted) : s'.permittedHops = s.permittedHops := by
  have hstep : s'.permitHop = s.permitHop := by
    funext m e
    rw [permitHop, permitHop, isConflicted, isConflicted, hc]
  rw [permittedHops_eq_foldl, permittedHops_eq_foldl, hd, hstep]

theorem admittedPaths_congr (hd : s'.decisions = s.decisions) (hc : s'.conflicted = s.conflicted)
    (sources : List RouterId) (destination : RouterId) :
    s'.admittedPaths sources destination = s.admittedPaths sources destination := by
  rw [admittedPaths, admittedPaths, permittedHops_congr hd hc]

theorem contains_congr (hd : s'.decisions = s.decisions) (k : PolicyKey) :
    s'.intents.contains k = s.intents.contains k := by
  have hk := congrArg (fun m => (m.get? k).isSome) hd
  simpa [decisions, OrderedMap.get?_mapValues, OrderedMap.contains] using hk

end Commitments

theorem leavesAt?_congr {members members' : List (List RouterId)}
    (h : ∀ p, p ∈ members' ↔ p ∈ members) (path : List RouterId) :
    leavesAt? members' path = leavesAt? members path := by
  have hany : ∀ f : List RouterId → Bool, members'.any f = members.any f := fun f => by
    rw [Bool.eq_iff_iff, List.any_eq_true, List.any_eq_true]
    exact exists_congr fun p => and_congr_left fun _ => h p
  rw [leavesAt?, leavesAt?]
  simp only [hany]

namespace SpliceCheck

variable {t : Topology} {dir : Direction} {c c' : SpliceCheck}
  {members members' : List (List RouterId)}

/-- Both checks know the same hops and have found the same ones. -/
structure InStep (c c' : SpliceCheck) : Prop where
  intents : ∀ k, c'.commitments.intents.contains k = c.commitments.intents.contains k
  spliced : c'.spliced = c.spliced
  conflicts : c.commitments.conflicts = [] → c'.commitments.conflicts = []

theorem InStep.checkHop (h : InStep c c') (path : List RouterId) (i : Nat) (a b : RouterId) :
    InStep (c.checkHop t dir path i a b) (c'.checkHop t dir path i a b) := by
  have hk := h.intents ⟨a, b, dir⟩
  rw [SpliceCheck.checkHop, SpliceCheck.checkHop]
  dsimp only
  rw [h.spliced]
  cases hget : c.commitments.intents.get? ⟨a, b, dir⟩ with
  | none =>
    have hget' : c'.commitments.intents.get? ⟨a, b, dir⟩ = none := by
      simpa [OrderedMap.contains, hget] using hk
    rw [hget']
    exact h
  | some e =>
    obtain ⟨e', hget'⟩ : ∃ e', c'.commitments.intents.get? ⟨a, b, dir⟩ = some e' := by
      simpa [OrderedMap.contains, hget, Option.isSome_iff_exists] using hk
    rw [hget']
    dsimp only
    split
    · exact h
    · exact ⟨h.intents, rfl, fun hnil => by simp [Commitments.addConflict] at hnil⟩

theorem InStep.checkPath (h : InStep c c') (hm : ∀ p, p ∈ members' ↔ p ∈ members)
    (path : List RouterId) :
    InStep (c.checkPath t dir members path) (c'.checkPath t dir members' path) := by
  rw [SpliceCheck.checkPath, SpliceCheck.checkPath, leavesAt?_congr hm]
  by_cases hmem : path ∈ members
  · rw [if_pos hmem, if_pos ((hm path).mpr hmem)]
    exact h
  · rw [if_neg hmem, if_neg fun hmem' => hmem ((hm path).mp hmem')]
    split
    · exact h
    · split
      · exact h.checkHop path _ _ _
      · exact h

theorem InStep.foldl (h : InStep c c') (hm : ∀ p, p ∈ members' ↔ p ∈ members)
    (paths : List (List RouterId)) :
    InStep (paths.foldl (SpliceCheck.checkPath t dir members) c)
      (paths.foldl (SpliceCheck.checkPath t dir members') c') := by
  induction paths generalizing c c' with
  | nil => exact h
  | cons path paths ih => exact ih (h.checkPath hm path)

theorem conflicts_of_checkPath {path : List RouterId}
    (h : (c.checkPath t dir members path).commitments.conflicts = []) :
    c.commitments.conflicts = [] := by
  rcases checkPath_cases t dir members c path with ⟨he, _⟩ | ⟨i, a, b, he, _⟩
  · rwa [he] at h
  · rw [he] at h
    rcases checkHop_cases t dir c path i a b with ⟨he', _⟩ | ⟨_, x, _, _, he'⟩
    · rwa [he'] at h
    · simp [he'] at h

theorem conflicts_of_foldl {paths : List (List RouterId)}
    (h : (paths.foldl (SpliceCheck.checkPath t dir members) c).commitments.conflicts = []) :
    c.commitments.conflicts = [] := by
  induction paths generalizing c with
  | nil => exact h
  | cons path paths ih => exact conflicts_of_checkPath (ih h)

end SpliceCheck

namespace RequirementGroup

variable {t : Topology} {g g' : RequirementGroup}

theorem conflicts_combine_of_commitments (hc : (g.commitments t).conflicts = []) :
    (g.combine t).conflicts = [] :=
  SpliceCheck.conflicts_of_foldl hc

theorem Alike.sources_eq (h : g.Alike g') {s s' : Commitments}
    (hc : s'.conflicted = s.conflicted) : g'.sources s' = g.sources s := by
  refine OrderedMap.keys_eq_of_mem_iff fun a => ?_
  change a ∈ (OrderedSet.ofList _).toList ↔ a ∈ (OrderedSet.ofList _).toList
  rw [OrderedSet.mem_ofList, OrderedSet.mem_ofList]
  simp only [List.mem_filter, List.mem_filterMap, h.mem_paths_iff, h.destination,
    Commitments.isConflicted, hc]

/-- What groups that are alike commit to, if the first one has no conflict. -/
structure SameOutcome (t : Topology) (g g' : RequirementGroup) : Prop where
  decisions : (g'.commitments t).decisions = (g.commitments t).decisions
  pathCounts : (g'.commitments t).pathCounts = (g.commitments t).pathCounts
  conflicts : (g'.commitments t).conflicts = []
  conflicted : (g.commitments t).conflicted = []
  conflicted' : (g'.commitments t).conflicted = []

theorem Alike.sameOutcome (h : g.Alike g') (hc : (g.commitments t).conflicts = []) :
    SameOutcome t g g' := by
  have hcombine := conflicts_combine_of_commitments hc
  have hcombine' : (g'.combine t).conflicts = [] :=
    (h.harmonious (harmonious_of_combine hcombine)).combine
  have hquiet := (g.combine_combines t).blames.silent hcombine
  have hquiet' := (g'.combine_combines t).blames.silent hcombine'
  have hdecisions := h.decisions_eq hcombine hcombine'
  have hconflicts : (g'.commitments t).conflicts = [] := by
    have hclear : (g'.combine t).conflicted = (g.combine t).conflicted := by rw [hquiet, hquiet']
    have hstart : SpliceCheck.InStep ⟨g.combine t, []⟩ ⟨g'.combine t, []⟩ :=
      ⟨Commitments.contains_congr hdecisions, rfl, fun _ => hcombine'⟩
    rw [commitments, checkSplices, Commitments.admittedPaths_congr hdecisions hclear,
      h.sources_eq hclear, ← h.direction, ← h.destination]
    exact (hstart.foldl (fun p => h.symm.mem_paths_iff) _).conflicts hc
  refine ⟨?_, ?_, hconflicts, (g.combine_spliced t).blames.silent hc,
    (g'.combine_spliced t).blames.silent hconflicts⟩
  · rw [Commitments.decisions, Commitments.decisions, (g.combine_spliced t).intents,
      (g'.combine_spliced t).intents]
    exact hdecisions
  · rw [Commitments.pathCounts, Commitments.pathCounts, (g.combine_spliced t).maxPaths,
      (g'.combine_spliced t).maxPaths]
    exact h.pathCounts_eq t

end RequirementGroup

end PathPolicy
