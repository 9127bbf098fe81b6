import PathPolicy.Proofs.Acceptance

/-! Where the clauses of a model come from, and how many there are. A route map has no clause twice,
and each group adds at most two clauses to it, so that the numbers of clauses stay small. -/

namespace PathPolicy

open RequirementGroup

namespace NodePolicy

variable {p : NodePolicy} {e : PolicyEntry} {c : Clause} {b : RouterId} {dir : Direction}

theorem nodup_routeMap_commit (h : (p.routeMap b dir).Nodup) : ((p.commit e).routeMap b dir).Nodup := by
  rw [routeMap_commit, routeMap_install]
  split
  · split
    · next hnew =>
      refine h.append (List.nodup_singleton _) ?_
      rw [List.disjoint_singleton]
      intro hmem
      have hsame := List.any_eq_false.mp hnew.2 _ hmem
      exact hsame (Clause.same_iff.mpr ⟨rfl, rfl⟩)
    · exact h
  · exact h

theorem nodup_routeMap_foldl_commit (es : List PolicyEntry) (h : (p.routeMap b dir).Nodup) :
    ((es.foldl commit p).routeMap b dir).Nodup := by
  induction es generalizing p with
  | nil => exact h
  | cons e es ih => exact ih (nodup_routeMap_commit h)

theorem mem_arrange {cs : List Clause} (h : c ∈ arrange cs) :
    ∃ c' ∈ cs, c.same c' = true ∧ c.order ≤ cs.length * 10 := by
  obtain ⟨⟨c', i⟩, hmem, rfl⟩ := List.mem_map.mp h
  obtain ⟨-, hlt, hget⟩ := List.mem_zipIdx hmem
  have hlength : i < cs.length := by
    rw [← (sortBy_perm compareClauses cs).length_eq]
    omega
  have hc' : c' ∈ sortBy compareClauses cs := by
    rw [hget]
    exact List.getElem_mem _
  refine ⟨c', mem_sortBy.mp hc', Clause.same_iff.mpr ⟨rfl, rfl⟩, ?_⟩
  change (i + 1) * 10 ≤ _
  omega

theorem exists_same_mem_arrange {cs : List Clause} (h : c ∈ cs) :
    ∃ c' ∈ arrange cs, c'.same c = true := by
  obtain ⟨i, hi⟩ := List.mem_iff_getElem?.mp (mem_sortBy.mpr h)
  refine ⟨_, List.mem_map.mpr ⟨(c, i), ?_, rfl⟩, Clause.same_iff.mpr ⟨rfl, rfl⟩⟩
  exact List.mem_zipIdx_iff_getElem?.mpr hi

end NodePolicy

theorem GroupMark.length_clauses_le (m : GroupMark) (b : RouterId) (d : Decision) :
    (m.clauses b d).length ≤ 2 := by
  rw [clauses.eq_def]
  split
  · split <;> simp
  · simp

theorem Resolver.length_groups_le {v : Resolver} {store : Store} {gs : List RequirementGroup}
    (h : v.groups store = .ok gs) : gs.length ≤ 3 * v.topology.size := by
  obtain ⟨hres, hdistinct⟩ := groups_ok h
  have hnodup : (gs.map fun g => (g.protocol, g.destination)).Nodup := by
    refine List.pairwise_map.mpr (hdistinct.imp fun hd he => ?_)
    obtain ⟨hp, hdest⟩ := Prod.mk.inj he
    exact hd hp hdest
  have hsubset : (gs.map fun g => (g.protocol, g.destination)) ⊆
      [Protocol.bgp, .ospf, .static].flatMap fun p => (List.range v.topology.size).map (p, ·) := by
    intro x hx
    obtain ⟨g, hg, rfl⟩ := List.mem_map.mp hx
    obtain ⟨key, -, hresolved⟩ := hres g hg
    have hlt := Topology.lt_size_of_routerId? hresolved.destination
    have hmem := List.mem_map_of_mem (f := (g.protocol, ·)) (List.mem_range.mpr hlt)
    exact List.mem_flatMap.mpr ⟨g.protocol, by cases g.protocol <;> simp, hmem⟩
  have hlength := (List.subperm_of_subset hnodup hsubset).length_le
  simp only [List.length_map, List.flatMap_cons, List.flatMap_nil, List.length_append,
    List.length_range, List.length_nil] at hlength
  omega

namespace Synthesizer

variable {s : Synthesizer} {store : Store} {model : PolicyModel} {conflicts : List Conflict}
  {a b : RouterId} {dir : Direction} {c : Clause}

/-- The clauses that a group may have for the routes of a neighbor. -/
def candidates (s : Synthesizer) (a b : RouterId) (x : RequirementGroup × Option Community) :
    List Clause :=
  match x.1.synthesize s.topology x.2 with
  | .ok p => (p.decisions.get? ⟨a, b, .incoming⟩).toList.flatMap
      ((x.1.mark s.topology x.2).clauses b)
  | .error _ => []

theorem length_candidates_le (s : Synthesizer) (a b : RouterId)
    (x : RequirementGroup × Option Community) : (s.candidates a b x).length ≤ 2 := by
  rw [candidates]
  split
  · next p _ =>
    cases p.decisions.get? ⟨a, b, .incoming⟩ with
    | none => simp
    | some d => simpa using GroupMark.length_clauses_le _ b d
  · simp

theorem length_flatMap_candidates_le (xs : List (RequirementGroup × Option Community)) :
    (xs.flatMap (s.candidates a b)).length ≤ 2 * xs.length := by
  induction xs with
  | nil => simp
  | cons x xs ih =>
    have hx := s.length_candidates_le a b x
    rw [List.flatMap_cons, List.length_append, List.length_cons]
    omega

section Merged

variable {gs : List RequirementGroup} {ps : List GroupPolicy}
  (hf : List.Forall₂ (fun x p => x.1.synthesize s.topology x.2 = .ok p) (s.marked gs) ps)

include hf

theorem nodup_routeMap_merged :
    (((ps.foldl s.mergeGroup (.empty, [])).1.policy a).routeMap b dir).Nodup := by
  obtain ⟨⟨entries, hm⟩, _⟩ := merges_empty.foldl_mergeGroup s (costsAgree_of_mem hf)
  rw [hm.policy]
  exact NodePolicy.nodup_routeMap_foldl_commit _ List.nodup_nil

theorem length_routeMap_merged_le (hgs : s.groups store = .ok gs) (a b : RouterId)
    (dir : Direction) :
    (((ps.foldl s.mergeGroup (.empty, [])).1.policy a).routeMap b dir).length ≤
      6 * s.topology.size := by
  have hsubset : ((ps.foldl s.mergeGroup (.empty, [])).1.policy a).routeMap b dir ⊆
      (s.marked gs).flatMap (s.candidates a b) := by
    intro c hc
    obtain ⟨-, p, -, -, x, hx, hsyn, d, hd, hclause⟩ := exists_decision_of_mem_routeMap hf hc
    refine List.mem_flatMap.mpr ⟨x, hx, ?_⟩
    rw [candidates, hsyn]
    simpa [hd] using hclause
  have hle := (List.subperm_of_subset (nodup_routeMap_merged hf) hsubset).length_le
  have hcandidates := length_flatMap_candidates_le (s := s) (a := a) (b := b) (s.marked gs)
  have hmarked : (s.marked gs).length = gs.length := by
    rw [← map_fst_marked s gs, List.length_map, map_fst_marked]
  have hgroups : gs.length ≤ 3 * s.topology.size := Resolver.length_groups_le (groups_ok hgs)
  omega

end Merged

/-- Clauses of a model are those of marks of groups, for routes that come in, and their numbers are
bounded by the size of the topology. -/
theorem mem_routeMap_model (h : s.synthesizePartial store = .ok (model, conflicts))
    (hc : c ∈ (model.policy a).routeMap b dir) : dir = .incoming ∧
      c.order ≤ 60 * s.topology.size ∧ ∃ (m : GroupMark) (d : Decision) (c' : Clause),
        c' ∈ m.clauses b d ∧ c.same c' = true := by
  obtain ⟨gs, hgs, h⟩ := bind_eq_ok h
  obtain ⟨ps, hps, h⟩ := bind_eq_ok h
  obtain rfl := (Prod.mk.inj (Except.ok.inj h)).1
  have hf := groupPolicies_ok hps
  rw [PolicyModel.policy_finalize, NodePolicy.routeMap_finalize] at hc
  obtain ⟨c', hc', hsame, horder⟩ := NodePolicy.mem_arrange hc
  obtain ⟨hdir, p, -, -, x, -, -, d, -, hclause⟩ := exists_decision_of_mem_routeMap hf hc'
  have hlength := length_routeMap_merged_le hf hgs a b dir
  exact ⟨hdir, by omega, x.1.mark s.topology x.2, d, c', hclause, hsame⟩

end Synthesizer

end PathPolicy
