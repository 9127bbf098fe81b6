import PathPolicy.Proofs.Atomicity
import PathPolicy.Proofs.Imports

/-! The merge accepts every bundle of a BGP group, and never loses a clause. The prefix lists of
different groups have no network in common, so that only clauses of one group can be about the same
routes, and these clauses come from one decision. -/

namespace PathPolicy

open RequirementGroup Synthesizer

namespace NodePolicy

variable {p : NodePolicy} {e : PolicyEntry} {es : List PolicyEntry} {b : RouterId} {dir : Direction}
  {c : Clause}

theorem exists_same_foldl_commit (he : e ∈ es) (h : e.primitive = .clause c) :
    ∃ c' ∈ (es.foldl commit p).routeMap e.key.neighbor e.key.direction, c'.same c = true := by
  induction es generalizing p with
  | nil => exact absurd he List.not_mem_nil
  | cons x es ih =>
    rcases List.mem_cons.mp he with rfl | he
    · obtain ⟨c', hc', hsame⟩ := exists_same_install (p := p) h
      rw [← routeMap_commit] at hc'
      have hgrows := growsTo_foldl_commit (p.commit e) es
      exact ⟨c', (hgrows.routeMap _ _).subset hc', hsame⟩
    · exact ih he

theorem clash?_clause_eq_none {key : PolicyKey}
    (h : ∀ c' ∈ p.routeMap key.neighbor key.direction, c'.conditions = c.conditions → c' = c) :
    p.clash? key (.clause c) = none := by
  rw [clash?]
  cases hfind : (p.routeMap key.neighbor key.direction).find? (·.conditions = c.conditions) with
  | none => rfl
  | some c' =>
    have hcond : c'.conditions = c.conditions := by simpa using List.find?_some hfind
    obtain rfl := h c' (List.mem_of_find?_eq_some hfind) hcond
    simp [clauseMismatch?, Clause.same]

end NodePolicy

namespace GroupMark

variable {m m' : GroupMark} {b b' : RouterId} {d d' : Decision} {c c' : Clause}

theorem prefixList?_of_mem_clauses (h : c ∈ m.clauses b d) : c.prefixList? = some m.prefixList := by
  rw [clauses.eq_def] at h
  split at h
  · split at h
    · rw [List.mem_singleton.mp h]
      rfl
    · rcases List.mem_pair.mp h with rfl | rfl <;> rfl
  · rw [List.mem_singleton.mp h]
    rfl

theorem networks_eq_of_conditions (hc : c ∈ m.clauses b d) (hc' : c' ∈ m'.clauses b' d')
    (h : c'.conditions = c.conditions) : m'.networks = m.networks := by
  have hlist := prefixList?_of_mem_clauses hc
  rw [Clause.prefixList?, ← h, ← Clause.prefixList?, prefixList?_of_mem_clauses hc'] at hlist
  exact congrArg PrefixList.networks (Option.some.inj hlist)

/-- Of the clauses for a decision at most one permits and at most one denies. -/
theorem eq_of_key {α : Type} (key : Clause → α)
    (hne : ∀ v, key (m.nextHopClause v) ≠ key m.denyClause) (hc : c ∈ m.clauses b d)
    (hc' : c' ∈ m.clauses b d) (h : key c' = key c) : c' = c := by
  cases d with
  | deny =>
    rw [clauses, List.mem_singleton] at hc hc'
    rw [hc, hc']
  | permit v =>
    by_cases hb : b = m.destination
    · rw [clauses, if_pos hb, List.mem_singleton] at hc hc'
      rw [hc, hc']
    · rw [clauses, if_neg hb] at hc hc'
      rcases List.mem_pair.mp hc with rfl | rfl
      · rcases List.mem_pair.mp hc' with rfl | rfl
        · rfl
        · exact absurd h.symm (hne v)
      · rcases List.mem_pair.mp hc' with rfl | rfl
        · exact absurd h (hne v)
        · rfl

theorem eq_of_conditions (hc : c ∈ m.clauses b d) (hc' : c' ∈ m.clauses b d)
    (h : c'.conditions = c.conditions) : c' = c :=
  eq_of_key Clause.conditions (by simp [nextHopClause, denyClause]) hc hc' h

end GroupMark

namespace RequirementGroup

variable {t : Topology} {g : RequirementGroup} {community : Option Community} {p : GroupPolicy}
  {a b : RouterId} {e : PolicyEntry} {c : Clause} {d : Decision}

theorem Bundled.decision_of_clause (h : Bundled g (g.mark t community) (g.commitments t) a e)
    (hp : g.synthesize t community = .ok p) (hc : e.primitive = .clause c) :
    g.protocol = .bgp ∧ e.key.direction = .incoming ∧
      ∃ d, p.decisions.get? ⟨a, e.key.neighbor, .incoming⟩ = some d ∧
        c ∈ (g.mark t community).clauses e.key.neighbor d := by
  obtain ⟨hbgp, hdir, hconf, d, hd, hclause⟩ := h.of_clause hc
  refine ⟨hbgp, hdir, d, ?_, hclause⟩
  exact (get?_decisions_eq_some_iff hp).mpr ⟨(direction_of_bgp hbgp).symm, hd, hconf⟩

theorem Bundled.primitive_of_bgp (h : Bundled g (g.mark t community) (g.commitments t) a e)
    (hbgp : g.protocol = .bgp) : (∃ c, e.primitive = .clause c) ∨
      ∀ q : NodePolicy, q.clash? e.key e.primitive = none := by
  cases h with
  | decision _ _ _ hq =>
    have hmark : (g.mark t community).protocol = .bgp := hbgp
    rw [GroupMark.lower, hmark] at hq
    obtain ⟨c, _, rfl⟩ := List.mem_map.mp hq
    exact .inl ⟨c, rfl⟩
  | network _ _ _ _ => exact .inr fun _ => rfl
  | maxPaths _ _ => exact .inr fun _ => rfl

theorem exists_bundle_of_clause (hp : g.synthesize t community = .ok p) (hbgp : g.protocol = .bgp)
    (hd : p.decisions.get? ⟨a, b, .incoming⟩ = some d)
    (hc : c ∈ (g.mark t community).clauses b d) :
    ∃ bundle ∈ p.bundles, bundle.router = a ∧ ∃ e ∈ bundle.entries,
      e.key = ⟨a, b, .incoming⟩ ∧ e.primitive = .clause c := by
  obtain ⟨_, hdecision, hconf⟩ := (get?_decisions_eq_some_iff hp).mp hd
  have hlower : Primitive.clause c ∈ (g.mark t community).lower b d := clause_mem_lower hbgp hc
  obtain ⟨e, hbundled, hkey, hprim⟩ := exists_bundled_of_decision hconf hdecision hlower
  obtain ⟨bundle, hbundle, hrouter, he⟩ := exists_mem_bundles.mpr hbundled
  rw [← bundles_of_synthesize hp] at hbundle
  rw [direction_of_bgp hbgp] at hkey
  exact ⟨bundle, hbundle, hrouter, e, he, hkey, hprim⟩

end RequirementGroup

namespace Synthesizer

variable {s : Synthesizer} {gs : List RequirementGroup} {ps done rest : List GroupPolicy}
  {p : GroupPolicy} {x : RequirementGroup × Option Community} {bs before after : List Bundle}
  {bundle : Bundle} {state : PolicyModel × List Conflict} {entries : RouterId → List PolicyEntry}
  {a b : RouterId} {dir : Direction} {c : Clause}

/-- The state in which the bundle after these bundles of `p` is merged. The groups of `done` come
before `p`. -/
def stateBefore (s : Synthesizer) (done : List GroupPolicy) (p : GroupPolicy)
    (before : List Bundle) : PolicyModel × List Conflict :=
  let state := done.foldl s.mergeGroup (.empty, [])
  before.foldl s.mergeBundle (state.1, state.2 ++ p.conflicts)

theorem foldl_mergeGroup_eq (s : Synthesizer) (hps : ps = done ++ p :: rest)
    (hbs : p.bundles = before ++ bundle :: after) :
    ps.foldl s.mergeGroup (.empty, []) =
      rest.foldl s.mergeGroup
        (after.foldl s.mergeBundle (s.mergeBundle (s.stateBefore done p before) bundle)) := by
  rw [hps, List.foldl_append, List.foldl_cons, mergeGroup, hbs, List.foldl_append, List.foldl_cons]
  rfl

section Accepted

variable (hf : List.Forall₂ (fun x p => x.1.synthesize s.topology x.2 = .ok p) (s.marked gs) ps)

include hf

theorem exists_merges_stateBefore (hps : ps = done ++ p :: rest)
    (hbs : p.bundles = before ++ bundle :: after) :
    ∃ entries, Merges (done.flatMap (·.bundles) ++ before) (s.stateBefore done p before) entries := by
  have hagree := costsAgree_of_mem hf
  have hdone : ∀ q ∈ done, ∀ b ∈ q.bundles, NodePolicy.CostsAgree b.entries := fun q hq =>
    hagree q (by simp [hps, hq])
  have hbefore : ∀ b ∈ before, NodePolicy.CostsAgree b.entries := fun b hb =>
    hagree p (by simp [hps]) b (by simp [hbs, hb])
  obtain ⟨⟨entries, hm⟩, _⟩ := merges_empty.foldl_mergeGroup s hdone
  obtain ⟨hex, _⟩ := (hm.addConflicts p.conflicts).foldl_mergeBundle s hbefore
  rw [List.nil_append] at hex
  exact hex

/-- All clauses in the route maps come from decisions of BGP groups. -/
theorem exists_decision_of_merges (hm : Merges bs state entries)
    (hsub : ∀ b ∈ bs, ∃ p ∈ ps, b ∈ p.bundles) (hc : c ∈ (state.1.policy a).routeMap b dir) :
    dir = .incoming ∧ ∃ p ∈ ps, p.protocol = .bgp ∧
      ∃ x ∈ s.marked gs, x.1.synthesize s.topology x.2 = .ok p ∧
        ∃ d, p.decisions.get? ⟨a, b, .incoming⟩ = some d ∧
          c ∈ (x.1.mark s.topology x.2).clauses b d := by
  rw [hm.policy] at hc
  obtain ⟨e, he, rfl, rfl, hprim⟩ :=
    (NodePolicy.holds_foldl_commit (hm.agree _)).clause_mem _ _ c hc
  obtain ⟨bundle, hb, rfl, heb⟩ := hm.mem a e he
  obtain ⟨p, hp, hbp⟩ := hsub bundle hb
  obtain ⟨x, hx, hsyn⟩ := exists_mem_marked_of_mem hf hp
  rw [bundles_of_synthesize hsyn] at hbp
  obtain ⟨hbgp, hdir, d, hd, hclause⟩ := (Bundled.of_mem hbp heb).decision_of_clause hsyn hprim
  exact ⟨hdir, p, hp, (protocol_of_synthesize hsyn).trans hbgp, x, hx, hsyn, d, hd, hclause⟩

variable (hdistinct : gs.Pairwise Resolver.Distinct) (hdisjoint : NetworksDisjoint s.topology gs)

include hdistinct hdisjoint

/-- Clauses that are there do not clash with those of a BGP group. -/
theorem clash?_eq_none_of_bgp (hm : Merges bs state entries)
    (hsub : ∀ b ∈ bs, ∃ p ∈ ps, b ∈ p.bundles) (hp : p ∈ ps) (hbgp : p.protocol = .bgp)
    (hb : bundle ∈ p.bundles) :
    ∀ e ∈ bundle.entries, (state.1.policy bundle.router).clash? e.key e.primitive = none := by
  intro e he
  obtain ⟨x, hx, hsyn⟩ := exists_mem_marked_of_mem hf hp
  rw [bundles_of_synthesize hsyn] at hb
  have hbundled := Bundled.of_mem hb he
  have hxbgp : x.1.protocol = .bgp := (protocol_of_synthesize hsyn).symm.trans hbgp
  rcases hbundled.primitive_of_bgp hxbgp with ⟨c, hprim⟩ | hnever
  · rw [hprim]
    obtain ⟨_, hdir, d, hd, hc⟩ := hbundled.decision_of_clause hsyn hprim
    refine NodePolicy.clash?_clause_eq_none fun c' hc' hcond => ?_
    obtain ⟨_, q, _, hqbgp, y, hy, hsyn', d', hd', hclause⟩ :=
      exists_decision_of_merges hf hm hsub hc'
    have hybgp : y.1.protocol = .bgp := (protocol_of_synthesize hsyn').symm.trans hqbgp
    have hnetworks : y.1.networks s.topology = x.1.networks s.topology :=
      GroupMark.networks_eq_of_conditions hc hclause hcond
    obtain ⟨network, hmem⟩ := List.exists_mem_of_ne_nil _
      (networks_ne_nil_of_synthesize hsyn (by simp [hxbgp]))
    obtain rfl := eq_of_common_network hdistinct hdisjoint hy hx hybgp hxbgp
      (hnetworks ▸ hmem) hmem
    obtain rfl : p = q := Except.ok.inj (hsyn.symm.trans hsyn')
    obtain rfl : d = d' := Option.some.inj (hd.symm.trans hd')
    exact GroupMark.eq_of_conditions hc hclause hcond
  · exact hnever _

theorem merge_eq_none_of_bgp (hps : ps = done ++ p :: rest)
    (hbs : p.bundles = before ++ bundle :: after) (hbgp : p.protocol = .bgp) :
    ((s.stateBefore done p before).1.merge s.topology bundle).2 = none ∧
      ((s.stateBefore done p before).1.merge s.topology bundle).1.policy bundle.router =
        bundle.entries.foldl NodePolicy.commit
          ((s.stateBefore done p before).1.policy bundle.router) := by
  obtain ⟨entries, hm⟩ := exists_merges_stateBefore hf hps hbs
  have hsub : ∀ b ∈ done.flatMap (·.bundles) ++ before, ∃ p ∈ ps, b ∈ p.bundles := by
    intro b hb
    rcases List.mem_append.mp hb with hb | hb
    · obtain ⟨q, hq, hbq⟩ := List.mem_flatMap.mp hb
      exact ⟨q, by simp [hps, hq], hbq⟩
    · exact ⟨p, by simp [hps], by simp [hbs, hb]⟩
  exact PolicyModel.merge_of_clash?_eq_none s.topology
    (clash?_eq_none_of_bgp hf hdistinct hdisjoint hm hsub (by simp [hps]) hbgp (by simp [hbs]))

/-- What a BGP group decides is in the route maps after the last merge. -/
theorem exists_same_of_decision (hp : p ∈ ps) (hsyn : x.1.synthesize s.topology x.2 = .ok p)
    (hbgp : x.1.protocol = .bgp) {d : Decision}
    (hd : p.decisions.get? ⟨a, b, .incoming⟩ = some d)
    (hc : c ∈ (x.1.mark s.topology x.2).clauses b d) :
    ∃ c' ∈ ((ps.foldl s.mergeGroup (.empty, [])).1.policy a).routeMap b .incoming,
      c'.same c = true := by
  obtain ⟨bundle, hbundle, rfl, e, he, hkey, hprim⟩ := exists_bundle_of_clause hsyn hbgp hd hc
  obtain ⟨done, rest, hps⟩ := List.append_of_mem hp
  obtain ⟨before, after, hbs⟩ := List.append_of_mem hbundle
  have hpbgp : p.protocol = .bgp := (protocol_of_synthesize hsyn).trans hbgp
  obtain ⟨_, hpolicy⟩ := merge_eq_none_of_bgp hf hdistinct hdisjoint hps hbs hpbgp
  obtain ⟨c', hc', hsame⟩ := NodePolicy.exists_same_foldl_commit
    (p := (s.stateBefore done p before).1.policy bundle.router) he hprim
  rw [hkey, ← hpolicy] at hc'
  refine ⟨c', ?_, hsame⟩
  rw [foldl_mergeGroup_eq s hps hbs]
  have hkept := (keptBy_foldl_mergeBundle s after
    (s.mergeBundle (s.stateBefore done p before) bundle) bundle.router).trans
      (keptBy_foldl_mergeGroup s rest _ bundle.router)
  exact (hkept.routeMap b .incoming).subset hc'

omit hdistinct hdisjoint in
/-- Nothing else is in the route maps. -/
theorem exists_decision_of_mem_routeMap
    (hc : c ∈ ((ps.foldl s.mergeGroup (.empty, [])).1.policy a).routeMap b dir) :
    dir = .incoming ∧ ∃ p ∈ ps, p.protocol = .bgp ∧
      ∃ x ∈ s.marked gs, x.1.synthesize s.topology x.2 = .ok p ∧
        ∃ d, p.decisions.get? ⟨a, b, .incoming⟩ = some d ∧
          c ∈ (x.1.mark s.topology x.2).clauses b d := by
  obtain ⟨⟨entries, hm⟩, _⟩ := merges_empty.foldl_mergeGroup s (costsAgree_of_mem hf)
  rw [List.nil_append] at hm
  exact exists_decision_of_merges hf hm (fun b hb => List.mem_flatMap.mp hb) hc

end Accepted

end Synthesizer

end PathPolicy
