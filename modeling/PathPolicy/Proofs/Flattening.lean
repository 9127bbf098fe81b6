import PathPolicy.Proofs.Confluence

/-! A finished model and the list of its primitives. The list names each router, and the entries of a
router rebuild its policy: commits keep the order of clauses that differ, and what has been sorted and
numbered once stays as it is. -/

namespace PathPolicy

namespace NodePolicy

variable {p q : NodePolicy} {e : PolicyEntry} {es : List PolicyEntry} {b r : RouterId}
  {dir : Direction}

/-- The clause that an element of the list has for a session. -/
def clauseFor? (s : Session) (x : PolicyKey × Primitive) : Option Clause :=
  match x.2 with
  | .clause c => if (⟨x.1.neighbor, x.1.direction⟩ : Session) = s then some c else none
  | _ => none

def staticRoute? (x : PolicyKey × Primitive) : Option StaticRoute :=
  match x.2 with
  | .staticRoute r => some r
  | _ => none

/-- A list that each commit extends, as long as its elements differ, has the elements in the order in
which they were committed. -/
theorem foldl_commit_eq_append {α : Type} {R : α → α → Prop} (field : NodePolicy → List α)
    (new? : PolicyKey × Primitive → Option α)
    (hstep : ∀ (p : NodePolicy) (e : PolicyEntry), (field p ++ (new? e.erase).toList).Pairwise R →
      field (p.commit e) = field p ++ (new? e.erase).toList)
    (h : (field p ++ (es.map (·.erase)).filterMap new?).Pairwise R) :
    field (es.foldl commit p) = field p ++ (es.map (·.erase)).filterMap new? := by
  induction es generalizing p with
  | nil => simp
  | cons e es ih =>
    have hcons : ((e :: es).map (·.erase)).filterMap new? =
        (new? e.erase).toList ++ (es.map (·.erase)).filterMap new? := by
      rw [List.map_cons, List.filterMap_cons]
      cases new? e.erase <;> rfl
    rw [hcons, ← List.append_assoc] at h ⊢
    have hcommit := hstep p e (List.pairwise_append.mp h).1
    rw [List.foldl_cons, ← hcommit]
    exact ih (hcommit ▸ h)

/-- No clause says what another one says. -/
def Differ (cs : List Clause) : Prop := cs.Pairwise fun c d => c.same d = false

theorem routeMap_foldl_commit_eq
    (h : Differ (p.routeMap b dir ++ (es.map (·.erase)).filterMap (clauseFor? ⟨b, dir⟩))) :
    (es.foldl commit p).routeMap b dir =
      p.routeMap b dir ++ (es.map (·.erase)).filterMap (clauseFor? ⟨b, dir⟩) := by
  refine foldl_commit_eq_append (·.routeMap b dir) _ (fun p e h => ?_) h
  rw [routeMap_commit, routeMap_install]
  split
  · next c hc =>
    by_cases hs : e.key.neighbor = b ∧ e.key.direction = dir
    · have hnew : clauseFor? ⟨b, dir⟩ e.erase = some c := by
        simp [clauseFor?, PolicyEntry.erase, hc, hs]
      rw [hnew] at h ⊢
      refine if_pos ⟨hs, List.any_eq_false.mpr fun d hd => ?_⟩
      simp [(List.pairwise_append.mp h).2.2 d hd c (by simp)]
    · have hnew : clauseFor? ⟨b, dir⟩ e.erase = none := by
        simp [clauseFor?, PolicyEntry.erase, hc, hs]
      rw [hnew, Option.toList_none, List.append_nil]
      exact if_neg fun h => hs h.1
  · next hno =>
    have hnew : clauseFor? ⟨b, dir⟩ e.erase = none := by
      rw [clauseFor?]
      split
      · next c hc => exact absurd hc (hno c)
      · rfl
    rw [hnew, Option.toList_none, List.append_nil]

theorem staticRoutes_foldl_commit_eq
    (h : (p.staticRoutes ++ (es.map (·.erase)).filterMap staticRoute?).Nodup) :
    (es.foldl commit p).staticRoutes =
      p.staticRoutes ++ (es.map (·.erase)).filterMap staticRoute? := by
  refine foldl_commit_eq_append (·.staticRoutes) _ (fun p e h => ?_) h
  rw [staticRoutes_commit, staticRoutes_install]
  split
  · next r hr =>
    have hnew : staticRoute? e.erase = some r := by simp [staticRoute?, PolicyEntry.erase, hr]
    rw [hnew] at h ⊢
    exact if_neg fun hmem => (List.pairwise_append.mp h).2.2 r hmem r (by simp) rfl
  · next hno =>
    have hnew : staticRoute? e.erase = none := by
      rw [staticRoute?]
      split
      · next r hr => exact absurd hr (hno r)
      · rfl
    rw [hnew, Option.toList_none, List.append_nil]

theorem of_mem_clausePrimitives {c : Clause} {x : Primitive} (h : x ∈ clausePrimitives c) :
    x = .clause c ∨ (∃ k additive, x = .community k additive) ∨ ∃ n, x = .localPref n := by
  rcases List.mem_cons.mp h with rfl | h
  · exact .inl rfl
  · obtain ⟨a, -, rfl⟩ := List.mem_map.mp h
    cases a with
    | community k additive => exact .inr (.inl ⟨k, additive, rfl⟩)
    | localPref n => exact .inr (.inr ⟨n, rfl⟩)

/-- An element of the list is a part of a clause, or a value of its own. -/
theorem mem_primitives {x : PolicyKey × Primitive} : x ∈ p.primitives r ↔
    (∃ s cs, p.routeMaps.get? s = some cs ∧ ∃ y, (∃ c ∈ cs, y ∈ clausePrimitives c) ∧
      x = (⟨r, s.neighbor, s.direction⟩, y)) ∨
    (∃ b n, p.ospfCost? b = some n ∧ x = (⟨r, b, .outgoing⟩, .ospfCost n)) ∨
    (∃ s ∈ p.staticRoutes, x = (⟨r, s.nextHop, .outgoing⟩, .staticRoute s)) ∨
    (∃ pr n, p.maxPaths? pr = some n ∧ x = (.ofRouter r, .maxPaths pr n)) ∨
    ∃ a, p.announces a = true ∧ x = (.ofRouter r, .network a) := by
  simp only [primitives, ospfCost?, maxPaths?, announces, OrderedMap.contains_iff,
    OrderedMap.get?_eq_some_iff, List.mem_append, List.mem_flatMap, List.mem_map, Prod.exists,
    or_assoc, OrderedSet.toList, eq_comm (b := x)]

theorem router_of_mem_primitives {x : PolicyKey × Primitive} (h : x ∈ p.primitives r) :
    x.1.router = r := by
  rcases mem_primitives.mp h with ⟨_, _, _, _, _, rfl⟩ | ⟨_, _, _, rfl⟩ | ⟨_, _, rfl⟩ | ⟨_, _, _, rfl⟩ |
    ⟨_, _, rfl⟩ <;> rfl

section Values

variable {key : PolicyKey} {n : Nat} {pr : Protocol} {a : Address}

theorem ospfCost_mem_primitives : (key, .ospfCost n) ∈ p.primitives r ↔
    ∃ b, key = ⟨r, b, .outgoing⟩ ∧ p.ospfCost? b = some n := by
  have hclause : ∀ c, .ospfCost n ∉ clausePrimitives c := fun c h => by
    simpa using of_mem_clausePrimitives h
  rw [mem_primitives]
  simp [hclause, and_comm]

theorem maxPaths_mem_primitives : (key, .maxPaths pr n) ∈ p.primitives r ↔
    key = .ofRouter r ∧ p.maxPaths? pr = some n := by
  have hclause : ∀ c, .maxPaths pr n ∉ clausePrimitives c := fun c h => by
    simpa using of_mem_clausePrimitives h
  rw [mem_primitives]
  simp [hclause, and_comm]

theorem network_mem_primitives : (key, .network a) ∈ p.primitives r ↔
    key = .ofRouter r ∧ p.announces a = true := by
  have hclause : ∀ c, .network a ∉ clausePrimitives c := fun c h => by
    simpa using of_mem_clausePrimitives h
  rw [mem_primitives]
  simp [hclause, and_comm]

end Values

theorem filterMap_clauseFor?_primitives (p : NodePolicy) (r b : RouterId) (dir : Direction) :
    (p.primitives r).filterMap (clauseFor? ⟨b, dir⟩) = p.routeMap b dir := by
  have hclause : ∀ (s : Session) (cs : List Clause),
      (((cs.flatMap clausePrimitives).map
        ((⟨r, s.neighbor, s.direction⟩ : PolicyKey), ·)).filterMap (clauseFor? ⟨b, dir⟩)) =
      if s = ⟨b, dir⟩ then cs else [] := by
    intro s cs
    induction cs with
    | nil => simp
    | cons c cs ih =>
      have haction : ((c.actions.map Primitive.ofAction).map
          ((⟨r, s.neighbor, s.direction⟩ : PolicyKey), ·)).filterMap (clauseFor? ⟨b, dir⟩) = [] := by
        simp only [List.filterMap_eq_nil_iff, List.mem_map]
        rintro _ ⟨_, ⟨a, -, rfl⟩, rfl⟩
        cases a <;> rfl
      rw [List.flatMap_cons, List.map_append, List.filterMap_append, ih, clausePrimitives,
        List.map_cons, List.filterMap_cons, haction]
      by_cases hs : s = ⟨b, dir⟩ <;> simp [clauseFor?, hs]
  have hmaps := OrderedMap.flatMap_entries_eq p.routeMaps ⟨b, dir⟩ id
  simp only [primitives, List.filterMap_append, List.filterMap_flatMap, hclause, List.filterMap_map]
  simp only [id_eq, Option.map_id_fun] at hmaps
  rw [hmaps, routeMap]
  simp [Function.comp_def, clauseFor?]

theorem filterMap_staticRoute?_primitives (p : NodePolicy) (r : RouterId) :
    (p.primitives r).filterMap staticRoute? = p.staticRoutes := by
  have hclause : ∀ (s : Session) (cs : List Clause), ((cs.flatMap clausePrimitives).map
      ((⟨r, s.neighbor, s.direction⟩ : PolicyKey), ·)).filterMap staticRoute? = [] := by
    intro s cs
    simp only [List.filterMap_eq_nil_iff, List.mem_map, List.mem_flatMap]
    rintro _ ⟨x, ⟨c, -, hx⟩, rfl⟩
    rcases of_mem_clausePrimitives hx with rfl | ⟨_, _, rfl⟩ | ⟨_, rfl⟩ <;> rfl
  simp only [primitives, List.filterMap_append, List.filterMap_flatMap, hclause,
    List.filterMap_map]
  simp [Function.comp_def, staticRoute?]

/-- Nothing is installed twice, and there are no route maps without clauses. -/
structure Tidy (p : NodePolicy) : Prop where
  routeMaps_ne_nil : ∀ s, p.routeMaps.get? s ≠ some []
  differ : ∀ b dir, Differ (p.routeMap b dir)
  staticRoutes_nodup : p.staticRoutes.Nodup

theorem differ_routeMap_commit (h : Differ (p.routeMap b dir)) :
    Differ ((p.commit e).routeMap b dir) := by
  rw [routeMap_commit, routeMap_install]
  split
  · split
    · next hnew =>
      refine List.pairwise_append.mpr ⟨h, List.pairwise_singleton _ _, fun c hc d hd => ?_⟩
      rw [List.mem_singleton.mp hd]
      simpa using List.any_eq_false.mp hnew.2 c hc
    · exact h
  · exact h

theorem tidy_foldl_commit (es : List PolicyEntry) : (es.foldl commit empty).Tidy := by
  refine ⟨routeMaps_ne_nil_foldl_commit es fun s => by simp [empty], fun b dir => ?_,
    nodup_staticRoutes_foldl_commit es .nil⟩
  have hempty : Differ (empty.routeMap b dir) := .nil
  revert hempty
  generalize empty = p
  intro h
  induction es generalizing p with
  | nil => exact h
  | cons e es ih => exact ih _ (differ_routeMap_commit h)

section Numbers

variable {cs : List Clause}

/-- Numbers the clauses 10, 20, ... -/
def number (cs : List Clause) : List Clause :=
  cs.zipIdx.map fun c => { c.1 with order := (c.2 + 1) * 10 }

theorem arrange_eq_number (cs : List Clause) : arrange cs = number (sortBy compareClauses cs) := rfl

theorem getElem?_number (cs : List Clause) (i : Nat) :
    (number cs)[i]? = cs[i]?.map fun c => { c with order := (i + 1) * 10 } := by
  rw [number, List.getElem?_map, List.getElem?_zipIdx, Option.map_map]
  simp [Function.comp_def]

theorem number_number (cs : List Clause) : number (number cs) = number cs := by
  refine List.ext_getElem? fun i => ?_
  simp only [getElem?_number, Option.map_map, Function.comp_def]

theorem pairwise_number {R : Clause → Clause → Prop}
    (hR : ∀ c d m n, R c d → R { c with order := m } { d with order := n }) (h : cs.Pairwise R) :
    (number cs).Pairwise R := by
  rw [← List.zipIdx_map_fst 0 cs, List.pairwise_map] at h
  exact List.pairwise_map.mpr (h.imp fun hcd => hR _ _ _ _ hcd)

theorem differ_arrange (h : Differ cs) : Differ (arrange cs) := by
  have hsymm : ∀ {c d : Clause}, c.same d = false → d.same c = false := fun {c d} hcd => by
    rw [← Bool.not_eq_true, Clause.same_iff] at hcd ⊢
    exact fun h => hcd ⟨h.1.symm, h.2.symm⟩
  have hsorted : Differ (sortBy compareClauses cs) :=
    ((sortBy_perm compareClauses cs).pairwise_iff hsymm).mpr h
  exact pairwise_number (fun _ _ _ _ hcd => hcd) hsorted

theorem arrange_arrange (cs : List Clause) : arrange (arrange cs) = arrange cs := by
  have hsorted : (arrange cs).Pairwise fun c d => (compareClauses c d).isLE :=
    pairwise_number (fun _ _ _ _ hcd => hcd) (sortBy_pairwise compareClauses cs)
  rw [arrange_eq_number (arrange cs), sortBy_eq_self hsorted, arrange_eq_number, number_number]

end Numbers

theorem finalize_finalize (p : NodePolicy) : p.finalize.finalize = p.finalize := by
  have hmaps : (p.finalize.routeMaps.mapValues fun _ cs => arrange cs) = p.finalize.routeMaps := by
    refine OrderedMap.ext_get? fun s => ?_
    simp [finalize, OrderedMap.get?_mapValues, Function.comp_def, arrange_arrange]
  have hroutes : sortBy compareStaticRoutes p.finalize.staticRoutes = p.finalize.staticRoutes :=
    sortBy_eq_self (sortBy_pairwise compareStaticRoutes p.staticRoutes)
  rw [finalize, hmaps, hroutes]

theorem finalize_eq_empty_iff : p.finalize = empty ↔ p = empty := by
  refine ⟨fun h => ?_, fun h => by rw [h]; rfl⟩
  have hmaps : p.routeMaps.entries = [] :=
    List.map_eq_nil_iff.mp (congrArg (·.routeMaps.entries) h)
  have hroutes : p.staticRoutes = [] := sortBy_eq_nil_iff.mp (congrArg (·.staticRoutes) h)
  obtain ⟨maps, costs, routes, paths, networks, origins⟩ := p
  injection h with _ hcosts _ hpaths hnetworks horigins
  rw [empty, NodePolicy.mk.injEq]
  exact ⟨OrderedMap.ext_entries hmaps, hcosts, hroutes, hpaths, hnetworks, horigins⟩

theorem Tidy.finalize (h : p.Tidy) : p.finalize.Tidy := by
  refine ⟨fun s hs => ?_, fun b dir => ?_, sortBy_nodup h.staticRoutes_nodup⟩
  · rw [NodePolicy.finalize, OrderedMap.get?_mapValues] at hs
    obtain ⟨cs, hcs, hnil⟩ := Option.map_eq_some_iff.mp hs
    refine h.routeMaps_ne_nil s (hcs.trans (congrArg some ?_))
    rw [arrange_eq_number] at hnil
    exact sortBy_eq_nil_iff.mp (by simpa [number] using hnil)
  · rw [routeMap_finalize]
    exact differ_arrange (h.differ b dir)

section Listed

variable (hes : es.map (·.erase) = p.primitives r)

include hes

theorem mem_listed {key : PolicyKey} {x : Primitive} :
    (∃ e ∈ es, e.key = key ∧ e.primitive = x) ↔ (key, x) ∈ p.primitives r := by
  simp [← hes, PolicyEntry.erase]

theorem costsAgree_of_listed : CostsAgree es := by
  intro e he e' he' n n' hn hn' hkey
  obtain ⟨b, hb, hcost⟩ := ospfCost_mem_primitives.mp ((mem_listed hes).mp ⟨e, he, rfl, hn⟩)
  obtain ⟨b', hb', hcost'⟩ := ospfCost_mem_primitives.mp ((mem_listed hes).mp ⟨e', he', rfl, hn'⟩)
  rw [hb, hb'] at hkey
  obtain rfl : b = b' := hkey
  exact Option.some.inj (hcost.symm.trans hcost')

theorem ospfCosts_of_listed : (es.foldl commit empty).ospfCosts = p.ospfCosts := by
  have hholds := holds_foldl_commit (costsAgree_of_listed hes)
  refine OrderedMap.ext_get? fun b => Option.ext fun n => (hholds.cost_iff b n).trans ?_
  constructor
  · rintro ⟨e, he, rfl, hn⟩
    obtain ⟨b, hb, hcost⟩ := ospfCost_mem_primitives.mp ((mem_listed hes).mp ⟨e, he, rfl, hn⟩)
    rw [hb]
    exact hcost
  · intro hn
    obtain ⟨e, he, hkey, hprim⟩ :=
      (mem_listed hes).mpr (ospfCost_mem_primitives.mpr ⟨b, rfl, hn⟩)
    exact ⟨e, he, by rw [hkey], hprim⟩

theorem maxPaths_of_listed : (es.foldl commit empty).maxPaths = p.maxPaths := by
  have hholds := holds_foldl_commit (costsAgree_of_listed hes)
  have hlisted : ∀ pr n, (es.foldl commit empty).maxPaths? pr = some n →
      p.maxPaths? pr = some n := by
    intro pr n hn
    obtain ⟨e, he, hprim⟩ := hholds.maxPaths_mem pr n hn
    exact (maxPaths_mem_primitives.mp ((mem_listed hes).mp ⟨e, he, rfl, hprim⟩)).2
  refine OrderedMap.ext_get? fun pr => Option.ext fun n => ⟨hlisted pr n, fun hn => ?_⟩
  obtain ⟨e, he, -, hprim⟩ := (mem_listed hes).mpr (maxPaths_mem_primitives.mpr ⟨rfl, hn⟩)
  obtain ⟨m, hm, -⟩ := hholds.maxPaths_le e he pr n hprim
  obtain rfl : n = m := Option.some.inj (hn.symm.trans (hlisted pr m hm))
  exact hm

theorem networks_of_listed : (es.foldl commit empty).networks = p.networks := by
  have hholds := holds_foldl_commit (costsAgree_of_listed hes)
  refine OrderedSet.ext_toList fun a => ?_
  rw [OrderedSet.toList, OrderedSet.toList, ← OrderedMap.contains_iff, ← OrderedMap.contains_iff]
  refine (hholds.network_iff a).trans ⟨?_, fun ha => ?_⟩
  · rintro ⟨e, he, hprim⟩
    exact (network_mem_primitives.mp ((mem_listed hes).mp ⟨e, he, rfl, hprim⟩)).2
  · obtain ⟨e, he, -, hprim⟩ := (mem_listed hes).mpr (network_mem_primitives.mpr ⟨rfl, ha⟩)
    exact ⟨e, he, hprim⟩

theorem staticRoutes_of_listed (h : p.Tidy) :
    (es.foldl commit empty).staticRoutes = p.staticRoutes := by
  have hlisted := filterMap_staticRoute?_primitives p r
  rw [← hlisted, ← hes]
  refine staticRoutes_foldl_commit_eq (p := empty) ?_
  rw [hes, hlisted]
  exact h.staticRoutes_nodup

theorem routeMaps_of_listed (h : p.Tidy) : (es.foldl commit empty).routeMaps = p.routeMaps := by
  refine OrderedMap.ext_get? fun ⟨b, dir⟩ => ?_
  have hlisted := filterMap_clauseFor?_primitives p r b dir
  have hsame : (es.foldl commit empty).routeMap b dir = p.routeMap b dir := by
    rw [← hlisted, ← hes]
    refine routeMap_foldl_commit_eq (p := empty) ?_
    rw [hes, hlisted]
    exact h.differ b dir
  rw [get?_routeMaps ((tidy_foldl_commit es).routeMaps_ne_nil _), hsame,
    get?_routeMaps (h.routeMaps_ne_nil _)]

/-- Commits of all that a tidy policy has installed give it again. -/
theorem erase_of_listed (h : p.Tidy) : (es.foldl commit empty).erase = p.erase := by
  rw [erase, erase, routeMaps_of_listed hes h, ospfCosts_of_listed hes,
    staticRoutes_of_listed hes h, maxPaths_of_listed hes, networks_of_listed hes]

end Listed

/-- No origin is noted without something that is installed. -/
theorem eq_empty_of_erase (h : (es.foldl commit empty).erase = empty) :
    es.foldl commit empty = empty := by
  induction es using List.reverseRecOn with
  | nil => rfl
  | append_singleton es e ih =>
    rw [List.foldl_append, List.foldl_cons, List.foldl_nil] at h ⊢
    generalize es.foldl commit empty = p at h ih ⊢
    have hno : ∀ {slot v}, e.setting? = some (slot, v) → False := fun {slot v} hset => by
      have hsets := sets_commit_self (p := p) hset
      refine not_sets_empty slot v (h ▸ ?_)
      cases slot <;> exact hsets
    cases hprim : e.primitive with
    | clause c => exact (hno (by rw [PolicyEntry.setting?, hprim])).elim
    | ospfCost n => exact (hno (by rw [PolicyEntry.setting?, hprim])).elim
    | staticRoute s => exact (hno (by rw [PolicyEntry.setting?, hprim])).elim
    | maxPaths pr n =>
      have hn : (p.commit e).erase.maxPaths? pr = some (max ((p.maxPaths? pr).getD n) n) := by
        refine (maxPaths?_commit p e pr).trans ?_
        simp [maxPaths?_install, hprim]
      rw [h] at hn
      cases hn
    | network a =>
      have ha : (p.commit e).erase.announces a = true :=
        (announces_commit p e a).trans (announces_install.mpr (.inl hprim))
      rw [h] at ha
      cases ha
    | community | localPref =>
      have hcommit : p.commit e = p := by rw [commit, hprim]
      rw [hcommit] at h ⊢
      exact ih h

theorem Tidy.primitives_eq_nil_iff (h : p.Tidy) : p.primitives r = [] ↔ p.erase = empty := by
  constructor
  · intro hnil
    have hes : ([] : List PolicyEntry).map (·.erase) = p.primitives r := hnil.symm
    exact (erase_of_listed hes h).symm
  · intro he
    have hlist : p.erase.primitives r = p.primitives r := rfl
    rw [← hlist, he]
    rfl

end NodePolicy

namespace PolicyModel

variable {t t' : Topology} {m : PolicyModel} {bs bs' : List Bundle} {a : RouterId}

/-- The bundles list all that the model has installed, with one bundle for each router. Any origins
will do. -/
structure Flattened (m : PolicyModel) (bs : List Bundle) : Prop where
  nodup_routers : (bs.map (·.router)).Nodup
  mem_routers_iff : ∀ a, a ∈ bs.map (·.router) ↔ a ∈ m.primitives.map (·.1.router)
  entries : ∀ b ∈ bs, b.entries.map (·.erase) = m.primitives.filter (·.1.router = b.router)

/-- The list of a model, split by routers. All elements get the same origin. -/
def split (m : PolicyModel) (o : RequirementRef) : List Bundle :=
  (OrderedSet.ofList (m.primitives.map (·.1.router))).toList.map fun a =>
    ⟨a, (m.primitives.filter (·.1.router = a)).map fun x => ⟨x.1, x.2, o⟩⟩

theorem flattened_split (m : PolicyModel) (o : RequirementRef) : m.Flattened (m.split o) := by
  refine ⟨?_, fun a => ?_, fun b hb => ?_⟩
  · simpa [split, Function.comp_def, OrderedSet.toList] using
      OrderedMap.keys_nodup (OrderedSet.ofList (m.primitives.map (·.1.router)))
  · simp only [split, List.map_map, Function.comp_def, List.map_id_fun', id_eq, OrderedSet.mem_ofList]
  · obtain ⟨a, -, rfl⟩ := List.mem_map.mp hb
    simp [PolicyEntry.erase, Function.comp_def]

theorem get?_finalize (m : PolicyModel) (a : RouterId) :
    m.finalize.get? a = if m.policy a = .empty then none else some (m.policy a).finalize := by
  rw [get?, finalize, OrderedMap.get?_mapValues, OrderedMap.get?_filter, policy, ← get?]
  cases m.get? a with
  | none => simp
  | some p => by_cases hp : p = .empty <;> simp [hp, Option.filter]

theorem filter_primitives (m : PolicyModel) (a : RouterId) :
    m.primitives.filter (·.1.router = a) = (m.policy a).primitives a := by
  have hentry : ∀ e : RouterId × NodePolicy, (e.2.primitives e.1).filter (·.1.router = a) =
      if e.1 = a then e.2.primitives a else [] := by
    intro e
    split
    · next ha =>
      subst ha
      exact List.filter_eq_self.mpr fun x hx => by simp [NodePolicy.router_of_mem_primitives hx]
    · next ha =>
      refine List.filter_eq_nil_iff.mpr fun x hx => ?_
      simpa [NodePolicy.router_of_mem_primitives hx] using ha
  have hnodes := OrderedMap.flatMap_entries_eq m.nodes a fun p => p.primitives a
  simp only [primitives, List.filter_flatMap, hentry, hnodes, policy, get?]
  cases m.nodes.get? a <;> rfl

theorem entriesAt_eq_nil (h : a ∉ bs.map (·.router)) : Bundle.entriesAt a bs = [] := by
  rw [Bundle.entriesAt, List.flatMap_eq_nil_iff]
  intro b hb
  obtain ⟨hb, hr⟩ := List.mem_filter.mp hb
  exact absurd (List.mem_map.mpr ⟨b, hb, of_decide_eq_true hr⟩) h

theorem accepted_eq_self_of_nodup (h : (bs.map (·.router)).Nodup) : accepted t bs = bs := by
  induction bs using List.reverseRecOn with
  | nil => rfl
  | append_singleton bs b ih =>
    rw [List.map_append, List.nodup_append] at h
    refine accepted_concat_eq_iff.mpr ⟨ih h.1, (merge_of_clash?_eq_none t fun e _ => ?_).1⟩
    have hnew : b.router ∉ (accepted t bs).map (·.router) := fun hmem =>
      h.2.2 _ (((accepted_sublist t bs).map _).mem hmem) _ (by simp) rfl
    rw [policy_mergeAll, entriesAt_eq_nil hnew]
    exact NodePolicy.clash?_empty _ _

theorem Flattened.entriesAt_eq (h : m.Flattened bs) (a : RouterId) :
    (Bundle.entriesAt a bs).map (·.erase) = (m.policy a).primitives a := by
  by_cases ha : a ∈ bs.map (·.router)
  · obtain ⟨b, hb, rfl⟩ := List.mem_map.mp ha
    obtain ⟨before, after, rfl⟩ := List.append_of_mem hb
    have hnodup := h.nodup_routers
    rw [List.map_append, List.map_cons, List.nodup_append, List.nodup_cons] at hnodup
    have hbefore : b.router ∉ before.map (·.router) := fun hmem =>
      hnodup.2.2 _ hmem _ List.mem_cons_self rfl
    have hsole : Bundle.entriesAt b.router (before ++ b :: after) = b.entries := by
      have hb := entriesAt_eq_nil hbefore
      have ha := entriesAt_eq_nil hnodup.2.1.1
      rw [Bundle.entriesAt] at hb ha ⊢
      simp [hb, ha]
    rw [hsole, h.entries b hb, filter_primitives]
  · rw [entriesAt_eq_nil ha, List.map_nil, ← filter_primitives, eq_comm, List.filter_eq_nil_iff]
    intro x hx hr
    exact ha ((h.mem_routers_iff a).mpr (List.mem_map.mpr ⟨x, hx, of_decide_eq_true hr⟩))

theorem mem_keys_finalize_mergeAll : a ∈ (mergeAll t bs).finalize.nodes.keys ↔
    ((mergeAll t bs).finalize.policy a).primitives a ≠ [] := by
  have hkeys : a ∈ (mergeAll t bs).finalize.nodes.keys ↔ (mergeAll t bs).policy a ≠ .empty := by
    rw [OrderedMap.mem_keys_iff]
    change (∃ p, (mergeAll t bs).finalize.get? a = some p) ↔ _
    rw [get?_finalize]
    split <;> simp [*]
  rw [hkeys, policy_finalize, policy_mergeAll, not_iff_not,
    (NodePolicy.tidy_foldl_commit _).finalize.primitives_eq_nil_iff]
  change _ ↔ (NodePolicy.erase _).finalize = .empty
  rw [NodePolicy.finalize_eq_empty_iff]
  exact ⟨fun h => by rw [h]; rfl, NodePolicy.eq_empty_of_erase⟩

/-- A finished model is rebuilt from what it lists: all bundles are accepted, and the routers have
the same policies. -/
theorem merge_flattened (h : (mergeAll t bs).finalize.Flattened bs') :
    accepted t' bs' = bs' ∧
      (mergeAll t' bs').finalize.nodes.keys = (mergeAll t bs).finalize.nodes.keys ∧
      (mergeAll t bs).finalize.SameRules (mergeAll t' bs').finalize := by
  have haccepted : accepted t' bs' = bs' := accepted_eq_self_of_nodup h.nodup_routers
  have hsame : (mergeAll t bs).finalize.SameRules (mergeAll t' bs').finalize := by
    intro a
    have hes := h.entriesAt_eq a
    have htidy : ((mergeAll t bs).finalize.policy a).Tidy := by
      rw [policy_finalize, policy_mergeAll]
      exact (NodePolicy.tidy_foldl_commit _).finalize
    rw [policy_finalize (mergeAll t' bs'), policy_mergeAll, haccepted]
    calc ((Bundle.entriesAt a bs').foldl NodePolicy.commit .empty).finalize.erase
      _ = ((Bundle.entriesAt a bs').foldl NodePolicy.commit .empty).erase.finalize := rfl
      _ = ((mergeAll t bs).finalize.policy a).erase.finalize := by
        rw [NodePolicy.erase_of_listed hes htidy]
      _ = ((mergeAll t bs).finalize.policy a).finalize.erase := rfl
      _ = ((mergeAll t bs).finalize.policy a).erase := by
        rw [policy_finalize, NodePolicy.finalize_finalize]
  refine ⟨haccepted, OrderedMap.keys_eq_of_mem_iff fun a => ?_, hsame⟩
  have hlist : ((mergeAll t' bs').finalize.policy a).primitives a =
      ((mergeAll t bs).finalize.policy a).primitives a := by
    change (NodePolicy.erase _).primitives a = (NodePolicy.erase _).primitives a
    rw [hsame a]
  rw [mem_keys_finalize_mergeAll, mem_keys_finalize_mergeAll, hlist]

end PolicyModel

namespace Network.Diamond

/-- The first bundle contradicts itself, the second one contradicts the first one, and the third one
installs nothing. -/
def disordered : List Bundle :=
  let entry := fun key primitive => PolicyEntry.mk key primitive (balanced.reference 0)
  let onImport := fun b order effect =>
    entry ⟨0, b, .incoming⟩ (.clause ⟨order, [.prefixList ⟨"PL", [loopback 4]⟩], effect⟩)
  let cost := fun b n => entry ⟨0, b, .outgoing⟩ (.ospfCost n)
  [⟨0, [onImport 2 7 .deny, onImport 2 7 (.permit [.localPref 5, .localPref 6]),
      onImport 1 30 (.permit []), cost 1 10, cost 1 20,
      entry (.ofRouter 0) (.maxPaths .bgp 3), entry (.ofRouter 0) (.maxPaths .bgp 2)]⟩,
    ⟨0, [cost 2 10, onImport 1 10 .deny]⟩,
    ⟨1, [entry ⟨1, 0, .incoming⟩ (.localPref 5)]⟩]

theorem merge_flattened_disordered : ∃ bs,
    (PolicyModel.mergeAll topology disordered).finalize.Flattened bs ∧
      (bs.map fun b => (b.router, b.entries.length)) = [(0, 7)] ∧
      PolicyModel.accepted topology bs = bs ∧
      (PolicyModel.mergeAll topology bs).finalize.nodes.keys =
        (PolicyModel.mergeAll topology disordered).finalize.nodes.keys ∧
      (PolicyModel.mergeAll topology disordered).finalize.SameRules
        (PolicyModel.mergeAll topology bs).finalize := by
  have hbs := PolicyModel.flattened_split (PolicyModel.mergeAll topology disordered).finalize
    (balanced.reference 1)
  exact ⟨_, hbs, by decide +kernel, PolicyModel.merge_flattened hbs⟩

end Network.Diamond

end PathPolicy
