import PathPolicy.Network.Diamond
import PathPolicy.Proofs.Legibility

/-! The lists that the route maps of a device refer to. A device defines the first prefix list and
the first community of each clause. So all lists are defined that clauses with one list of each kind
refer to, and synthesis writes no others. -/

namespace PathPolicy

/-- The list that a condition refers to is there, with its contents. -/
def DeviceConfig.Defines (d : DeviceConfig) : Condition → Prop
  | .prefixList l => l ∈ d.prefixLists
  | .community c => ⟨c.listName, c⟩ ∈ d.communityLists

/-- The route map is written for these clauses, and the lists of all their conditions are there. -/
def DeviceConfig.Backs (d : DeviceConfig) (k : RouteMapConfig) (cs : List Clause) : Prop :=
  k = .ofClauses k.name cs ∧ ∀ c ∈ cs, ∀ condition ∈ c.conditions, d.Defines condition

namespace Clause

variable {c c' : Clause} {k : Condition}

/-- The condition is the first one of its kind. -/
def Leads (c : Clause) : Condition → Prop
  | .prefixList l => c.prefixList? = some l
  | .community x => c.community? = some x

/-- There is one prefix list at most, and one community. -/
structure Plain (c : Clause) : Prop where
  prefixList : ∀ l l', .prefixList l ∈ c.conditions → .prefixList l' ∈ c.conditions → l = l'
  community : ∀ x x', .community x ∈ c.conditions → .community x' ∈ c.conditions → x = x'

theorem Plain.congr (h : c.Plain) (he : c.conditions = c'.conditions) : c'.Plain :=
  ⟨he ▸ h.prefixList, he ▸ h.community⟩

theorem Leads.mem (h : c.Leads k) : k ∈ c.conditions := by
  cases k with
  | prefixList l =>
    obtain ⟨k, hk, hl⟩ := List.exists_of_findSome?_eq_some h
    cases k with
    | prefixList l' => exact Option.some.inj hl ▸ hk
    | community x => cases hl
  | community x =>
    obtain ⟨k, hk, hx⟩ := List.exists_of_findSome?_eq_some h
    cases k with
    | prefixList l => cases hx
    | community x' => exact Option.some.inj hx ▸ hk

theorem Plain.leads (h : c.Plain) (hk : k ∈ c.conditions) : c.Leads k := by
  cases k with
  | prefixList l =>
    cases hfirst : c.prefixList? with
    | none => cases List.findSome?_eq_none_iff.mp hfirst _ hk
    | some l' =>
      have hmem : .prefixList l' ∈ c.conditions := Leads.mem hfirst
      exact hfirst.trans (congrArg some (h.prefixList l' l hmem hk))
  | community x =>
    cases hfirst : c.community? with
    | none => cases List.findSome?_eq_none_iff.mp hfirst _ hk
    | some x' =>
      have hmem : .community x' ∈ c.conditions := Leads.mem hfirst
      exact hfirst.trans (congrArg some (h.community x' x hmem hk))

end Clause

namespace PolicyModel

variable {t : Topology} {m : PolicyModel} {a b : RouterId} {d : DeviceConfig} {dir : Direction}
  {c : Clause} {bs : List Bundle}

theorem defines_iff (hd : m.device? t a = some d) {k : Condition} :
    d.Defines k ↔ ∃ c ∈ (m.policy a).clauses, c.Leads k := by
  obtain ⟨router, -, rfl⟩ := Option.map_eq_some_iff.mp hd
  cases k with
  | prefixList l =>
    change l ∈ (m.policy a).matchedPrefixLists ↔ _
    rw [NodePolicy.matchedPrefixLists, OrderedSet.mem_ofList, List.mem_filterMap]
    rfl
  | community x =>
    change _ ∈ (m.policy a).matchedCommunities.map (fun y => (⟨y.listName, y⟩ : CommunityList)) ↔ _
    rw [NodePolicy.matchedCommunities]
    simp only [List.mem_map, OrderedSet.mem_ofList, List.mem_filterMap, CommunityList.mk.injEq]
    constructor
    · rintro ⟨y, ⟨c, hc, hy⟩, -, rfl⟩
      exact ⟨c, hc, hy⟩
    · rintro ⟨c, hc, hx⟩
      exact ⟨x, ⟨c, hc, hx⟩, rfl, rfl⟩

theorem mem_clauses_of_mem_routeMap {p : NodePolicy} (h : c ∈ p.routeMap b dir) : c ∈ p.clauses := by
  rw [NodePolicy.routeMap] at h
  cases hget : p.routeMaps.get? ⟨b, dir⟩ with
  | none => simp [hget] at h
  | some cs =>
    rw [hget] at h
    exact List.mem_flatten.mpr ⟨cs, OrderedMap.mem_values_iff.mpr ⟨_, hget⟩, h⟩

/-- A device has all lists that it refers to if its clauses are plain. -/
theorem backs_of_plain (hd : m.device? t a = some d)
    (h : ∀ b dir, ∀ c ∈ (m.policy a).routeMap b dir, c.Plain) :
    ∀ k ∈ d.routeMaps, ∃ b dir, d.Backs k ((m.policy a).routeMap b dir) := by
  intro k hk
  obtain ⟨router, hr, rfl⟩ := Option.map_eq_some_iff.mp hd
  obtain ⟨-, x, -, dir, rfl⟩ := mem_routeMaps_deviceOf.mp hk
  refine ⟨x.1, dir, rfl, fun c hc condition hcondition => ?_⟩
  exact (defines_iff hd).mpr
    ⟨c, mem_clauses_of_mem_routeMap hc, (h x.1 dir c hc).leads hcondition⟩

/-- The models that come from the empty one when these bundles are merged into it. The policies may
be put in order in between. -/
inductive Built (t : Topology) : List Bundle → PolicyModel → Prop
  | empty : Built t [] .empty
  | merge {bs : List Bundle} {m : PolicyModel} (h : Built t bs m) (b : Bundle) :
    Built t (bs ++ [b]) (m.merge t b).1
  | finalize {bs : List Bundle} {m : PolicyModel} (h : Built t bs m) : Built t bs m.finalize

/-- One of the bundles writes a clause with these conditions. -/
def Writes (bs : List Bundle) (conditions : List Condition) : Prop :=
  ∃ b ∈ bs, ∃ e ∈ b.entries, ∃ c, e.primitive = .clause c ∧ c.conditions = conditions

theorem exists_entry_of_foldl_commit {p : NodePolicy} {es : List PolicyEntry}
    (h : c ∈ (es.foldl NodePolicy.commit p).routeMap b dir) :
    c ∈ p.routeMap b dir ∨ ∃ e ∈ es, e.primitive = .clause c := by
  induction es generalizing p with
  | nil => exact .inl h
  | cons e es ih =>
    rcases ih h with hc | ⟨e', he', hc⟩
    · rw [NodePolicy.routeMap_commit] at hc
      rcases NodePolicy.mem_routeMap_install hc with hc | ⟨-, -, hc⟩
      · exact .inl hc
      · exact .inr ⟨e, List.mem_cons_self, hc⟩
    · exact .inr ⟨e', List.mem_cons_of_mem e he', hc⟩

theorem Built.writes (hm : Built t bs m) (hc : c ∈ (m.policy a).routeMap b dir) :
    Writes bs c.conditions := by
  induction hm generalizing c with
  | empty => cases hc
  | @merge bs m h bundle ih =>
    have hold : ∀ {c : Clause}, c ∈ (m.policy a).routeMap b dir →
        Writes (bs ++ [bundle]) c.conditions := by
      intro c hc
      obtain ⟨x, hx, hwritten⟩ := ih hc
      exact ⟨x, List.mem_append_left _ hx, hwritten⟩
    by_cases ha : a = bundle.router
    · subst a
      rcases merge_cases t m bundle with ⟨_, -, -, hpolicy⟩ | ⟨-, hpolicy, -⟩
      · exact hold (hpolicy ▸ hc)
      · rw [hpolicy] at hc
        rcases exists_entry_of_foldl_commit hc with hc | ⟨e, he, hec⟩
        · exact hold hc
        · exact ⟨bundle, by simp, e, he, c, hec, rfl⟩
    · rw [policy_merge_of_ne ha] at hc
      exact hold hc
  | finalize h ih =>
    rw [policy_finalize, NodePolicy.routeMap_finalize] at hc
    -- The order of the clauses changes their numbers, but not their conditions.
    obtain ⟨c', hc', hsame, -⟩ := NodePolicy.mem_arrange hc
    rw [(Clause.same_iff.mp hsame).1]
    exact ih hc'

/-- A device has an entry for the first prefix list and the first community of each clause, and
no others. If the clauses are plain, these are all lists that its route maps refer to. -/
theorem lists_defined (hm : Built t bs m) (hd : m.device? t a = some d) :
    (∀ k, d.Defines k ↔ ∃ c ∈ (m.policy a).clauses, c.Leads k) ∧
      ((∀ b ∈ bs, ∀ e ∈ b.entries, ∀ c, e.primitive = .clause c → c.Plain) →
        ∀ k ∈ d.routeMaps, ∃ b dir, d.Backs k ((m.policy a).routeMap b dir)) := by
  refine ⟨fun _ => defines_iff hd, fun hplain => backs_of_plain hd fun b dir c hc => ?_⟩
  obtain ⟨x, hx, e, he, c', hc', hconditions⟩ := hm.writes hc
  exact (hplain x hx e he c' hc').congr hconditions

end PolicyModel

theorem GroupMark.plain_of_mem_clauses {m : GroupMark} {b : RouterId} {d : Decision} {c : Clause}
    (h : c ∈ m.clauses b d) : c.Plain := by
  have hlist : ∀ l, .prefixList l ∈ c.conditions → l = m.prefixList := fun l hl => by
    simpa [ofDestination] using mem_conditions h hl
  have hmark : ∀ x, .community x ∈ c.conditions → x = m.community := fun x hx => by
    simpa [ofDestination] using mem_conditions h hx
  exact ⟨fun l l' hl hl' => (hlist l hl).trans (hlist l' hl').symm,
    fun x x' hx hx' => (hmark x hx).trans (hmark x' hx').symm⟩

/-- The devices that synthesis configures have all lists that they refer to. -/
theorem Synthesizer.backs_of_synthesizePartial {s : Synthesizer} {store : Store}
    {model : PolicyModel} {conflicts : List Conflict} {a : RouterId} {d : DeviceConfig}
    (h : s.synthesizePartial store = .ok (model, conflicts))
    (hd : model.device? s.topology a = some d) :
    ∀ k ∈ d.routeMaps, ∃ b dir, d.Backs k ((model.policy a).routeMap b dir) := by
  refine PolicyModel.backs_of_plain hd fun b dir c hc => ?_
  obtain ⟨-, -, m, decision, c', hc', hsame⟩ := mem_routeMap_model h hc
  exact (GroupMark.plain_of_mem_clauses hc').congr (Clause.same_iff.mp hsame).1.symm

namespace Network.Diamond

def listOf (index : Nat) : PrefixList := ⟨s!"PL_{index}", [loopback index]⟩

/-- A bundle of one clause for the routes that `S` takes from `A`. -/
def matching (conditions : List Condition) : Bundle :=
  ⟨0, [⟨⟨0, 1, .incoming⟩, .clause ⟨10, conditions, .permit [.localPref 5]⟩, balanced.reference 0⟩]⟩

def matched (conditions : List Condition) : PolicyModel :=
  (PolicyModel.empty.merge topology (matching conditions)).1

def oneOfEach : List Condition := [.prefixList (listOf 1), .community ⟨100, 1⟩]

def twoOfEach : List Condition :=
  [.prefixList (listOf 1), .prefixList (listOf 2), .community ⟨100, 1⟩, .community ⟨100, 2⟩]

theorem matched_built (conditions : List Condition) :
    PolicyModel.Built topology ([] ++ [matching conditions]) (matched conditions) :=
  .merge .empty _

theorem lists_defined_diamond :
    ∃ d, (matched oneOfEach).device? topology 0 = some d ∧ d.Defines (.prefixList (listOf 1)) ∧
      ∀ k ∈ d.routeMaps, ∃ cs, d.Backs k cs := by
  obtain ⟨d, hd⟩ : ∃ d, (matched oneOfEach).device? topology 0 = some d :=
    Option.isSome_iff_exists.mp (by decide +kernel)
  obtain ⟨hdefines, hbacks⟩ := PolicyModel.lists_defined (matched_built _) hd
  refine ⟨d, hd, (hdefines _).mpr ?_, fun k hk => ?_⟩
  · exact ⟨⟨10, oneOfEach, .permit [.localPref 5]⟩, by decide +kernel, rfl⟩
  · have hplain : ∀ b ∈ [] ++ [matching oneOfEach], ∀ e ∈ b.entries, ∀ c,
        e.primitive = .clause c → c.Plain := by
      intro b hb e he c hc
      obtain rfl := List.mem_singleton.mp hb
      obtain rfl := List.mem_singleton.mp he
      obtain rfl := Primitive.clause.inj hc
      exact ⟨by simp [oneOfEach], by simp [oneOfEach]⟩
    obtain ⟨b, dir, h⟩ := hbacks hplain k hk
    exact ⟨_, h⟩

/-- The second prefix list of a clause is matched on, but not defined, and the same holds for its
second community. -/
theorem second_lists_undefined : ∃ d ∈ (matched twoOfEach).device? topology 0,
    (∃ k ∈ d.routeMaps, ∃ c ∈ k.clauses, ("ip address prefix-list", "PL_2") ∈ c.conditions ∧
      ("community", "CL_100_2") ∈ c.conditions) ∧
    (∀ l ∈ d.prefixLists, l.name ≠ "PL_2") ∧ ∀ l ∈ d.communityLists, l.name ≠ "CL_100_2" := by
  decide +kernel

end Network.Diamond

end PathPolicy
