import PathPolicy.Proofs.GroupPolicy
import PathPolicy.Proofs.NodePolicy

/-! What the bundles of a group contain: the lowered decisions of its routers, the networks of the
destination, and the numbers of paths. -/

namespace PathPolicy

namespace Bundles

variable {m : Bundles} {a r : RouterId} {e : PolicyEntry} {es : List PolicyEntry} {α : Type}

theorem mem_add : e ∈ ((m.add r es).get? a).getD [] ↔
    (r = a ∧ e ∈ es) ∨ e ∈ (m.get? a).getD [] := by
  rw [add, OrderedMap.get?_update]
  by_cases ha : a = r
  · subst a
    simp [or_comm]
  · have ha' : ¬ r = a := fun he => ha he.symm
    simp [ha, ha']

theorem mem_foldl_add (router : α → RouterId) (entries : α → List PolicyEntry) (xs : List α)
    (m : Bundles) :
    e ∈ ((xs.foldl (fun m x => m.add (router x) (entries x)) m).get? a).getD [] ↔
      (∃ x ∈ xs, router x = a ∧ e ∈ entries x) ∨ e ∈ (m.get? a).getD [] := by
  induction xs generalizing m with
  | nil => simp
  | cons x xs ih =>
    rw [List.foldl_cons, ih, mem_add, List.exists_mem_cons_iff, or_left_comm, or_assoc]

theorem exists_mem_toList : (∃ b ∈ m.toList, b.router = a ∧ e ∈ b.entries) ↔
    e ∈ (m.get? a).getD [] := by
  simp only [toList, List.mem_map]
  constructor
  · rintro ⟨b, ⟨⟨r, es⟩, hm, rfl⟩, rfl, he⟩
    rw [OrderedMap.get?_eq_some_iff.mpr hm]
    exact he
  · intro he
    cases hget : m.get? a with
    | none => simp [hget] at he
    | some es => exact ⟨⟨a, es⟩, ⟨(a, es), OrderedMap.get?_eq_some_iff.mp hget, rfl⟩, rfl, by
        simpa [hget] using he⟩

end Bundles

namespace RequirementGroup

variable {t : Topology} {g : RequirementGroup} {mark : GroupMark} {s : Commitments} {a : RouterId}
  {e : PolicyEntry} {community : Option Community} {policy : GroupPolicy}

inductive Bundled (g : RequirementGroup) (mark : GroupMark) (s : Commitments) (a : RouterId) :
    PolicyEntry → Prop
  | decision {k : PolicyKey} {i : Intent} {p : Primitive} (hget : s.intents.get? k = some i)
      (hrouter : k.router = a) (hc : s.isConflicted a = false)
      (hp : p ∈ mark.lower k.neighbor i.decision) : Bundled g mark s a ⟨k, p, i.origin⟩
  | network {first : ResolvedRequirement} {x : Address} (hprotocol : g.protocol = .bgp)
      (hfirst : g.requirements.head? = some first) (hrouter : g.destination = a)
      (hx : x ∈ mark.networks) : Bundled g mark s a ⟨.ofRouter a, .network x, first.reference⟩
  | maxPaths {n : Nat} {o : RequirementRef} (hget : s.maxPaths.get? a = some (n, o))
      (hc : s.isConflicted a = false) :
      Bundled g mark s a ⟨.ofRouter a, .maxPaths g.protocol n, o⟩

theorem mem_decisionBundles : e ∈ ((decisionBundles mark s).get? a).getD [] ↔
    ∃ k i p, s.intents.get? k = some i ∧ k.router = a ∧ s.isConflicted a = false ∧
      p ∈ mark.lower k.neighbor i.decision ∧ e = ⟨k, p, i.origin⟩ := by
  have h := Bundles.mem_foldl_add (e := e) (a := a) (fun x : PolicyKey × Intent => x.1.router)
    (fun x => (mark.lower x.1.neighbor x.2.decision).map fun p => ⟨x.1, p, x.2.origin⟩)
    (settled s).entries OrderedMap.empty
  refine h.trans ?_
  simp only [OrderedMap.get?_empty, Option.getD_none, List.not_mem_nil, or_false, List.mem_map]
  constructor
  · rintro ⟨⟨k, i⟩, hm, rfl, p, hp, rfl⟩
    have hget := OrderedMap.get?_eq_some_iff.mpr hm
    rw [settled, OrderedMap.get?_filter, Option.filter_eq_some_iff] at hget
    exact ⟨k, i, p, hget.1, rfl, by simpa using hget.2, hp, rfl⟩
  · rintro ⟨k, i, p, hget, rfl, hc, hp, rfl⟩
    refine ⟨(k, i), OrderedMap.get?_eq_some_iff.mp ?_, rfl, p, hp, rfl⟩
    rw [settled, OrderedMap.get?_filter, Option.filter_eq_some_iff]
    exact ⟨hget, by simpa using hc⟩

theorem mem_withAnnouncement {m : Bundles} {networks : List Address} :
    e ∈ ((g.withAnnouncement networks m).get? a).getD [] ↔
      (∃ first x, g.protocol = .bgp ∧ g.requirements.head? = some first ∧ g.destination = a ∧
        x ∈ networks ∧ e = ⟨.ofRouter a, .network x, first.reference⟩) ∨
      e ∈ (m.get? a).getD [] := by
  rw [withAnnouncement]
  split
  · next first hbgp hfirst =>
    rw [Bundles.mem_add]
    refine or_congr_left ?_
    simp only [List.mem_map]
    constructor
    · rintro ⟨rfl, x, hx, rfl⟩
      exact ⟨first, x, hbgp, hfirst, rfl, hx, rfl⟩
    · rintro ⟨f, x, _, hf, rfl, hx, rfl⟩
      obtain rfl : first = f := Option.some.inj (hfirst.symm.trans hf)
      exact ⟨rfl, x, hx, rfl⟩
  · next hno =>
    refine (or_iff_right ?_).symm
    rintro ⟨first, x, hbgp, hfirst, _⟩
    exact hno first hbgp hfirst

theorem mem_withMaxPaths {m : Bundles} : e ∈ ((g.withMaxPaths s m).get? a).getD [] ↔
    (∃ n o, s.maxPaths.get? a = some (n, o) ∧ s.isConflicted a = false ∧
      e = ⟨.ofRouter a, .maxPaths g.protocol n, o⟩) ∨ e ∈ (m.get? a).getD [] := by
  have h := Bundles.mem_foldl_add (e := e) (a := a)
    (fun x : RouterId × Nat × RequirementRef => x.1)
    (fun x => [⟨.ofRouter x.1, .maxPaths g.protocol x.2.1, x.2.2⟩])
    (s.maxPaths.filter fun r _ => !s.isConflicted r).entries m
  refine h.trans (or_congr_left ?_)
  simp only [List.mem_singleton]
  constructor
  · rintro ⟨⟨r, n, o⟩, hm, rfl, rfl⟩
    have hget := OrderedMap.get?_eq_some_iff.mpr hm
    rw [OrderedMap.get?_filter, Option.filter_eq_some_iff] at hget
    exact ⟨n, o, hget.1, by simpa using hget.2, rfl⟩
  · rintro ⟨n, o, hget, hc, rfl⟩
    refine ⟨(a, n, o), OrderedMap.get?_eq_some_iff.mp ?_, rfl, rfl⟩
    rw [OrderedMap.get?_filter, Option.filter_eq_some_iff]
    exact ⟨hget, by simpa using hc⟩

theorem exists_mem_bundles : (∃ b ∈ g.bundles mark s, b.router = a ∧ e ∈ b.entries) ↔
    Bundled g mark s a e := by
  rw [bundles, Bundles.exists_mem_toList, mem_withMaxPaths, mem_withAnnouncement,
    mem_decisionBundles]
  constructor
  · rintro (⟨n, o, hget, hc, rfl⟩ | ⟨first, x, hbgp, hfirst, hd, hx, rfl⟩ |
      ⟨k, i, p, hget, hrouter, hc, hp, rfl⟩)
    · exact .maxPaths hget hc
    · exact .network hbgp hfirst hd hx
    · exact .decision hget hrouter hc hp
  · intro h
    cases h with
    | maxPaths hget hc => exact .inl ⟨_, _, hget, hc, rfl⟩
    | network hbgp hfirst hd hx => exact .inr (.inl ⟨_, _, hbgp, hfirst, hd, hx, rfl⟩)
    | decision hget hrouter hc hp => exact .inr (.inr ⟨_, _, _, hget, hrouter, hc, hp, rfl⟩)

theorem Bundled.of_mem {b : Bundle} (hb : b ∈ g.bundles mark s) (he : e ∈ b.entries) :
    Bundled g mark s b.router e :=
  exists_mem_bundles.mp ⟨b, hb, rfl, he⟩

/-- The entries of a group blame only its own requirements. -/
theorem Bundled.origin (h : Bundled g mark (g.commitments t) a e) :
    ∃ req ∈ g.requirements, e.origin = req.reference := by
  cases h with
  | decision hget _ _ _ =>
    obtain ⟨req, hreq, x, b, heights, hasks, _⟩ := exists_asks hget
    exact ⟨req, hreq, by rw [hasks.intent_eq]; rfl⟩
  | network _ hfirst _ _ => exact ⟨_, List.mem_of_mem_head? hfirst, rfl⟩
  | maxPaths hget _ =>
    rw [(g.combine_spliced t).maxPaths] at hget
    obtain ⟨req, hreq, hm⟩ := List.mem_flatMap.mp ((g.combine_combines t).balances.mem _ _ hget)
    exact ⟨req, mem_strictestFirst.mp hreq, (ResolvedRequirement.mem_askedMaxPaths.mp hm).1⟩

theorem ospfCost_of_mem_lower {n : Nat} {b : RouterId} {d : Decision}
    (h : .ospfCost n ∈ mark.lower b d) : mark.protocol = .ospf ∧ n = GroupMark.cost d := by
  rw [GroupMark.lower] at h
  split at h
  · simp at h
  · next hp => exact ⟨hp, by simpa using h⟩
  · simp at h

theorem costsAgree_of_mem_bundles {b : Bundle} (hb : b ∈ g.bundles mark (g.commitments t)) :
    NodePolicy.CostsAgree b.entries := by
  have hcost : ∀ e ∈ b.entries, ∀ n, e.primitive = .ospfCost n →
      ∃ i, (g.commitments t).intents.get? ⟨b.router, e.key.neighbor, g.direction⟩ = some i ∧
        n = GroupMark.cost i.decision := by
    intro e he n hn
    cases Bundled.of_mem hb he with
    | @decision k i p hget hrouter hc hp =>
      obtain rfl : p = .ospfCost n := hn
      obtain ⟨_, _, _, _, _, _, hk⟩ := exists_asks hget
      refine ⟨i, ?_, (ospfCost_of_mem_lower hp).2⟩
      rw [← hrouter]
      subst hk
      exact hget
    | network _ _ _ _ => cases hn
    | maxPaths _ _ => cases hn
  intro e he e' he' n n' hn hn' hkey
  obtain ⟨i, hi, rfl⟩ := hcost e he n hn
  obtain ⟨i', hi', rfl⟩ := hcost e' he' n' hn'
  rw [hkey, hi'] at hi
  rw [Option.some.inj hi]

end RequirementGroup

end PathPolicy
