import PathPolicy.Proofs.Splices

/-! The policy of a group. Routers without conflict permit the hops of the members and deny all
others, and a path from a source to the destination that is no member is denied somewhere. -/

namespace PathPolicy

namespace GroupPolicy

def Decides (p : GroupPolicy) (a : RouterId) : Prop := ∃ key ∈ p.decisions.keys, key.router = a

def Permits (p : GroupPolicy) (dir : Direction) (a b : RouterId) : Prop :=
  ∃ v, p.decisions.get? ⟨a, b, dir⟩ = some (.permit v)

theorem Permits.decides {p : GroupPolicy} {dir : Direction} {a b : RouterId}
    (h : p.Permits dir a b) : p.Decides a := by
  obtain ⟨v, hv⟩ := h
  exact ⟨_, OrderedMap.mem_keys_iff.mpr ⟨_, hv⟩, rfl⟩

end GroupPolicy

namespace RequirementGroup

variable {t : Topology} {g : RequirementGroup} {req : ResolvedRequirement} {i : Intent}
  {k : PolicyKey} {a b c : RouterId} {community : Option Community} {policy : GroupPolicy}

def commitments (g : RequirementGroup) (t : Topology) : Commitments :=
  g.checkSplices t (g.combine t)

def mark (g : RequirementGroup) (t : Topology) (community : Option Community) : GroupMark where
  protocol := g.protocol
  destination := g.destination
  community := community.getD ⟨defaultCommunityAsn, 0⟩
  networks := g.networks t

/-- The requirement asks `a` for this intent toward its neighbor `b`. -/
structure Asks (t : Topology) (g : RequirementGroup) (req : ResolvedRequirement) (a b : RouterId)
    (heights : List (RouterId × Nat)) (i : Intent) : Prop where
  heights_eq : req.heights req.ranks g.destination = .ok heights
  uses : ∃ c, req.Uses a c
  adjacent : t.adjacent a b = true
  intent_eq : i = req.intentFor t g heights a b

theorem exists_asks_of_combine (h : (g.combine t).intents.get? k = some i) :
    ∃ req ∈ g.requirements, ∃ a b heights, Asks t g req a b heights i ∧
      k = ⟨a, b, g.direction⟩ := by
  obtain ⟨hm, rfl⟩ := (g.combine_combines t).covers.committed k i h
  obtain ⟨req, hreq, hi⟩ := List.mem_flatMap.mp hm
  obtain ⟨r, heights, _, hover, hir⟩ := ResolvedRequirement.mem_asked.mp hi
  obtain ⟨a, b, huses, hadj, rfl⟩ := (hover.mem_iff i).mp hir
  exact ⟨req, mem_strictestFirst.mp hreq, a, b, heights, ⟨hover.heights_eq, huses, hadj, rfl⟩, rfl⟩

theorem mem_references_of_combine (h : (g.combine t).intents.get? k = some i) :
    i.origin ∈ g.strictestFirst.map (·.reference) := by
  obtain ⟨req, hreq, a, b, heights, hasks, _⟩ := exists_asks_of_combine h
  rw [hasks.intent_eq]
  exact List.mem_map.mpr ⟨req, mem_strictestFirst.mpr hreq, rfl⟩

theorem combine_spliced (g : RequirementGroup) (t : Topology) :
    (g.combine t).Spliced g (g.strictestFirst.map (·.reference)) (g.commitments t) :=
  checkSplices_spliced t (g.combine_combines t).blames fun _ _ h => mem_references_of_combine h

theorem not_isConflicted_combine (h : (g.commitments t).isConflicted a = false) :
    (g.combine t).isConflicted a = false := by
  by_contra hc
  simp [(g.combine_spliced t).conflicted a (by simpa using hc)] at h

theorem exists_asks (h : (g.commitments t).intents.get? k = some i) :
    ∃ req ∈ g.requirements, ∃ a b heights, Asks t g req a b heights i ∧ k = ⟨a, b, g.direction⟩ :=
  exists_asks_of_combine ((g.combine_spliced t).intents ▸ h)

theorem exists_settled_of_combine (hreq : req ∈ g.requirements) (hv : req.Valid t g.destination)
    (huses : req.Uses a c) (hc : (g.combine t).isConflicted a = false) :
    ∃ heights, req.heights req.ranks g.destination = .ok heights ∧
      ∀ b, t.adjacent a b = true → ∃ e, (g.combine t).intents.get? ⟨a, b, g.direction⟩ = some e ∧
        e.clash? (req.intentFor t g heights a b) = none := by
  have hcomb := g.combine_combines t
  have hmem := mem_strictestFirst.mpr hreq
  cases hr : req.intents t g with
  | error e =>
    obtain ⟨p, hp, hh⟩ := huses
    have hlooped := hcomb.looped req hmem e hr p hp a hh.left_mem
      (hv.ne_destination_of_uses ⟨p, hp, hh⟩)
    simp [hc] at hlooped
  | ok r =>
    obtain ⟨heights, hover⟩ := ResolvedRequirement.exists_intentsOver hr
    refine ⟨heights, hover.heights_eq, fun b hadj => ?_⟩
    have hi : req.intentFor t g heights a b ∈ r.intents :=
      (hover.mem_iff _).mpr ⟨a, b, ⟨c, huses⟩, hadj, rfl⟩
    obtain ⟨e, hget, hor⟩ := hcomb.covers.settled _ (List.mem_flatMap.mpr
      ⟨req, hmem, ResolvedRequirement.mem_asked.mpr ⟨r, heights, hr, hover, hi⟩⟩)
    refine ⟨e, hget, hor.resolve_left fun hconf => ?_⟩
    simp [ResolvedRequirement.intentFor, hc] at hconf

/-- A router without conflict is committed to all neighbors in line with each requirement. -/
theorem exists_settled (hreq : req ∈ g.requirements) (hv : req.Valid t g.destination)
    (huses : req.Uses a c) (hc : (g.commitments t).isConflicted a = false) :
    ∃ heights, req.heights req.ranks g.destination = .ok heights ∧
      ∀ b, t.adjacent a b = true → ∃ e,
        (g.commitments t).intents.get? ⟨a, b, g.direction⟩ = some e ∧
          e.clash? (req.intentFor t g heights a b) = none := by
  rw [(g.combine_spliced t).intents]
  exact exists_settled_of_combine hreq hv huses (not_isConflicted_combine hc)

theorem synthesize_ok (h : g.synthesize t community = .ok policy) : policy = {
    protocol := g.protocol
    destination := g.destination
    community := if g.protocol = .bgp then some (g.mark t community).community else none
    decisions := (settled (g.commitments t)).mapValues fun _ i => i.decision
    bundles := g.bundles (g.mark t community) (g.commitments t)
    conflicts := (g.commitments t).conflicts } := by
  rw [synthesize] at h
  dsimp only at h
  split at h
  · cases h
  · split at h
    · cases h
    · exact (Except.ok.inj h).symm

theorem networks_ne_nil_of_synthesize (h : g.synthesize t community = .ok policy)
    (hp : g.protocol ≠ .ospf) : g.networks t ≠ [] := by
  intro hnil
  rw [synthesize] at h
  simp [hnil, hp, bind, Except.bind, throw, throwThe, MonadExceptOf.throw] at h

theorem protocol_of_synthesize (h : g.synthesize t community = .ok policy) :
    policy.protocol = g.protocol := by
  rw [synthesize_ok h]

theorem get?_decisions (h : g.synthesize t community = .ok policy) (k : PolicyKey) :
    policy.decisions.get? k =
      (((g.commitments t).intents.get? k).filter fun _ =>
        !(g.commitments t).isConflicted k.router).map (·.decision) := by
  rw [synthesize_ok h, OrderedMap.get?_mapValues, settled, OrderedMap.get?_filter]

theorem decides_iff (h : g.synthesize t community = .ok policy) : policy.Decides a ↔
    (g.commitments t).isConflicted a = false ∧
      ∃ k i, (g.commitments t).intents.get? k = some i ∧ k.router = a := by
  simp only [GroupPolicy.Decides, OrderedMap.mem_keys_iff, get?_decisions h,
    Option.map_eq_some_iff, Option.filter_eq_some_iff, Bool.not_eq_true']
  constructor
  · rintro ⟨k, ⟨_, i, ⟨hget, hc⟩, _⟩, rfl⟩
    exact ⟨hc, k, i, hget, rfl⟩
  · rintro ⟨hc, k, i, hget, rfl⟩
    exact ⟨k, ⟨_, i, ⟨hget, hc⟩, rfl⟩, rfl⟩

theorem permits_iff (h : g.synthesize t community = .ok policy) :
    policy.Permits g.direction a b ↔ (g.commitments t).isConflicted a = false ∧
      ∃ i v, (g.commitments t).intents.get? ⟨a, b, g.direction⟩ = some i ∧
        i.decision = .permit v := by
  simp only [GroupPolicy.Permits, get?_decisions h, Option.map_eq_some_iff,
    Option.filter_eq_some_iff, Bool.not_eq_true']
  constructor
  · rintro ⟨v, i, ⟨hget, hc⟩, hd⟩
    exact ⟨hc, i, v, hget, hd⟩
  · rintro ⟨hc, i, v, hget, hd⟩
    exact ⟨v, i, ⟨hget, hc⟩, hd⟩

theorem admits_of_permits (h : g.synthesize t community = .ok policy)
    (hp : policy.Permits g.direction a b) : (g.combine t).Admits a b := by
  obtain ⟨hc, i, v, hget, hv⟩ := (permits_iff h).mp hp
  exact ⟨_, i, v, (g.combine_spliced t).intents ▸ hget, rfl, rfl, hv, not_isConflicted_combine hc⟩

/-- Hops of members are permitted wherever there is no conflict. -/
theorem permits_of_uses (hg : g.Valid t) (h : g.synthesize t community = .ok policy)
    (hreq : req ∈ g.requirements) (huses : req.Uses a b) (hd : policy.Decides a) :
    policy.Permits g.direction a b := by
  have hc := ((decides_iff h).mp hd).1
  obtain ⟨heights, _, hall⟩ := exists_settled hreq (hg req hreq) huses hc
  obtain ⟨e, hget, hclash⟩ := hall b ((hg req hreq).adjacent_of_uses huses)
  obtain ⟨v, hv⟩ := ResolvedRequirement.exists_decisionFor_of_uses t g heights huses
  obtain ⟨w, hw⟩ := Intent.permits_of_clash? hclash hv
  exact (permits_iff h).mpr ⟨hc, e, w, hget, hw⟩

/-- A path that is admitted, but no member, leaves the members at some router, and this router has a
conflict. -/
theorem mem_paths_of_permits (hg : g.Valid t) (h : g.synthesize t community = .ok policy)
    {p : List RouterId} (hnd : p.Nodup) (hlen : 2 ≤ p.length)
    (hsource : ∃ m ∈ g.paths, m.head? = p.head?) (hlast : p.getLast? = some g.destination)
    (hchain : p.IsChain (policy.Permits g.direction)) : p ∈ g.paths := by
  obtain ⟨a, b, rest, rfl⟩ : ∃ a b rest, p = a :: b :: rest := by
    match p, hlen with
    | a :: b :: rest, _ => exact ⟨a, b, rest, rfl⟩
  obtain ⟨m, hm, hhead⟩ := hsource
  have hadmits := hchain.imp fun x y hxy => admits_of_permits h hxy
  have ha : a ∈ g.sources (g.combine t) := by
    have hfirst : Hop (a :: b :: rest) a b := Hop.cons_iff.mpr (.inl ⟨rfl, rfl⟩)
    obtain ⟨_, _, _, _, _, _, _, hc⟩ := hfirst.of_isChain hadmits
    refine OrderedSet.mem_ofList.mpr (List.mem_filter.mpr
      ⟨List.mem_filterMap.mpr ⟨m, hm, hhead⟩, ?_⟩)
    simp [hfirst.ne_last hnd hlast, hc]
  have hfound := Commitments.mem_admittedPaths rfl ha hlast hnd hadmits
  by_contra hno
  cases hi : leavesAt? g.paths (a :: b :: rest) with
  | none =>
    obtain ⟨m, hm, hpre⟩ := exists_prefix_of_leavesAt? hi hlen
    obtain ⟨req, hreq, hmreq⟩ := mem_paths.mp hm
    have heq := eq_of_prefix hpre hlast ((hg req hreq).ends m hmreq) ((hg req hreq).simple m hmreq)
    exact hno (heq ▸ hm)
  | some i =>
    obtain ⟨hpos, hlt⟩ := lt_length_of_leavesAt? hi
    have hx := List.getElem?_eq_getElem (l := a :: b :: rest) (i := i - 1) (by omega)
    have hy := List.getElem?_eq_getElem hlt
    have hhop := Hop.of_getElem? hx (by rw [Nat.sub_add_cancel hpos]; exact hy)
    obtain ⟨hc, e, _, hget, _⟩ := (permits_iff h).mp (hhop.of_isChain hchain)
    rw [(g.combine_spliced t).intents] at hget
    have hconf := (g.combine_spliced t).spliced _ hfound _ _ ⟨hno, i, hi, hx, hy⟩
      (by simp [OrderedMap.contains, hget])
    simp [hc] at hconf

end RequirementGroup

end PathPolicy
