import PathPolicy.Network.Diamond
import PathPolicy.Proofs.ForwardingLoops
import PathPolicy.Proofs.SoleRequirement

/-! Groups of exclusive paths. Their requirements can be met together exactly if all paths through a
router go on to the same neighbor. All of them give the same value to a hop that they share, since
each path leads down to the destination one by one. -/

namespace PathPolicy

namespace ResolvedRequirement

variable {t : Topology} {g : RequirementGroup} {req : ResolvedRequirement} {a b c d : RouterId}
  {p : List RouterId} {heights : List (RouterId × Nat)}

/-- The requirement asks for a single path, and for no other one. -/
structure Exclusive (req : ResolvedRequirement) (p : List RouterId) : Prop where
  kind : req.kind = .path
  paths : req.paths = [p]

namespace Exclusive

theorem uses_iff (he : req.Exclusive p) : req.Uses a b ↔ Hop p a b := by
  simp [Uses, he.paths]

theorem get?_ranks (he : req.Exclusive p) {rank : Nat} :
    (req.ranks.hops a).get? b = some rank ↔ Hop p a b ∧ rank = 0 := by
  have hzero : (req.ranks.hops a).get? b = some 0 ↔ Hop p a b := by
    rw [get?_ranks_eq_zero_iff_uses (by simp [he.kind]), he.uses_iff]
  constructor
  · intro h
    have hh := he.uses_iff.mp (exists_get?_ranks.mp ⟨rank, h⟩)
    exact ⟨hh, Option.some.inj (h.symm.trans (hzero.mpr hh))⟩
  · rintro ⟨hh, rfl⟩
    exact hzero.mpr hh

theorem exists_heights (he : req.Exclusive p) (hv : req.Valid t d) :
    ∃ heights, req.heights req.ranks d = .ok heights :=
  hv.exists_heights_of_alternatives (.inl he.kind) fun _ => ⟨p, he.paths⟩

theorem exists_intents (he : req.Exclusive p) (hv : req.Valid t g.destination) :
    ∃ r, req.intents t g = .ok r := by
  obtain ⟨heights, hh⟩ := he.exists_heights hv
  rw [intents]
  change ∃ r, (req.heights req.ranks g.destination >>= fun heights => _) = Except.ok r
  rw [hh]
  exact ⟨_, rfl⟩

/-- A path falls by one at each hop. -/
theorem height_le (he : req.Exclusive p) (hv : req.Valid t d)
    (hh : req.heights req.ranks d = .ok heights) (hop : Hop p a b) :
    heightIn heights a ≤ heightIn heights b + 1 := by
  have hedge : ∀ {x y}, (x, y) ∈ (req.ranks.preferred d).edges ↔ Hop p x y := by
    intro x y
    rw [HopRanks.mem_edges_preferred, he.get?_ranks]
    exact and_iff_left rfl
  have hnd : p.Nodup := hv.simple p (by simp [he.paths])
  rw [ResolvedRequirement.heights, if_neg (by simp [he.kind]), preferredHeights] at hh
  cases ho : (req.ranks.preferred d).topologicalOrder with
  | error x => simp [ho] at hh
  | ok order =>
    simp only [ho, Except.ok.injEq] at hh
    subst heights
    have horder := Digraph.topologicalOrder_ok ho
    have ha : a ∈ order := (horder.mem_iff a).mpr
      ((HopRanks.preferred_wellFormed req.ranks d).ends a b (hedge.mpr hop)).1
    have hself : (a, a) ∉ (req.ranks.preferred d).edges := fun hm =>
      (hedge.mp hm).ne_of_nodup hnd rfl
    rw [heightIn, Digraph.lookup_heights horder.nodup horder.forward hself ha, Option.getD_some]
    refine Digraph.heightOver_le fun c k hc hk => ?_
    obtain rfl := Hop.right_unique hnd hop (hedge.mp hc)
    rw [heightIn, hk, Option.getD_some]

theorem levels_eq (he : req.Exclusive p) (hop : Hop p a b) : req.ranks.levels a = 1 := by
  have hmem : ∀ k ∈ (req.ranks.hops a).values, k = 0 := by
    intro k hk
    obtain ⟨c, hc⟩ := OrderedMap.mem_values_iff.mp hk
    exact (he.get?_ranks.mp hc).2
  have hlt := HopRanks.lt_levels (he.get?_ranks.mpr ⟨hop, rfl⟩)
  rw [HopRanks.levels] at hlt ⊢
  split
  · next k hk => rw [hmem k (List.max?_mem hk)]
  · rfl

/-- All exclusive paths give the same value to their hops, whatever their length. -/
theorem decisionFor_of_hop (he : req.Exclusive p) (hv : req.Valid t d)
    (hh : req.heights req.ranks d = .ok heights) (hop : Hop p a b) :
    req.decisionFor t g heights a b = .permit 1 := by
  refine decisionFor_eq_permit_iff.mpr ⟨0, he.get?_ranks.mpr ⟨hop, rfl⟩, ?_⟩
  have hk : req.kind ≠ .kConnected := by simp [he.kind]
  cases g.protocol with
  | bgp => rw [permitValue_bgp hk, he.levels_eq hop, leastLocalPref]
  | ospf =>
    have hle := he.height_le hv hh hop
    rw [permitValue_ospf hk]
    omega
  | static =>
    rw [he.kind]
    rfl

theorem decisionFor_of_not_hop (he : req.Exclusive p) (hop : ¬ Hop p a b) :
    req.decisionFor t g heights a b = .deny :=
  decisionFor_eq_deny_iff.mpr fun h => hop (he.uses_iff.mp h)

end Exclusive

end ResolvedRequirement

namespace RequirementGroup

variable {t : Topology} {g : RequirementGroup} {req : ResolvedRequirement} {a b c : RouterId}
  {p q : List RouterId} {community : Option Community} {policy : GroupPolicy}

/-- All requirements ask for single paths. -/
def ExclusivePaths (g : RequirementGroup) : Prop := ∀ req ∈ g.requirements, ∃ p, req.Exclusive p

/-- All paths through the router go on to this neighbor. -/
def Follows (g : RequirementGroup) (a b : RouterId) : Prop := ∀ p ∈ g.paths, a ∈ p → Hop p a b

/-- All paths through a router go on to the same neighbor. -/
def SuccessorsAgree (g : RequirementGroup) : Prop := ∀ a, g.Involves a → ∃ b, g.Follows a b

theorem exists_hop_of_uses (hreq : req ∈ g.requirements) (h : req.Uses a b) :
    ∃ p ∈ g.paths, Hop p a b := by
  obtain ⟨p, hp, hh⟩ := h
  exact ⟨p, mem_paths.mpr ⟨req, hreq, hp⟩, hh⟩

theorem Valid.nodup_of_mem (hv : g.Valid t) (hp : p ∈ g.paths) : p.Nodup := by
  obtain ⟨req, hreq, hp⟩ := mem_paths.mp hp
  exact (hv req hreq).simple p hp

theorem Valid.ends_of_mem (hv : g.Valid t) (hp : p ∈ g.paths) :
    p.getLast? = some g.destination := by
  obtain ⟨req, hreq, hp⟩ := mem_paths.mp hp
  exact (hv req hreq).ends p hp

theorem Follows.eq_of_hop (h : g.Follows a b) (hv : g.Valid t) (hp : p ∈ g.paths)
    (hop : Hop p a c) : c = b :=
  Hop.right_unique (hv.nodup_of_mem hp) hop (h p hp hop.left_mem)

theorem Follows.decisionFor_eq {heights : List (RouterId × Nat)} (h : g.Follows a b)
    (hv : g.Valid t) (hreq : req ∈ g.requirements) (he : req.Exclusive p)
    (hh : req.heights req.ranks g.destination = .ok heights) (huses : ∃ c, req.Uses a c) :
    req.decisionFor t g heights a c = if c = b then .permit 1 else .deny := by
  have hp : p ∈ g.paths := mem_paths.mpr ⟨req, hreq, by simp [he.paths]⟩
  obtain ⟨x, hx⟩ := huses
  have hop := h p hp (he.uses_iff.mp hx).left_mem
  split
  · next hcb => exact he.decisionFor_of_hop (hv req hreq) hh (hcb ▸ hop)
  · next hcb => exact he.decisionFor_of_not_hop fun hc => hcb (h.eq_of_hop hv hp hc)

namespace ExclusivePaths

theorem exists_req (he : g.ExclusivePaths) (hp : p ∈ g.paths) :
    ∃ req ∈ g.requirements, req.Exclusive p := by
  obtain ⟨req, hreq, hpr⟩ := mem_paths.mp hp
  obtain ⟨q, hq⟩ := he req hreq
  rw [hq.paths, List.mem_singleton] at hpr
  exact ⟨req, hreq, hpr ▸ hq⟩

theorem harmonious (he : g.ExclusivePaths) (hv : g.Valid t) (hagree : g.SuccessorsAgree) :
    g.Harmonious t := by
  refine ⟨fun req hreq => ?_, fun i hi j hj hkey => Intent.agrees_of_decision_eq ?_⟩
  · obtain ⟨p, hp⟩ := he req hreq
    exact hp.exists_intents (hv req hreq)
  · obtain ⟨req, hreq, hi⟩ := List.mem_flatMap.mp hi
    obtain ⟨req', hreq', hj⟩ := List.mem_flatMap.mp hj
    obtain ⟨_, heights, _, hover, hi⟩ := ResolvedRequirement.mem_asked.mp hi
    obtain ⟨_, heights', _, hover', hj⟩ := ResolvedRequirement.mem_asked.mp hj
    obtain ⟨a, b, huses, -, rfl⟩ := (hover.mem_iff i).mp hi
    obtain ⟨a', b', huses', -, rfl⟩ := (hover'.mem_iff j).mp hj
    obtain ⟨rfl, rfl, -⟩ := PolicyKey.mk.inj hkey
    obtain ⟨p, hp⟩ := he req hreq
    obtain ⟨p', hp'⟩ := he req' hreq'
    obtain ⟨x, hx⟩ := huses
    obtain ⟨q, hq, hop⟩ := exists_hop_of_uses hreq hx
    obtain ⟨s, hs⟩ := hagree a
      ⟨hop.ne_last (hv.nodup_of_mem hq) (hv.ends_of_mem hq), q, hq, hop.left_mem⟩
    change req.decisionFor t g heights a b = req'.decisionFor t g heights' a b
    rw [hs.decisionFor_eq hv hreq hp hover.heights_eq ⟨x, hx⟩,
      hs.decisionFor_eq hv hreq' hp' hover'.heights_eq huses']

theorem mem_paths_of_mixed (hv : g.Valid t) (hagree : g.SuccessorsAgree) (h : g.Mixed q) :
    q ∈ g.paths := by
  obtain ⟨m, hm, hhead⟩ := h.source
  -- From the same source on, both paths take the only successor of each router.
  have hmq : m = q := eq_of_hops hhead (hv.ends_of_mem hm) h.last (hv.nodup_of_mem hm) h.nodup
    fun a b c hb hc => ?_
  · exact hmq ▸ hm
  · obtain ⟨req, hreq, huses⟩ := hc.of_isChain h.chain
    obtain ⟨p, hp, hpc⟩ := exists_hop_of_uses hreq huses
    obtain ⟨s, hs⟩ := hagree a
      ⟨hb.ne_last (hv.nodup_of_mem hm) (hv.ends_of_mem hm), m, hm, hb.left_mem⟩
    rw [hs.eq_of_hop hv hm hb, hs.eq_of_hop hv hp hpc]

/-- Where a router is free of conflict, a path that takes another hop would deny the committed one. -/
theorem successorsAgree_of_clear (he : g.ExclusivePaths) (hv : g.Valid t) (hc : g.Clear t) :
    g.SuccessorsAgree := by
  intro a ha
  obtain ⟨req, hreq, b, huses⟩ := ha.exists_uses hv
  obtain ⟨p, hp⟩ := he req hreq
  obtain ⟨heights, hh⟩ := hp.exists_heights (hv req hreq)
  refine ⟨b, fun q hq haq => ?_⟩
  obtain ⟨req', hreq', hq'⟩ := he.exists_req hq
  obtain ⟨heights', hh'⟩ := hq'.exists_heights (hv req' hreq')
  obtain ⟨c, hqc, huses'⟩ := (hv req' hreq').exists_uses (by simp [hq'.paths]) haq ha.1
  have hadj := (hv req hreq).adjacent_of_uses huses
  have hpermit := decision_of_strict hc hreq (hv req hreq) (by simp [hp.kind]) hh huses hadj
  have hdeny := decision_of_strict hc hreq' (hv req' hreq') (by simp [hq'.kind]) hh' huses' hadj
  rw [hp.decisionFor_of_hop (hv req hreq) hh (hp.uses_iff.mp huses)] at hpermit
  -- The committed decision of `a` toward `b` would be both of them.
  by_contra hno
  rw [hq'.decisionFor_of_not_hop hno, hpermit] at hdeny
  cases hdeny

theorem decision?_eq (he : g.ExclusivePaths) (hv : g.Valid t) (hc : g.Clear t)
    (ha : g.Involves a) (hb : g.Follows a b) (c : RouterId) : g.decision? t a c =
      if c = b then some (.permit 1) else if t.adjacent a c = true then some .deny else none := by
  obtain ⟨req, hreq, x, huses⟩ := ha.exists_uses hv
  obtain ⟨p, hp⟩ := he req hreq
  obtain ⟨heights, hh⟩ := hp.exists_heights (hv req hreq)
  have hdecision : t.adjacent a c = true →
      g.decision? t a c = some (if c = b then .permit 1 else .deny) := by
    intro hadj
    rw [decision_of_strict hc hreq (hv req hreq) (by simp [hp.kind]) hh huses hadj,
      hb.decisionFor_eq hv hreq hp hh ⟨x, huses⟩]
  by_cases hadj : t.adjacent a c = true
  · rw [hdecision hadj]
    split <;> simp
  · have hne : c ≠ b := by
      rintro rfl
      have hop := hb p (mem_paths.mpr ⟨req, hreq, by simp [hp.paths]⟩) (hp.uses_iff.mp huses).left_mem
      exact hadj ((hv req hreq).adjacent_of_uses (hp.uses_iff.mpr hop))
    rw [if_neg hne, if_neg hadj]
    refine Option.eq_none_iff_forall_ne_some.mpr fun d hd => ?_
    obtain ⟨_, _, _, _, _, hadj', _⟩ := exists_asks_of_decision hd
    exact hadj hadj'

/-- Exclusive paths conflict exactly if they part at some router. Without conflict each router
permits its only successor, and denies all other neighbors. -/
theorem conflicts_eq_nil_iff (he : g.ExclusivePaths) (hv : g.Valid t)
    (hn : g.protocol ≠ .ospf → g.networks t ≠ []) (community : Option Community) :
    ∃ policy, g.synthesize t community = .ok policy ∧
      (policy.conflicts = [] ↔ g.SuccessorsAgree) ∧
      (policy.conflicts = [] → ∀ a b, g.Involves a → g.Follows a b → ∀ c,
        policy.decisions.get? ⟨a, c, g.direction⟩ = if c = b then some (.permit 1)
          else if t.adjacent a c = true then some .deny else none) := by
  obtain ⟨policy, h⟩ := exists_policy hv hn community
  have hconflicts : policy.conflicts = (g.commitments t).conflicts := by rw [synthesize_ok h]
  have hclear : policy.conflicts = [] → g.Clear t := by
    intro hnil a
    have hno := (g.combine_spliced t).blames.silent (hconflicts ▸ hnil)
    simp [Commitments.isConflicted, hno]
  refine ⟨policy, h, ⟨fun hnil => he.successorsAgree_of_clear hv (hclear hnil), fun hagree => ?_⟩,
    fun hnil a b ha hb c => ?_⟩
  · rw [hconflicts]
    exact (clear_of_members (he.harmonious hv hagree) fun _ => mem_paths_of_mixed hv hagree).1
  · rw [get?_decisions h, ← he.decision?_eq hv (hclear hnil) ha hb c, decision?, hclear hnil a]
    cases (g.commitments t).intents.get? ⟨a, c, g.direction⟩ <;> rfl

end ExclusivePaths

end RequirementGroup

namespace Network.Diamond

/-- A path from `S` to `D` over `A`, and its end as a path of its own. -/
def nested : Store :=
  ((Store.ofTopology topology).addAll
    [.path (path .bgp "A"), .path ⟨.bgp, "D", ["A", "D"], false⟩]).1

def nestedGroup : RequirementGroup :=
  ⟨.bgp, 3, [⟨⟨0, .path, .bgp, "D"⟩, false, [[0, 1, 3]]⟩, ⟨⟨1, .path, .bgp, "D"⟩, false, [[1, 3]]⟩]⟩

theorem nested_group : (Resolver.mk topology false).group nested ⟨.bgp, "D"⟩ =
    .ok (some nestedGroup) := by decide +kernel

theorem nestedGroup_grounded : Resolver.Grounded topology nestedGroup := by
  have hkey : ⟨.bgp, "D"⟩ ∈ nested.keys := by decide +kernel
  exact (Resolver.group_ok nested_group).grounded (Store.Filled.new.addAll _).sound hkey

theorem nestedGroup_exclusive : nestedGroup.ExclusivePaths := by
  intro req hreq
  rcases List.mem_pair.mp hreq with rfl | rfl
  exacts [⟨[0, 1, 3], rfl, rfl⟩, ⟨[1, 3], rfl, rfl⟩]

theorem nestedGroup_follows : nestedGroup.Follows 0 1 ∧ nestedGroup.Follows 1 3 := by
  have hmem : ∀ p ∈ nestedGroup.paths, p = [0, 1, 3] ∨ p = [1, 3] := by decide
  refine ⟨fun p hp ha => ?_, fun p hp ha => ?_⟩
  · rcases hmem p hp with rfl | rfl
    · simp [Hop.cons_iff]
    · simp at ha
  · rcases hmem p hp with rfl | rfl <;> simp [Hop.cons_iff]

theorem nestedGroup_agrees : nestedGroup.SuccessorsAgree := by
  have hinvolves : ∀ p ∈ nestedGroup.paths, ∀ a ∈ p, a ≠ nestedGroup.destination →
      a = 0 ∨ a = 1 := by decide
  rintro a ⟨hne, p, hp, ha⟩
  rcases hinvolves p hp a ha hne with rfl | rfl
  exacts [⟨1, nestedGroup_follows.1⟩, ⟨3, nestedGroup_follows.2⟩]

/-- The top of the diamond permits `A` and denies `B`. -/
theorem conflicts_eq_nil_iff_diamond : ∃ policy,
    nestedGroup.synthesize topology none = .ok policy ∧ policy.conflicts = [] ∧
      policy.decisions.get? ⟨0, 1, .incoming⟩ = some (.permit 1) ∧
      policy.decisions.get? ⟨0, 2, .incoming⟩ = some .deny := by
  obtain ⟨policy, h, hiff, hdecisions⟩ :=
    nestedGroup_exclusive.conflicts_eq_nil_iff nestedGroup_grounded.valid
      (fun _ => by decide +kernel) none
  have hnil := hiff.mpr nestedGroup_agrees
  have htop : nestedGroup.Involves 0 := ⟨by decide, [0, 1, 3], by decide, by decide⟩
  have hat := hdecisions hnil 0 1 htop nestedGroup_follows.1
  refine ⟨policy, h, hnil, hat 1, (hat 2).trans ?_⟩
  decide +kernel

end Network.Diamond

end PathPolicy
