import PathPolicy.Proofs.Admission
import PathPolicy.Proofs.SharedNetworks
import PathPolicy.Proofs.Traffic

/-! Traffic over static routes stays on hops of the members. It reaches the destination along a
member or runs into a loop, and a loop has only routers that no strict requirement goes through: a
requirement whose members are all equally good gives all its hops the same distance, so that traffic
may take a hop from one member and the way back from another one. -/

namespace PathPolicy

open RequirementGroup ResolvedRequirement

namespace Static

variable {t : Topology} {m : PolicyModel} {p : NodePolicy} {ns : List Address} {r : StaticRoute}
  {a b d : RouterId}

/-- The next hops are those of the routes of the least distance. -/
theorem mem_hopsOf : b ∈ hopsOf t ns p ↔ ∃ r ∈ p.staticRoutes, r.network ∈ ns ∧ r.nextHop = b ∧
    ∀ r' ∈ p.staticRoutes, r'.network ∈ ns → r.distance ≤ r'.distance := by
  have hmem : ∀ r, r ∈ p.staticRoutes.filter (fun r => ns.contains r.network) ↔
      r ∈ p.staticRoutes ∧ r.network ∈ ns := by
    simp [List.mem_filter]
  rw [hopsOf]
  split
  · next hnone =>
    have hnil := List.map_eq_nil_iff.mp (List.min?_eq_none_iff.mp hnone)
    refine ⟨fun h => absurd h List.not_mem_nil, ?_⟩
    rintro ⟨r, hr, hn, _⟩
    have hin := (hmem r).mpr ⟨hr, hn⟩
    rw [hnil] at hin
    exact absurd hin List.not_mem_nil
  · next least hleast =>
    obtain ⟨hin, hle⟩ := List.min?_eq_some_iff.mp hleast
    rw [mem_eraseReps, Topology.sortedByName, mem_sortBy, List.mem_map]
    constructor
    · rintro ⟨r, hr, rfl⟩
      obtain ⟨hr, hequal⟩ := List.mem_filter.mp hr
      obtain ⟨hr, hn⟩ := (hmem r).mp hr
      refine ⟨r, hr, hn, rfl, fun r' hr' hn' => ?_⟩
      rw [of_decide_eq_true hequal]
      exact hle _ (List.mem_map_of_mem ((hmem r').mpr ⟨hr', hn'⟩))
    · rintro ⟨r, hr, hn, rfl, hall⟩
      have hin' := (hmem r).mpr ⟨hr, hn⟩
      obtain ⟨r₀, hr₀, rfl⟩ := List.mem_map.mp hin
      obtain ⟨hroute, hnetwork⟩ := (hmem r₀).mp hr₀
      refine ⟨r, List.mem_filter.mpr ⟨hin', decide_eq_true ?_⟩, rfl⟩
      exact Nat.le_antisymm (hall r₀ hroute hnetwork) (hle _ (List.mem_map_of_mem hin'))

theorem hopsOf_ne_nil (hr : r ∈ p.staticRoutes) (hn : r.network ∈ ns) : hopsOf t ns p ≠ [] := by
  have hin : r ∈ p.staticRoutes.filter fun r => ns.contains r.network := by simp [hr, hn]
  obtain ⟨least, hleast⟩ := Option.isSome_iff_exists.mp
    (List.isSome_min?_iff.mpr (List.ne_nil_of_mem (List.mem_map_of_mem (f := (·.distance)) hin)))
  obtain ⟨hleast, hle⟩ := List.min?_eq_some_iff.mp hleast
  obtain ⟨r₀, hr₀, rfl⟩ := List.mem_map.mp hleast
  obtain ⟨hroute, hnetwork⟩ := List.mem_filter.mp hr₀
  refine List.ne_nil_of_mem (mem_hopsOf.mpr ⟨r₀, hroute, by simpa using hnetwork, rfl, ?_⟩)
  exact fun r' hr' hn' => hle _ (List.mem_map_of_mem (by simp [hr', hn']))

theorem nextHops_forwarding (hne : a ≠ d) :
    (forwarding t m d).nextHops a = hopsOf t (networks t d) (m.policy a) := by
  have hkeys : (((m.nodes.entries.filter fun e => e.1 ≠ d).map fun e =>
      (e.1, hopsOf t (networks t d) e.2)).map (·.1)).Nodup := by
    rw [List.map_map]
    exact m.nodes.keys_nodup.sublist (List.filter_sublist.map _)
  rw [ForwardingState.nextHops, forwarding, ForwardingState.ofHops, PolicyModel.policy,
    PolicyModel.get?]
  cases hget : m.nodes.get? a with
  | none =>
    have hnot : a ∉ ((m.nodes.entries.filter fun e => e.1 ≠ d).map fun e =>
        (e.1, hopsOf t (networks t d) e.2)).map (·.1) := by
      intro hm
      obtain ⟨_, he, rfl⟩ := List.mem_map.mp hm
      obtain ⟨⟨x, p⟩, hx, rfl⟩ := List.mem_map.mp he
      have hsome := OrderedMap.get?_eq_some_iff.mpr (List.mem_filter.mp hx).1
      simp [hsome] at hget
    dsimp only
    rw [OrderedMap.get?_ofList_of_notMem hnot]
    rfl
  | some p =>
    have hmem : (a, hopsOf t (networks t d) p) ∈ (m.nodes.entries.filter fun e => e.1 ≠ d).map
        fun e => (e.1, hopsOf t (networks t d) e.2) :=
      List.mem_map.mpr ⟨(a, p), List.mem_filter.mpr
        ⟨OrderedMap.get?_eq_some_iff.mp hget, by simpa using hne⟩, rfl⟩
    dsimp only
    rw [OrderedMap.get?_ofList_of_mem hkeys hmem]
    rfl

end Static

theorem permitValue_static {kind : RequirementKind} {size : Nat} {ranks : HopRanks}
    {heights : List (RouterId × Nat)} {a b : RouterId} (hk : kind ≠ .kConnected) (d : Nat) :
    permitValue .static kind size ranks heights a b d = leastDistance + d := by
  cases kind <;> simp_all [permitValue]

/-- No two static destinations have a loopback network in common. -/
def Store.StaticNetworksDisjoint (t : Topology) (s : Store) : Prop :=
  ∀ r ∈ s.requirements, ∀ r' ∈ s.requirements, r.protocol = .static → r'.protocol = .static →
    r.destination ≠ r'.destination → (t.networksOf r.destination).Disjoint
      (t.networksOf r'.destination)

theorem Store.staticNetworksDisjoint_of_singleton {t : Topology} {s : Store} {r : Requirement}
    (h : s.requirements = [r]) : s.StaticNetworksDisjoint t := by
  intro x hx y hy _ _ hne
  exact absurd (destination_eq_of_singleton h hx hy) hne

namespace RequirementGroup

variable {t : Topology} {g : RequirementGroup} {req : ResolvedRequirement}
  {heights : List (RouterId × Nat)} {a b c x : RouterId} {p rest : List RouterId}

/-- Of the routers on a strict requirement, static routes have the ranks of its hops. -/
theorem decision?_eq_permit_iff_of_static (hc : g.Clear t) (hstatic : g.protocol = .static)
    (hreq : req ∈ g.requirements) (hv : req.Valid t g.destination) (hk : req.kind ≠ .kConnected)
    (huses : req.Uses a c) {v : Nat} : g.decision? t a b = some (.permit v) ↔
      ∃ d, (req.ranks.hops a).get? b = some d ∧ leastDistance + d = v := by
  obtain ⟨heights, hh⟩ := exists_heights hc hreq hv huses
  have hadjacent : t.adjacent a b = true → (g.decision? t a b = some (.permit v) ↔
      ∃ d, (req.ranks.hops a).get? b = some d ∧ leastDistance + d = v) := by
    intro hadj
    rw [decision_of_strict hc hreq hv hk hh huses hadj, Option.some.injEq, decisionFor_eq_permit_iff]
    simp only [hstatic, permitValue_static hk]
  constructor
  · intro hd
    obtain ⟨_, _, _, _, _, hadj, _⟩ := exists_asks_of_decision hd
    exact (hadjacent hadj).mp hd
  · rintro ⟨d, hd, hvalue⟩
    exact (hadjacent (hv.adjacent_of_uses (exists_get?_ranks.mp ⟨d, hd⟩))).mpr ⟨d, hd, hvalue⟩

/-- The hop is allowed, and follows each strict requirement that goes through its first router. -/
structure StaticHop (g : RequirementGroup) (t : Topology) (a b : RouterId) : Prop where
  allows : g.Allows t a b
  falls : ∀ req ∈ g.requirements, req.kind ≠ .kConnected → ∀ heights,
    req.heights req.ranks g.destination = .ok heights → (∃ q ∈ req.paths, a ∈ q) →
      (∃ q ∈ req.paths, b ∈ q) ∧ heightIn heights b < heightIn heights a

theorem ne_destination_of_allows (hv : g.Valid t) (h : g.Allows t a b) : a ≠ g.destination := by
  obtain ⟨v, hd⟩ := h
  obtain ⟨req, hreq, huses⟩ := exists_uses_of_permit hd
  exact (hv req hreq).ne_destination_of_uses huses

theorem falls_of_isChain (hreq : req ∈ g.requirements) (hk : req.kind ≠ .kConnected)
    (hh : req.heights req.ranks g.destination = .ok heights)
    (hchain : (a :: rest).IsChain (g.StaticHop t)) (ha : ∃ q ∈ req.paths, a ∈ q) :
    ∀ x ∈ rest, (∃ q ∈ req.paths, x ∈ q) ∧ heightIn heights x < heightIn heights a := by
  induction rest generalizing a with
  | nil => exact fun x hx => absurd hx List.not_mem_nil
  | cons b rest ih =>
    obtain ⟨hab, hchain'⟩ := List.isChain_cons_cons.mp hchain
    obtain ⟨hb, hlt⟩ := hab.falls req hreq hk heights hh ha
    intro x hx
    rcases List.mem_cons.mp hx with rfl | hx
    · exact ⟨hb, hlt⟩
    · obtain ⟨hon, hlt'⟩ := ih hchain' hb x hx
      exact ⟨hon, hlt'.trans hlt⟩

/-- Loops stay off the strict requirements, since their heights would fall all the way round. -/
theorem kConnected_of_loops (hv : g.Valid t) (hc : g.Clear t)
    (hloop : ForwardingState.Loops p) (hchain : p.IsChain (g.StaticHop t)) (hx : x ∈ p)
    (hreq : req ∈ g.requirements) (hon : ∃ q ∈ req.paths, x ∈ q) : req.kind = .kConnected := by
  obtain ⟨pre, b, rfl, hb⟩ := hloop
  have hafter : ∀ y ∈ pre, ∃ rest, (y :: (rest ++ [b])).IsChain (g.StaticHop t) := by
    intro y hy
    obtain ⟨before, rest, rfl⟩ := List.append_of_mem hy
    refine ⟨rest, hchain.suffix ?_⟩
    rw [List.append_assoc, List.cons_append]
    exact List.suffix_append before _
  have hx' : x ∈ pre := by
    rcases List.mem_append.mp hx with hx | hx
    · exact hx
    · exact List.mem_singleton.mp hx ▸ hb
  obtain ⟨rest, hrest⟩ := hafter x hx'
  by_contra hk
  obtain ⟨q, hq, hxq⟩ := hon
  have hne : x ≠ g.destination := by
    cases rest with
    | nil => exact ne_destination_of_allows hv (List.isChain_cons_cons.mp hrest).1.allows
    | cons c rest => exact ne_destination_of_allows hv (List.isChain_cons_cons.mp hrest).1.allows
  obtain ⟨c, _, huses⟩ := (hv req hreq).exists_uses hq hxq hne
  obtain ⟨heights, hh⟩ := exists_heights hc hreq (hv req hreq) huses
  obtain ⟨hbon, _⟩ := falls_of_isChain hreq hk hh hrest ⟨q, hq, hxq⟩ b (by simp)
  obtain ⟨rest', hrest'⟩ := hafter b hb
  obtain ⟨_, hlt⟩ := falls_of_isChain hreq hk hh hrest' hbon b (by simp)
  exact Nat.lt_irrefl _ hlt

end RequirementGroup

namespace Synthesizer

variable {s : Synthesizer} {store : Store} {gs : List RequirementGroup} {model : PolicyModel}
  {conflicts : List Conflict} {entries : RouterId → List PolicyEntry} {g : RequirementGroup}
  {community : Option Community} {a b : RouterId}

section Static

variable (h : s.Ran gs model conflicts entries) (hdistinct : gs.Pairwise Resolver.Distinct)
  (hdisjoint : ∀ g ∈ gs, ∀ g' ∈ gs, g.protocol = .static → g'.protocol = .static →
    g.destination ≠ g'.destination → (g.networks s.topology).Disjoint (g'.networks s.topology))
  (hg : (g, community) ∈ s.marked gs) (hu : g.Unblamed conflicts) (hstatic : g.protocol = .static)
  (hground : Resolver.Grounded s.topology g)

include h hg hu hstatic

theorem exists_staticRoute {v : Nat} (hd : g.decision? s.topology a b = some (.permit v)) :
    ∃ r ∈ (model.policy a).staticRoutes, r.nextHop = b ∧ r.distance = v ∧
      r.network ∈ Static.networks s.topology g.destination := by
  obtain ⟨network, hnetwork⟩ :=
    List.exists_mem_of_ne_nil _ (h.networks_ne_nil hg (by simp [hstatic]))
  exact ⟨_, h.staticRoute_mem hg hu hstatic hd hnetwork, rfl, rfl,
    mem_staticNetworks_iff.mpr hnetwork⟩

omit hu in
include hdistinct hdisjoint in
theorem decision?_of_staticRoute {r : StaticRoute} (hr : r ∈ (model.policy a).staticRoutes)
    (hnetwork : r.network ∈ Static.networks s.topology g.destination) :
    g.decision? s.topology a r.nextHop = some (.permit r.distance) := by
  obtain ⟨x, hx, hxstatic, hd, hxnetwork⟩ := h.exists_decision_of_staticRoute hr
  obtain rfl := eq_of_common_network hdistinct hdisjoint hx hg hxstatic hstatic hxnetwork
    (mem_staticNetworks_iff.mp hnetwork)
  exact hd

include hdistinct hdisjoint hground

/-- Traffic on a strict requirement has its hops of rank zero. -/
theorem mem_nextHops_iff_rank_zero {req : ResolvedRequirement} {c : RouterId}
    (hreq : req ∈ g.requirements) (hk : req.kind ≠ .kConnected) (huses : req.Uses a c) :
    b ∈ (Static.forwarding s.topology model g.destination).nextHops a ↔
      (req.ranks.hops a).get? b = some 0 := by
  have hv := hground.valid req hreq
  have hpermit : ∀ b v, g.decision? s.topology a b = some (.permit v) ↔
      ∃ d, (req.ranks.hops a).get? b = some d ∧ leastDistance + d = v := fun b v =>
    decision?_eq_permit_iff_of_static (h.clear hg hu) hstatic hreq hv hk huses
  rw [Static.nextHops_forwarding (hv.ne_destination_of_uses huses), Static.mem_hopsOf]
  constructor
  · rintro ⟨r, hr, hnetwork, rfl, hleast⟩
    obtain ⟨d, hrank, hdistance⟩ := (hpermit _ _).mp
      (decision?_of_staticRoute h hdistinct hdisjoint hg hstatic hr hnetwork)
    -- the most preferred hop has the least distance that there is
    obtain ⟨b₀, hb₀⟩ := exists_preferred huses
    obtain ⟨r₀, hr₀, _, hdistance₀, hnetwork₀⟩ :=
      exists_staticRoute h hg hu hstatic ((hpermit b₀ _).mpr ⟨0, hb₀, rfl⟩)
    have hle := hleast r₀ hr₀ hnetwork₀
    obtain rfl : d = 0 := by omega
    exact hrank
  · intro hrank
    obtain ⟨r, hr, hnextHop, hdistance, hnetwork⟩ :=
      exists_staticRoute h hg hu hstatic ((hpermit b _).mpr ⟨0, hrank, rfl⟩)
    refine ⟨r, hr, hnetwork, hnextHop, fun r' hr' hnetwork' => ?_⟩
    obtain ⟨d, _, hdistance'⟩ := (hpermit _ _).mp
      (decision?_of_staticRoute h hdistinct hdisjoint hg hstatic hr' hnetwork')
    omega

theorem static_leads : (Static.forwarding s.topology model g.destination).Leads g.Involves
    (g.StaticHop s.topology) := by
  intro a ha
  have hclear := h.clear hg hu
  obtain ⟨first, hfirst, c, huses⟩ := ha.exists_uses hground.valid
  obtain ⟨v, hc⟩ := exists_permit_of_uses hclear hfirst (hground.valid first hfirst) huses
  obtain ⟨r, hr, _, _, hnetwork⟩ := exists_staticRoute h hg hu hstatic hc
  obtain ⟨b, hb⟩ := Option.isSome_iff_exists.mp
    (List.isSome_head?.mpr (Static.hopsOf_ne_nil (t := s.topology) hr hnetwork))
  rw [← Static.nextHops_forwarding ha.1] at hb
  have hmem := List.mem_of_head? hb
  have hbest := hmem
  rw [Static.nextHops_forwarding ha.1, Static.mem_hopsOf] at hbest
  obtain ⟨best, hbest, hbestnetwork, rfl, _⟩ := hbest
  have hallows : g.Allows s.topology a best.nextHop :=
    ⟨_, decision?_of_staticRoute h hdistinct hdisjoint hg hstatic hbest hbestnetwork⟩
  refine ⟨best.nextHop, hb, ⟨hallows, ?_⟩, hallows.involves⟩
  intro req hreq hk heights hh ⟨q, hq, haq⟩
  have hv := hground.valid req hreq
  obtain ⟨c, _, huses⟩ := hv.exists_uses hq haq ha.1
  have hrank := (mem_nextHops_iff_rank_zero h hdistinct hdisjoint hg hu hstatic hground hreq hk
    huses).mp hmem
  obtain ⟨q', hq', hhop⟩ := exists_get?_ranks.mp ⟨0, hrank⟩
  exact ⟨⟨q', hq', hhop.right_mem⟩, (hv.descends hk hh).lt_of_hop a best.nextHop hrank⟩

end Static

/-- Static traffic from each source takes a member path, or it loops over hops of the members between
routers that only requirements without a preference among their members go through. -/
theorem static_route_is_member_or_loops (hfilled : store.Filled s.topology)
    (hdisjoint : store.StaticNetworksDisjoint s.topology) (h : s.synthesize store = .ok model)
    (hgs : s.groups store = .ok gs) (hg : g ∈ gs) (hstatic : g.protocol = .static) :
    ∃ state, ForwardingState.compute s.topology model .static g.destination = .ok state ∧
      ∀ q ∈ g.paths, ∀ a, q.head? = some a → a ≠ g.destination →
        (∃ p ∈ g.paths, state.route a = .ok p) ∨
        ∃ p, state.route a = .error (.loop p) ∧ p.head? = some a ∧
          p.IsChain (fun x y => ∃ q ∈ g.paths, Hop q x y) ∧
          ∀ x ∈ p, ∀ req ∈ g.requirements, (∃ q ∈ req.paths, x ∈ q) → req.kind = .kConnected := by
  obtain ⟨entries, community, hran, hmarked, hdistinct, hground⟩ :=
    exists_ran hfilled (synthesizePartial_of_synthesize h) hgs hg
  have hd := disjoint_of_store (v := s.resolver) hfilled.sound hdisjoint (groups_ok hgs)
  have hu : g.Unblamed [] := fun c hc => absurd hc List.not_mem_nil
  have hclear := hran.clear hmarked hu
  obtain ⟨policy, hpolicy, _⟩ := hran.synthesized _ hmarked
  have hleads := static_leads hran hdistinct hd hmarked hu hstatic hground
  refine ⟨_, rfl, fun q hq a hhead hne => ?_⟩
  rcases ForwardingState.route_of_leads hleads ⟨hne, q, hq, List.mem_of_mem_head? hhead⟩ with
    ⟨p, hp, hpa, hnd, hchain, hlast⟩ | ⟨p, hp, hpa, hchain, hloop⟩
  · refine .inl ⟨p, ?_, hp⟩
    exact mem_paths_of_allows hground.valid hclear hpolicy ⟨q, hq, hhead⟩ hne hpa hnd
      (hchain.imp fun _ _ h => h.allows) hlast
  · refine .inr ⟨p, hp, hpa, hchain.imp fun x y hxy => ?_, fun x hx req hreq hon => ?_⟩
    · obtain ⟨v, hv⟩ := hxy.allows
      obtain ⟨req, hreq, q, hq, hhop⟩ := exists_uses_of_permit hv
      exact ⟨q, mem_paths.mpr ⟨req, hreq, hq⟩, hhop⟩
    · exact kConnected_of_loops hground.valid hclear hloop hchain hx hreq hon

end Synthesizer

namespace Network.Diamond

def orderedStaticGroup : RequirementGroup :=
  ⟨.static, 3, [⟨(ordered .static).reference 0, false, [[0, 1, 3], [0, 2, 3]]⟩]⟩

theorem ordered_static_groups :
    run.groups (storeOf (ordered .static)) = .ok [orderedStaticGroup] := by cbv

theorem ordered_staticNetworksDisjoint :
    (storeOf (ordered .static)).StaticNetworksDisjoint topology :=
  Store.staticNetworksDisjoint_of_singleton (r := ordered .static) (by decide +kernel)

/-- Static traffic from the top of the diamond takes one of the ordered paths. -/
theorem static_route_is_member_or_loops_diamond : ∃ model state,
    run.synthesize (storeOf (ordered .static)) = .ok model ∧
      ForwardingState.compute topology model .static 3 = .ok state ∧
      ∃ p ∈ [[0, 1, 3], [0, 2, 3]], state.route 0 = .ok p := by
  obtain ⟨model, h⟩ :=
    exists_ok_of_toBool (x := run.synthesize (storeOf (ordered .static))) (by cbv)
  obtain ⟨state, hstate, hroute⟩ := Synthesizer.static_route_is_member_or_loops
    (storeOf_filled _) ordered_staticNetworksDisjoint h ordered_static_groups
    List.mem_cons_self rfl
  refine ⟨model, state, h, hstate, ?_⟩
  rcases hroute [0, 1, 3] (by decide) 0 rfl (by decide) with hok | ⟨p, _, hhead, _, hkind⟩
  · exact hok
  · have hk := hkind 0 (List.mem_of_mem_head? hhead) _ List.mem_cons_self
      ⟨[0, 1, 3], by decide, by decide⟩
    exact absurd hk (by decide)

end Network.Diamond

namespace Network.Crossing

/-- The two ways from `S` to `D` are joined in the middle. -/
def topology : Topology :=
  (ofLinks [("S", "A"), ("S", "B"), ("A", "B"), ("A", "D"), ("B", "D")]).toOption.getD .empty

def run : Synthesizer := ⟨topology, .sequential⟩

def path (names : List String) : PathReq := ⟨.static, "D", names, false⟩

/-- All simple paths from `S` to `D` are members. -/
def requirement : Requirement :=
  .kConnected ⟨.static, "D", [path ["S", "A", "D"], path ["S", "A", "B", "D"],
    path ["S", "B", "A", "D"], path ["S", "B", "D"]], false⟩

def store : Store := ((Store.ofTopology topology).addAll [requirement]).1

def group : RequirementGroup :=
  ⟨.static, 3, [⟨requirement.reference 0, false,
    [[0, 1, 3], [0, 1, 2, 3], [0, 2, 1, 3], [0, 2, 3]]⟩]⟩

theorem store_filled : store.Filled topology := Store.Filled.new.addAll _

theorem staticNetworksDisjoint : store.StaticNetworksDisjoint topology :=
  Store.staticNetworksDisjoint_of_singleton (r := requirement) (by decide +kernel)

theorem groups_eq : run.groups store = .ok [group] := by decide +kernel

/-- Traffic from `S` is sent from `A` to `B` and back. -/
theorem static_traffic_loops : ∃ model state, store.Filled topology ∧
    store.StaticNetworksDisjoint topology ∧ run.synthesize store = .ok model ∧
    run.groups store = .ok [group] ∧
    ForwardingState.compute topology model .static 3 = .ok state ∧
    state.route 0 = .error (.loop [0, 1, 2, 1]) ∧ ¬ ∃ p, state.route 0 = .ok p := by
  obtain ⟨model, h⟩ := exists_ok_of_toBool (x := run.synthesize store) (by cbv)
  have hroute : (run.synthesize store).toOption.map
      (fun m => (Static.forwarding topology m 3).route 0) =
        some (.error (.loop [0, 1, 2, 1])) := by cbv
  rw [h] at hroute
  have hloop : (Static.forwarding topology model 3).route 0 = .error (.loop [0, 1, 2, 1]) :=
    Option.some.inj hroute
  refine ⟨model, _, store_filled, staticNetworksDisjoint, h, groups_eq, rfl, hloop, ?_⟩
  rintro ⟨p, hp⟩
  rw [hloop] at hp
  cases hp

end Network.Crossing

end PathPolicy
