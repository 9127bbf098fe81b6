import PathPolicy.Proofs.ClauseCount
import PathPolicy.Proofs.ConfigText
import PathPolicy.Proofs.Marks

/-! The devices of a model can be read back if the names in the topology can: all that the synthesis
makes up itself, like the names of prefix lists and the numbers of clauses, is legible. -/

namespace PathPolicy

/-- The types of router numbers and AS numbers have 32 bits. -/
structure Topology.InRange (t : Topology) : Prop where
  size_le : t.size ≤ Text.limit32
  asn_lt : ∀ r ∈ t.routers, ∀ n ∈ r.asn, n < Text.limit32

/-- No name ends its line early, no router is without name, and no name takes the quotation mark
after it for its own. -/
structure Topology.Legible (t : Topology) : Prop where
  name_ne : ∀ r ∈ t.routers, r.name ≠ ""
  name_newline : ∀ r ∈ t.routers, '\n' ∉ r.name.toList
  name_quote : ∀ r ∈ t.routers, r.name.toList.getLast? ≠ some '"'
  first_newline : ∀ l ∈ t.links, '\n' ∉ l.first.name.toList
  second_newline : ∀ l ∈ t.links, '\n' ∉ l.second.name.toList

theorem isWord_prefixListName (c : Community) : Text.IsWord (prefixListName c).toList := by
  rw [toList_prefixListName]
  exact Text.isWord_numerals (.inr (by decide)) (by decide : Text.IsWord ['_']) c.asn c.value

namespace Topology

variable {t : Topology} {a b : RouterId} {i : Interface}

theorem name_cases (t : Topology) (a : RouterId) : t.name a = "?" ∨ ∃ r ∈ t.routers, r.name = t.name a := by
  rw [name, router?]
  cases hr : t.routers[a]? with
  | none => exact .inl rfl
  | some r => exact .inr ⟨r, List.mem_of_getElem? hr, rfl⟩

theorem Legible.newline_notMem_name (h : t.Legible) (a : RouterId) : '\n' ∉ (t.name a).toList := by
  rcases t.name_cases a with hname | ⟨r, hr, hname⟩
  · rw [hname]
    decide
  · exact hname ▸ h.name_newline r hr

theorem Legible.getLast?_name_ne (h : t.Legible) (a : RouterId) :
    (t.name a).toList.getLast? ≠ some '"' := by
  rcases t.name_cases a with hname | ⟨r, hr, hname⟩
  · rw [hname]
    decide
  · exact hname ▸ h.name_quote r hr

theorem Legible.newline_notMem_interface (h : t.Legible) (hi : t.interface? a b = some i) :
    '\n' ∉ i.name.toList := by
  obtain ⟨l, hl, hend⟩ := Option.bind_eq_some_iff.mp hi
  have hmem : l ∈ t.links := List.mem_of_find?_eq_some hl
  rw [Link.endpoint?] at hend
  split at hend
  · obtain rfl := Option.some.inj hend
    exact h.first_newline l hmem
  · split at hend
    · obtain rfl := Option.some.inj hend
      exact h.second_newline l hmem
    · cases hend

theorem InRange.asn?_lt (h : t.InRange) {n : Nat} (hn : t.asn? a = some n) : n < Text.limit32 := by
  obtain ⟨r, hr, hasn⟩ := Option.bind_eq_some_iff.mp hn
  exact h.asn_lt r (List.mem_of_getElem? hr) n hasn

end Topology

namespace GroupMark

variable {m : GroupMark} {b : RouterId} {d : Decision} {c : Clause}

theorem mem_conditions (h : c ∈ m.clauses b d) {k : Condition} (hk : k ∈ c.conditions) :
    k = m.ofDestination ∨ k = .community m.community := by
  rw [clauses.eq_def] at h
  split at h
  · split at h
    · rw [List.mem_singleton.mp h] at hk
      exact .inl (List.mem_singleton.mp hk)
    · rcases List.mem_pair.mp h with rfl | rfl
      · exact List.mem_pair.mp hk
      · exact .inl (List.mem_singleton.mp hk)
  · rw [List.mem_singleton.mp h] at hk
    exact .inl (List.mem_singleton.mp hk)

theorem isWord_of_mem_conditions (h : c ∈ m.clauses b d) {k : Condition} (hk : k ∈ c.conditions)
    {l : PrefixList} (hl : l ∈ k.prefixList?) : Text.IsWord l.name.toList := by
  rcases mem_conditions h hk with rfl | rfl
  · obtain rfl : m.prefixList = l := Option.some.inj hl
    exact isWord_prefixListName m.community
  · cases hl

end GroupMark

theorem NodePolicy.exists_mem_routeMap {p : NodePolicy} {c : Clause} (h : c ∈ p.clauses) :
    ∃ b dir, c ∈ p.routeMap b dir := by
  obtain ⟨cs, hcs, hc⟩ := List.mem_flatten.mp h
  obtain ⟨⟨b, dir⟩, hget⟩ := OrderedMap.mem_values_iff.mp hcs
  exact ⟨b, dir, by rwa [routeMap, hget]⟩

namespace PolicyModel

variable {m : PolicyModel} {t : Topology} {a b : RouterId} {router : Router} {n : BgpNeighborConfig}

/-- There is a device for each router. -/
theorem mem_devices {d : DeviceConfig} : d ∈ m.devices t ↔
    ∃ a router, t.router? a = some router ∧ d = m.deviceOf t a router := by
  rw [devices, List.mem_filterMap]
  constructor
  · rintro ⟨a, -, hd⟩
    obtain ⟨router, hr, rfl⟩ := Option.map_eq_some_iff.mp hd
    exact ⟨a, router, hr, rfl⟩
  · rintro ⟨a, router, hr, rfl⟩
    have ha : a ∈ t.routersByName :=
      mem_sortBy.mpr (List.mem_range.mpr (List.getElem?_eq_some_iff.mp hr).1)
    exact ⟨a, ha, by rw [device?, hr]; rfl⟩

theorem name_deviceOf (m : PolicyModel) (hr : t.router? a = some router) :
    (m.deviceOf t a router).name = t.name a := by
  rw [Topology.name, hr]
  rfl

/-- What the configuration of a router says about a session. -/
structure SessionOf (t : Topology) (a b : RouterId) (n : BgpNeighborConfig) : Prop where
  name : n.name = t.name b
  remoteAs : t.asn? b = some n.remoteAs
  ip : ∃ i, t.interface? b a = some i ∧ n.ip = i.address.ip
  routeMapIn : n.routeMapIn = routeMapName (t.name a) (t.name b) .incoming
  routeMapOut : n.routeMapOut = routeMapName (t.name a) (t.name b) .outgoing

theorem sessionOf_bgpNeighbor? (h : bgpNeighbor? t a b = some n) : SessionOf t a b n := by
  obtain ⟨asn, hasn, h⟩ := Option.bind_eq_some_iff.mp h
  obtain ⟨i, hi, h⟩ := Option.bind_eq_some_iff.mp h
  obtain rfl := Option.some.inj h
  exact ⟨rfl, hasn, ⟨i, hi, rfl⟩, rfl, rfl⟩

theorem sessionOf_of_mem {x : RouterId × BgpNeighborConfig} (h : x ∈ bgpSessions t a) :
    SessionOf t a x.1 x.2 := by
  obtain ⟨b, -, hb⟩ := List.mem_filterMap.mp h
  obtain ⟨n, hn, rfl⟩ := Option.map_eq_some_iff.mp hb
  exact sessionOf_bgpNeighbor? hn

/-- The route maps of a device are those of its sessions, two for each. -/
theorem mem_routeMaps_deviceOf {router : Router} {k : RouteMapConfig} :
    k ∈ (m.deviceOf t a router).routeMaps ↔ router.asn.isSome = true ∧
      ∃ x ∈ bgpSessions t a, ∃ dir, k = .ofClauses (routeMapName (t.name a) (t.name x.1) dir)
        ((m.policy a).routeMap x.1 dir) := by
  rw [deviceOf]
  cases router.asn with
  | none => simp
  | some asn =>
    simp only [Option.isSome_some, true_and, List.mem_flatMap]
    refine exists_congr fun x => and_congr_right fun hx => ?_
    have hsession := sessionOf_of_mem hx
    rw [sessionRouteMaps, List.mem_pair, hsession.routeMapIn, hsession.routeMapOut]
    constructor
    · rintro (rfl | rfl)
      exacts [⟨.incoming, rfl⟩, ⟨.outgoing, rfl⟩]
    · rintro ⟨dir, rfl⟩
      cases dir
      exacts [.inl rfl, .inr rfl]

theorem SessionOf.legible (h : SessionOf t a b n) (hrange : t.InRange) (hlegible : t.Legible) :
    n.Legible (t.name a) := by
  refine ⟨hrange.asn?_lt h.remoteAs, ?_, ?_, ?_, ?_⟩
  · exact h.name ▸ hlegible.newline_notMem_name b
  · exact h.name ▸ hlegible.getLast?_name_ne b
  · rw [h.name, h.routeMapIn]
  · rw [h.name, h.routeMapOut]

end PolicyModel

namespace Synthesizer

variable {s : Synthesizer} {store : Store} {model : PolicyModel} {conflicts : List Conflict}
  {a b : RouterId} {dir : Direction} {c : Clause} {router : Router}
  (h : s.synthesizePartial store = .ok (model, conflicts))

section Model

include h

theorem isWord_of_mem_routeMap (hc : c ∈ (model.policy a).routeMap b dir) {k : Condition}
    (hk : k ∈ c.conditions) {l : PrefixList} (hl : l ∈ k.prefixList?) :
    Text.IsWord l.name.toList := by
  obtain ⟨-, -, m, d, c', hc', hsame⟩ := mem_routeMap_model h hc
  rw [(Clause.same_iff.mp hsame).1] at hk
  exact GroupMark.isWord_of_mem_conditions hc' hk hl

theorem legible_ofClause (hrange : s.topology.InRange)
    (hc : c ∈ (model.policy a).routeMap b dir) : (ClauseConfig.ofClause c).Legible := by
  obtain ⟨-, horder, -⟩ := mem_routeMap_model h hc
  have hsize := hrange.size_le
  refine ⟨?_, ⟨c.conditions, rfl, fun k hk l hl => isWord_of_mem_routeMap h hc hk hl⟩,
    ⟨c.actions, rfl⟩⟩
  change c.order < 18446744073709551616
  change s.topology.size ≤ 4294967296 at hsize
  omega

theorem legible_ofClauses (hrange : s.topology.InRange) (hlegible : s.topology.Legible)
    (a b : RouterId) (dir : Direction) :
    (RouteMapConfig.ofClauses (routeMapName (s.topology.name a) (s.topology.name b) dir)
      ((model.policy a).routeMap b dir)).Legible (s.topology.name a) := by
  refine ⟨⟨_, _, rfl, hlegible.newline_notMem_name b⟩, fun k hk => ?_⟩
  rcases List.mem_append.mp hk with hk | hk
  · obtain ⟨c, hc, rfl⟩ := List.mem_map.mp hk
    exact legible_ofClause h hrange hc
  · have hsize := hrange.size_le
    rw [List.mem_singleton.mp hk]
    refine ⟨?_, ⟨[], rfl, by simp⟩, ⟨[], rfl⟩⟩
    change _ < 18446744073709551616
    change s.topology.size ≤ 4294967296 at hsize
    dsimp only [ClauseConfig.permitAll]
    split
    · next last hlast =>
      obtain ⟨c, hc, rfl⟩ := List.mem_map.mp (List.mem_of_getLast? hlast)
      obtain ⟨-, horder, -⟩ := mem_routeMap_model h hc
      change c.order + 10 < _
      omega
    · omega

theorem isWord_of_mem_matchedPrefixLists {l : PrefixList}
    (hl : l ∈ (model.policy a).matchedPrefixLists) : Text.IsWord l.name.toList := by
  obtain ⟨c, hc, hlist⟩ := List.mem_filterMap.mp (OrderedSet.mem_ofList.mp hl)
  obtain ⟨b, dir, hc⟩ := NodePolicy.exists_mem_routeMap hc
  obtain ⟨k, hk, hkl⟩ := List.exists_of_findSome?_eq_some hlist
  exact isWord_of_mem_routeMap h hc hk hkl

end Model

theorem legible_interfaces (hlegible : s.topology.Legible) {i : InterfaceConfig}
    (hi : i ∈ model.interfaces s.topology a router) : i.Legible := by
  rcases List.mem_append.mp hi with hi | hi
  · obtain ⟨⟨address, index⟩, -, rfl⟩ := List.mem_map.mp hi
    refine ⟨?_, by simp [PolicyModel.loopbackInterface]⟩
    have hdigits : '\n' ∉ Nat.toDigits 10 index := (Text.isWord_toDigits index).notMem (by decide)
    unfold PolicyModel.loopbackInterface
    dsimp only [toString]
    simp [hdigits]
  · obtain ⟨b, -, hi⟩ := List.mem_filterMap.mp hi
    obtain ⟨j, hj, hi⟩ := Option.bind_eq_some_iff.mp hi
    obtain rfl := Option.some.inj hi
    refine ⟨hlegible.newline_notMem_interface hj, fun text htext => ?_⟩
    obtain rfl := Option.some.inj htext
    simp [hlegible.newline_notMem_name b]

theorem legible_device (h : s.synthesizePartial store = .ok (model, conflicts))
    (hrange : s.topology.InRange) (hlegible : s.topology.Legible) {d : DeviceConfig}
    (hd : d ∈ model.devices s.topology) : d.Legible := by
  obtain ⟨a, router, hr, rfl⟩ := PolicyModel.mem_devices.mp hd
  have hmem : router ∈ s.topology.routers := List.mem_of_getElem? hr
  have hname := model.name_deviceOf hr
  refine ⟨hlegible.name_ne router hmem, hlegible.name_newline router hmem,
    fun i hi => legible_interfaces hlegible hi, fun l hl => isWord_of_mem_matchedPrefixLists h hl,
    fun l hl => ?_, fun m hm => ?_, fun b hb => ?_⟩
  · obtain ⟨c, -, rfl⟩ := List.mem_map.mp hl
    exact c.isWord_listName.notMem (by decide)
  · obtain ⟨-, x, -, dir, rfl⟩ := PolicyModel.mem_routeMaps_deviceOf.mp hm
    exact hname ▸ legible_ofClauses h hrange hlegible a x.1 dir
  · obtain ⟨n, hn, rfl⟩ := Option.map_eq_some_iff.mp hb
    refine ⟨hrange.asn_lt router hmem n hn, fun k hk => ?_⟩
    obtain ⟨x, hx, rfl⟩ := List.mem_map.mp hk
    rw [hname]
    exact (PolicyModel.sessionOf_of_mem hx).legible hrange hlegible

end Synthesizer

end PathPolicy
