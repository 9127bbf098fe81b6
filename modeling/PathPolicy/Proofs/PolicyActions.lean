import PathPolicy.Proofs.RoundTrip

/-! The actions of a model and those of its text. The synthesis decides on all neighbors of a router,
and the text has route maps for sessions only, so that it lacks the clauses for neighbors without AS
number. -/

namespace PathPolicy

namespace NodePolicy

variable {p : NodePolicy} {c : Clause} {r : RouterId} {key : PolicyKey}

theorem clause_mem_clausePrimitives {k : Clause} :
    .clause c ∈ clausePrimitives k ↔ c = k := by
  have haction : ∀ a : SetAction, Primitive.ofAction a ≠ .clause c := by
    rintro (⟨k, additive⟩ | n) <;> simp [Primitive.ofAction]
  simp [clausePrimitives, haction]

theorem clause_mem_primitives : (key, .clause c) ∈ p.primitives r ↔
    key.router = r ∧ c ∈ p.routeMap key.neighbor key.direction := by
  simp only [primitives, List.mem_append, List.mem_flatMap, List.mem_map, Prod.mk.injEq, reduceCtorEq,
    and_false, exists_false, or_false, Prod.exists]
  constructor
  · rintro ⟨⟨b, dir⟩, cs, hentry, _, ⟨k, hk, hc⟩, rfl, rfl⟩
    obtain rfl := clause_mem_clausePrimitives.mp hc
    refine ⟨rfl, ?_⟩
    rw [routeMap, OrderedMap.get?_eq_some_iff.mpr hentry]
    exact hk
  · rintro ⟨rfl, hc⟩
    cases hget : p.routeMaps.get? ⟨key.neighbor, key.direction⟩ with
    | none => simp [routeMap, hget] at hc
    | some cs =>
      rw [routeMap, hget] at hc
      exact ⟨⟨key.neighbor, key.direction⟩, cs, OrderedMap.get?_eq_some_iff.mp hget, .clause c,
        ⟨c, hc, clause_mem_clausePrimitives.mpr rfl⟩, rfl, rfl⟩

end NodePolicy

namespace PolicyModel

variable {m : PolicyModel} {t : Topology} {a b : RouterId} {c : Clause}

theorem clause_mem_primitives {key : PolicyKey} : (key, .clause c) ∈ m.primitives ↔
    c ∈ (m.policy key.router).routeMap key.neighbor key.direction := by
  rw [primitives, List.mem_flatMap]
  constructor
  · rintro ⟨⟨r, p⟩, hentry, hmem⟩
    obtain ⟨rfl, hc⟩ := NodePolicy.clause_mem_primitives.mp hmem
    rwa [policy, get?, OrderedMap.get?_eq_some_iff.mpr hentry]
  · intro hc
    cases hget : m.get? key.router with
    | none => simp [policy, hget, NodePolicy.routeMap, NodePolicy.empty] at hc
    | some p =>
      rw [policy, hget] at hc
      exact ⟨(key.router, p), OrderedMap.get?_eq_some_iff.mp hget,
        NodePolicy.clause_mem_primitives.mpr ⟨rfl, hc⟩⟩

/-- The action of a clause, by the names of the router and its neighbor. -/
def action (t : Topology) (key : PolicyKey) (c : Clause) : PolicyAction :=
  ⟨t.name key.router, t.name key.neighbor, key.direction, c.verdict⟩

/-- Of what is installed, only clauses are actions. -/
def action? (t : Topology) (e : PolicyKey × Primitive) : Option PolicyAction :=
  match e.2 with
  | .clause c => some (action t e.1 c)
  | _ => none

def actions (m : PolicyModel) (t : Topology) : OrderedSet PolicyAction :=
  .ofList (m.primitives.filterMap (action? t))

/-- The actions for neighbors that have an AS number. -/
def sessionActions (m : PolicyModel) (t : Topology) : OrderedSet PolicyAction :=
  .ofList ((m.primitives.filter fun e => (t.asn? e.1.neighbor).isSome).filterMap (action? t))

theorem mem_sessionActions {x : PolicyAction} : x ∈ (m.sessionActions t).toList ↔
    ∃ key c, c ∈ (m.policy key.router).routeMap key.neighbor key.direction ∧
      (t.asn? key.neighbor).isSome = true ∧ x = action t key c := by
  rw [sessionActions, OrderedSet.mem_ofList, List.mem_filterMap]
  constructor
  · rintro ⟨⟨key, p⟩, hmem, hx⟩
    obtain ⟨hmem, hasn⟩ := List.mem_filter.mp hmem
    cases p with
    | clause c => exact ⟨key, c, clause_mem_primitives.mp hmem, hasn, (Option.some.inj hx).symm⟩
    | _ => cases hx
  · rintro ⟨key, c, hc, hasn, rfl⟩
    exact ⟨(key, .clause c), List.mem_filter.mpr ⟨clause_mem_primitives.mpr hc, hasn⟩, rfl⟩

theorem exists_session (hadj : t.adjacent a b = true) (hasn : (t.asn? b).isSome = true) :
    ∃ n, (b, n) ∈ bgpSessions t a := by
  obtain ⟨i, hi⟩ := Topology.exists_interface? (Topology.adjacent_symm hadj)
  obtain ⟨asn, hasn⟩ := Option.isSome_iff_exists.mp hasn
  obtain ⟨n, hn⟩ : ∃ n, bgpNeighbor? t a b = some n := ⟨_, by rw [bgpNeighbor?, hasn, hi]; rfl⟩
  exact ⟨n, List.mem_filterMap.mpr ⟨b, Topology.mem_neighbors.mpr hadj, by rw [hn]; rfl⟩⟩

end PolicyModel

namespace RouteMapConfig

theorem mem_parsed_ofClauses {cs : List Clause} {k : ParsedClause} (router neighbor : String)
    (dir : Direction) (hcs : ∀ c ∈ cs, c.conditions ≠ []) :
    k ∈ (ofClauses (routeMapName router neighbor dir) cs).parsed router ∧ k.isPlaceholder = false ↔
      ∃ c ∈ cs, k = (ClauseConfig.ofClause c).parsed router neighbor dir := by
  rw [parsed_eq rfl]
  constructor
  · rintro ⟨hk, hsays⟩
    obtain ⟨config, hconfig, rfl⟩ := List.mem_map.mp hk
    rcases List.mem_append.mp hconfig with hconfig | hconfig
    · obtain ⟨c, hc, rfl⟩ := List.mem_map.mp hconfig
      exact ⟨c, hc, rfl⟩
    · -- the last clause lets everything pass, and is the only one without conditions
      rw [List.mem_singleton.mp hconfig] at hsays
      cases hsays
  · rintro ⟨c, hc, rfl⟩
    refine ⟨List.mem_map_of_mem (List.mem_append_left _ (List.mem_map_of_mem hc)), ?_⟩
    simp [ParsedClause.isPlaceholder, ClauseConfig.parsed, ClauseConfig.ofClause, hcs c hc]

end RouteMapConfig

theorem ParsedConfig.mem_actions_ofDevices {ds : List DeviceConfig} {x : PolicyAction} :
    x ∈ (ofDevices ds).actions.toList ↔ ∃ d ∈ ds, ∃ r ∈ d.routeMaps, ∃ k ∈ r.parsed d.name,
      k.isPlaceholder = false ∧ x = ⟨k.node, k.neighbor, k.direction, k.verdict⟩ := by
  simp only [actions, ofDevices, OrderedSet.mem_ofList, List.mem_map, List.mem_filter,
    List.mem_flatMap, Bool.not_eq_true']
  constructor
  · rintro ⟨k, ⟨⟨d, hd, r, hr, hk⟩, hsays⟩, rfl⟩
    exact ⟨d, hd, r, hr, k, hk, hsays, rfl⟩
  · rintro ⟨d, hd, r, hr, k, hk, hsays, rfl⟩
    exact ⟨k, ⟨⟨d, hd, r, hr, hk⟩, hsays⟩, rfl⟩

/-- The text has the actions of the clauses at BGP speakers that are about their sessions. -/
theorem PolicyModel.mem_actions_devices {m : PolicyModel} {t : Topology} {x : PolicyAction}
    (hcs : ∀ a b dir, ∀ c ∈ (m.policy a).routeMap b dir, c.conditions ≠ []) :
    x ∈ (ParsedConfig.ofDevices (m.devices t)).actions.toList ↔
      ∃ a, (t.asn? a).isSome = true ∧ ∃ y ∈ bgpSessions t a, ∃ dir,
        ∃ c ∈ (m.policy a).routeMap y.1 dir, x = action t ⟨a, y.1, dir⟩ c := by
  have hmap := fun a b dir k => RouteMapConfig.mem_parsed_ofClauses (k := k)
    (t.name a) (t.name b) dir (hcs a b dir)
  rw [ParsedConfig.mem_actions_ofDevices]
  constructor
  · rintro ⟨d, hd, r, hmem, k, hk, hsays, rfl⟩
    obtain ⟨a, router, hr, rfl⟩ := mem_devices.mp hd
    obtain ⟨hasn, y, hy, dir, rfl⟩ := mem_routeMaps_deviceOf.mp hmem
    rw [m.name_deviceOf hr] at hk
    obtain ⟨c, hc, rfl⟩ := (hmap a y.1 dir k).mp ⟨hk, hsays⟩
    exact ⟨a, by rwa [Topology.asn?, hr], y, hy, dir, c, hc, rfl⟩
  · rintro ⟨a, hasn, y, hy, dir, c, hc, rfl⟩
    obtain ⟨asn, hasn⟩ := Option.isSome_iff_exists.mp hasn
    obtain ⟨router, hr, hasn⟩ := Option.bind_eq_some_iff.mp hasn
    obtain ⟨hk, hsays⟩ := (hmap a y.1 dir _).mpr ⟨c, hc, rfl⟩
    have hmem := (mem_routeMaps_deviceOf (m := m)).mpr ⟨by rw [hasn]; rfl, y, hy, dir, rfl⟩
    refine ⟨_, mem_devices.mpr ⟨a, router, hr, rfl⟩, _, hmem, _, ?_, hsays, rfl⟩
    rwa [m.name_deviceOf hr]

namespace Synthesizer

variable {s : Synthesizer} {store : Store} {model : PolicyModel} {conflicts : List Conflict}
  {a b : RouterId} {dir : Direction} {c : Clause}

theorem conditions_ne_nil (h : s.synthesizePartial store = .ok (model, conflicts))
    (hc : c ∈ (model.policy a).routeMap b dir) : c.conditions ≠ [] := by
  obtain ⟨-, -, m, d, c', hclause, hsame⟩ := mem_routeMap_model h hc
  rw [(Clause.same_iff.mp hsame).1]
  intro hnil
  have hsome := GroupMark.prefixList?_of_mem_clauses hclause
  rw [Clause.prefixList?, hnil] at hsome
  cases hsome

/-- Clauses are at BGP speakers and for their neighbors, which may be no speakers. -/
theorem speaker_of_clause (hfilled : store.Filled s.topology)
    (h : s.synthesizePartial store = .ok (model, conflicts))
    (hc : c ∈ (model.policy a).routeMap b dir) :
    (s.topology.asn? a).isSome = true ∧ s.topology.adjacent a b = true := by
  obtain ⟨gs, entries, hgs, hran⟩ := synthesizePartial_ok h
  rw [hran.policy, NodePolicy.routeMap_finalize] at hc
  obtain ⟨c', hc', -, -⟩ := NodePolicy.mem_arrange hc
  obtain ⟨⟨g, community⟩, hg, hbgp, -, d, hd, -⟩ := hran.exists_decision_of_clause hc'
  obtain ⟨-, -, -, -, -, hgrounded⟩ := exists_ran hfilled h hgs (mem_of_mem_marked hg)
  obtain ⟨req, hreq, _, -, ⟨b', p, hp, hhop⟩, hadj, -⟩ := RequirementGroup.exists_asks_of_decision hd
  exact ⟨hgrounded.speakers hbgp p (RequirementGroup.mem_paths.mpr ⟨req, hreq, hp⟩) a hhop.left_mem,
    hadj⟩

theorem actions_ofDevices (hfilled : store.Filled s.topology)
    (h : s.synthesizePartial store = .ok (model, conflicts)) :
    (ParsedConfig.ofDevices (model.devices s.topology)).actions =
      model.sessionActions s.topology := by
  refine OrderedSet.ext_toList fun x => ?_
  have htext := PolicyModel.mem_actions_devices (x := x) (t := s.topology)
    fun a b dir c hc => conditions_ne_nil h hc
  refine htext.trans (Iff.trans ?_ PolicyModel.mem_sessionActions.symm)
  constructor
  · rintro ⟨a, -, y, hy, dir, c, hc, rfl⟩
    have hasn := (PolicyModel.sessionOf_of_mem hy).remoteAs
    exact ⟨⟨a, y.1, dir⟩, c, hc, by rw [hasn]; rfl, rfl⟩
  · rintro ⟨⟨a, b, dir⟩, c, hc, hasn, rfl⟩
    obtain ⟨hspeaker, hadj⟩ := speaker_of_clause hfilled h hc
    obtain ⟨n, hn⟩ := PolicyModel.exists_session hadj hasn
    exact ⟨a, hspeaker, (b, n), hn, dir, c, hc, rfl⟩

/-- The actions that are read back are those of the model for neighbors with an AS number. -/
theorem actions_read_render (hrange : s.topology.InRange) (hlegible : s.topology.Legible)
    (hfilled : store.Filled s.topology) (h : s.synthesize store = .ok model) :
    ∃ p, ParsedConfig.read (model.render s.topology) = .ok p ∧
      p.actions = model.sessionActions s.topology := by
  have hpartial := synthesizePartial_of_synthesize h
  exact ⟨_, ParsedConfig.read_textOfAll fun d hd => legible_device hpartial hrange hlegible hd,
    actions_ofDevices hfilled hpartial⟩

end Synthesizer

namespace Network.Spur

/-- The neighbor `N` of `S` has no AS number, so that `S` has a session with `D` only. -/
def topology : Topology :=
  (do
    let t ← Topology.empty.addRouter ⟨"S", some 65001, [loopback 1]⟩
    let t ← t.addRouter ⟨"D", some 65002, [loopback 2]⟩
    let t ← t.addRouter ⟨"N", none, []⟩
    let t ← t.connect "S" "D"
    t.connect "S" "N" : Except TopologyError Topology).toOption.getD .empty

def run : Synthesizer := ⟨topology, .sequential⟩

def store : Store := ((Store.ofTopology topology).addAll [.path ⟨.bgp, "D", ["S", "D"], false⟩]).1

theorem store_filled : store.Filled topology := Store.Filled.new.addAll _

theorem topology_inRange : topology.InRange := ⟨by decide +kernel, by decide +kernel⟩

theorem topology_legible : topology.Legible := by
  constructor <;> decide +kernel

/-- `S` denies the routes of `N` too, as if there were any. -/
theorem exists_model : ∃ model, run.synthesize store = .ok model ∧
    (model.actions topology).toList =
      [⟨"S", "D", .incoming, .permit⟩, ⟨"S", "N", .incoming, .deny⟩] ∧
    (model.sessionActions topology).toList = [⟨"S", "D", .incoming, .permit⟩] := by
  have hactions : (run.synthesize store).toOption.map (fun m =>
      ((m.actions topology).toList, (m.sessionActions topology).toList)) =
      some ([⟨"S", "D", .incoming, .permit⟩, ⟨"S", "N", .incoming, .deny⟩],
        [⟨"S", "D", .incoming, .permit⟩]) := by cbv
  cases h : run.synthesize store with
  | error e => simp [h, Except.toOption] at hactions
  | ok model =>
    rw [h] at hactions
    exact ⟨model, rfl, Prod.mk.inj (Option.some.inj hactions)⟩

theorem actions_read_render_spur : ∃ model p, run.synthesize store = .ok model ∧
    ParsedConfig.read (model.render topology) = .ok p ∧
      p.actions.toList = [⟨"S", "D", .incoming, .permit⟩] := by
  obtain ⟨model, h, -, hsessions⟩ := exists_model
  obtain ⟨p, hread, hactions⟩ := Synthesizer.actions_read_render (s := run) topology_inRange
    topology_legible store_filled h
  exact ⟨model, p, h, hread, by rw [hactions, ← hsessions]; rfl⟩

/-- What the model says about `N` is not in the text. -/
theorem actions_incomplete : store.Filled topology ∧ topology.Legible ∧
    ∃ model p, run.synthesize store = .ok model ∧
      ParsedConfig.read (model.render topology) = .ok p ∧ p.actions ≠ model.actions topology := by
  obtain ⟨model, h, hall, hsessions⟩ := exists_model
  have hpartial := Synthesizer.synthesizePartial_of_synthesize h
  refine ⟨store_filled, topology_legible, model, _, h, ParsedConfig.read_textOfAll fun d hd =>
    Synthesizer.legible_device hpartial topology_inRange topology_legible hd, fun heq => ?_⟩
  have htext := Synthesizer.actions_ofDevices (s := run) store_filled hpartial
  have hlists := congrArg OrderedSet.toList (heq.symm.trans htext)
  rw [hall, show run.topology = topology from rfl, hsessions] at hlists
  simp at hlists

end Network.Spur

end PathPolicy
