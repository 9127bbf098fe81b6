import PathPolicy.Proofs.OspfTraffic

/-! OSPF routes under the policy of any run, with conflicts or without. All costs are positive, so
that traffic comes nearer to its destination with every hop, and its path is a shortest one. -/

namespace PathPolicy

/-- The routers of a walk over links that ends at `d`. -/
inductive Topology.Walk (t : Topology) (d : RouterId) : RouterId → List RouterId → Prop
  | here : Walk t d d [d]
  | step {a b : RouterId} {p : List RouterId} :
      t.adjacent a b = true → Walk t d b p → Walk t d a (a :: p)

namespace Topology.Walk

variable {t : Topology} {d a : RouterId} {p : List RouterId}

theorem of_isChain (hhead : p.head? = some a) (hchain : p.IsChain fun x y => t.adjacent x y = true)
    (hlast : p.getLast? = some d) : t.Walk d a p := by
  induction p generalizing a with
  | nil => cases hhead
  | cons x p ih =>
    obtain rfl : x = a := Option.some.inj hhead
    cases p with
    | nil =>
      obtain rfl : x = d := Option.some.inj hlast
      exact .here
    | cons y p =>
      obtain ⟨hxy, hchain⟩ := List.isChain_cons_cons.mp hchain
      exact .step hxy (ih rfl hchain (by rwa [List.getLast?_cons_cons] at hlast))

theorem lt_size (h : t.Walk d a p) (hne : a ≠ d) : d < t.size := by
  induction h with
  | here => exact absurd rfl hne
  | @step a b p hadj _ ih =>
    by_cases hb : b = d
    · exact hb ▸ (lt_size_of_adjacent hadj).2
    · exact ih hb

end Topology.Walk

namespace Ospf

variable {t : Topology} {m : PolicyModel} {d a b : RouterId} {p : List RouterId}

/-- The costs of all outgoing interfaces on a path. -/
def pathCost (m : PolicyModel) : List RouterId → Nat
  | a :: b :: rest => cost m a b + pathCost m (b :: rest)
  | _ => 0

theorem pathCost_cons (h : t.Walk d b p) : pathCost m (a :: p) = cost m a b + pathCost m p := by
  cases h <;> rfl

/-- The hop is the first one on a shortest path. -/
def Nearer (t : Topology) (m : PolicyModel) (d a b : RouterId) : Prop :=
  t.adjacent a b = true ∧ ∃ y, (distances t m d).get b = some y ∧
    (distances t m d).get a = some (cost m a b + y)

theorem nextHops_of_get_eq_none (hne : a ≠ d) (h : (distances t m d).get a = none) :
    (forwarding t m d).nextHops a = [] := by
  by_cases ha : a < t.size
  · rw [nextHops_forwarding ha hne, hopsOf, h]
  · rw [ForwardingState.nextHops, forwarding, ForwardingState.ofHops,
      OrderedMap.get?_ofList_of_notMem, Option.getD_none]
    simp [ha]

section Positive

variable (hpos : Distances.Positive (arcs t m))

include hpos

theorem atMost_of_walk (hd : d < t.size) (h : t.Walk d a p) :
    (distances t m d).AtMost a (pathCost m p) := by
  induction h with
  | here =>
    have hd' : d < (arcs t m).size := by rwa [size_arcs]
    exact ⟨0, Distances.get_shortest_target hpos hd', Nat.le_refl 0⟩
  | step hadj hwalk ih =>
    rw [pathCost_cons hwalk]
    exact Distances.atMost_of_arc hpos (arc_mem_arcs hadj) ih

theorem get_distances_of_nearer (hd : d < t.size) (h : t.Walk d a p)
    (hchain : p.IsChain (Nearer t m d)) : (distances t m d).get a = some (pathCost m p) := by
  induction h with
  | here => exact Distances.get_shortest_target hpos (by rwa [size_arcs])
  | @step a b p hadj hwalk ih =>
    have hcost := pathCost_cons (m := m) (a := a) hwalk
    cases hwalk with
    | here =>
      obtain ⟨_, y, hy, ha⟩ := List.isChain_pair.mp hchain
      rw [ih (List.isChain_singleton _)] at hy
      rw [ha, hcost, Option.some.inj hy]
    | step _ _ =>
      obtain ⟨⟨_, y, hy, ha⟩, hchain⟩ := List.isChain_cons_cons.mp hchain
      rw [ih hchain] at hy
      rw [ha, hcost, Option.some.inj hy]

variable (hmax : ∀ a, 0 < maxPaths m a)

include hmax

theorem leads_nearer : (forwarding t m d).Leads
    (fun a => a ≠ d ∧ ∃ x, (distances t m d).get a = some x) (Nearer t m d) := by
  rintro a ⟨hne, x, hx⟩
  have ha : a < t.size := by
    obtain ⟨arc, harc, _⟩ := Distances.exists_arc_of_get_shortest hpos hne hx
    exact (Topology.lt_size_of_adjacent (mem_arcs harc).1).1
  obtain ⟨arc, harc, hthrough, hhead⟩ := exists_head?_nextHops hpos (hmax a) ha hne hx
  obtain ⟨y, hy, rfl⟩ := Option.map_eq_some_iff.mp hthrough
  obtain ⟨hadj, hcost⟩ := mem_arcs harc
  rw [hcost] at hx
  exact ⟨arc.target, hhead, ⟨hadj, y, hy, hx⟩, fun hb => ⟨hb, y, hy⟩⟩

/-- A router with a distance sends its traffic along a shortest path. -/
theorem exists_route_of_get_distances (hne : a ≠ d) {x : Nat}
    (hx : (distances t m d).get a = some x) :
    ∃ p, (forwarding t m d).route a = .ok p ∧ t.Walk d a p ∧ p.Nodup ∧
      p.IsChain (Nearer t m d) := by
  have hfall : ∀ a b, Nearer t m d a b →
      ((distances t m d).get b).getD 0 < ((distances t m d).get a).getD 0 := by
    rintro a b ⟨hadj, y, hb, ha⟩
    have hcost := hpos a _ (arc_mem_arcs (m := m) hadj)
    rw [ha, hb, Option.getD_some, Option.getD_some]
    exact Nat.lt_add_of_pos_left hcost
  obtain ⟨p, hp, hhead, hnd, hchain, hlast⟩ := ForwardingState.exists_route_of_leads
    (leads_nearer hpos hmax) ⟨hne, x, hx⟩ (fun a => ((distances t m d).get a).getD 0) hfall
  exact ⟨p, hp, .of_isChain hhead (hchain.imp fun _ _ h => h.1) hlast, hnd, hchain⟩

/-- Traffic that can arrive takes a walk of least cost, and other traffic is not sent at all. -/
theorem route_of_positive (d a : RouterId) :
    ((∃ q, t.Walk d a q) → ∃ p, (forwarding t m d).route a = .ok p ∧ t.Walk d a p ∧ p.Nodup ∧
        ∀ q, t.Walk d a q → pathCost m p ≤ pathCost m q) ∧
      ((¬ ∃ q, t.Walk d a q) → (forwarding t m d).route a = .error (.blackHole [a])) := by
  by_cases hne : a = d
  · subst a
    refine ⟨fun _ => ?_, fun h => absurd ⟨[d], .here⟩ h⟩
    exact ⟨[d], (forwarding t m d).route_destination, .here, List.nodup_singleton d,
      fun q _ => Nat.zero_le _⟩
  · refine ⟨fun ⟨q, hq⟩ => ?_, fun h => ?_⟩
    · have hd := hq.lt_size hne
      obtain ⟨x, hx, _⟩ := atMost_of_walk hpos hd hq
      obtain ⟨p, hp, hwalk, hnd, hchain⟩ := exists_route_of_get_distances hpos hmax hne hx
      refine ⟨p, hp, hwalk, hnd, fun q hq => ?_⟩
      obtain ⟨y, hy, hle⟩ := atMost_of_walk hpos hd hq
      rw [get_distances_of_nearer hpos hd hwalk hchain] at hy
      exact Option.some.inj hy ▸ hle
    · refine ForwardingState.route_of_nextHops_eq_nil hne (nextHops_of_get_eq_none hne ?_)
      by_contra hx
      obtain ⟨x, hx⟩ := Option.ne_none_iff_exists'.mp hx
      obtain ⟨p, _, hwalk, _⟩ := exists_route_of_get_distances hpos hmax hne hx
      exact h ⟨p, hwalk⟩

end Positive

end Ospf

/-- Under the policy of any run, OSPF traffic takes a simple path of least cost to any router that
its source is connected with, and is dropped at its source otherwise. -/
theorem Synthesizer.ospf_route_shortest {s : Synthesizer} {store : Store} {model : PolicyModel}
    {conflicts : List Conflict} (h : s.synthesizePartial store = .ok (model, conflicts))
    (d a : RouterId) :
    ∃ state, ForwardingState.compute s.topology model .ospf d = .ok state ∧
      ((∃ q, s.topology.Walk d a q) → ∃ p, state.route a = .ok p ∧ s.topology.Walk d a p ∧
        p.Nodup ∧ ∀ q, s.topology.Walk d a q → Ospf.pathCost model p ≤ Ospf.pathCost model q) ∧
      ((¬ ∃ q, s.topology.Walk d a q) → state.route a = .error (.blackHole [a])) := by
  obtain ⟨gs, entries, _, hran⟩ := synthesizePartial_ok h
  exact ⟨_, rfl, Ospf.route_of_positive hran.positive_arcs (hran.maxPaths_pos · .ospf) d a⟩

namespace Network.Diamond

/-- No walk from the top of the diamond to the bottom costs less than what traffic takes. -/
theorem ospf_route_shortest_diamond : ∃ model state p,
    run.synthesizePartial (storeOf (ordered .ospf)) = .ok (model, []) ∧
      ForwardingState.compute topology model .ospf 3 = .ok state ∧ state.route 0 = .ok p ∧
      topology.Walk 3 0 p ∧ p.Nodup ∧
      ∀ q, topology.Walk 3 0 q → Ospf.pathCost model p ≤ Ospf.pathCost model q := by
  obtain ⟨model, h⟩ := exists_ok_of_toBool (x := run.synthesize (storeOf (ordered .ospf))) (by cbv)
  have hpartial := Synthesizer.synthesizePartial_of_synthesize h
  obtain ⟨state, hstate, hconnected, _⟩ := Synthesizer.ospf_route_shortest hpartial 3 0
  have hwalk : run.topology.Walk 3 0 [0, 1, 3] :=
    .step (by decide +kernel) (.step (b := 3) (by decide +kernel) .here)
  obtain ⟨p, hp, hrest⟩ := hconnected ⟨_, hwalk⟩
  exact ⟨model, state, p, hpartial, hstate, hp, hrest⟩

end Network.Diamond

end PathPolicy
