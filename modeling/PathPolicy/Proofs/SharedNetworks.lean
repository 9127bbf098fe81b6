import Mathlib
import PathPolicy.Forwarding.Static
import PathPolicy.Proofs.Consistency

/-! Groups whose destinations share a network. The merge finds out when they set one cost or one
distance to different values. It does not find out when one of them permits a next hop that the
other one denies: the lists of networks that BGP clauses match have a name for each group, and a
denied next hop has no static route. -/

namespace PathPolicy

open RequirementGroup

theorem RequirementGroup.mem_staticNetworks_iff {t : Topology} {g : RequirementGroup}
    {network : Address} :
    network ∈ Static.networks t g.destination ↔ network ∈ g.networks t := by
  rw [Static.networks, RequirementGroup.networks]
  cases t.router? g.destination with
  | none => rfl
  | some r => exact List.mem_eraseDups.symm

namespace Synthesizer

variable {s : Synthesizer} {store : Store} {gs : List RequirementGroup} {ps : List GroupPolicy}
  {k : PolicyKey} {model : PolicyModel} {d e : Decision}

/-- Two groups in force agree on the costs of all interfaces that both decide on, and on the
distances of the next hops that both permit toward a network of both destinations. -/
theorem shared_values_agree {o o' : GroupOutcome} (h : s.synthesize store = .ok model)
    (hgs : s.groups store = .ok gs) (hps : s.groupPolicies gs = .ok ps)
    (ho : o ∈ s.outcomes gs ps) (ho' : o' ∈ s.outcomes gs ps)
    (hd : o.policy.decisions.get? k = some d) (he : o'.policy.decisions.get? k = some e) :
    (o.group.protocol = .ospf → o'.group.protocol = .ospf →
        GroupMark.cost d = GroupMark.cost e) ∧
      (o.group.protocol = .static → o'.group.protocol = .static →
        (∃ network ∈ Static.networks s.topology o.group.destination,
          network ∈ Static.networks s.topology o'.group.destination) →
            ∀ v w, d = .permit v → e = .permit w → v = w) := by
  have hpartial := synthesizePartial_of_synthesize h
  obtain ⟨gs', entries, hgs', hran⟩ := synthesizePartial_ok hpartial
  obtain rfl : gs = gs' := Except.ok.inj (hgs.symm.trans hgs')
  have hf := groupPolicies_ok hps
  obtain ⟨hg, hsyn⟩ := (mem_outcomes_iff hf).mp ho
  obtain ⟨hg', hsyn'⟩ := (mem_outcomes_iff hf).mp ho'
  have hunblamed : ∀ g : RequirementGroup, g.Unblamed [] := fun _ _ hc =>
    absurd hc List.not_mem_nil
  obtain ⟨_, hdec, _⟩ := (get?_decisions_eq_some_iff hsyn).mp hd
  obtain ⟨_, hdec', _⟩ := (get?_decisions_eq_some_iff hsyn').mp he
  constructor
  · intro hospf hospf'
    have hcost := hran.ospfCost? hg (hunblamed _) hospf hdec
    have hcost' := hran.ospfCost? hg' (hunblamed _) hospf' hdec'
    exact Option.some.inj (hcost.symm.trans hcost')
  · rintro hstatic hstatic' ⟨network, hnetwork, hnetwork'⟩ v w rfl rfl
    have hroute := hran.staticRoute_mem hg (hunblamed _) hstatic hdec
      (mem_staticNetworks_iff.mp hnetwork)
    have hroute' := hran.staticRoute_mem hg' (hunblamed _) hstatic' hdec'
      (mem_staticNetworks_iff.mp hnetwork')
    exact routesAgree_of_synthesizePartial hpartial k.router _ hroute _ hroute' rfl rfl

end Synthesizer

/-- One of the groups permits a next hop that the other one denies, for a network of both
destinations. -/
def GroupOutcome.Contradicts (t : Topology) (o o' : GroupOutcome) : Prop :=
  o.group.protocol = o'.group.protocol ∧ o.group.destination ≠ o'.group.destination ∧
    (∃ network ∈ Static.networks t o.group.destination,
      network ∈ Static.networks t o'.group.destination) ∧
    ∃ k v, o.policy.decisions.get? k = some (.permit v) ∧
      o'.policy.decisions.get? k = some .deny

namespace Network.Twins

/-- Traffic from `S` reaches `D` and `E` over `M`. Both have the same loopback. -/
def topology : Topology :=
  (do
    let t ← Topology.empty.addRouter ⟨"S", some 65001, [loopback 1]⟩
    let t ← t.addRouter ⟨"M", some 65002, [loopback 2]⟩
    let t ← t.addRouter ⟨"D", some 65003, [loopback 3]⟩
    let t ← t.addRouter ⟨"E", some 65004, [loopback 3]⟩
    let t ← t.connect "S" "M"
    let t ← t.connect "M" "D"
    t.connect "M" "E" : Except TopologyError Topology).toOption.getD .empty

def run : Synthesizer := ⟨topology, .sequential⟩

def requirement (protocol : Protocol) (destination : String) : Requirement :=
  .path ⟨protocol, destination, ["S", "M", destination], false⟩

def storeOf (protocol : Protocol) : Store :=
  ((Store.ofTopology topology).addAll [requirement protocol "D", requirement protocol "E"]).1

def group (protocol : Protocol) (index : Nat) (destination : String) (d : RouterId) :
    RequirementGroup :=
  ⟨protocol, d, [⟨(requirement protocol destination).reference index, false, [[0, 1, d]]⟩]⟩

def groups (protocol : Protocol) : List RequirementGroup :=
  [group protocol 0 "D" 2, group protocol 1 "E" 3]

theorem storeOf_filled (protocol : Protocol) : (storeOf protocol).Filled topology :=
  Store.Filled.new.addAll _

theorem static_groups : run.groups (storeOf .static) = .ok (groups .static) := by decide +kernel

theorem bgp_groups : run.groups (storeOf .bgp) = .ok (groups .bgp) := by decide +kernel

theorem common_network : ∃ network ∈ Static.networks topology 2,
    network ∈ Static.networks topology 3 :=
  ⟨loopback 3, by decide +kernel, by decide +kernel⟩

/-- What a group decided for the hops from `S` to `M` and from `M` to `D`. -/
def summary (direction : Direction) (p : GroupPolicy) : Option Decision × Option Decision :=
  (p.decisions.get? ⟨0, 1, direction⟩, p.decisions.get? ⟨1, 2, direction⟩)

theorem exists_policies (protocol : Protocol) (direction : Direction)
    (h : (run.groupPolicies (groups protocol)).toOption.map (·.map (summary direction)) =
      some [(some (.permit 1), some (.permit 1)), (some (.permit 1), some .deny)]) :
    ∃ p q, run.groupPolicies (groups protocol) = .ok [p, q] ∧
      summary direction p = (some (.permit 1), some (.permit 1)) ∧
      summary direction q = (some (.permit 1), some .deny) := by
  cases hps : run.groupPolicies (groups protocol) with
  | error e => simp [hps, Except.toOption] at h
  | ok ps =>
    rw [hps] at h
    obtain ⟨p, rest, rfl, hp, hrest⟩ := List.map_eq_cons_iff.mp (Option.some.inj h)
    obtain ⟨q, rfl, hq⟩ := List.map_eq_singleton_iff.mp hrest
    exact ⟨p, q, rfl, hp, hq⟩

/-- The distance that both groups ask for at `S`. -/
theorem shared_values_agree_twins : ∃ model p q v w,
    run.synthesize (storeOf .static) = .ok model ∧
      run.groupPolicies (groups .static) = .ok [p, q] ∧
      p.decisions.get? ⟨0, 1, .outgoing⟩ = some (.permit v) ∧
      q.decisions.get? ⟨0, 1, .outgoing⟩ = some (.permit w) ∧ v = w := by
  obtain ⟨model, h⟩ := exists_ok_of_toBool (x := run.synthesize (storeOf .static)) (by cbv)
  obtain ⟨p, q, hps, hp, hq⟩ := exists_policies .static .outgoing (by cbv)
  obtain ⟨hd, _⟩ := Prod.mk.inj hp
  obtain ⟨hd', _⟩ := Prod.mk.inj hq
  have hmem : ⟨group .static 0 "D" 2, none, p⟩ ∈ run.outcomes (groups .static) [p, q] :=
    List.mem_cons_self
  have hmem' : ⟨group .static 1 "E" 3, none, q⟩ ∈ run.outcomes (groups .static) [p, q] :=
    List.mem_cons_of_mem _ List.mem_cons_self
  obtain ⟨_, hvalues⟩ := Synthesizer.shared_values_agree h static_groups hps hmem hmem' hd hd'
  exact ⟨model, p, q, 1, 1, h, hps, hd, hd', hvalues rfl rfl common_network 1 1 rfl rfl⟩

/-- A run ends without conflict although two of its groups contradict each other. -/
def Unnoticed (protocol : Protocol) : Prop :=
  (storeOf protocol).Filled topology ∧
    ∃ model ps, run.synthesize (storeOf protocol) = .ok model ∧
    run.groups (storeOf protocol) = .ok (groups protocol) ∧
    run.groupPolicies (groups protocol) = .ok ps ∧
    ∃ o o', run.outcomes (groups protocol) ps = [o, o'] ∧ o.group.protocol = protocol ∧
      o.Contradicts topology o'

theorem contradicts_of_summary {protocol : Protocol} {direction : Direction}
    {c c' : Option Community} {p q : GroupPolicy}
    (hp : summary direction p = (some (.permit 1), some (.permit 1)))
    (hq : summary direction q = (some (.permit 1), some .deny)) :
    GroupOutcome.Contradicts topology ⟨group protocol 0 "D" 2, c, p⟩
      ⟨group protocol 1 "E" 3, c', q⟩ := by
  obtain ⟨_, hd⟩ := Prod.mk.inj hp
  obtain ⟨_, hd'⟩ := Prod.mk.inj hq
  have hne : (2 : RouterId) ≠ 3 := by decide
  exact ⟨rfl, hne, common_network, _, _, hd, hd'⟩

/-- The groups of `D` and `E` decide differently at `M`, and nobody is told. -/
theorem contradictions_unnoticed : Unnoticed .static ∧ Unnoticed .bgp := by
  constructor
  · refine ⟨storeOf_filled .static, ?_⟩
    obtain ⟨model, h⟩ := exists_ok_of_toBool (x := run.synthesize (storeOf .static)) (by cbv)
    obtain ⟨p, q, hps, hp, hq⟩ := exists_policies .static .outgoing (by cbv)
    exact ⟨model, _, h, static_groups, hps, _, _, rfl, rfl, contradicts_of_summary hp hq⟩
  · refine ⟨storeOf_filled .bgp, ?_⟩
    obtain ⟨model, h⟩ := exists_ok_of_toBool (x := run.synthesize (storeOf .bgp)) (by cbv)
    obtain ⟨p, q, hps, hp, hq⟩ := exists_policies .bgp .incoming (by cbv)
    exact ⟨model, _, h, bgp_groups, hps, _, _, rfl, rfl, contradicts_of_summary hp hq⟩

end Network.Twins

end PathPolicy
