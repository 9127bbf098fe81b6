import PathPolicy.Proofs.Heights
import PathPolicy.Synthesis.Group

/-! A requirement has one intent for each neighbor of each router on its members: it permits the
hops of the members and denies all others. -/

namespace PathPolicy

theorem one_lt_size {ν : Type} {m : OrderedMap RouterId ν} {b c : RouterId} (hb : b ∈ m.keys)
    (hc : c ∈ m.keys) (hne : b ≠ c) : 1 < m.size := by
  have hnd : [b, c].Nodup := by simpa using hne
  have hsub : [b, c] ⊆ m.keys := by simp [hb, hc]
  have hle : 2 ≤ m.keys.length := (hnd.subperm hsub).length_le
  rw [OrderedMap.keys, List.length_map] at hle
  exact hle

namespace ResolvedRequirement

variable {t : Topology} {g : RequirementGroup} {req : ResolvedRequirement}
  {heights : List (RouterId × Nat)} {r : RequirementIntents} {a b c : RouterId}

def decisionFor (req : ResolvedRequirement) (t : Topology) (g : RequirementGroup)
    (heights : List (RouterId × Nat)) (a b : RouterId) : Decision :=
  match (req.ranks.hops a).get? b with
  | some rank => .permit (permitValue g.protocol req.kind t.size req.ranks heights a b rank)
  | none => .deny

def intentFor (req : ResolvedRequirement) (t : Topology) (g : RequirementGroup)
    (heights : List (RouterId × Nat)) (a b : RouterId) : Intent where
  key := ⟨a, b, g.direction⟩
  decision := req.decisionFor t g heights a b
  origin := req.reference
  defers := req.kind = .kConnected

/-- The intents of a requirement, with the heights that their values come from. -/
structure IntentsOver (req : ResolvedRequirement) (t : Topology) (g : RequirementGroup)
    (heights : List (RouterId × Nat)) (r : RequirementIntents) : Prop where
  heights_eq : req.heights req.ranks g.destination = .ok heights
  mem_iff : ∀ i, i ∈ r.intents ↔
    ∃ a b, (∃ c, req.Uses a c) ∧ t.adjacent a b = true ∧ i = req.intentFor t g heights a b
  maxPaths_eq : r.maxPaths = req.maxPaths g req.ranks

theorem exists_intentsOver (h : req.intents t g = .ok r) :
    ∃ heights, req.IntentsOver t g heights r := by
  rw [intents] at h
  change (req.heights req.ranks g.destination >>= fun heights => _) = _ at h
  cases hh : req.heights req.ranks g.destination with
  | error e => rw [hh] at h; cases h
  | ok heights =>
    rw [hh] at h
    obtain rfl := Except.ok.inj h
    refine ⟨heights, hh, fun i => ?_, rfl⟩
    simp only [List.mem_flatMap, intentsAt, List.mem_map, Topology.mem_neighbors, ← mem_keys_ranks]
    constructor
    · rintro ⟨⟨a, hops⟩, hm, b, hb, rfl⟩
      have hget : req.ranks.get? a = some hops := OrderedMap.get?_eq_some_iff.mpr hm
      refine ⟨a, b, OrderedMap.mem_keys_iff.mpr ⟨hops, hget⟩, hb, ?_⟩
      rw [intentFor, decisionFor, HopRanks.get?_hops_eq_some_of_get? hget]
      rfl
    · rintro ⟨a, b, hk, hb, rfl⟩
      obtain ⟨hops, hget⟩ := OrderedMap.mem_keys_iff.mp hk
      refine ⟨(a, hops), OrderedMap.get?_eq_some_iff.mp hget, b, hb, ?_⟩
      rw [intentFor, decisionFor, HopRanks.get?_hops_eq_some_of_get? hget]
      rfl

theorem decisionFor_eq_deny_iff : req.decisionFor t g heights a b = .deny ↔ ¬ req.Uses a b := by
  rw [decisionFor, ← get?_ranks_eq_none_iff]
  split
  · next hr => simp [hr]
  · next hr => simp [hr]

theorem decisionFor_eq_permit_iff {v : Nat} : req.decisionFor t g heights a b = .permit v ↔
    ∃ d, (req.ranks.hops a).get? b = some d ∧
      permitValue g.protocol req.kind t.size req.ranks heights a b d = v := by
  rw [decisionFor]
  split
  · next d hr => simp [hr]
  · next hr => simp [hr]

theorem uses_of_decisionFor {v : Nat} (h : req.decisionFor t g heights a b = .permit v) :
    req.Uses a b := by
  by_contra hno
  simp [decisionFor_eq_deny_iff.mpr hno] at h

theorem exists_decisionFor_of_uses (t : Topology) (g : RequirementGroup)
    (heights : List (RouterId × Nat)) (h : req.Uses a b) :
    ∃ v, req.decisionFor t g heights a b = .permit v := by
  obtain ⟨d, hd⟩ := exists_get?_ranks.mpr h
  exact ⟨_, decisionFor_eq_permit_iff.mpr ⟨d, hd, rfl⟩⟩

theorem length_pos_of_uses (h : req.Uses a b) : 0 < req.paths.length := by
  obtain ⟨p, hp, _⟩ := h
  exact List.length_pos_of_mem hp

theorem eq_of_mem_maxPaths {k : Nat} (h : (a, k) ∈ req.maxPaths g req.ranks) :
    k = req.paths.length ∧ 0 < k ∧ ∃ b, req.Uses a b := by
  rw [maxPaths] at h
  split at h
  · obtain ⟨⟨x, hops⟩, hm, he⟩ := List.mem_map.mp h
    obtain ⟨rfl, rfl⟩ := Prod.mk.inj he
    have hget := OrderedMap.get?_eq_some_iff.mpr (List.mem_filter.mp hm).1
    obtain ⟨b, hb⟩ := mem_keys_ranks.mp (OrderedMap.mem_keys_iff.mpr ⟨hops, hget⟩)
    exact ⟨rfl, length_pos_of_uses hb, b, hb⟩
  · simp at h

theorem mem_maxPaths (hk : req.kind = .ecmp) (hp : g.protocol ≠ .static) (hb : req.Uses a b)
    (hc : req.Uses a c) (hne : b ≠ c) : (a, req.paths.length) ∈ req.maxPaths g req.ranks := by
  obtain ⟨hops, hget⟩ := OrderedMap.mem_keys_iff.mp (mem_keys_ranks.mpr ⟨b, hb⟩)
  have hkey : ∀ x, req.Uses a x → x ∈ hops.keys := fun x hx => by
    rw [OrderedMap.mem_keys_iff, ← HopRanks.get?_hops_eq_some_of_get? hget]
    exact exists_get?_ranks.mpr hx
  have hsize : 1 < hops.size := one_lt_size (hkey b hb) (hkey c hc) hne
  rw [maxPaths, if_pos (by simp [hk, hp])]
  refine List.mem_map.mpr ⟨(a, hops), List.mem_filter.mpr ⟨?_, by simp [hsize]⟩, rfl⟩
  exact OrderedMap.get?_eq_some_iff.mp hget

end ResolvedRequirement

section PermitValue

variable {size : Nat} {ranks : HopRanks} {heights : List (RouterId × Nat)} {a b : RouterId}
  {kind : RequirementKind}

theorem permitValue_bgp_kConnected (d : Nat) :
    permitValue .bgp .kConnected size ranks heights a b d = Route.defaultLocalPref := rfl

theorem permitValue_bgp (hk : kind ≠ .kConnected) (d : Nat) :
    permitValue .bgp kind size ranks heights a b d =
      leastLocalPref + (ranks.levels a - (d + 1)) := by
  cases kind <;> simp_all [permitValue]

theorem permitValue_ospf (hk : kind ≠ .kConnected) (d : Nat) :
    permitValue .ospf kind size ranks heights a b d =
      max (heightIn heights a + d * size - heightIn heights b) 1 := by
  cases kind <;> simp_all [permitValue, heightIn]

/-- The most preferred hops have the greatest local preference. -/
theorem permitValue_bgp_le (hk : kind ≠ .kConnected) {d : Nat}
    (hd : (ranks.hops a).get? b = some d) :
    permitValue .bgp kind size ranks heights a b d ≤ ranks.levels a ∧
      (permitValue .bgp kind size ranks heights a b d = ranks.levels a ↔ d = 0) := by
  have hlt := HopRanks.lt_levels hd
  rw [permitValue_bgp hk, leastLocalPref]
  omega

end PermitValue

end PathPolicy
