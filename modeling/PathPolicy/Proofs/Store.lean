import PathPolicy.Proofs.OrderedMap
import PathPolicy.Requirement.Store

/-! What a store promises about the requirements that it accepted. -/

namespace PathPolicy

/-- A requirement that a store for the topology accepts. -/
@[mk_iff]
structure Requirement.WellFormed (t : Topology) (r : Requirement) : Prop where
  known : ∃ router ∈ t.routers, router.name = r.destination
  loopback : r.protocol ≠ .ospf →
    ∃ router ∈ t.routers, router.name = r.destination ∧ router.loopbacks ≠ []
  members_ne_nil : r.members ≠ []
  member : ∀ m ∈ r.members,
    m.protocol = r.protocol ∧ m.destination = r.destination ∧ m.path ≠ []

instance (t : Topology) (r : Requirement) : Decidable (r.WellFormed t) :=
  decidable_of_iff _ (r.wellFormed_iff t).symm

theorem Requirement.memberError?_eq_none_iff {r : Requirement} {reference : RequirementRef}
    {m : PathReq} {i : Nat} : r.memberError? reference m i = none ↔
      m.protocol = r.protocol ∧ m.destination = r.destination ∧ m.path ≠ [] := by
  rw [memberError?]
  split
  · simp_all
  · split
    · simp_all
    · split <;> simp_all

namespace Store

variable {t : Topology} {s s' : Store} {r : Requirement}

/-- The store was made for the topology and filled by adding requirements. -/
inductive Filled (t : Topology) : Store → Prop
  | new : Filled t (ofTopology t)
  | add {s s' : Store} {r : Requirement} : Filled t s → s.add r = .ok s' → Filled t s'

/-- The members of a requirement agree with it, and the groups list requirements by their keys. -/
structure Sound (s : Store) : Prop where
  members_ne_nil : ∀ r ∈ s.requirements, r.members ≠ []
  protocol : ∀ r ∈ s.requirements, ∀ m ∈ r.members, m.protocol = r.protocol
  destination : ∀ r ∈ s.requirements, ∀ m ∈ r.members, m.destination = r.destination
  group_ne_nil : ∀ k, s.groups.get? k ≠ some []
  group : ∀ k is, s.groups.get? k = some is →
    ∀ i ∈ is, ∃ r, s.requirements[i]? = some r ∧ r.key = k

theorem error?_eq_none_iff : s.error? r = none ↔ r.destination ∈ s.nodes ∧
    (r.protocol ≠ .ospf → r.destination ∈ s.nodesWithLoopback) ∧ r.members ≠ [] ∧
    ∀ m ∈ r.members, m.protocol = r.protocol ∧ m.destination = r.destination ∧ m.path ≠ [] := by
  have hmember : (r.members.zipIdx.findSome? fun m =>
        r.memberError? (r.reference s.size) m.1 m.2) = none ↔
      ∀ m ∈ r.members, m.protocol = r.protocol ∧ m.destination = r.destination ∧ m.path ≠ [] := by
    simp only [List.findSome?_eq_none_iff, Requirement.memberError?_eq_none_iff]
    constructor
    · intro hall m hm
      obtain ⟨i, hi⟩ := List.mem_iff_getElem?.mp hm
      exact hall (m, i) (List.mem_zipIdx_iff_getElem?.mpr hi)
    · intro hall m hm
      exact hall m.1 (List.fst_mem_of_mem_zipIdx hm)
  rw [← hmember, error?]
  split
  · next hnode =>
    have hnode : r.destination ∉ s.nodes := by simpa using hnode
    simp [hnode]
  · next hnode =>
    have hnode : r.destination ∈ s.nodes := by simpa using hnode
    split
    · next hloopback =>
      have hloopback : r.protocol ≠ .ospf ∧ r.destination ∉ s.nodesWithLoopback := by
        simpa using hloopback
      simp [hloopback]
    · next hloopback =>
      have hloopback : r.protocol ≠ .ospf → r.destination ∈ s.nodesWithLoopback := by
        simpa using hloopback
      split <;> simp_all

theorem add_ok (h : s.add r = .ok s') : s.error? r = none ∧
    s'.requirements = s.requirements ++ [r] ∧
    s'.groups = s.groups.update r.key fun indices => indices.getD [] ++ [s.size] := by
  rw [add] at h
  split at h
  · cases h
  · next hnone =>
    cases h
    exact ⟨hnone, rfl, rfl⟩

theorem nodes_add (h : s.add r = .ok s') :
    s'.nodes = s.nodes ∧ s'.nodesWithLoopback = s.nodesWithLoopback := by
  rw [add] at h
  split at h
  · cases h
  · cases h
    exact ⟨rfl, rfl⟩

theorem Filled.addAll (h : Filled t s) (rs : List Requirement) : Filled t (s.addAll rs).1 := by
  induction rs generalizing s with
  | nil => exact h
  | cons r rs ih =>
    rw [Store.addAll]
    split
    · next s' hs' => exact ih (.add h hs')
    · exact h

theorem Filled.nodes_eq (h : Filled t s) :
    s.nodes = (ofTopology t).nodes ∧ s.nodesWithLoopback = (ofTopology t).nodesWithLoopback := by
  induction h with
  | new => exact ⟨rfl, rfl⟩
  | add _ hadd ih => exact ⟨(nodes_add hadd).1.trans ih.1, (nodes_add hadd).2.trans ih.2⟩

/-- A filled store accepts exactly the well-formed requirements. -/
theorem Filled.error?_eq_none_iff (h : Filled t s) : s.error? r = none ↔ r.WellFormed t := by
  rw [Store.error?_eq_none_iff, Requirement.wellFormed_iff, h.nodes_eq.1, h.nodes_eq.2]
  simp [ofTopology, and_comm, and_assoc, and_left_comm]

theorem Filled.wellFormed (h : Filled t s) : ∀ r ∈ s.requirements, r.WellFormed t := by
  induction h with
  | new => simp [ofTopology]
  | add h hadd ih =>
    obtain ⟨hnone, hreqs, _⟩ := add_ok hadd
    intro x hx
    rw [hreqs] at hx
    rcases List.mem_append.mp hx with hx | hx
    · exact ih x hx
    · obtain rfl := List.mem_singleton.mp hx
      exact h.error?_eq_none_iff.mp hnone

/-- A group lists the requirements of its key in the order in which they were added. -/
theorem Filled.indices_eq (h : Filled t s) (k : GroupKey) : (s.groups.get? k).getD [] =
    (List.range s.size).filter fun i => (s.get? i).map (·.key) = some k := by
  induction h with
  | new => simp [ofTopology, size]
  | @add s s' r _ hadd ih =>
    obtain ⟨_, hreqs, hgroups⟩ := add_ok hadd
    have hsize : s'.size = s.size + 1 := by simp [size, hreqs]
    have hnew : s'.get? s.size = some r := by simp [get?, size, hreqs]
    have hold : ∀ i ∈ List.range s.size, s'.get? i = s.get? i := by
      intro i hi
      rw [get?, get?, hreqs, List.getElem?_append_left (List.mem_range.mp hi)]
    have hfront : (List.range s.size).filter (fun i => (s'.get? i).map (·.key) = some k) =
        (s.groups.get? k).getD [] := by
      rw [ih]
      exact List.filter_congr fun i hi => by rw [hold i hi]
    rw [hgroups, OrderedMap.get?_update, hsize, List.range_succ, List.filter_append, hfront]
    by_cases hk : k = r.key
    · simp [hk, hnew]
    · simp [hk, hnew, eq_comm]

theorem Filled.mem_indices_iff (h : Filled t s) {k : GroupKey} {i : Nat} :
    i ∈ (s.groups.get? k).getD [] ↔ ∃ r, s.get? i = some r ∧ r.key = k := by
  rw [h.indices_eq, List.mem_filter, List.mem_range, decide_eq_true_eq, Option.map_eq_some_iff]
  refine and_iff_right_of_imp ?_
  rintro ⟨r, hr, -⟩
  exact (List.getElem?_eq_some_iff.mp hr).1

theorem Filled.group_ne_nil (h : Filled t s) (k : GroupKey) : s.groups.get? k ≠ some [] := by
  induction h with
  | new => simp [ofTopology]
  | add _ hadd ih =>
    rw [(add_ok hadd).2.2, OrderedMap.get?_update]
    split
    · simp
    · exact ih

theorem Filled.sound (h : Filled t s) : s.Sound where
  members_ne_nil r hr := (h.wellFormed r hr).members_ne_nil
  protocol r hr m hm := ((h.wellFormed r hr).member m hm).1
  destination r hr m hm := ((h.wellFormed r hr).member m hm).2.1
  group_ne_nil := h.group_ne_nil
  group k is hk i hi := h.mem_indices_iff.mp (by simpa [hk] using hi)

theorem get?_of_mem_group {k : GroupKey} {i : Nat} (h : (i, r) ∈ s.group k) :
    s.get? i = some r := by
  obtain ⟨j, _, hm⟩ := List.mem_filterMap.mp h
  obtain ⟨x, hx, he⟩ := Option.map_eq_some_iff.mp hm
  obtain ⟨rfl, rfl⟩ := Prod.mk.inj he
  exact hx

theorem Sound.of_mem_group (hs : s.Sound) {k : GroupKey} {i : Nat} (h : (i, r) ∈ s.group k) :
    r ∈ s.requirements ∧ r.key = k := by
  obtain ⟨j, hj, hm⟩ := List.mem_filterMap.mp h
  obtain ⟨x, hx, he⟩ := Option.map_eq_some_iff.mp hm
  obtain ⟨rfl, rfl⟩ := Prod.mk.inj he
  cases hget : s.groups.get? k with
  | none => simp [hget] at hj
  | some is =>
    obtain ⟨y, hy, hkey⟩ := hs.group k is hget j (by simpa [hget] using hj)
    obtain rfl : x = y := Option.some.inj (hx.symm.trans hy)
    exact ⟨List.mem_of_getElem? hx, hkey⟩

theorem Sound.group_ne_nil_of_mem_keys (hs : s.Sound) {k : GroupKey} (h : k ∈ s.keys) :
    s.group k ≠ [] := by
  obtain ⟨is, hget⟩ := OrderedMap.mem_keys_iff.mp h
  cases is with
  | nil => exact absurd hget (hs.group_ne_nil k)
  | cons i is =>
    obtain ⟨r, hr, _⟩ := hs.group k _ hget i (by simp)
    have hr' : s.get? i = some r := hr
    simp [Store.group, hget, hr']

theorem requirements_addAll {rs : List Requirement} (h : s.addAll rs = (s', none)) :
    s'.requirements = s.requirements ++ rs := by
  induction rs generalizing s with
  | nil =>
    obtain rfl : s = s' := congrArg Prod.fst h
    simp
  | cons r rs ih =>
    rw [addAll] at h
    split at h
    · next s₁ hs₁ => rw [ih h, (add_ok hs₁).2.1, List.append_assoc, List.singleton_append]
    · cases h

theorem Filled.mem_group (h : Filled t s) {i : Nat} (hr : s.requirements[i]? = some r) :
    (i, r) ∈ s.group r.key := by
  have hr' : s.get? i = some r := hr
  exact List.mem_filterMap.mpr ⟨i, h.mem_indices_iff.mpr ⟨r, hr, rfl⟩, by rw [hr']; rfl⟩

theorem Filled.mem_keys_iff (h : Filled t s) {k : GroupKey} :
    k ∈ s.keys ↔ ∃ r ∈ s.requirements, r.key = k := by
  constructor
  · intro hk
    obtain ⟨⟨i, r⟩, hir⟩ := List.exists_mem_of_ne_nil _ (h.sound.group_ne_nil_of_mem_keys hk)
    obtain ⟨hr, hkey⟩ := h.sound.of_mem_group hir
    exact ⟨r, hr, hkey⟩
  · rintro ⟨r, hr, rfl⟩
    obtain ⟨i, hi⟩ := List.mem_iff_getElem?.mp hr
    obtain ⟨j, hj, _⟩ := List.mem_filterMap.mp (h.mem_group hi)
    refine OrderedMap.mem_keys_iff.mpr ?_
    cases hget : s.groups.get? r.key with
    | none => simp [hget] at hj
    | some is => exact ⟨is, rfl⟩

end Store

end PathPolicy
