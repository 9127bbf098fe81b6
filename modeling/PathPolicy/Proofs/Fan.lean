import PathPolicy.Proofs.DepthFirst
import PathPolicy.Proofs.Dropout
import PathPolicy.Proofs.MemberOrder
import PathPolicy.Proofs.Naming
import PathPolicy.Proofs.SoleRequirement

/-! Fans, networks of any size in which traffic from the router `0` to the router `1` goes over one of
the others or over the direct link. An OSPF requirement that orders all these paths, with the direct
one last, gives each of them its own rank at the source. -/

namespace PathPolicy.Network.Fan

variable {m i : Nat} {a b : Nat}

/-- The source is linked with all other routers, and each of them with the destination. -/
def ends (m : Nat) : List (Nat × Nat) :=
  (List.range' 1 (m + 1)).map (0, ·) ++ (List.range' 2 m).map (·, 1)

def link (e : Nat × Nat) : Link :=
  ⟨⟨e.1, "eth", Topology.linkAddress 0 1⟩, ⟨e.2, "eth", Topology.linkAddress 0 2⟩⟩

theorem mem_ends : (a, b) ∈ ends m ↔
    (a = 0 ∧ 1 ≤ b ∧ b < m + 2) ∨ (2 ≤ a ∧ a < m + 2 ∧ b = 1) := by
  simp only [ends, List.mem_append, List.mem_map, List.mem_range'_1, Prod.mk.injEq]
  constructor
  · rintro (⟨x, hx, rfl, rfl⟩ | ⟨x, hx, rfl, rfl⟩)
    · exact .inl ⟨rfl, by omega⟩
    · exact .inr ⟨by omega, by omega, rfl⟩
  · rintro (⟨rfl, hb⟩ | ⟨ha, ha', rfl⟩)
    · exact .inl ⟨b, by omega, rfl, rfl⟩
    · exact .inr ⟨a, by omega, rfl, rfl⟩

theorem joins_link (a b x y : Nat) :
    (link (a, b)).joins x y = decide ((a = x ∧ b = y) ∨ (a = y ∧ b = x)) := by
  simp only [link, Link.joins, Bool.decide_or, Bool.decide_and]
  rfl

theorem links_simple (m : Nat) : ((ends m).map link).Pairwise fun l m =>
    m.joins l.first.router l.second.router = false := by
  have hlt : ∀ s n, (List.range' s n).Pairwise (· < ·) := fun s n => List.pairwise_lt_range'
  rw [List.pairwise_map, ends, List.pairwise_append, List.pairwise_map, List.pairwise_map]
  refine ⟨?_, ?_, ?_⟩
  · refine (hlt _ _).imp_of_mem fun {x y} hx _ hxy => ?_
    have hx := (List.mem_range'_1.mp hx).1
    exact (joins_link 0 y 0 x).trans (decide_eq_false (by omega))
  · refine (hlt _ _).imp_of_mem fun {x y} hx _ hxy => ?_
    have hx := (List.mem_range'_1.mp hx).1
    exact (joins_link y 1 x 1).trans (decide_eq_false (by omega))
  · intro e he e' he'
    obtain ⟨x, hx, rfl⟩ := List.mem_map.mp he
    obtain ⟨y, hy, rfl⟩ := List.mem_map.mp he'
    have hx := (List.mem_range'_1.mp hx).1
    have hy := (List.mem_range'_1.mp hy).1
    exact (joins_link y 1 0 x).trans (decide_eq_false (by omega))

/-- The fan with `m` routers besides the source and the destination. Routers are named for their
numbers. -/
def topology (m : Nat) : Topology where
  routers := (List.range (m + 2)).map fun r => ⟨toString r, none, []⟩
  links := (ends m).map link
  names_nodup := by
    rw [List.map_map]
    exact List.nodup_range.map fun x y h => Nat.repr_inj.mp h
  links_join := by
    intro l hl
    obtain ⟨⟨a, b⟩, he, rfl⟩ := List.mem_map.mp hl
    have he := mem_ends.mp he
    rw [List.length_map, List.length_range]
    change a < m + 2 ∧ b < m + 2 ∧ a ≠ b
    omega
  links_simple := links_simple m

theorem size_topology (m : Nat) : (topology m).size = m + 2 := by
  simp [topology, Topology.size]

theorem adjacent_of_mem_ends (h : (a, b) ∈ ends m) : (topology m).adjacent a b = true :=
  Topology.adjacent_iff.mpr ⟨link (a, b), List.mem_map_of_mem h, by simp [joins_link]⟩

/-- The paths over other routers come first, and the direct one is last. -/
def members (m : Nat) : List (List Nat) :=
  (List.range m).map (fun i => [0, i + 2, 1]) ++ [[0, 1]]

theorem mem_members {p : List Nat} :
    p ∈ members m ↔ (∃ i < m, p = [0, i + 2, 1]) ∨ p = [0, 1] := by
  simp [members, eq_comm]

def requirement (m : Nat) : Requirement :=
  .order ⟨.ospf, (topology m).name 1,
    (members m).map fun p => ⟨.ospf, (topology m).name 1, (topology m).names p, false⟩, false⟩

def resolved (m : Nat) : ResolvedRequirement := ⟨(requirement m).reference 0, false, members m⟩

def group (m : Nat) : RequirementGroup := ⟨.ospf, 1, [resolved m]⟩

theorem uses_iff : (resolved m).Uses a b ↔
    (a = 0 ∧ 1 ≤ b ∧ b < m + 2) ∨ (2 ≤ a ∧ a < m + 2 ∧ b = 1) := by
  have hmiddle : ∀ i, Hop [0, i + 2, 1] a b ↔ (a = 0 ∧ b = i + 2) ∨ (a = i + 2 ∧ b = 1) := by
    intro i
    simp [Hop.cons_iff, Hop.not_nil, eq_comm]
  have hdirect : Hop [0, 1] a b ↔ a = 0 ∧ b = 1 := by simp [Hop.cons_iff, Hop.not_nil, eq_comm]
  constructor
  · rintro ⟨p, hp, hh⟩
    rcases mem_members.mp hp with ⟨i, hi, rfl⟩ | rfl
    · rcases (hmiddle i).mp hh with ⟨rfl, rfl⟩ | ⟨rfl, rfl⟩
      · exact .inl ⟨rfl, by omega⟩
      · exact .inr ⟨by omega, by omega, rfl⟩
    · obtain ⟨rfl, rfl⟩ := hdirect.mp hh
      exact .inl ⟨rfl, by omega⟩
  · rintro (⟨rfl, hb⟩ | ⟨ha, ha', rfl⟩)
    · by_cases hb1 : b = 1
      · exact ⟨[0, 1], mem_members.mpr (.inr rfl), hdirect.mpr ⟨rfl, hb1⟩⟩
      · exact ⟨[0, b - 2 + 2, 1], mem_members.mpr (.inl ⟨b - 2, by omega, rfl⟩),
          (hmiddle _).mpr (.inl ⟨rfl, by omega⟩)⟩
    · exact ⟨[0, a - 2 + 2, 1], mem_members.mpr (.inl ⟨a - 2, by omega, rfl⟩),
        (hmiddle _).mpr (.inr ⟨by omega, rfl⟩)⟩

theorem resolved_valid (m : Nat) : (resolved m).Valid (topology m) 1 := by
  refine ⟨fun p hp => ?_, fun p hp => ?_, fun p hp => ?_⟩
  · rcases mem_members.mp hp with ⟨i, hi, rfl⟩ | rfl <;> simp
  · refine Hop.isChain_iff.mpr fun a b hh => adjacent_of_mem_ends (mem_ends.mpr ?_)
    exact uses_iff.mp ⟨p, hp, hh⟩
  · rcases mem_members.mp hp with ⟨i, hi, rfl⟩ | rfl <;> simp

theorem group_valid (m : Nat) : (group m).Valid (topology m) := by
  intro req hreq
  rw [List.mem_singleton.mp hreq]
  exact resolved_valid m

/-- The next hops of the source, in the order of the members. -/
def hopAt (m i : Nat) : Nat := if i = m then 1 else i + 2

theorem firstTakes_hopAt (hi : i ≤ m) : (resolved m).FirstTakes i 0 (hopAt m i) := by
  have hget : ∀ j p, (members m)[j]? = some p → Hop p 0 (hopAt m i) → i = j := by
    intro j p hp hh
    rw [members, List.getElem?_append, List.length_map, List.length_range] at hp
    rw [hopAt] at hh
    split at hp
    · simp only [List.getElem?_map, List.getElem?_range, *, Option.map_some,
        Option.some.injEq] at hp
      subst p
      split at hh <;> simp [Hop.cons_iff, Hop.not_nil] at hh
      omega
    · obtain ⟨hj, rfl⟩ := List.getElem?_eq_some_iff.mp hp
      have hjm : j = m := by
        rw [List.length_singleton] at hj
        omega
      split at hh <;> simp [Hop.cons_iff, Hop.not_nil] at hh
      omega
  refine ⟨?_, fun j p hp hh => (hget j p hp hh).le⟩
  have huses : (resolved m).Uses 0 (hopAt m i) := by
    refine uses_iff.mpr (.inl ⟨rfl, ?_⟩)
    rw [hopAt]
    split <;> omega
  obtain ⟨p, hp, hh⟩ := huses
  obtain ⟨j, hj⟩ := List.mem_iff_getElem?.mp hp
  obtain rfl := hget j p hj hh
  exact ⟨p, hj, hh⟩

/-- All hops of the source have different ranks. -/
theorem exists_rank_hopAt (hi : i ≤ m) :
    ∃ d, ((resolved m).ranks.hops 0).get? (hopAt m i) = some d ∧ i ≤ d := by
  induction i with
  | zero =>
    obtain ⟨d, hd⟩ := ResolvedRequirement.exists_get?_ranks.mpr (firstTakes_hopAt hi).uses
    exact ⟨d, hd, Nat.zero_le d⟩
  | succ i ih =>
    obtain ⟨c, hc, hle⟩ := ih (by omega)
    obtain ⟨d, hd⟩ := ResolvedRequirement.exists_get?_ranks.mpr (firstTakes_hopAt hi).uses
    have hlt := (firstTakes_hopAt (by omega)).rank_lt (firstTakes_hopAt hi) rfl (Nat.lt_succ_self i)
      hc hd
    exact ⟨d, hd, by omega⟩

def run (m : Nat) : Synthesizer := ⟨topology m, .sequential⟩

def store (m : Nat) : Store := ((Store.ofTopology (topology m)).addAll [requirement m]).1

theorem one_lt_size_topology (m : Nat) : 1 < (topology m).size := by
  rw [size_topology]
  omega

theorem error?_requirement (m : Nat) :
    (Store.ofTopology (topology m)).error? (requirement m) = none := by
  refine Store.error?_eq_none_iff.mpr ⟨?_, fun hno => absurd rfl hno, ?_, fun x hx => ?_⟩
  · exact List.mem_of_getElem? (Topology.getElem?_names (one_lt_size_topology m))
  · simp [requirement, Requirement.members, members]
  · obtain ⟨p, hp, rfl⟩ := List.mem_map.mp hx
    refine ⟨rfl, rfl, fun hnil => ?_⟩
    rcases mem_members.mp hp with ⟨i, _, rfl⟩ | rfl <;> simp [Topology.names] at hnil

theorem key_mem_store (m : Nat) : ⟨.ospf, (topology m).name 1⟩ ∈ (store m).keys := by
  rw [store, (Store.keys_of_single (error?_requirement m)).1]
  exact List.mem_cons_self

theorem resolver_group (m : Nat) :
    (run m).resolver.group (store m) ⟨.ospf, (topology m).name 1⟩ = .ok (some (group m)) := by
  refine Resolver.group_of_single (v := (run m).resolver) (error?_requirement m)
    (Topology.routerId?_name (one_lt_size_topology m)) ?_
  have hpaths : (requirement m).members.mapM
      ((run m).resolver.path ((requirement m).reference 0)) = .ok (members m) := by
    rw [mapM_eq_ok_iff]
    change List.Forall₂ _ ((members m).map _) _
    rw [List.forall₂_map_left_iff, List.forall₂_same]
    intro p hp
    have hv := resolved_valid m
    exact Resolver.path_names (fun a ha => hv.lt_size (one_lt_size_topology m) hp ha)
      (hv.simple p hp) (hv.linked p hp) (hv.ends p hp) (fun hbgp => by cases hbgp)
  rw [Resolver.requirement, hpaths]
  rfl

/-- The number of hops to the destination, the long way round. -/
def height (r : Nat) : Nat := if r = 0 then 2 else if r = 1 then 0 else 1

theorem height_lt_of_uses (h : (resolved m).Uses a b) : height b < height a := by
  rcases uses_iff.mp h with ⟨rfl, hb⟩ | ⟨ha, _, rfl⟩
  · have hb0 : b ≠ 0 := by omega
    rw [height, if_neg hb0, height, if_pos rfl]
    split <;> omega
  · have ha0 : a ≠ 0 := by omega
    have ha1 : a ≠ 1 := by omega
    simp [height, ha0, ha1]

theorem exists_heights (m : Nat) :
    ∃ heights, (resolved m).heights (resolved m).ranks 1 = .ok heights :=
  ResolvedRequirement.exists_heights height fun _ _ h =>
    height_lt_of_uses (ResolvedRequirement.exists_get?_ranks.mp ⟨0, h⟩)

theorem group_harmonious (m : Nat) : (group m).Harmonious (topology m) := by
  refine RequirementGroup.harmonious_of_sole rfl ?_
  obtain ⟨heights, hh⟩ := exists_heights m
  have hh' : (resolved m).heights (HopRanks.ofRequirement (resolved m)).dense
      (group m).destination = .ok heights := hh
  rw [ResolvedRequirement.intents, hh']
  exact ⟨_, rfl⟩

/-- Members cannot be mixed, since they have no router but their ends in common. -/
theorem mem_members_of_mixed {p : List Nat} (h : (group m).Mixed p) : p ∈ (group m).paths := by
  have hpaths : (group m).paths = members m := List.flatMap_singleton _ _
  have huses : ∀ x y, Hop p x y → (resolved m).Uses x y := by
    intro x y hh
    obtain ⟨req, hreq, hu⟩ := hh.of_isChain h.chain
    rwa [List.mem_singleton.mp hreq] at hu
  have hlast := h.last
  obtain ⟨q, hq, hhead⟩ := h.source
  rw [hpaths] at hq ⊢
  have hstart : q.head? = some 0 := by
    rcases mem_members.mp hq with ⟨i, _, rfl⟩ | rfl <;> rfl
  rw [hstart] at hhead
  match p, hhead with
  | [_], rfl => simp [group] at hlast
  | [_, b], rfl =>
    obtain rfl : b = 1 := by simpa [group] using hlast
    exact mem_members.mpr (.inr rfl)
  | _ :: b :: c :: rest, rfl =>
    have hb := uses_iff.mp (huses 0 b (Hop.cons_iff.mpr (.inl ⟨rfl, rfl⟩)))
    have hc := uses_iff.mp (huses b c ((Hop.cons_iff.mpr (.inl ⟨rfl, rfl⟩)).cons 0))
    obtain rfl : c = 1 := by omega
    cases rest with
    | nil => exact mem_members.mpr (.inl ⟨b - 2, by omega, by simp; omega⟩)
    | cons d rest =>
      have hd := uses_iff.mp (huses 1 d
        (((Hop.cons_iff.mpr (.inl ⟨rfl, rfl⟩)).cons b).cons 0))
      omega

/-- The cost of the direct link exceeds the product of the number of ranks before it and the number of
routers. -/
theorem exists_cost (m : Nat) : ∃ policy cost,
    (group m).synthesize (topology m) none = .ok policy ∧ policy.conflicts = [] ∧
      policy.decisions.get? ⟨0, 1, .outgoing⟩ = some (.permit cost) ∧ m * (m + 2) < cost := by
  obtain ⟨policy, h⟩ := RequirementGroup.exists_policy (group_valid m) (fun hno => absurd rfl hno)
    none
  obtain ⟨hconflicts, hclear⟩ := RequirementGroup.clear_of_members (group_harmonious m)
    fun _ => mem_members_of_mixed
  have hkind : (resolved m).kind ≠ .kConnected := by
    rw [show (resolved m).kind = .order from rfl]
    decide
  obtain ⟨heights, hh⟩ := exists_heights m
  obtain ⟨d, hd, hmd⟩ := exists_rank_hopAt (le_refl m)
  rw [hopAt, if_pos rfl] at hd
  have hdecision := RequirementGroup.decision_of_rank hclear List.mem_cons_self (resolved_valid m)
    hkind hh hd
  have hdescends := (resolved_valid m).descends hkind hh
  refine ⟨policy, _, h, ?_, (RequirementGroup.get?_decisions_eq_some_iff h).mpr
    ⟨rfl, hdecision, hclear 0⟩, ?_⟩
  · rw [RequirementGroup.synthesize_ok h]
    exact hconflicts
  · have huses : (resolved m).Uses 0 1 := ResolvedRequirement.exists_get?_ranks.mp ⟨d, hd⟩
    obtain ⟨b, hb⟩ := ResolvedRequirement.exists_preferred huses
    have hlt := hdescends.lt_of_hop 0 b hb
    have hmul : m * (m + 2) ≤ d * (m + 2) := Nat.mul_le_mul_right (m + 2) hmd
    change _ < permitValue .ospf .order (topology m).size (resolved m).ranks heights 0 1 d
    rw [permitValue_ospf (by decide), size_topology, hdescends.destination]
    omega

end PathPolicy.Network.Fan
