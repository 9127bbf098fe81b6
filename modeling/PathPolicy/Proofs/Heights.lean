import PathPolicy.Proofs.Digraph
import PathPolicy.Proofs.HopRanks

/-! The heights of the routers of a requirement fall along its most preferred hops, down to the
destination. -/

namespace PathPolicy

namespace HopRanks

def preferredHops (m : HopRanks) : List (RouterId × RouterId) :=
  m.entries.flatMap fun e => (e.2.entries.filter (·.2 = 0)).map (e.1, ·.1)

theorem preferred_eq (m : HopRanks) (d : RouterId) :
    m.preferred d = (Digraph.empty.addNode d).addEdges m.preferredHops := by
  rw [Digraph.addEdges, preferredHops, List.foldl_flatMap]
  simp only [List.foldl_map, List.foldl_filter, decide_eq_true_eq]
  rfl

theorem mem_preferredHops {m : HopRanks} {a b : RouterId} :
    (a, b) ∈ m.preferredHops ↔ (m.hops a).get? b = some 0 := by
  simp only [preferredHops, List.mem_flatMap, List.mem_map, List.mem_filter, decide_eq_true_eq,
    Prod.mk.injEq]
  constructor
  · rintro ⟨⟨x, hops⟩, hm, ⟨y, r⟩, ⟨hy, rfl⟩, rfl, rfl⟩
    rw [get?_hops_eq_some_of_get? (OrderedMap.get?_eq_some_iff.mpr hm)]
    exact OrderedMap.get?_eq_some_iff.mpr hy
  · intro h
    cases hm : m.get? a with
    | none => simp [hops, hm] at h
    | some hops =>
      rw [get?_hops_eq_some_of_get? hm] at h
      exact ⟨(a, hops), OrderedMap.get?_eq_some_iff.mp hm, (b, 0),
        ⟨OrderedMap.get?_eq_some_iff.mp h, rfl⟩, rfl, rfl⟩

theorem mem_edges_preferred {m : HopRanks} {d a b : RouterId} :
    (a, b) ∈ (m.preferred d).edges ↔ (m.hops a).get? b = some 0 := by
  rw [preferred_eq, Digraph.mem_edges_addEdges, mem_preferredHops, Digraph.edges_addNode]
  simp [Digraph.empty]

theorem mem_nodes_preferred {m : HopRanks} {d x : RouterId} :
    x ∈ (m.preferred d).nodes ↔ (∃ e ∈ m.preferredHops, x = e.1 ∨ x = e.2) ∨ x = d := by
  rw [preferred_eq, Digraph.mem_nodes_addEdges, Digraph.mem_nodes_addNode]
  simp [Digraph.empty]

end HopRanks

def heightIn (heights : List (RouterId × Nat)) (a : RouterId) : Nat := (heights.lookup a).getD 0

namespace ResolvedRequirement

variable {t : Topology} {d : RouterId} {req : ResolvedRequirement}
  {heights : List (RouterId × Nat)} {a b : RouterId}

/-- Heights that fall along the most preferred hops. They are below the number of the routers on
the members. -/
structure Descends (req : ResolvedRequirement) (d : RouterId) (heights : List (RouterId × Nat)) :
    Prop where
  destination : heightIn heights d = 0
  lt_of_hop : ∀ a b, (req.ranks.hops a).get? b = some 0 → heightIn heights b < heightIn heights a
  eq_zero : ∀ a, (∀ p ∈ req.paths, a ∉ p) → heightIn heights a = 0
  bounded : ∃ order : List RouterId, order.Nodup ∧
    (∀ x ∈ order, x = d ∨ ∃ p ∈ req.paths, x ∈ p) ∧ ∀ a, heightIn heights a < order.length

theorem Valid.descends_of_order (hv : req.Valid t d) {order : List RouterId}
    (ho : (req.ranks.preferred d).IsOrder order) :
    req.Descends d ((req.ranks.preferred d).heights order) := by
  have hd : d ∈ order := (ho.mem_iff d).mpr (HopRanks.mem_nodes_preferred.mpr (.inr rfl))
  have huses : ∀ {a b}, (req.ranks.hops a).get? b = some 0 → req.Uses a b :=
    fun h => exists_get?_ranks.mp ⟨0, h⟩
  have hmember : ∀ x ∈ order, x = d ∨ ∃ p ∈ req.paths, x ∈ p := by
    intro x hx
    rcases HopRanks.mem_nodes_preferred.mp ((ho.mem_iff x).mp hx) with ⟨⟨y, z⟩, he, hx⟩ | rfl
    · obtain ⟨p, hp, hh⟩ := huses (HopRanks.mem_preferredHops.mp he)
      rcases hx with rfl | rfl
      · exact .inr ⟨p, hp, hh.left_mem⟩
      · exact .inr ⟨p, hp, hh.right_mem⟩
    · exact .inl rfl
  have hdest : heightIn ((req.ranks.preferred d).heights order) d = 0 := by
    rw [heightIn, Digraph.height_eq_zero hd fun b he => ?_, Option.getD_some]
    exact hv.ne_destination_of_uses (huses (HopRanks.mem_edges_preferred.mp he)) rfl
  refine ⟨hdest, fun a b h => ?_, fun a hno => ?_, order, ho.nodup, hmember, fun a => ?_⟩
  · have he := HopRanks.mem_edges_preferred (d := d).mpr h
    have hm := HopRanks.mem_preferredHops.mpr h
    have hnode : ∀ x, x = a ∨ x = b → x ∈ order := fun x hx =>
      (ho.mem_iff x).mpr (HopRanks.mem_nodes_preferred.mpr (.inl ⟨(a, b), hm, hx⟩))
    obtain ⟨ha, hha⟩ := Digraph.exists_height (g := req.ranks.preferred d) (hnode a (.inl rfl))
    obtain ⟨hb, hhb⟩ := Digraph.exists_height (g := req.ranks.preferred d) (hnode b (.inr rfl))
    rw [heightIn, heightIn, hha, hhb]
    exact Digraph.height_lt_of_edge ho.nodup ho.forward he (hv.ne_of_uses (huses h)) hha hhb
  · cases hh : ((req.ranks.preferred d).heights order).lookup a with
    | none => rw [heightIn, hh, Option.getD_none]
    | some k =>
      rcases hmember a (Digraph.mem_of_height hh) with rfl | ⟨p, hp, ha⟩
      · exact hdest
      · exact absurd ha (hno p hp)
  · rw [heightIn]
    cases hh : ((req.ranks.preferred d).heights order).lookup a with
    | none => exact List.length_pos_of_mem hd
    | some k => exact Digraph.height_lt_length hh

theorem Descends.lt_size (h : req.Descends d heights) (hv : req.Valid t d) (hd : d < t.size)
    (a : RouterId) : heightIn heights a < t.size := by
  obtain ⟨order, hnd, hmember, hlt⟩ := h.bounded
  have hsub : order ⊆ List.range t.size := by
    intro x hx
    rcases hmember x hx with rfl | ⟨p, hp, hxp⟩
    · exact List.mem_range.mpr hd
    · exact List.mem_range.mpr (hv.lt_size hd hp hxp)
  have hle := (hnd.subperm hsub).length_le
  rw [List.length_range] at hle
  exact (hlt a).trans_le hle

theorem Valid.descends (hv : req.Valid t d) (hk : req.kind ≠ .kConnected)
    (h : req.heights req.ranks d = .ok heights) : req.Descends d heights := by
  rw [ResolvedRequirement.heights, if_neg hk, preferredHeights] at h
  cases ho : (req.ranks.preferred d).topologicalOrder with
  | error a => simp [ho] at h
  | ok order =>
    simp only [ho, Except.ok.injEq] at h
    subst heights
    exact hv.descends_of_order (Digraph.topologicalOrder_ok ho)

end ResolvedRequirement

end PathPolicy
