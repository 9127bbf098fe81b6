import Mathlib.Order.Bounds.Basic
import PathPolicy.Proofs.ForwardingLoops

/-! Heights are the lengths of the longest ways to the destination over the most preferred hops.
They exist exactly if these hops do not lead round in circles, and always for a single path. -/

namespace PathPolicy

namespace Digraph

variable {g : Digraph} {a b : Nat} {hs : List (Nat × Nat)} {h : Nat}

theorem exists_isGreatest_heightOver (he : (a, b) ∈ g.edges) (hb : hs.lookup b = some h) :
    ∃ m, g.heightOver hs a = 1 + m ∧
      IsGreatest {k | ∃ c, (a, c) ∈ g.edges ∧ hs.lookup c = some k} m := by
  have hmem : ∀ k, k ∈ (g.successors a).filterMap (fun c => hs.lookup c) ↔
      ∃ c, (a, c) ∈ g.edges ∧ hs.lookup c = some k := by
    intro k
    simp only [List.mem_filterMap, mem_successors]
  have hne : (g.successors a).filterMap (fun c => hs.lookup c) ≠ [] :=
    List.ne_nil_of_mem ((hmem h).mpr ⟨b, he, hb⟩)
  obtain ⟨m, hm⟩ := Option.isSome_iff_exists.mp (List.isSome_max?_iff.mpr hne)
  obtain ⟨hattained, hbound⟩ := List.max?_eq_some_iff.mp hm
  refine ⟨m, ?_, (hmem m).mp hattained, fun k hk => hbound k ((hmem k).mpr hk)⟩
  rw [heightOver, hm, Nat.add_comm]

end Digraph

namespace ResolvedRequirement

variable {t : Topology} {req : ResolvedRequirement} {a b d : RouterId} {h : Nat}
  {heights : List (RouterId × Nat)}

/-- All members are simple paths to the destination. -/
structure Arrives (req : ResolvedRequirement) (d : RouterId) : Prop where
  simple : ∀ p ∈ req.paths, p.Nodup
  ends : ∀ p ∈ req.paths, p.getLast? = some d

theorem uses_of_favors (hf : req.Favors a b) : req.Uses a b := exists_get?_ranks.mp ⟨0, hf⟩

theorem edges_preferred_eq (req : ResolvedRequirement) (d : RouterId) :
    (fun a b => (a, b) ∈ (req.ranks.preferred d).edges) = req.Favors := by
  funext a b
  exact propext HopRanks.mem_edges_preferred

theorem acyclic_preferred_iff :
    (req.ranks.preferred d).Acyclic ↔ ∀ a, ¬ Relation.TransGen req.Favors a a := by
  rw [← edges_preferred_eq req d]
  rfl

namespace Arrives

variable (hr : req.Arrives d)

include hr

theorem ne_of_favors (hf : req.Favors a b) : a ≠ b := by
  obtain ⟨p, hp, hh⟩ := uses_of_favors hf
  exact hh.ne_of_nodup (hr.simple p hp)

theorem ne_destination_of_favors (hf : req.Favors a b) : a ≠ d := by
  obtain ⟨p, hp, hh⟩ := uses_of_favors hf
  exact hh.ne_last (hr.simple p hp) (hr.ends p hp)

theorem mem_keys_of_mem {p : List RouterId} (hp : p ∈ req.paths) (ha : a ∈ p) (hne : a ≠ d) :
    a ∈ req.ranks.keys := by
  obtain ⟨b, hb⟩ := Hop.exists_of_mem (hr.ends p hp) ha hne
  exact mem_keys_ranks.mpr ⟨b, p, hp, hb⟩

end Arrives

/-- Heights along an order of the graph of the most preferred hops. -/
structure HeightsAlong (req : ResolvedRequirement) (d : RouterId) (order : List RouterId)
    (heights : List (RouterId × Nat)) : Prop where
  sorted : (req.ranks.preferred d).IsOrder order
  eq : heights = (req.ranks.preferred d).heights order

theorem exists_heightsAlong (hok : preferredHeights req.ranks d = .ok heights) :
    ∃ order, req.HeightsAlong d order heights := by
  rw [preferredHeights] at hok
  cases ho : (req.ranks.preferred d).topologicalOrder with
  | error a => simp [ho] at hok
  | ok order =>
    simp only [ho, Except.ok.injEq] at hok
    exact ⟨order, Digraph.topologicalOrder_ok ho, hok.symm⟩

namespace HeightsAlong

variable {order : List RouterId} (hh : req.HeightsAlong d order heights)

include hh

theorem mem_order_iff : a ∈ order ↔ a = d ∨ ∃ b, req.Favors a b ∨ req.Favors b a := by
  rw [hh.sorted.mem_iff, HopRanks.mem_nodes_preferred]
  constructor
  · rintro (⟨⟨x, y⟩, he, rfl | rfl⟩ | rfl)
    · exact .inr ⟨y, .inl (HopRanks.mem_preferredHops.mp he)⟩
    · exact .inr ⟨x, .inr (HopRanks.mem_preferredHops.mp he)⟩
    · exact .inl rfl
  · rintro (rfl | ⟨b, hf | hf⟩)
    · exact .inr rfl
    · exact .inl ⟨(a, b), HopRanks.mem_preferredHops.mpr hf, .inl rfl⟩
    · exact .inl ⟨(b, a), HopRanks.mem_preferredHops.mpr hf, .inr rfl⟩

theorem exists_height (ha : a ∈ order) : ∃ h, heights.lookup a = some h := by
  rw [hh.eq]
  exact Digraph.exists_height ha

theorem mem_order (ha : heights.lookup a = some h) : a ∈ order := by
  rw [hh.eq] at ha
  exact Digraph.mem_of_height ha

theorem eq_or_mem_member (ha : a ∈ order) : a = d ∨ ∃ p ∈ req.paths, a ∈ p := by
  rcases hh.mem_order_iff.mp ha with hd | ⟨b, hf | hf⟩
  · exact .inl hd
  · obtain ⟨p, hp, hhop⟩ := uses_of_favors hf
    exact .inr ⟨p, hp, hhop.left_mem⟩
  · obtain ⟨p, hp, hhop⟩ := uses_of_favors hf
    exact .inr ⟨p, hp, hhop.right_mem⟩

variable (hr : req.Arrives d)

include hr

theorem destination : heights.lookup d = some 0 := by
  rw [hh.eq]
  apply Digraph.height_eq_zero (hh.mem_order_iff.mpr (.inl rfl))
  intro b he
  exact hr.ne_destination_of_favors (HopRanks.mem_edges_preferred.mp he) rfl

theorem falls (hf : req.Favors a b) :
    ∃ h k, heights.lookup a = some h ∧ heights.lookup b = some k ∧ k < h := by
  obtain ⟨h, hah⟩ := hh.exists_height (hh.mem_order_iff.mpr (.inr ⟨b, .inl hf⟩))
  obtain ⟨k, hbk⟩ := hh.exists_height (hh.mem_order_iff.mpr (.inr ⟨a, .inr hf⟩))
  have he := HopRanks.mem_edges_preferred (d := d).mpr hf
  refine ⟨h, k, hah, hbk, ?_⟩
  rw [hh.eq] at hah hbk
  exact Digraph.height_lt_of_edge hh.sorted.nodup hh.sorted.forward he (hr.ne_of_favors hf) hah hbk

theorem succ_max (ha : a ∈ req.ranks.keys) : ∃ m, heights.lookup a = some (1 + m) ∧
    IsGreatest {h | ∃ b, req.Favors a b ∧ heights.lookup b = some h} m := by
  obtain ⟨c, hc⟩ := mem_keys_ranks.mp ha
  obtain ⟨b, hf⟩ := exists_preferred hc
  obtain ⟨_, k, _, hbk, _⟩ := hh.falls hr hf
  have hself : (a, a) ∉ (req.ranks.preferred d).edges := fun he =>
    hr.ne_of_favors (HopRanks.mem_edges_preferred.mp he) rfl
  have horder : a ∈ order := hh.mem_order_iff.mpr (.inr ⟨b, .inl hf⟩)
  have hlookup := Digraph.lookup_heights hh.sorted.nodup hh.sorted.forward hself horder
  obtain ⟨m, hm, hgreatest⟩ :=
    Digraph.exists_isGreatest_heightOver (HopRanks.mem_edges_preferred (d := d).mpr hf) hbk
  rw [← hh.eq, hm] at hlookup
  simp only [HopRanks.mem_edges_preferred] at hgreatest
  exact ⟨m, hlookup, hgreatest⟩

theorem lt_size (hd : d < t.size) (hsize : ∀ p ∈ req.paths, ∀ x ∈ p, x < t.size)
    (ha : heights.lookup a = some h) : h < t.size := by
  have hsub : order ⊆ List.range t.size := by
    intro x hx
    rcases hh.eq_or_mem_member hx with rfl | ⟨p, hp, hxp⟩
    · exact List.mem_range.mpr hd
    · exact List.mem_range.mpr (hsize p hp x hxp)
  have hle := (hh.sorted.nodup.subperm hsub).length_le
  rw [hh.eq] at ha
  have hlt := Digraph.height_lt_length ha
  rw [List.length_range] at hle
  omega

/-- No way over most preferred hops is longer than the height of its first router. -/
theorem length_le {p : List RouterId} (hp : p.IsChain req.Favors) (hhead : p.head? = some a)
    (ha : heights.lookup a = some h) : p.length ≤ h + 1 := by
  induction p generalizing a h with
  | nil => cases hhead
  | cons x rest ih =>
    obtain rfl : x = a := Option.some.inj hhead
    cases rest with
    | nil => simp
    | cons y rest =>
      obtain ⟨hf, hrest⟩ := List.isChain_cons_cons.mp hp
      obtain ⟨h', k, hx, hy, hlt⟩ := hh.falls hr hf
      obtain rfl : h' = h := Option.some.inj (hx.symm.trans ha)
      have hle := ih hrest rfl hy
      simp only [List.length_cons] at hle ⊢
      omega

theorem exists_longest (ha : heights.lookup a = some h) :
    ∃ p : List RouterId, p.head? = some a ∧ p.getLast? = some d ∧ p.IsChain req.Favors ∧
      p.length = h + 1 := by
  induction h using Nat.strong_induction_on generalizing a with
  | _ h ih =>
    by_cases had : a = d
    · have hzero := hh.destination hr
      rw [had, hzero] at ha
      obtain rfl := Option.some.inj ha
      exact ⟨[d], by simp [had], rfl, by simp, rfl⟩
    · obtain ⟨p, hp, hap⟩ := (hh.eq_or_mem_member (hh.mem_order ha)).resolve_left had
      obtain ⟨m, hm, ⟨b, hf, hb⟩, _⟩ := hh.succ_max hr (hr.mem_keys_of_mem hp hap had)
      obtain rfl : h = 1 + m := Option.some.inj (ha.symm.trans hm)
      obtain ⟨q, hhead, hlast, hchain, hlength⟩ := ih m (by omega) hb
      obtain ⟨rest, rfl⟩ := List.head?_eq_some_iff.mp hhead
      refine ⟨a :: b :: rest, rfl, by simpa using hlast,
        List.isChain_cons_cons.mpr ⟨hf, hchain⟩, ?_⟩
      rw [List.length_cons, hlength, Nat.add_comm 1 m]

end HeightsAlong

/-- Each router on a member has a height, which is the number of hops of its longest way to the
destination over the most preferred hops. -/
structure LongestWays (req : ResolvedRequirement) (d : RouterId)
    (heights : List (RouterId × Nat)) : Prop where
  destination : heights.lookup d = some 0
  succ_max : ∀ a ∈ req.ranks.keys, ∃ m, heights.lookup a = some (1 + m) ∧
    IsGreatest {h | ∃ b, req.Favors a b ∧ heights.lookup b = some h} m
  falls : ∀ a b, req.Favors a b →
    ∃ h k, heights.lookup a = some h ∧ heights.lookup b = some k ∧ k < h
  member : ∀ p ∈ req.paths, ∀ a ∈ p, ∃ h, heights.lookup a = some h
  lt_size : ∀ t : Topology, d < t.size → (∀ p ∈ req.paths, ∀ a ∈ p, a < t.size) →
    ∀ a h, heights.lookup a = some h → h < t.size
  longest : ∀ a h, heights.lookup a = some h → IsGreatest {n | ∃ p : List RouterId,
    p.head? = some a ∧ p.getLast? = some d ∧ p.IsChain req.Favors ∧ p.length = n + 1} h

theorem HeightsAlong.longestWays {order : List RouterId} (hh : req.HeightsAlong d order heights)
    (hr : req.Arrives d) : req.LongestWays d heights := by
  refine ⟨hh.destination hr, fun a ha => hh.succ_max hr ha, fun a b hf => hh.falls hr hf,
    fun p hp a ha => ?_, fun t hd hsize a h ha => hh.lt_size hr hd hsize ha, fun a h ha => ?_⟩
  · by_cases had : a = d
    · exact ⟨0, had ▸ hh.destination hr⟩
    · obtain ⟨m, hm, _⟩ := hh.succ_max hr (hr.mem_keys_of_mem hp ha had)
      exact ⟨1 + m, hm⟩
  · refine ⟨hh.exists_longest hr ha, ?_⟩
    rintro n ⟨p, hhead, _, hchain, hlength⟩
    have hle := hh.length_le hr hchain hhead ha
    omega

theorem exists_preferredHeights_iff (hr : req.Arrives d) :
    (∃ heights, preferredHeights req.ranks d = .ok heights) ↔
      ∀ a, ¬ Relation.TransGen req.Favors a a := by
  rw [← acyclic_preferred_iff (d := d)]
  constructor
  · rintro ⟨heights, hok⟩
    obtain ⟨order, hh⟩ := exists_heightsAlong hok
    apply Digraph.acyclic_of_lt (heightIn heights)
    intro a b he
    obtain ⟨h, k, ha, hb, hlt⟩ := hh.falls hr (HopRanks.mem_edges_preferred.mp he)
    rw [heightIn, heightIn, ha, hb]
    exact hlt
  · intro hacyclic
    obtain ⟨order, ho⟩ :=
      Digraph.exists_topologicalOrder hacyclic (HopRanks.preferred_wellFormed req.ranks d)
    rw [preferredHeights, ho]
    exact ⟨_, rfl⟩

/-- The hops of one simple path lead nowhere but to its end. -/
theorem not_favors_loop {p : List RouterId} (hp : req.paths = [p]) (hnd : p.Nodup) (a : RouterId) :
    ¬ Relation.TransGen req.Favors a a := by
  rw [← edges_preferred_eq req a]
  apply Digraph.acyclic_of_lt fun x => p.length - p.idxOf x
  intro x y he
  obtain ⟨q, hq, hh⟩ := uses_of_favors (HopRanks.mem_edges_preferred.mp he)
  rw [hp, List.mem_singleton] at hq
  subst q
  have hnext := hh.idxOf_right hnd
  have hlt := List.idxOf_lt_length_of_mem hh.right_mem
  omega

/-- Heights exist if and only if the most preferred hops form no loop, and then they are the lengths
of the longest ways. One path has no loop, and so its intents can always be found. -/
theorem heights_longest (hr : req.Arrives d) :
    ((∃ heights, preferredHeights req.ranks d = .ok heights) ↔
      ∀ a, ¬ Relation.TransGen req.Favors a a) ∧
    (∀ heights, preferredHeights req.ranks d = .ok heights → req.LongestWays d heights) ∧
    (req.kind = .path → (∃ p, req.paths = [p]) →
      (∃ heights, preferredHeights req.ranks d = .ok heights) ∧
        ∀ t g, g.destination = d → ∃ r, req.intents t g = .ok r) := by
  refine ⟨exists_preferredHeights_iff hr, fun heights hok => ?_, fun hk ⟨p, hp⟩ => ?_⟩
  · obtain ⟨order, hh⟩ := exists_heightsAlong hok
    exact hh.longestWays hr
  · have hsimple : p.Nodup := hr.simple p (by simp [hp])
    obtain ⟨heights, hok⟩ := (exists_preferredHeights_iff hr).mpr (not_favors_loop hp hsimple)
    refine ⟨⟨heights, hok⟩, ?_⟩
    rintro t g rfl
    cases hi : req.intents t g with
    | ok r => exact ⟨r, rfl⟩
    | error e =>
      have herror := heights_of_intents hi
      rw [ResolvedRequirement.heights, if_neg (by simp [hk]), hok] at herror
      cases herror

end ResolvedRequirement

namespace Network.Triangle

/-- Traffic from `A` is balanced over the direct link and the way over `B`. -/
def balanced : ResolvedRequirement :=
  ⟨(Requirement.ecmp ⟨.ospf, "D", [path "A" "B", ⟨.ospf, "D", ["A", "D"], false⟩], false⟩).reference 0,
    false, [[1, 2, 0], [1, 0]]⟩

theorem heights_longest_triangle : balanced.Arrives 0 ∧
    preferredHeights balanced.ranks 0 = .ok [(1, 2), (2, 1), (0, 0)] ∧
      balanced.LongestWays 0 [(1, 2), (2, 1), (0, 0)] := by
  have harrives : balanced.Arrives 0 := ⟨by decide, by decide⟩
  have hok : preferredHeights balanced.ranks 0 = .ok [(1, 2), (2, 1), (0, 0)] := by cbv
  exact ⟨harrives, hok, (ResolvedRequirement.heights_longest harrives).2.1 _ hok⟩

end Network.Triangle

end PathPolicy
