import Mathlib.Data.Nat.Find
import Mathlib.Tactic.Common
import PathPolicy.Proofs.Member
import PathPolicy.Proofs.OrderedMap
import PathPolicy.Synthesis.Intent

/-! The next hops that a requirement ranks are the hops of its members, and the most preferred ones
are those that the requirement asks traffic to take. -/

namespace PathPolicy

namespace HopRanks

theorem get?_hops_addHop (rank : Nat) (m : HopRanks) (hop : RouterId × RouterId)
    (a b : RouterId) :
    ((m.addHop rank hop).hops a).get? b =
      if (a, b) = hop then some (min (((m.hops a).get? b).getD rank) rank)
      else (m.hops a).get? b := by
  obtain ⟨x, y⟩ := hop
  rw [hops, addHop, OrderedMap.get?_insert]
  by_cases ha : a = x
  · subst x
    rw [if_pos rfl, Option.getD_some, OrderedMap.get?_update]
    by_cases hb : b = y
    · subst y
      simp
    · simp [hb]
  · simp [ha, hops]

theorem mem_keys_addHop {rank : Nat} {m : HopRanks} {hop : RouterId × RouterId} {a : RouterId} :
    a ∈ (m.addHop rank hop).keys ↔ a = hop.1 ∨ a ∈ m.keys := by
  simp only [OrderedMap.mem_keys_iff, addHop, OrderedMap.get?_insert]
  by_cases ha : a = hop.1 <;> simp [ha]

def ranksOf (hop : RouterId × RouterId) (xs : List (Nat × (RouterId × RouterId))) : List Nat :=
  (xs.filter (·.2 = hop)).map (·.1)

theorem mem_ranksOf {hop : RouterId × RouterId} {xs : List (Nat × (RouterId × RouterId))}
    {r : Nat} : r ∈ ranksOf hop xs ↔ (r, hop) ∈ xs := by
  simp [ranksOf]

theorem min?_concat (xs : List Nat) (r : Nat) :
    (xs ++ [r]).min? = some (min (xs.min?.getD r) r) := by
  cases xs with
  | nil => simp
  | cons x xs =>
    rw [List.cons_append, List.min?_cons', List.min?_cons', List.foldl_append]
    rfl

def addRanked (m : HopRanks) (xs : List (Nat × (RouterId × RouterId))) : HopRanks :=
  xs.foldl (fun m x => m.addHop x.1 x.2) m

theorem get?_hops_addRanked (xs : List (Nat × (RouterId × RouterId))) (a b : RouterId) :
    ((addRanked OrderedMap.empty xs).hops a).get? b = (ranksOf (a, b) xs).min? := by
  induction xs using List.reverseRecOn with
  | nil => rfl
  | append_singleton xs x ih =>
    rw [addRanked, List.foldl_append]
    change (((addRanked OrderedMap.empty xs).addHop x.1 x.2).hops a).get? b = _
    rw [get?_hops_addHop, ih]
    by_cases hx : (a, b) = x.2
    · rw [if_pos hx, ← min?_concat]
      simp [ranksOf, hx]
    · have hx' : ¬ x.2 = (a, b) := fun he => hx he.symm
      simp [ranksOf, hx, hx']

theorem mem_keys_addRanked {xs : List (Nat × (RouterId × RouterId))} {m : HopRanks}
    {a : RouterId} : a ∈ (m.addRanked xs).keys ↔ (∃ x ∈ xs, x.2.1 = a) ∨ a ∈ m.keys := by
  induction xs generalizing m with
  | nil => simp [addRanked]
  | cons x xs ih =>
    rw [addRanked, List.foldl_cons]
    change a ∈ ((m.addHop x.1 x.2).addRanked xs).keys ↔ _
    rw [ih, mem_keys_addHop]
    simp only [List.exists_mem_cons_iff, eq_comm (a := a), or_assoc, or_left_comm]

theorem get?_hops_dense (m : HopRanks) (a b : RouterId) :
    (m.dense.hops a).get? b =
      ((m.hops a).get? b).map fun rank => (m.hops a).values.eraseDups.countP (· < rank) := by
  rw [hops, dense, OrderedMap.get?_mapValues, hops]
  cases m.get? a with
  | none => rfl
  | some hops =>
    exact OrderedMap.get?_mapValues
      (fun _ rank => hops.values.eraseDups.countP (· < rank)) hops b

theorem mem_keys_dense {m : HopRanks} {a : RouterId} : a ∈ m.dense.keys ↔ a ∈ m.keys := by
  simp only [OrderedMap.mem_keys_iff, dense, OrderedMap.get?_mapValues, Option.map_eq_some_iff]
  exact ⟨fun ⟨_, v, hv, _⟩ => ⟨v, hv⟩, fun ⟨v, hv⟩ => ⟨_, v, hv, rfl⟩⟩

/-- The most preferred next hops are those that have the least rank. -/
theorem get?_hops_dense_eq_zero_iff {m : HopRanks} {a b : RouterId} :
    (m.dense.hops a).get? b = some 0 ↔
      ∃ r, (m.hops a).get? b = some r ∧ ∀ c r', (m.hops a).get? c = some r' → r ≤ r' := by
  rw [get?_hops_dense, Option.map_eq_some_iff]
  refine exists_congr fun r => and_congr_right fun _ => ?_
  simp only [List.countP_eq_zero, List.mem_eraseDups, OrderedMap.mem_values_iff, decide_eq_true_eq,
    Nat.not_lt]
  exact ⟨fun h c r' hc => h r' ⟨c, hc⟩, fun h r' ⟨c, hc⟩ => h c r' hc⟩

theorem get?_hops_eq_some_of_get? {m : HopRanks} {a : RouterId} {hops : OrderedMap RouterId Nat}
    (h : m.get? a = some hops) : m.hops a = hops := by
  simp [HopRanks.hops, h]

theorem lt_levels {m : HopRanks} {a b : RouterId} {d : Nat} (h : (m.hops a).get? b = some d) :
    d < m.levels a := by
  have hd : d ∈ (m.hops a).values := OrderedMap.mem_values_iff.mpr ⟨b, h⟩
  rw [levels]
  cases hmax : (m.hops a).values.max? with
  | none => simp [List.max?_eq_none_iff.mp hmax] at hd
  | some k => exact Nat.lt_succ_of_le ((List.max?_eq_some_iff.mp hmax).2 d hd)

end HopRanks

namespace ResolvedRequirement

variable {req : ResolvedRequirement} {a b : RouterId}

/-- The next hops of all routers with their dense ranks. -/
def ranks (req : ResolvedRequirement) : HopRanks := (HopRanks.ofRequirement req).dense

def memberRank (req : ResolvedRequirement) (i : Nat) : Nat := if req.kind = .order then i else 0

def rankedHops (req : ResolvedRequirement) : List (Nat × (RouterId × RouterId)) :=
  req.paths.zipIdx.flatMap fun p => (p.1.zip p.1.tail).map (req.memberRank p.2, ·)

theorem ofRequirement_eq (req : ResolvedRequirement) :
    HopRanks.ofRequirement req = HopRanks.addRanked OrderedMap.empty req.rankedHops := by
  rw [HopRanks.addRanked, rankedHops, List.foldl_flatMap]
  simp only [List.foldl_map]
  rfl

theorem mem_rankedHops {r : Nat} : (r, (a, b)) ∈ req.rankedHops ↔
    ∃ i p, req.paths[i]? = some p ∧ Hop p a b ∧ r = req.memberRank i := by
  simp only [rankedHops, List.mem_flatMap, List.mem_map, List.mem_zipIdx_iff_getElem?,
    Prod.mk.injEq]
  constructor
  · rintro ⟨⟨p, i⟩, hi, hop, hm, rfl, rfl⟩
    exact ⟨i, p, hi, Hop.mem_zip_tail.mp hm, rfl⟩
  · rintro ⟨i, p, hi, hh, rfl⟩
    exact ⟨(p, i), hi, (a, b), Hop.mem_zip_tail.mpr hh, rfl, rfl⟩

theorem uses_iff_exists_rank : req.Uses a b ↔ ∃ r, (r, (a, b)) ∈ req.rankedHops := by
  constructor
  · rintro ⟨p, hp, hh⟩
    obtain ⟨i, hi⟩ := List.mem_iff_getElem?.mp hp
    exact ⟨_, mem_rankedHops.mpr ⟨i, p, hi, hh, rfl⟩⟩
  · rintro ⟨r, hr⟩
    obtain ⟨i, p, hi, hh, _⟩ := mem_rankedHops.mp hr
    exact ⟨p, List.mem_of_getElem? hi, hh⟩

theorem get?_ofRequirement {r : Nat} : ((HopRanks.ofRequirement req).hops a).get? b = some r ↔
    (r, (a, b)) ∈ req.rankedHops ∧ ∀ r', (r', (a, b)) ∈ req.rankedHops → r ≤ r' := by
  rw [ofRequirement_eq, HopRanks.get?_hops_addRanked, List.min?_eq_some_iff]
  simp only [HopRanks.mem_ranksOf]

theorem exists_get?_ofRequirement :
    (∃ r, ((HopRanks.ofRequirement req).hops a).get? b = some r) ↔ req.Uses a b := by
  rw [ofRequirement_eq, HopRanks.get?_hops_addRanked, ← Option.isSome_iff_exists,
    List.isSome_min?_iff, uses_iff_exists_rank]
  simp only [← HopRanks.mem_ranksOf]
  exact ⟨List.exists_mem_of_ne_nil _, fun ⟨r, hr⟩ => List.ne_nil_of_mem hr⟩

theorem exists_get?_ranks : (∃ d, (req.ranks.hops a).get? b = some d) ↔ req.Uses a b := by
  rw [← exists_get?_ofRequirement, ranks, HopRanks.get?_hops_dense]
  simp

theorem get?_ranks_eq_none_iff : (req.ranks.hops a).get? b = none ↔ ¬ req.Uses a b := by
  rw [← exists_get?_ranks, Option.eq_none_iff_forall_ne_some]
  simp

theorem mem_keys_ranks : a ∈ req.ranks.keys ↔ ∃ b, req.Uses a b := by
  rw [ranks, HopRanks.mem_keys_dense, ofRequirement_eq, HopRanks.mem_keys_addRanked]
  simp only [uses_iff_exists_rank]
  constructor
  · rintro (⟨⟨r, x, y⟩, hm, rfl⟩ | h)
    · exact ⟨y, r, hm⟩
    · simp [OrderedMap.keys, OrderedMap.empty] at h
  · rintro ⟨b, r, hm⟩
    exact .inl ⟨_, hm, rfl⟩

theorem get?_ranks_eq_zero_iff_least : (req.ranks.hops a).get? b = some 0 ↔
    ∃ r, (r, (a, b)) ∈ req.rankedHops ∧ ∀ c r', (r', (a, c)) ∈ req.rankedHops → r ≤ r' := by
  rw [ranks, HopRanks.get?_hops_dense_eq_zero_iff]
  simp only [get?_ofRequirement]
  constructor
  · rintro ⟨r, ⟨hm, _⟩, hall⟩
    refine ⟨r, hm, fun c r' hc => ?_⟩
    obtain ⟨r'', hr''⟩ := exists_get?_ofRequirement.mpr (uses_iff_exists_rank.mpr ⟨r', hc⟩)
    have hleast := get?_ofRequirement.mp hr''
    exact (hall c r'' hleast).trans (hleast.2 r' hc)
  · rintro ⟨r, hm, hall⟩
    exact ⟨r, ⟨hm, fun r' => hall b r'⟩, fun c r' hc => hall c r' hc.1⟩

theorem exists_preferred {c : RouterId} (h : req.Uses a c) :
    ∃ b, (req.ranks.hops a).get? b = some 0 := by
  classical
  have hex : ∃ r, ∃ b, (r, (a, b)) ∈ req.rankedHops := by
    obtain ⟨r, hr⟩ := uses_iff_exists_rank.mp h
    exact ⟨r, c, hr⟩
  obtain ⟨b, hb⟩ := Nat.find_spec hex
  exact ⟨b, get?_ranks_eq_zero_iff_least.mpr
    ⟨_, hb, fun c' r' hc' => Nat.find_min' hex ⟨c', hc'⟩⟩⟩

theorem get?_ranks_eq_zero_iff_of_order {t : Topology} {d : RouterId} (hv : req.Valid t d)
    (horder : req.kind = .order) (hne : a ≠ d) :
    (req.ranks.hops a).get? b = some 0 ↔ req.Expects a b := by
  rw [get?_ranks_eq_zero_iff_least, expects_iff_find? (.inr horder)]
  simp only [List.find?_eq_some_iff_getElem, decide_eq_true_eq]
  constructor
  · rintro ⟨r, hm, hall⟩
    obtain ⟨i, p, hi, hh, rfl⟩ := mem_rankedHops.mp hm
    obtain ⟨hlt, hp⟩ := List.getElem?_eq_some_iff.mp hi
    refine ⟨p, ⟨hh.left_mem, i, hlt, hp, fun j hj => ?_⟩, hh⟩
    by_contra hmem
    have hmem : a ∈ req.paths[j] := by simpa using hmem
    obtain ⟨c, hc, _⟩ := hv.exists_uses (List.getElem_mem _) hmem hne
    have hle := hall c j (mem_rankedHops.mpr
      ⟨j, _, List.getElem?_eq_getElem (hj.trans hlt), hc, by simp [memberRank, horder]⟩)
    simp only [memberRank, horder, if_true] at hle
    omega
  · rintro ⟨p, ⟨_, i, hlt, hp, hbefore⟩, hh⟩
    refine ⟨i, mem_rankedHops.mpr ⟨i, p, by simp [hlt, hp], hh, by simp [memberRank, horder]⟩, ?_⟩
    intro c r' hc
    obtain ⟨j, q, hj, hq, rfl⟩ := mem_rankedHops.mp hc
    obtain ⟨hjlt, hjq⟩ := List.getElem?_eq_some_iff.mp hj
    simp only [memberRank, horder, if_true]
    by_contra hlt'
    have hnot := hbefore j (by omega)
    simp [hjq, hq.left_mem] at hnot

/-- Where members are not ordered, all their hops have the least rank. -/
theorem get?_ranks_eq_zero_iff_uses (horder : req.kind ≠ .order) :
    (req.ranks.hops a).get? b = some 0 ↔ req.Uses a b := by
  rw [get?_ranks_eq_zero_iff_least, uses_iff_exists_rank]
  refine exists_congr fun r => and_iff_left_of_imp fun hm c r' _ => ?_
  obtain ⟨i, _, _, _, rfl⟩ := mem_rankedHops.mp hm
  simp [memberRank, horder]

theorem expects_iff_uses_of_single {p : List RouterId} (hk : req.kind = .path)
    (hp : req.paths = [p]) : req.Expects a b ↔ req.Uses a b := by
  rw [expects_iff_find? (.inl hk), Uses, hp]
  simp only [List.mem_singleton, exists_eq_left, List.find?_singleton]
  constructor
  · rintro ⟨q, hq, hh⟩
    split at hq
    · obtain rfl := Option.some.inj hq
      exact hh
    · simp at hq
  · intro hh
    exact ⟨p, by simp [hh.left_mem], hh⟩

/-- The hops of least rank are the expected ones. -/
theorem get?_ranks_eq_zero_iff {t : Topology} {d : RouterId} (hv : req.Valid t d)
    (hsingle : req.kind = .path → ∃ p, req.paths = [p]) (hne : a ≠ d) :
    (req.ranks.hops a).get? b = some 0 ↔ req.Expects a b := by
  by_cases horder : req.kind = .order
  · exact get?_ranks_eq_zero_iff_of_order hv horder hne
  · rw [get?_ranks_eq_zero_iff_uses horder]
    cases hk : req.kind with
    | order => exact absurd hk horder
    | ecmp => exact (expects_iff_uses (.inl hk)).symm
    | kConnected => exact (expects_iff_uses (.inr hk)).symm
    | path =>
      obtain ⟨p, hp⟩ := hsingle hk
      exact (expects_iff_uses_of_single hk hp).symm

end ResolvedRequirement

end PathPolicy
