import PathPolicy.Proofs.HopRanks

/-! The order of the members of a requirement. Of two next hops of a router, the one that an earlier
member takes has the lower rank. -/

namespace PathPolicy

theorem countP_lt_of_mem {xs : List Nat} {r s : Nat} (hr : r ∈ xs) (hrs : r < s) :
    xs.countP (· < r) < xs.countP (· < s) := by
  induction xs with
  | nil => simp at hr
  | cons x xs ih =>
    have hle : xs.countP (· < r) ≤ xs.countP (· < s) :=
      List.countP_mono_left fun y _ hy => decide_eq_true ((of_decide_eq_true hy).trans hrs)
    simp only [List.countP_cons, decide_eq_true_eq]
    rcases List.mem_cons.mp hr with rfl | hr
    · rw [if_neg (lt_irrefl r), if_pos hrs]
      omega
    · have hlt := ih hr
      split <;> split <;> omega

/-- Dense ranks keep the order of ranks. -/
theorem HopRanks.dense_lt_dense {m : HopRanks} {a b c : RouterId} {r s d e : Nat}
    (hb : (m.hops a).get? b = some r) (hc : (m.hops a).get? c = some s) (hrs : r < s)
    (hd : (m.dense.hops a).get? b = some d) (he : (m.dense.hops a).get? c = some e) : d < e := by
  rw [get?_hops_dense, hb] at hd
  rw [get?_hops_dense, hc] at he
  obtain rfl := Option.some.inj hd
  obtain rfl := Option.some.inj he
  exact countP_lt_of_mem (List.mem_eraseDups.mpr (OrderedMap.mem_values_iff.mpr ⟨b, hb⟩)) hrs

namespace ResolvedRequirement

variable {req : ResolvedRequirement} {a b c : RouterId} {i j m n : Nat}

/-- The hop is taken by the member of index `i`, and by no earlier one. -/
structure FirstTakes (req : ResolvedRequirement) (i : Nat) (a b : RouterId) : Prop where
  takes : ∃ p, req.paths[i]? = some p ∧ Hop p a b
  le : ∀ j p, req.paths[j]? = some p → Hop p a b → i ≤ j

theorem FirstTakes.uses (h : req.FirstTakes i a b) : req.Uses a b := by
  obtain ⟨p, hp, hh⟩ := h.takes
  exact ⟨p, List.mem_of_getElem? hp, hh⟩

theorem FirstTakes.get?_ofRequirement (h : req.FirstTakes i a b) (horder : req.kind = .order) :
    ((HopRanks.ofRequirement req).hops a).get? b = some i := by
  have hrank : ∀ j, req.memberRank j = j := fun j => if_pos horder
  refine ResolvedRequirement.get?_ofRequirement.mpr ⟨mem_rankedHops.mpr ?_, fun r hr => ?_⟩
  · obtain ⟨p, hp, hh⟩ := h.takes
    exact ⟨i, p, hp, hh, (hrank i).symm⟩
  · obtain ⟨j, p, hp, hh, rfl⟩ := mem_rankedHops.mp hr
    rw [hrank]
    exact h.le j p hp hh

/-- A hop that an earlier member takes has the lower rank. -/
theorem FirstTakes.rank_lt (hb : req.FirstTakes i a b) (hc : req.FirstTakes j a c)
    (horder : req.kind = .order) (hij : i < j) (hm : (req.ranks.hops a).get? b = some m)
    (hn : (req.ranks.hops a).get? c = some n) : m < n :=
  HopRanks.dense_lt_dense (hb.get?_ofRequirement horder) (hc.get?_ofRequirement horder) hij hm hn

end ResolvedRequirement

end PathPolicy
