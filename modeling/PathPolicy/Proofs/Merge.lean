import PathPolicy.Proofs.NodePolicy
import PathPolicy.Proofs.Sorting
import PathPolicy.Synthesis.Run

/-! The merge of all bundles. Each router ends up with the entries of the accepted bundles, and a
bundle that is not accepted leaves a conflict that blames one of its entries. -/

namespace PathPolicy

namespace PolicyModel

variable {t : Topology} {m : PolicyModel} {b : Bundle} {a : RouterId}

theorem policy_finalize (m : PolicyModel) (a : RouterId) :
    m.finalize.policy a = (m.policy a).finalize := by
  rw [policy, policy, get?, finalize, OrderedMap.get?_mapValues, OrderedMap.get?_filter, ← get?]
  cases m.get? a with
  | none => rfl
  | some p =>
    by_cases hp : p = .empty
    · subst hp
      rfl
    · simp [Option.filter, hp]

theorem get?_merge_of_ne (h : a ≠ b.router) : (m.merge t b).1.get? a = m.get? a := by
  rw [merge]
  split <;> simp [get?, OrderedMap.get?_insert, h]

theorem policy_merge_of_ne (h : a ≠ b.router) : (m.merge t b).1.policy a = m.policy a := by
  rw [policy, policy, get?_merge_of_ne h]

theorem merge_cases (t : Topology) (m : PolicyModel) (b : Bundle) :
    (∃ c, (m.merge t b).2 = some c ∧ (∃ e ∈ b.entries, c.requirement = e.origin) ∧
      (m.merge t b).1.policy b.router = m.policy b.router) ∨
    ((m.merge t b).2 = none ∧
      (m.merge t b).1.policy b.router = b.entries.foldl NodePolicy.commit (m.policy b.router) ∧
      ∀ e ∈ b.entries, (m.policy b.router).clash? e.key e.primitive = none) := by
  rw [merge]
  split
  · next c hc =>
    refine .inl ⟨c, rfl, ?_, by simp [policy, get?]⟩
    obtain ⟨e, he, hclash⟩ := List.exists_of_findSome?_eq_some hc
    obtain ⟨clash, _, rfl⟩ := Option.map_eq_some_iff.mp hclash
    exact ⟨e, he, rfl⟩
  · next hnone =>
    refine .inr ⟨rfl, by simp [policy, get?], fun e he => ?_⟩
    exact Option.map_eq_none_iff.mp (List.findSome?_eq_none_iff.mp hnone e he)

theorem merge_of_clash?_eq_none (t : Topology)
    (h : ∀ e ∈ b.entries, (m.policy b.router).clash? e.key e.primitive = none) :
    (m.merge t b).2 = none ∧ (m.merge t b).1.policy b.router =
      b.entries.foldl NodePolicy.commit (m.policy b.router) := by
  have hnone : b.entries.findSome? (conflict? t (m.policy b.router)) = none := by
    refine List.findSome?_eq_none_iff.mpr fun e he => ?_
    rw [conflict?, h e he, Option.map_none]
  rw [merge, hnone]
  exact ⟨rfl, by simp [policy, get?]⟩

end PolicyModel

namespace NodePolicy

theorem eq_of_clash?_eq_none {p : NodePolicy} {key : PolicyKey} {m n : Nat}
    (h : p.clash? key (.ospfCost n) = none) (hm : p.ospfCost? key.neighbor = some m) : m = n := by
  by_contra hne
  simp [clash?, hm, valueMismatch?, hne] at h

/-- Entries that do not clash with what is there agree with it. -/
theorem CostsAgree.append {p : NodePolicy} {es fs : List PolicyEntry} (hp : p.Holds es)
    (hes : CostsAgree es) (hfs : CostsAgree fs)
    (h : ∀ f ∈ fs, p.clash? f.key f.primitive = none) : CostsAgree (es ++ fs) := by
  have hcross : ∀ e ∈ es, ∀ f ∈ fs, ∀ n n', e.primitive = .ospfCost n →
      f.primitive = .ospfCost n' → e.key.neighbor = f.key.neighbor → n = n' := by
    intro e he f hf n n' hn hn' hkey
    have hcost := (hp.cost_iff f.key.neighbor n).mpr ⟨e, he, hkey, hn⟩
    exact eq_of_clash?_eq_none (hn' ▸ h f hf) hcost
  intro e he f hf n n' hn hn' hkey
  rcases List.mem_append.mp he with he | he
  · rcases List.mem_append.mp hf with hf | hf
    · exact hes e he f hf n n' hn hn' hkey
    · exact hcross e he f hf n n' hn hn' hkey
  · rcases List.mem_append.mp hf with hf | hf
    · exact (hcross f hf e he n' n hn' hn hkey.symm).symm
    · exact hfs e he f hf n n' hn hn' hkey

end NodePolicy

namespace Synthesizer

variable {s : Synthesizer} {bs : List Bundle} {b : Bundle} {state : PolicyModel × List Conflict}
  {entries : RouterId → List PolicyEntry}

section Kept

variable {P : PolicyModel → Prop}

theorem foldl_mergeBundle_induction (s : Synthesizer) (bs : List Bundle)
    (hstep : ∀ b ∈ bs, ∀ m, P m → P (m.merge s.topology b).1) (h : P state.1) :
    P (bs.foldl s.mergeBundle state).1 := by
  induction bs generalizing state with
  | nil => exact h
  | cons b bs ih =>
    exact ih (fun b hb => hstep b (List.mem_cons_of_mem _ hb))
      (hstep b List.mem_cons_self state.1 h)

/-- What the merge of each bundle keeps is kept by the merge of all groups. -/
theorem foldl_mergeGroup_induction (s : Synthesizer) (ps : List GroupPolicy)
    (hstep : ∀ p ∈ ps, ∀ b ∈ p.bundles, ∀ m, P m → P (m.merge s.topology b).1) (h : P state.1) :
    P (ps.foldl s.mergeGroup state).1 := by
  induction ps generalizing state with
  | nil => exact h
  | cons p ps ih =>
    exact ih (fun p hp => hstep p (List.mem_cons_of_mem _ hp))
      (foldl_mergeBundle_induction s p.bundles (hstep p List.mem_cons_self) h)

end Kept

/-- The state after the merge of these bundles. The routers hold these entries. -/
structure Merges (bs : List Bundle) (state : PolicyModel × List Conflict)
    (entries : RouterId → List PolicyEntry) : Prop where
  policy : ∀ a, state.1.policy a = (entries a).foldl NodePolicy.commit .empty
  agree : ∀ a, NodePolicy.CostsAgree (entries a)
  mem : ∀ a, ∀ e ∈ entries a, ∃ b ∈ bs, b.router = a ∧ e ∈ b.entries
  accepted : ∀ b ∈ bs, (∀ c ∈ state.2, ∀ e ∈ b.entries, c.requirement ≠ e.origin) →
    b.entries ⊆ entries b.router

theorem Merges.addConflicts (h : Merges bs state entries) (cs : List Conflict) :
    Merges bs (state.1, state.2 ++ cs) entries :=
  ⟨h.policy, h.agree, h.mem, fun b hb hno =>
    h.accepted b hb fun c hc => hno c (List.mem_append_left cs hc)⟩

theorem Merges.rejectBundle (h : Merges bs state entries) {c : Conflict}
    (hc : (state.1.merge s.topology b).2 = some c)
    (he : ∃ e ∈ b.entries, c.requirement = e.origin)
    (hp : (state.1.merge s.topology b).1.policy b.router = state.1.policy b.router) :
    Merges (bs ++ [b]) (s.mergeBundle state b) entries := by
  rw [mergeBundle]
  refine ⟨fun a => ?_, h.agree, fun a e hm => ?_, fun b' hb' hno => ?_⟩
  · rw [← h.policy]
    by_cases ha : a = b.router
    · rw [ha]
      exact hp
    · exact PolicyModel.policy_merge_of_ne ha
  · obtain ⟨b', hb', hrest⟩ := h.mem a e hm
    exact ⟨b', List.mem_append_left _ hb', hrest⟩
  · simp only [hc, Option.toList_some] at hno
    rcases List.mem_append.mp hb' with hb' | hb'
    · exact h.accepted b' hb' fun x hx => hno x (List.mem_append_left _ hx)
    · obtain rfl := List.mem_singleton.mp hb'
      obtain ⟨e, hm, heq⟩ := he
      exact absurd heq (hno c (by simp) e hm)

theorem Merges.acceptBundle (h : Merges bs state entries) (hagree : NodePolicy.CostsAgree b.entries)
    (hc : (state.1.merge s.topology b).2 = none)
    (hp : (state.1.merge s.topology b).1.policy b.router =
      b.entries.foldl NodePolicy.commit (state.1.policy b.router))
    (hclash : ∀ e ∈ b.entries, (state.1.policy b.router).clash? e.key e.primitive = none) :
    Merges (bs ++ [b]) (s.mergeBundle state b)
      fun a => if a = b.router then entries a ++ b.entries else entries a := by
  rw [mergeBundle]
  refine ⟨fun a => ?_, fun a => ?_, fun a e hm => ?_, fun b' hb' hno => ?_⟩
  · by_cases ha : a = b.router
    · rw [if_pos ha, ha, List.foldl_append, ← h.policy]
      exact hp
    · rw [if_neg ha, ← h.policy]
      exact PolicyModel.policy_merge_of_ne ha
  · by_cases ha : a = b.router
    · rw [if_pos ha, ha]
      refine (h.agree _).append ?_ hagree hclash
      rw [h.policy]
      exact NodePolicy.holds_foldl_commit (h.agree _)
    · rw [if_neg ha]
      exact h.agree a
  · by_cases ha : a = b.router
    · rw [if_pos ha] at hm
      rcases List.mem_append.mp hm with hm | hm
      · obtain ⟨b', hb', hrest⟩ := h.mem a e hm
        exact ⟨b', List.mem_append_left _ hb', hrest⟩
      · exact ⟨b, by simp, ha.symm, hm⟩
    · rw [if_neg ha] at hm
      obtain ⟨b', hb', hrest⟩ := h.mem a e hm
      exact ⟨b', List.mem_append_left _ hb', hrest⟩
  · simp only [hc, Option.toList_none, List.append_nil] at hno
    rcases List.mem_append.mp hb' with hb' | hb'
    · have hold := h.accepted b' hb' hno
      split
      · exact List.subset_append_of_subset_left _ hold
      · exact hold
    · obtain rfl := List.mem_singleton.mp hb'
      rw [if_pos rfl]
      exact List.subset_append_right _ _

theorem Merges.mergeBundle (h : Merges bs state entries) (s : Synthesizer)
    (hagree : NodePolicy.CostsAgree b.entries) :
    ∃ entries', Merges (bs ++ [b]) (s.mergeBundle state b) entries' := by
  rcases PolicyModel.merge_cases s.topology state.1 b with ⟨c, hc, he, hp⟩ | ⟨hc, hp, hclash⟩
  · exact ⟨_, h.rejectBundle hc he hp⟩
  · exact ⟨_, h.acceptBundle hagree hc hp hclash⟩

theorem conflicts_subset_mergeBundle (s : Synthesizer) (state : PolicyModel × List Conflict)
    (b : Bundle) : state.2 ⊆ (s.mergeBundle state b).2 :=
  List.subset_append_left _ _

theorem Merges.foldl_mergeBundle (h : Merges bs state entries) (s : Synthesizer)
    {bs' : List Bundle} (hagree : ∀ b ∈ bs', NodePolicy.CostsAgree b.entries) :
    (∃ entries', Merges (bs ++ bs') (bs'.foldl s.mergeBundle state) entries') ∧
      state.2 ⊆ (bs'.foldl s.mergeBundle state).2 := by
  induction bs' generalizing bs state entries with
  | nil => exact ⟨⟨entries, by simpa using h⟩, fun _ hc => hc⟩
  | cons b bs' ih =>
    obtain ⟨entries', h'⟩ := h.mergeBundle s (hagree b (by simp))
    obtain ⟨hex, hsub⟩ := ih h' fun x hx => hagree x (List.mem_cons_of_mem b hx)
    rw [List.append_cons]
    exact ⟨hex, List.Subset.trans (conflicts_subset_mergeBundle s state b) hsub⟩

theorem Merges.foldl_mergeGroup (h : Merges bs state entries) (s : Synthesizer)
    {ps : List GroupPolicy}
    (hagree : ∀ p ∈ ps, ∀ b ∈ p.bundles, NodePolicy.CostsAgree b.entries) :
    (∃ entries', Merges (bs ++ ps.flatMap (·.bundles)) (ps.foldl s.mergeGroup state) entries') ∧
      state.2 ⊆ (ps.foldl s.mergeGroup state).2 ∧
      ∀ p ∈ ps, p.conflicts ⊆ (ps.foldl s.mergeGroup state).2 := by
  induction ps generalizing bs state entries with
  | nil => exact ⟨⟨entries, by simpa using h⟩, fun _ hc => hc, by simp⟩
  | cons p ps ih =>
    obtain ⟨⟨entries', h'⟩, hsub⟩ :=
      (h.addConflicts p.conflicts).foldl_mergeBundle s (hagree p (by simp))
    obtain ⟨hex, hsub', hconf⟩ := ih h' fun x hx => hagree x (List.mem_cons_of_mem p hx)
    rw [List.flatMap_cons, ← List.append_assoc]
    have hall := List.Subset.trans hsub hsub'
    refine ⟨hex, fun c hc => hall (List.mem_append_left _ hc), fun q hq => ?_⟩
    rcases List.mem_cons.mp hq with rfl | hq
    · exact fun c hc => hall (List.mem_append_right _ hc)
    · exact hconf q hq

theorem merges_empty : Merges [] (.empty, []) fun _ => [] :=
  ⟨fun _ => rfl, fun _ => by simp [NodePolicy.CostsAgree], by simp, by simp⟩

end Synthesizer

end PathPolicy
