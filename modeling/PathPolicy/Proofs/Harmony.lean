import PathPolicy.Proofs.Alike

/-! Groups without conflict. Whether the requirements of a group can be met together, and the decisions
that they come to, does not depend on their order, since all their intents agree with each other. -/

namespace PathPolicy

namespace Intent

variable {e i j : Intent}

/-- One of the two can be committed after the other. -/
def Agrees (i j : Intent) : Prop := i.clash? j = none ∨ j.clash? i = none

theorem clash?_eq_none_iff : e.clash? i = none ↔
    (e.decision = .deny ∧ i.decision = .deny) ∨
      ∃ m n, e.decision = .permit m ∧ i.decision = .permit n ∧ (m = n ∨ i.defers = true) := by
  rw [clash?]
  cases he : e.decision <;> cases hi : i.decision <;> simp [or_iff_not_imp_left]

theorem agrees_of_clash? (hi : e.clash? i = none) (hj : e.clash? j = none) : i.Agrees j := by
  rw [Agrees, clash?_eq_none_iff, clash?_eq_none_iff]
  rcases clash?_eq_none_iff.mp hi with ⟨hd, hi⟩ | ⟨m, n, hm, hn, hmn⟩
  · rcases clash?_eq_none_iff.mp hj with ⟨_, hj⟩ | ⟨m, n, hm, _⟩
    · exact .inl (.inl ⟨hi, hj⟩)
    · simp [hd] at hm
  · rcases clash?_eq_none_iff.mp hj with ⟨hd, _⟩ | ⟨m', n', hm', hn', hmn'⟩
    · simp [hd] at hm
    · obtain rfl : m = m' := Decision.permit.inj (hm.symm.trans hm')
      rcases hmn with rfl | hdefers
      · exact .inl (.inr ⟨m, n', hn, hn', hmn'⟩)
      · exact .inr (.inr ⟨n', n, hn', hn, .inr hdefers⟩)

/-- A strict intent may be committed before one that agrees with it. -/
theorem Agrees.clash? (h : i.Agrees j) (hd : i.defers = true → j.defers = true) :
    i.clash? j = none := by
  rcases h with h | h
  · exact h
  · rcases clash?_eq_none_iff.mp h with ⟨hj, hi⟩ | ⟨n, m, hn, hm, hmn⟩
    · exact clash?_eq_none_iff.mpr (.inl ⟨hi, hj⟩)
    · exact clash?_eq_none_iff.mpr (.inr ⟨m, n, hm, hn, hmn.imp Eq.symm hd⟩)

end Intent

namespace Commitments

variable {t : Topology} {g : RequirementGroup} {s : Commitments} {is js : List Intent}
  {i : Intent} {req : ResolvedRequirement} {reqs : List ResolvedRequirement}

/-- There is no conflict so far, and these intents can be committed. -/
structure Welcomes (s : Commitments) (js : List Intent) : Prop where
  conflicts_eq_nil : s.conflicts = []
  clash : ∀ k e, s.intents.get? k = some e → ∀ j ∈ js, j.key = k → e.clash? j = none

/-- Each intent can be committed after the ones before it. -/
def Orderly (js : List Intent) : Prop :=
  js.Pairwise fun i j => i.key = j.key → i.clash? j = none

theorem Welcomes.addIntent (h : s.Welcomes (i :: js)) (ho : Orderly (i :: js)) :
    (s.addIntent t i).Welcomes js := by
  have hrest : s.Welcomes js :=
    ⟨h.conflicts_eq_nil, fun k e hk j hj => h.clash k e hk j (List.mem_cons_of_mem i hj)⟩
  rw [Commitments.addIntent]
  split
  · refine ⟨h.conflicts_eq_nil, fun k e hk j hj hkey => ?_⟩
    simp only [OrderedMap.get?_insert] at hk
    split at hk
    · next hki =>
      obtain rfl := Option.some.inj hk
      exact (List.pairwise_cons.mp ho).1 j hj (hki.symm.trans hkey.symm)
    · exact hrest.clash k e hk j hj hkey
  · next e he =>
    rw [h.clash i.key e he i List.mem_cons_self rfl]
    exact hrest

theorem Welcomes.foldl_addIntent (h : s.Welcomes (is ++ js)) (ho : Orderly (is ++ js)) :
    (is.foldl (Commitments.addIntent t) s).Welcomes js := by
  induction is generalizing s with
  | nil => exact h
  | cons i is ih => exact ih (h.addIntent ho) (List.pairwise_cons.mp ho).2

theorem Welcomes.addRequirement (h : s.Welcomes ((req.asked t g).intents ++ js))
    (ho : Orderly ((req.asked t g).intents ++ js)) (hok : ∃ r, req.intents t g = .ok r) :
    (s.addRequirement t g req).Welcomes js := by
  obtain ⟨r, hr⟩ := hok
  rw [ResolvedRequirement.asked, hr] at h ho
  rw [Commitments.addRequirement, hr]
  have hfold := h.foldl_addIntent (t := t) ho
  obtain ⟨hintents, _, hconflicts⟩ := foldl_addMaxPaths_fields req.reference
    (r.intents.foldl (Commitments.addIntent t) s) r.maxPaths
  exact ⟨hconflicts.trans hfold.conflicts_eq_nil, fun k e hk => hfold.clash k e (hintents ▸ hk)⟩

theorem Welcomes.foldl_addRequirement
    (h : s.Welcomes (reqs.flatMap fun req => (req.asked t g).intents))
    (ho : Orderly (reqs.flatMap fun req => (req.asked t g).intents))
    (hok : ∀ req ∈ reqs, ∃ r, req.intents t g = .ok r) :
    (reqs.foldl (Commitments.addRequirement t g) s).conflicts = [] := by
  induction reqs generalizing s with
  | nil => exact h.conflicts_eq_nil
  | cons req reqs ih =>
    rw [List.flatMap_cons] at h ho
    exact ih (h.addRequirement ho (hok req (by simp)))
      (List.pairwise_append.mp ho).2.1 fun x hx => hok x (List.mem_cons_of_mem req hx)

theorem conflicts_of_addIntent (h : (s.addIntent t i).conflicts = []) : s.conflicts = [] := by
  rcases addIntent_cases t s i with ⟨_, he⟩ | ⟨_, _, _, he⟩ | ⟨_, _, _, _, he⟩ <;> simp_all

theorem conflicts_of_foldl_addIntent (h : (js.foldl (addIntent t) s).conflicts = []) :
    s.conflicts = [] := by
  induction js generalizing s with
  | nil => exact h
  | cons j js ih => exact conflicts_of_addIntent (ih h)

theorem answered_of_addRequirement (h : (s.addRequirement t g req).conflicts = []) :
    s.conflicts = [] ∧ ∃ r, req.intents t g = .ok r := by
  rw [addRequirement] at h
  split at h
  · simp [exclude, addConflict] at h
  · next r hr =>
    rw [(foldl_addMaxPaths_fields req.reference _ r.maxPaths).2.2] at h
    exact ⟨conflicts_of_foldl_addIntent h, r, hr⟩

theorem answered_of_foldl (h : (reqs.foldl (addRequirement t g) s).conflicts = []) :
    s.conflicts = [] ∧ ∀ req ∈ reqs, ∃ r, req.intents t g = .ok r := by
  induction reqs generalizing s with
  | nil => exact ⟨h, by simp⟩
  | cons req reqs ih =>
    obtain ⟨hs, hall⟩ := ih h
    obtain ⟨hs, hreq⟩ := answered_of_addRequirement hs
    exact ⟨hs, List.forall_mem_cons.mpr ⟨hreq, hall⟩⟩

end Commitments

namespace RequirementGroup

variable {t : Topology} {g g' : RequirementGroup}

/-- All requirements can be met, each alone and all together. -/
structure Harmonious (g : RequirementGroup) (t : Topology) : Prop where
  answered : g.Answered t
  agree : ∀ i ∈ g.asked t, ∀ j ∈ g.asked t, i.key = j.key → i.Agrees j

theorem Alike.harmonious (h : g.Alike g') (hg : g.Harmonious t) : g'.Harmonious t := by
  refine ⟨h.answered hg.answered, fun i hi j hj hkey => ?_⟩
  obtain ⟨o, hi⟩ := h.symm.exists_asked hi
  obtain ⟨o', hj⟩ := h.symm.exists_asked hj
  exact hg.agree { i with origin := o } hi { j with origin := o' } hj hkey

theorem mem_flatMap_strictestFirst {α : Type} {f : ResolvedRequirement → List α} {x : α} :
    x ∈ g.strictestFirst.flatMap f ↔ x ∈ g.requirements.flatMap f := by
  simp only [List.mem_flatMap, mem_strictestFirst]

theorem covers_asked (g : RequirementGroup) (t : Topology) :
    (g.combine t).Covers (g.strictestFirst.flatMap fun req => (req.asked t g).intents) :=
  (g.combine_combines t).covers

/-- Nothing is lost if there is no conflict. -/
theorem exists_of_mem_asked (hc : (g.combine t).conflicts = []) {i : Intent} (hi : i ∈ g.asked t) :
    ∃ e, (g.combine t).intents.get? i.key = some e ∧ e.clash? i = none := by
  have hno := (g.combine_combines t).blames.silent hc
  obtain ⟨e, hget, hor⟩ := (g.covers_asked t).settled i (mem_flatMap_strictestFirst.mpr hi)
  refine ⟨e, hget, hor.resolve_left fun hconf => ?_⟩
  simp [Commitments.isConflicted, hno] at hconf

theorem harmonious_of_combine (hc : (g.combine t).conflicts = []) : g.Harmonious t := by
  obtain ⟨_, hanswered⟩ := Commitments.answered_of_foldl hc
  refine ⟨fun req hreq => hanswered req (mem_strictestFirst.mpr hreq), fun i hi j hj hkey => ?_⟩
  obtain ⟨e, hget, hclash⟩ := exists_of_mem_asked hc hi
  obtain ⟨e', hget', hclash'⟩ := exists_of_mem_asked hc hj
  obtain rfl : e = e' := Option.some.inj (hget.symm.trans (hkey ▸ hget'))
  exact Intent.agrees_of_clash? hclash hclash'

theorem defers_of_mem_asked {req : ResolvedRequirement} {i : Intent}
    (hi : i ∈ (req.asked t g).intents) : i.defers = true ↔ req.kind = .kConnected := by
  obtain ⟨_, heights, _, hover, hi⟩ := ResolvedRequirement.mem_asked.mp hi
  obtain ⟨a, b, _, _, rfl⟩ := (hover.mem_iff i).mp hi
  simp [ResolvedRequirement.intentFor]

/-- Requirements whose values give way come last. -/
theorem strictestFirst_pairwise (g : RequirementGroup) : g.strictestFirst.Pairwise
    fun req req' => req.kind = .kConnected → req'.kind = .kConnected := by
  refine (sortBy_pairwise _ g.requirements).imp fun {req req'} hle hk => ?_
  have hrank : req.kind.rank ≤ req'.kind.rank := by
    by_contra hlt
    have hgt : compare req.kind.rank req'.kind.rank = .gt := Nat.compare_eq_gt.mpr (by omega)
    simp [compareLex, compareOn, hgt] at hle
  rw [hk] at hrank
  cases hk' : req'.kind <;> simp_all [RequirementKind.rank]

theorem Harmonious.orderly (h : g.Harmonious t) :
    Commitments.Orderly (g.strictestFirst.flatMap fun req => (req.asked t g).intents) := by
  have hagree : ∀ i ∈ g.strictestFirst.flatMap (fun req => (req.asked t g).intents),
      ∀ j ∈ g.strictestFirst.flatMap (fun req => (req.asked t g).intents),
      (i.defers = true → j.defers = true) → i.key = j.key → i.clash? j = none :=
    fun i hi j hj hd hkey =>
      (h.agree i (mem_flatMap_strictestFirst.mp hi) j (mem_flatMap_strictestFirst.mp hj) hkey).clash? hd
  have hlater : (g.strictestFirst.flatMap fun req => (req.asked t g).intents).Pairwise
      fun i j => i.defers = true → j.defers = true := by
    refine List.pairwise_flatMap.mpr ⟨fun req _ => ?_, ?_⟩
    · refine List.pairwise_of_forall_mem_list fun i hi j hj hd => ?_
      exact (defers_of_mem_asked hj).mpr ((defers_of_mem_asked hi).mp hd)
    · refine g.strictestFirst_pairwise.imp fun {req req'} hk i hi j hj hd => ?_
      exact (defers_of_mem_asked hj).mpr (hk ((defers_of_mem_asked hi).mp hd))
  exact hlater.imp_of_mem fun hi hj hd => hagree _ hi _ hj hd

theorem Harmonious.combine (h : g.Harmonious t) : (g.combine t).conflicts = [] := by
  refine Commitments.Welcomes.foldl_addRequirement (g := g) ⟨rfl, fun k e he => ?_⟩ h.orderly
    fun req hreq => h.answered req (mem_strictestFirst.mp hreq)
  simp [Commitments.empty] at he

end RequirementGroup

namespace Commitments

def decisions (s : Commitments) : OrderedMap PolicyKey Decision :=
  s.intents.mapValues fun _ i => i.decision

def pathCounts (s : Commitments) : OrderedMap RouterId Nat := s.maxPaths.mapValues fun _ m => m.1

end Commitments

namespace RequirementGroup

variable {t : Topology} {g g' : RequirementGroup}

/-- The value that a permitted hop has if all requirements leave it to others. -/
theorem decision_of_defers {i : Intent} {m : Nat} (hi : i ∈ g.asked t) (hd : i.defers = true)
    (hm : i.decision = .permit m) :
    m = permitValue g.protocol .kConnected 0 OrderedMap.empty [] 0 0 0 := by
  obtain ⟨req, _, hi⟩ := List.mem_flatMap.mp hi
  have hk := (defers_of_mem_asked hi).mp hd
  obtain ⟨_, heights, _, hover, hi⟩ := ResolvedRequirement.mem_asked.mp hi
  obtain ⟨a, b, _, _, rfl⟩ := (hover.mem_iff i).mp hi
  obtain ⟨d, _, rfl⟩ := ResolvedRequirement.decisionFor_eq_permit_iff.mp hm
  rw [hk]
  cases g.protocol <;> rfl

/-- Intents that are committed in different orders come to the same decision. -/
theorem Alike.decision_eq (h : g.Alike g') (hc : (g.combine t).conflicts = [])
    (hc' : (g'.combine t).conflicts = []) {k : PolicyKey} {e : Intent}
    (he : (g.combine t).intents.get? k = some e) :
    ∃ e', (g'.combine t).intents.get? k = some e' ∧ e'.decision = e.decision := by
  obtain ⟨hasked, rfl⟩ := (g.covers_asked t).committed k e he
  obtain ⟨o, hi⟩ := h.exists_asked (mem_flatMap_strictestFirst.mp hasked)
  obtain ⟨e', he', hclash'⟩ := exists_of_mem_asked hc' hi
  obtain ⟨hasked', hkey⟩ := (g'.covers_asked t).committed e.key e' he'
  obtain ⟨o', hi'⟩ := h.symm.exists_asked (mem_flatMap_strictestFirst.mp hasked')
  obtain ⟨e'', he'', hclash⟩ := exists_of_mem_asked hc hi'
  obtain rfl : e = e'' := Option.some.inj (he.symm.trans (hkey ▸ he''))
  refine ⟨e', he', ?_⟩
  rcases Intent.clash?_eq_none_iff.mp hclash' with ⟨hd', hd⟩ | ⟨n, m, hn, hm, hnm⟩
  · exact hd'.trans hd.symm
  · rcases Intent.clash?_eq_none_iff.mp hclash with ⟨hd, _⟩ | ⟨m', n', hm', hn', hmn⟩
    · exact absurd (hm.symm.trans hd) (by simp)
    · obtain rfl : m = m' := Decision.permit.inj (hm.symm.trans hm')
      obtain rfl : n = n' := Decision.permit.inj (hn.symm.trans hn')
      by_cases heq : n = m
      · rw [hn, heq]
        exact hm.symm
      · -- both leave their value to others, and then it is the same
        have hde : e.defers = true := hnm.resolve_left heq
        have hde' : e'.defers = true := hmn.resolve_left fun hmn => heq hmn.symm
        refine absurd ?_ heq
        rw [decision_of_defers (mem_flatMap_strictestFirst.mp hasked') hde' hn,
          decision_of_defers (mem_flatMap_strictestFirst.mp hasked) hde hm, h.protocol]

theorem Alike.decisions_eq (h : g.Alike g') (hc : (g.combine t).conflicts = [])
    (hc' : (g'.combine t).conflicts = []) :
    (g'.combine t).decisions = (g.combine t).decisions := by
  refine OrderedMap.ext_get? fun k => ?_
  rw [Commitments.decisions, Commitments.decisions, OrderedMap.get?_mapValues,
    OrderedMap.get?_mapValues]
  cases he : (g.combine t).intents.get? k with
  | some e =>
    obtain ⟨e', he', hd⟩ := h.decision_eq hc hc' he
    simp [he', hd]
  | none =>
    cases he' : (g'.combine t).intents.get? k with
    | none => rfl
    | some e' =>
      obtain ⟨e, he'', _⟩ := h.symm.decision_eq hc' hc he'
      simp [he] at he''

/-- The greatest number of paths is asked for in any order. -/
theorem Alike.le_pathCount (h : g.Alike g') {a : RouterId} {n : Nat}
    (hn : (g.combine t).pathCounts.get? a = some n) :
    ∃ n', (g'.combine t).pathCounts.get? a = some n' ∧ n ≤ n' := by
  rw [Commitments.pathCounts, OrderedMap.get?_mapValues] at hn
  obtain ⟨⟨_, o⟩, hget, rfl⟩ := Option.map_eq_some_iff.mp hn
  have hmem := (g.combine_combines t).balances.mem a _ hget
  obtain ⟨o', hmem'⟩ := h.exists_askedMaxPaths (t := t) (mem_flatMap_strictestFirst.mp hmem)
  obtain ⟨k, o'', hk, hle⟩ := (g'.combine_combines t).balances.le a _ o'
    (mem_flatMap_strictestFirst.mpr hmem')
  refine ⟨k, ?_, hle⟩
  rw [Commitments.pathCounts, OrderedMap.get?_mapValues, hk]
  rfl

theorem Alike.pathCounts_eq (h : g.Alike g') (t : Topology) :
    (g'.combine t).pathCounts = (g.combine t).pathCounts := by
  refine OrderedMap.ext_get? fun a => ?_
  cases hn : (g.combine t).pathCounts.get? a with
  | some n =>
    obtain ⟨n', hn', hle⟩ := h.le_pathCount hn
    obtain ⟨n'', hn'', hle'⟩ := h.symm.le_pathCount hn'
    obtain rfl : n = n'' := Option.some.inj (hn.symm.trans hn'')
    rw [hn', Nat.le_antisymm hle' hle]
  | none =>
    cases hn' : (g'.combine t).pathCounts.get? a with
    | none => rfl
    | some n' =>
      obtain ⟨n, hn'', _⟩ := h.symm.le_pathCount hn'
      simp [hn] at hn''

end RequirementGroup

end PathPolicy
