import PathPolicy.Proofs.Consistency
import PathPolicy.Proofs.Origins

/-! What a merge of bundles has left at each moment. A bundle that is rejected changes nothing, so
that each router holds the entries of the bundles that were accepted, and these do not contradict
each other. Whoever set a value first is noted as its origin. -/

namespace PathPolicy

namespace NodePolicy

variable {p : NodePolicy} {e : PolicyEntry} {es : List PolicyEntry} {slot slot' : Slot}
  {o o' : RequirementRef} {v : Setting}

theorem effect_ne_of_clauseMismatch? {c d : Clause} {reason : ConflictReason}
    (h : clauseMismatch? c d = some reason) (hcond : c.conditions = d.conditions) :
    c.effect ≠ d.effect := by
  intro heffect
  have hsame : c.same d = true := Clause.same_iff.mpr ⟨hcond, heffect⟩
  have hverdict : c.verdict = d.verdict := congrArg Effect.verdict heffect
  simp [clauseMismatch?, hverdict, hsame] at h

theorem eq_of_valueMismatch? {m n : Nat} {reason : ConflictReason}
    (h : valueMismatch? m n = some reason) : m ≠ n ∧ reason = .valueMismatch m n := by
  rw [valueMismatch?] at h
  split at h
  · cases h
  · next hne => exact ⟨hne, (Option.some.inj h).symm⟩

/-- An entry clashes with another value in its slot. -/
theorem exists_sets_of_clash? {reason : ConflictReason}
    (h : p.clash? e.key e.primitive = some (reason, slot)) :
    ∃ v v', e.setting? = some (slot, v) ∧ p.Sets slot v' ∧ v' ≠ v ∧
      ∀ m n, v' = .number m → v = .number n → reason = .valueMismatch m n := by
  cases hprim : e.primitive with
  | clause c =>
    simp only [hprim, clash?, bind, Option.bind_eq_some_iff, pure, Option.some.injEq,
      Prod.mk.injEq] at h
    obtain ⟨c', hc', reason', hmismatch, rfl, rfl⟩ := h
    have hcond : c'.conditions = c.conditions := by simpa using List.find?_some hc'
    refine ⟨.effect c.effect, .effect c'.effect, by rw [PolicyEntry.setting?, hprim],
      ⟨c', List.mem_of_find?_eq_some hc', hcond, rfl⟩, ?_, by simp⟩
    simpa using effect_ne_of_clauseMismatch? hmismatch hcond
  | ospfCost n =>
    simp only [hprim, clash?, bind, Option.bind_eq_some_iff, pure, Option.some.injEq,
      Prod.mk.injEq] at h
    obtain ⟨m, hm, reason', hmismatch, rfl, rfl⟩ := h
    obtain ⟨hne, rfl⟩ := eq_of_valueMismatch? hmismatch
    refine ⟨.number n, .number m, by rw [PolicyEntry.setting?, hprim], ⟨m, hm, rfl⟩, by simpa, ?_⟩
    simp only [Setting.number.injEq]
    rintro _ _ rfl rfl
    rfl
  | staticRoute r =>
    simp only [hprim, clash?, bind, Option.bind_eq_some_iff, pure, Option.some.injEq,
      Prod.mk.injEq] at h
    obtain ⟨r', hr', reason', hmismatch, rfl, rfl⟩ := h
    obtain ⟨hne, rfl⟩ := eq_of_valueMismatch? hmismatch
    have hkey : r'.network = r.network ∧ r'.nextHop = r.nextHop := by
      simpa using List.find?_some hr'
    refine ⟨.number r.distance, .number r'.distance, by rw [PolicyEntry.setting?, hprim],
      ⟨r', List.mem_of_find?_eq_some hr', hkey.2, hkey.1, rfl⟩, by simpa, ?_⟩
    simp only [Setting.number.injEq]
    rintro _ _ rfl rfl
    rfl
  | community | localPref | maxPaths | network => simp [hprim, clash?] at h

section Origins

theorem origin?_noteOrigin_self (p : NodePolicy) (slot : Slot) (o : RequirementRef) :
    ((p.noteOrigin slot o).origin? slot).isSome = true := by
  rw [noteOrigin]
  split
  · assumption
  · rw [origin?, List.lookup_append]
    simp

theorem origin?_of_noteOrigin (h : (p.noteOrigin slot' o').origin? slot = some o) :
    p.origin? slot = some o ∨ slot = slot' ∧ o = o' := by
  rw [noteOrigin] at h
  split at h
  · exact .inl h
  · rw [origin?, List.lookup_append] at h
    cases hp : p.origins.lookup slot with
    | some x =>
      rw [hp, Option.some_or] at h
      exact .inl (hp.trans h)
    | none =>
      rw [hp, Option.none_or, List.lookup_cons] at h
      split at h
      · next heq => exact .inr ⟨by simpa using heq, (Option.some.inj h).symm⟩
      · cases h

/-- A new note of an origin is about the slot that the entry sets. -/
theorem origin?_of_commit (h : (p.commit e).origin? slot = some o) :
    p.origin? slot = some o ∨ ∃ v, e.setting? = some (slot, v) ∧ e.origin = o := by
  rw [commit] at h
  rw [PolicyEntry.setting?]
  split at h
  · next c hprim =>
    simp only [hprim]
    rw [addClause] at h
    split at h
    · exact .inl h
    · rcases origin?_of_noteOrigin h with h | ⟨rfl, rfl⟩
      · exact .inl h
      · exact .inr ⟨_, rfl, rfl⟩
  · exact .inl h
  · exact .inl h
  · next n hprim =>
    simp only [hprim]
    rcases origin?_of_noteOrigin h with h | ⟨rfl, rfl⟩
    · exact .inl h
    · exact .inr ⟨_, rfl, rfl⟩
  · exact .inl h
  · next r hprim =>
    simp only [hprim]
    rw [addStaticRoute] at h
    split at h
    · exact .inl h
    · rcases origin?_of_noteOrigin h with h | ⟨rfl, rfl⟩
      · exact .inl h
      · exact .inr ⟨_, rfl, rfl⟩
  · exact .inl h

theorem isSome_origin?_commit (hp : ∀ v, p.Sets slot v → (p.origin? slot).isSome = true)
    (h : (p.commit e).Sets slot v) : ((p.commit e).origin? slot).isSome = true := by
  rcases sets_of_commit h with hset | hold
  · -- an element that is there already is neither added nor noted again
    have hagain : p.commit e = p → (p.origin? slot).isSome = true := fun he => hp v (he ▸ h)
    rw [PolicyEntry.setting?] at hset
    split at hset
    · next c hprim =>
      obtain ⟨rfl, rfl⟩ := Prod.mk.inj (Option.some.inj hset)
      simp only [commit, hprim, addClause] at hagain ⊢
      split
      · next hsame => exact hagain (if_pos hsame)
      · exact origin?_noteOrigin_self _ _ _
    · next n hprim =>
      obtain ⟨rfl, rfl⟩ := Prod.mk.inj (Option.some.inj hset)
      simp only [commit, hprim, setCost]
      exact origin?_noteOrigin_self _ _ _
    · next r hprim =>
      obtain ⟨rfl, rfl⟩ := Prod.mk.inj (Option.some.inj hset)
      simp only [commit, hprim, addStaticRoute] at hagain ⊢
      split
      · next hmem => exact hagain (if_pos hmem)
      · exact origin?_noteOrigin_self _ _ _
    · cases hset
  · obtain ⟨o, ho⟩ := Option.isSome_iff_exists.mp (hp v hold)
    rw [origin?_commit ho, Option.isSome_some]

theorem noted_foldl_commit (es : List PolicyEntry) (slot : Slot) :
    (∀ v, (es.foldl commit empty).Sets slot v →
      ((es.foldl commit empty).origin? slot).isSome = true) ∧
    ∀ o, (es.foldl commit empty).origin? slot = some o →
      ∃ e ∈ es, ∃ v, e.setting? = some (slot, v) ∧ e.origin = o := by
  induction es using List.reverseRecOn with
  | nil => exact ⟨fun v hv => absurd hv (not_sets_empty slot v), by simp [origin?, empty]⟩
  | append_singleton es e ih =>
    obtain ⟨hnoted, hfrom⟩ := ih
    rw [List.foldl_append]
    refine ⟨fun v hv => isSome_origin?_commit hnoted hv, fun o ho => ?_⟩
    rcases origin?_of_commit ho with ho | ⟨v, hset, horigin⟩
    · obtain ⟨x, hx, hrest⟩ := hfrom o ho
      exact ⟨x, List.mem_append_left _ hx, hrest⟩
    · exact ⟨e, by simp, v, hset, horigin⟩

/-- The origin of a slot is that of an entry that set it. -/
theorem exists_origin (h : (es.foldl commit empty).Sets slot v) :
    ∃ e ∈ es, ∃ v', e.setting? = some (slot, v') ∧
      (es.foldl commit empty).origin? slot = some e.origin := by
  obtain ⟨hnoted, hfrom⟩ := noted_foldl_commit es slot
  obtain ⟨o, ho⟩ := Option.isSome_iff_exists.mp (hnoted v h)
  obtain ⟨e, he, v', hset, rfl⟩ := hfrom o ho
  exact ⟨e, he, v', hset, ho⟩

end Origins

/-- Entries that clash with nothing agree with all that is there. -/
theorem consistent_append {a : RouterId} {fs : List PolicyEntry}
    (hes : (⟨a, es⟩ : Bundle).Consistent) (hfs : (⟨a, fs⟩ : Bundle).Consistent)
    (hclash : ∀ f ∈ fs, (es.foldl commit empty).clash? f.key f.primitive = none) :
    (⟨a, es ++ fs⟩ : Bundle).Consistent := by
  have hcross : ∀ e ∈ es, ∀ f ∈ fs, ∀ slot v v', e.setting? = some (slot, v) →
      f.setting? = some (slot, v') → v = v' := by
    intro e he f hf slot v v' hv hv'
    have hsets : (es.foldl commit empty).Sets slot v := sets_foldl_commit_of_mem he hv
      fun x hx w hw => hes x hx e he slot w v hw hv
    rcases sets_of_foldl_commit (sets_of_clash?_eq_none (hclash f hf) hv' hsets) with
      ⟨x, hx, hset⟩ | hempty
    · exact hes e he x hx slot v v' hv hset
    · exact absurd hempty (not_sets_empty slot v')
  intro e he e' he' slot v v' hv hv'
  rcases List.mem_append.mp he with he | he
  · rcases List.mem_append.mp he' with he' | he'
    · exact hes e he e' he' slot v v' hv hv'
    · exact hcross e he e' he' slot v v' hv hv'
  · rcases List.mem_append.mp he' with he' | he'
    · exact (hcross e' he' e he slot v' v hv' hv).symm
    · exact hfs e he e' he' slot v v' hv hv'

end NodePolicy

/-- What these bundles have for a router. -/
def Bundle.entriesAt (a : RouterId) (bs : List Bundle) : List PolicyEntry :=
  (bs.filter (·.router = a)).flatMap (·.entries)

theorem Bundle.mem_entriesAt {a : RouterId} {bs : List Bundle} {e : PolicyEntry} :
    e ∈ entriesAt a bs ↔ ∃ b ∈ bs, b.router = a ∧ e ∈ b.entries := by
  simp [entriesAt, and_assoc]

theorem Bundle.entriesAt_concat (a : RouterId) (bs : List Bundle) (b : Bundle) :
    entriesAt a (bs ++ [b]) = entriesAt a bs ++ if b.router = a then b.entries else [] := by
  rw [entriesAt, List.filter_append, List.flatMap_append, ← entriesAt]
  split <;> simp [*]

/-- No slot of a router gets two values. -/
def Bundle.Compatible (bs : List Bundle) : Prop := ∀ a, (⟨a, entriesAt a bs⟩ : Bundle).Consistent

namespace Bundle.Compatible

variable {bs bs' : List Bundle} {b : Bundle}

theorem mono (hbs : Compatible bs) (h : bs' ⊆ bs) : Compatible bs' := by
  have hmem : ∀ a e, e ∈ entriesAt a bs' → e ∈ entriesAt a bs := fun a e he => by
    obtain ⟨b, hb, hrest⟩ := mem_entriesAt.mp he
    exact mem_entriesAt.mpr ⟨b, h hb, hrest⟩
  exact fun a e he e' he' => hbs a e (hmem a e he) e' (hmem a e' he')

theorem consistent (hbs : Compatible bs) (hb : b ∈ bs) : b.Consistent :=
  fun e he e' he' => hbs b.router e (mem_entriesAt.mpr ⟨b, hb, rfl, he⟩) e'
    (mem_entriesAt.mpr ⟨b, hb, rfl, he'⟩)

end Bundle.Compatible

namespace PolicyModel

open PathPolicy.Bundle

variable {t : Topology} {bs : List Bundle} {b : Bundle} {a : RouterId}

/-- A conflict blames an entry that clashes with the policy of its router. -/
theorem exists_clash_of_merge {m : PolicyModel} {c : Conflict} (h : (m.merge t b).2 = some c) :
    ∃ e ∈ b.entries, ∃ reason slot,
      (m.policy b.router).clash? e.key e.primitive = some (reason, slot) ∧
        c = ⟨t.name e.key.router, t.name e.key.neighbor, e.origin,
          (m.policy b.router).origin? slot, reason⟩ := by
  rw [merge] at h
  split at h
  · next c' hc' =>
    obtain rfl := Option.some.inj h
    obtain ⟨e, he, hconflict⟩ := List.exists_of_findSome?_eq_some hc'
    obtain ⟨⟨reason, slot⟩, hclash, rfl⟩ := Option.map_eq_some_iff.mp hconflict
    exact ⟨e, he, reason, slot, hclash, rfl⟩
  · cases h

/-- The model after the merge of these bundles. -/
def mergeAll (t : Topology) (bs : List Bundle) : PolicyModel :=
  bs.foldl (fun m b => (m.merge t b).1) .empty

theorem mergeAll_concat (t : Topology) (bs : List Bundle) (b : Bundle) :
    mergeAll t (bs ++ [b]) = ((mergeAll t bs).merge t b).1 := by
  rw [mergeAll, List.foldl_append]
  rfl

/-- Those of the bundles that are accepted. -/
def accepted (t : Topology) (bs : List Bundle) : List Bundle :=
  bs.foldl (fun done b => if ((mergeAll t done).merge t b).2 = none then done ++ [b] else done) []

/-- Rejected bundles leave no trace. -/
theorem mergeAll_accepted (t : Topology) (bs : List Bundle) :
    mergeAll t (accepted t bs) = mergeAll t bs := by
  induction bs using List.reverseRecOn with
  | nil => rfl
  | append_singleton bs b ih =>
    rw [accepted, List.foldl_append, ← accepted, List.foldl_cons, List.foldl_nil, mergeAll_concat,
      ← ih]
    split
    · exact mergeAll_concat t _ b
    · next hsome =>
      obtain ⟨c, hc⟩ := Option.ne_none_iff_exists'.mp hsome
      exact (merge_eq_self hc).symm

theorem accepted_concat (t : Topology) (bs : List Bundle) (b : Bundle) :
    accepted t (bs ++ [b]) =
      if ((mergeAll t bs).merge t b).2 = none then accepted t bs ++ [b] else accepted t bs := by
  rw [accepted, List.foldl_append, ← accepted, List.foldl_cons, List.foldl_nil, mergeAll_accepted]

theorem accepted_sublist (t : Topology) (bs : List Bundle) : (accepted t bs).Sublist bs := by
  induction bs using List.reverseRecOn with
  | nil => exact .slnil
  | append_singleton bs b ih =>
    rw [accepted_concat]
    split
    · exact ih.append_right [b]
    · exact ih.trans (List.sublist_append_left bs [b])

theorem exists_append_of_mem_accepted (h : b ∈ accepted t bs) :
    ∃ before after, bs = before ++ b :: after ∧ ((mergeAll t before).merge t b).2 = none := by
  induction bs using List.reverseRecOn with
  | nil => exact absurd h List.not_mem_nil
  | append_singleton bs x ih =>
    have hold : b ∈ accepted t bs → ∃ before after, bs ++ [x] = before ++ b :: after ∧
        ((mergeAll t before).merge t b).2 = none := fun hb => by
      obtain ⟨before, after, rfl, hnone⟩ := ih hb
      exact ⟨before, after ++ [x], by simp, hnone⟩
    rw [accepted_concat] at h
    split at h
    · next hnone =>
      rcases List.mem_append.mp h with h | h
      · exact hold h
      · obtain rfl := List.mem_singleton.mp h
        exact ⟨bs, [], rfl, hnone⟩
    · exact hold h

theorem accepted_concat_eq_iff : accepted t (bs ++ [b]) = bs ++ [b] ↔
    accepted t bs = bs ∧ ((mergeAll t bs).merge t b).2 = none := by
  rw [accepted_concat]
  split
  · next hnone => simp [hnone]
  · next hsome =>
    refine iff_of_false (fun he => ?_) fun h => hsome h.2
    have hle := (accepted_sublist t bs).length_le
    rw [he, List.length_append, List.length_singleton] at hle
    omega

/-- A router holds the entries of its accepted bundles. -/
theorem policy_mergeAll (t : Topology) (bs : List Bundle) (a : RouterId) :
    (mergeAll t bs).policy a = (entriesAt a (accepted t bs)).foldl NodePolicy.commit .empty := by
  induction bs using List.reverseRecOn with
  | nil => rfl
  | append_singleton bs b ih =>
    rw [mergeAll_concat, accepted_concat]
    rcases merge_cases t (mergeAll t bs) b with ⟨c, hc, _, _⟩ | ⟨hnone, hpolicy, _⟩
    · rw [if_neg (by simp [hc]), merge_eq_self hc, ih]
    · rw [if_pos hnone, entriesAt_concat, List.foldl_append, ← ih]
      split
      · next ha => rw [← ha, hpolicy]
      · next ha => rw [policy_merge_of_ne (Ne.symm ha)]; rfl

/-- What is accepted does not contradict itself. -/
theorem compatible_accepted (h : ∀ b ∈ bs, b.Consistent) : Compatible (accepted t bs) := by
  induction bs using List.reverseRecOn with
  | nil => exact fun a e he => absurd he List.not_mem_nil
  | append_singleton bs b ih =>
    have hold := ih fun x hx => h x (List.mem_append_left _ hx)
    rw [accepted_concat]
    split
    · next hnone =>
      intro a
      rw [entriesAt_concat]
      split
      · next ha =>
        subst a
        rcases merge_cases t (mergeAll t bs) b with ⟨c, hc, _⟩ | ⟨_, _, hclash⟩
        · rw [hnone] at hc
          cases hc
        · rw [policy_mergeAll] at hclash
          exact NodePolicy.consistent_append (hold b.router) (h b (by simp)) hclash
      · rw [List.append_nil]
        exact hold a
    · exact hold

/-- A conflict is with an entry of an accepted bundle that set another value, and names its origin. -/
theorem exists_rival_of_merge (hbs : ∀ b ∈ bs, b.Consistent) {c : Conflict}
    (hc : ((mergeAll t bs).merge t b).2 = some c) :
    ∃ e ∈ b.entries, ∃ b' ∈ accepted t bs, b'.router = b.router ∧ ∃ e' ∈ b'.entries,
      ∃ slot v v', e.setting? = some (slot, v) ∧ e'.setting? = some (slot, v') ∧ v' ≠ v ∧
        c = ⟨t.name e.key.router, t.name e.key.neighbor, e.origin, some e'.origin, c.reason⟩ ∧
        ∀ m n, v' = .number m → v = .number n → c.reason = .valueMismatch m n := by
  obtain ⟨e, he, reason, slot, hclash, rfl⟩ := exists_clash_of_merge hc
  obtain ⟨v, v', hv, hsets, hne, hreason⟩ := NodePolicy.exists_sets_of_clash? hclash
  rw [policy_mergeAll] at hsets ⊢
  obtain ⟨e', he', w, hw, horigin⟩ := NodePolicy.exists_origin hsets
  -- the first entry for the slot and the one that is compared with have the same value
  obtain rfl : w = v' := by
    rcases NodePolicy.sets_of_foldl_commit hsets with ⟨x, hx, hset⟩ | hempty
    · exact compatible_accepted hbs b.router e' he' x hx slot w v' hw hset
    · exact absurd hempty (NodePolicy.not_sets_empty slot v')
  obtain ⟨b', hb', hrouter, heb⟩ := mem_entriesAt.mp he'
  exact ⟨e, he, b', hb', hrouter, e', heb, slot, v, w, hv, hw, hne, by rw [horigin], hreason⟩

theorem accepted_eq_self_of_compatible (h : Compatible bs) : accepted t bs = bs := by
  induction bs using List.reverseRecOn with
  | nil => rfl
  | append_singleton bs b ih =>
    have hold : Compatible bs := h.mono (List.subset_append_left bs [b])
    refine accepted_concat_eq_iff.mpr ⟨ih hold, ?_⟩
    by_contra hsome
    obtain ⟨c, hc⟩ := Option.ne_none_iff_exists'.mp hsome
    obtain ⟨e, he, b', hb', hrouter, e', he', slot, v, v', hv, hv', hne, _⟩ :=
      exists_rival_of_merge (fun _ => hold.consistent) hc
    have hb'mem : b' ∈ bs ++ [b] := List.mem_append_left _ ((accepted_sublist t bs).mem hb')
    have hself : e ∈ entriesAt b.router (bs ++ [b]) := mem_entriesAt.mpr ⟨b, by simp, rfl, he⟩
    have hrival : e' ∈ entriesAt b.router (bs ++ [b]) :=
      mem_entriesAt.mpr ⟨b', hb'mem, hrouter, he'⟩
    exact hne (h b.router e' hrival e hself slot v' v hv' hv)

/-- Whether all bundles are accepted does not depend on their order. -/
theorem accepted_eq_self_iff (h : ∀ b ∈ bs, b.Consistent) :
    accepted t bs = bs ↔ Compatible bs :=
  ⟨fun he => he ▸ compatible_accepted h, accepted_eq_self_of_compatible⟩

end PolicyModel

namespace Synthesizer

open PolicyModel

variable {s : Synthesizer} {bs : List Bundle}

theorem foldl_mergeBundle_fst (s : Synthesizer) (bs : List Bundle)
    (state : PolicyModel × List Conflict) : (bs.foldl s.mergeBundle state).1 =
      bs.foldl (fun m b => (m.merge s.topology b).1) state.1 :=
  (List.foldl_hom Prod.fst fun _ _ => rfl).symm

theorem foldl_mergeGroup_fst (s : Synthesizer) (ps : List GroupPolicy)
    (state : PolicyModel × List Conflict) : (ps.foldl s.mergeGroup state).1 =
      (ps.flatMap (·.bundles)).foldl (fun m b => (m.merge s.topology b).1) state.1 := by
  induction ps generalizing state with
  | nil => rfl
  | cons p ps ih =>
    rw [List.foldl_cons, ih, List.flatMap_cons, List.foldl_append, mergeGroup,
      foldl_mergeBundle_fst]

theorem stateBefore_fst (s : Synthesizer) (done : List GroupPolicy) (p : GroupPolicy)
    (before : List Bundle) : (s.stateBefore done p before).1 =
      mergeAll s.topology (done.flatMap (·.bundles) ++ before) := by
  rw [stateBefore, foldl_mergeBundle_fst, foldl_mergeGroup_fst, mergeAll, List.foldl_append]

theorem foldl_mergeBundle_snd_eq_nil_iff :
    (bs.foldl s.mergeBundle (.empty, [])).2 = [] ↔ accepted s.topology bs = bs := by
  induction bs using List.reverseRecOn with
  | nil => exact ⟨fun _ => rfl, fun _ => rfl⟩
  | append_singleton bs b ih =>
    rw [List.foldl_append, List.foldl_cons, List.foldl_nil, mergeBundle_snd,
      List.append_eq_nil_iff, ih, foldl_mergeBundle_fst, ← mergeAll, accepted_concat_eq_iff,
      Option.toList_eq_nil_iff]

end Synthesizer

end PathPolicy
