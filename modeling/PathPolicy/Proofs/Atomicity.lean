import PathPolicy.Proofs.Merge

/-! A merge is all or nothing. A bundle that is not accepted leaves the model as it was, since the
new entry of a router without policy has nothing to contradict. An accepted bundle only adds to the
policy of its router: nothing can be overwritten but costs, and those have been compared. -/

namespace PathPolicy

namespace NodePolicy

variable {p q r : NodePolicy} {e : PolicyEntry} {es : List PolicyEntry} {b : RouterId} {n : Nat}

/-- The second policy has all of the first one that is never overwritten. -/
structure GrowsTo (p q : NodePolicy) : Prop where
  routeMap : ∀ b dir, p.routeMap b dir <+: q.routeMap b dir
  staticRoutes : p.staticRoutes <+: q.staticRoutes
  maxPaths : ∀ pr n, p.maxPaths? pr = some n → ∃ n', q.maxPaths? pr = some n' ∧ n ≤ n'
  networks : ∀ x, p.announces x = true → q.announces x = true
  origins : ∀ slot o, p.origin? slot = some o → q.origin? slot = some o

/-- The second policy has all of the first one. -/
structure KeptBy (p q : NodePolicy) : Prop extends p.GrowsTo q where
  costs : ∀ b n, p.ospfCost? b = some n → q.ospfCost? b = some n

namespace GrowsTo

theorem refl (p : NodePolicy) : p.GrowsTo p :=
  ⟨fun _ _ => List.prefix_rfl, List.prefix_rfl, fun _ n h => ⟨n, h, Nat.le_refl n⟩,
    fun _ h => h, fun _ _ h => h⟩

theorem trans (h : p.GrowsTo q) (h' : q.GrowsTo r) : p.GrowsTo r := by
  refine ⟨fun b dir => (h.routeMap b dir).trans (h'.routeMap b dir),
    h.staticRoutes.trans h'.staticRoutes, fun pr n hn => ?_,
    fun x hx => h'.networks x (h.networks x hx),
    fun slot o ho => h'.origins slot o (h.origins slot o ho)⟩
  obtain ⟨n', hn', hle⟩ := h.maxPaths pr n hn
  obtain ⟨n'', hn'', hle'⟩ := h'.maxPaths pr n' hn'
  exact ⟨n'', hn'', hle.trans hle'⟩

end GrowsTo

namespace KeptBy

theorem refl (p : NodePolicy) : p.KeptBy p := ⟨.refl p, fun _ _ h => h⟩

theorem trans (h : p.KeptBy q) (h' : q.KeptBy r) : p.KeptBy r :=
  ⟨h.toGrowsTo.trans h'.toGrowsTo, fun b n hn => h'.costs b n (h.costs b n hn)⟩

end KeptBy

theorem origin?_noteOrigin {slot slot' : Slot} {o o' : RequirementRef}
    (h : p.origin? slot = some o) : (p.noteOrigin slot' o').origin? slot = some o := by
  rw [noteOrigin]
  split
  · exact h
  · rw [origin?] at h ⊢
    rw [List.lookup_append, h, Option.some_or]

theorem origin?_commit {slot : Slot} {o : RequirementRef} (h : p.origin? slot = some o) :
    (p.commit e).origin? slot = some o := by
  rw [commit]
  split
  · rw [addClause]
    split
    · exact h
    · exact origin?_noteOrigin h
  · exact h
  · exact h
  · exact origin?_noteOrigin h
  · exact h
  · rw [addStaticRoute]
    split
    · exact h
    · exact origin?_noteOrigin h
  · exact h

theorem growsTo_commit (p : NodePolicy) (e : PolicyEntry) : p.GrowsTo (p.commit e) := by
  refine ⟨fun b dir => ?_, ?_, fun pr n hn => ?_, fun x hx => ?_, fun slot o => origin?_commit⟩
  · rw [routeMap_commit, routeMap_install]
    split
    · split
      · exact List.prefix_append _ _
      · exact List.prefix_rfl
    · exact List.prefix_rfl
  · rw [staticRoutes_commit, staticRoutes_install]
    split
    · split
      · exact List.prefix_rfl
      · exact List.prefix_append _ _
    · exact List.prefix_rfl
  · rw [maxPaths?_commit, maxPaths?_install]
    split
    · next pr' k _ =>
      split
      · next hpr =>
        subst pr'
        exact ⟨_, rfl, by rw [hn, Option.getD_some]; exact Nat.le_max_left n k⟩
      · exact ⟨n, hn, Nat.le_refl n⟩
    · exact ⟨n, hn, Nat.le_refl n⟩
  · rw [announces_commit, announces_install]
    exact .inr hx

theorem growsTo_foldl_commit (p : NodePolicy) (es : List PolicyEntry) :
    p.GrowsTo (es.foldl commit p) := by
  induction es generalizing p with
  | nil => exact .refl p
  | cons e es ih => exact (growsTo_commit p e).trans (ih (p.commit e))

/-- A cost stays where it is only set to the value that it has. -/
theorem ospfCost?_foldl_commit (h : p.ospfCost? b = some n)
    (hes : ∀ e ∈ es, ∀ n', e.primitive = .ospfCost n' → e.key.neighbor = b → n' = n) :
    (es.foldl commit p).ospfCost? b = some n := by
  induction es generalizing p with
  | nil => exact h
  | cons e es ih =>
    refine ih ?_ fun e he => hes e (List.mem_cons_of_mem _ he)
    rw [ospfCost?_commit, ospfCost?_install]
    split
    · next n' hn' =>
      split
      · next hb => rw [hes e List.mem_cons_self n' hn' hb.symm]
      · exact h
    · exact h

theorem keptBy_foldl_commit (h : ∀ e ∈ es, p.clash? e.key e.primitive = none) :
    p.KeptBy (es.foldl commit p) := by
  refine ⟨growsTo_foldl_commit p es, fun b n hn => ospfCost?_foldl_commit hn ?_⟩
  rintro e he n' hn' rfl
  exact (eq_of_clash?_eq_none (hn' ▸ h e he) hn).symm

theorem clash?_empty (key : PolicyKey) (primitive : Primitive) :
    empty.clash? key primitive = none := by
  cases primitive <;> rfl

end NodePolicy

namespace PolicyModel

variable {t : Topology} {m : PolicyModel} {b : Bundle} {c : Conflict} {a : RouterId}

/-- The entry that a merge adds for a router without policy is never left behind. -/
theorem merge_eq_self (h : (m.merge t b).2 = some c) : (m.merge t b).1 = m := by
  rw [merge] at h ⊢
  split at h
  · next hc =>
    cases hget : m.get? b.router with
    | none =>
      obtain ⟨e, _, he⟩ := List.exists_of_findSome?_eq_some hc
      rw [conflict?, policy, hget, Option.getD_none, NodePolicy.clash?_empty] at he
      cases he
    | some p =>
      have hnodes : m.nodes.insert b.router p = m.nodes := by
        refine OrderedMap.ext_get? fun a => ?_
        rw [OrderedMap.get?_insert]
        split
        · next ha => rw [ha, ← hget, get?]
        · rfl
      rw [policy, hget, Option.getD_some]
      exact congrArg PolicyModel.mk hnodes
  · cases h

/-- A merge with a conflict changes nothing. One without keeps all that there was on the router of
the bundle, and does not touch the other routers. -/
theorem merge_atomic (t : Topology) (m : PolicyModel) (b : Bundle) :
    (∃ c, (m.merge t b).2 = some c ∧ (m.merge t b).1 = m) ∨
    ((m.merge t b).2 = none ∧
      (m.policy b.router).KeptBy ((m.merge t b).1.policy b.router) ∧
      ∀ a, a ≠ b.router → (m.merge t b).1.get? a = m.get? a) := by
  rcases merge_cases t m b with ⟨c, hc, _, _⟩ | ⟨hnone, hpolicy, hno⟩
  · exact .inl ⟨c, hc, merge_eq_self hc⟩
  · rw [hpolicy]
    exact .inr ⟨hnone, NodePolicy.keptBy_foldl_commit hno, fun a => get?_merge_of_ne⟩

theorem keptBy_merge (t : Topology) (m : PolicyModel) (b : Bundle) (a : RouterId) :
    (m.policy a).KeptBy ((m.merge t b).1.policy a) := by
  rcases merge_atomic t m b with ⟨_, _, hm⟩ | ⟨_, hkept, hother⟩
  · rw [hm]
    exact .refl _
  · by_cases ha : a = b.router
    · rw [ha]
      exact hkept
    · rw [policy, policy, hother a ha]
      exact .refl _

end PolicyModel

namespace Synthesizer

/-- Whatever is merged, each router keeps all that it has. -/
theorem keptBy_foldl_mergeBundle (s : Synthesizer) (bs : List Bundle)
    (state : PolicyModel × List Conflict) (a : RouterId) :
    (state.1.policy a).KeptBy ((bs.foldl s.mergeBundle state).1.policy a) :=
  foldl_mergeBundle_induction s bs (P := fun m => (state.1.policy a).KeptBy (m.policy a))
    (fun b _ m hm => hm.trans (PolicyModel.keptBy_merge s.topology m b a)) (.refl _)

theorem keptBy_foldl_mergeGroup (s : Synthesizer) (ps : List GroupPolicy)
    (state : PolicyModel × List Conflict) (a : RouterId) :
    (state.1.policy a).KeptBy ((ps.foldl s.mergeGroup state).1.policy a) :=
  foldl_mergeGroup_induction s ps (P := fun m => (state.1.policy a).KeptBy (m.policy a))
    (fun _ _ b _ m hm => hm.trans (PolicyModel.keptBy_merge s.topology m b a)) (.refl _)

end Synthesizer

end PathPolicy
