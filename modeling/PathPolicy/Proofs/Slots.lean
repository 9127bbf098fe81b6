import PathPolicy.Proofs.Atomicity

/-! The slots of a policy: the conditions of a clause in a route map, the cost of an interface, and
the distance of a network over a next hop. Bundles that do not contradict themselves leave at most
one value in each slot, since a value that is there already has been compared with the new one. -/

namespace PathPolicy

/-- What a slot can hold. -/
inductive Setting
  | effect (e : Effect)
  | number (n : Nat)

/-- The slot that the entry fills, and the value that it gives it. -/
def PolicyEntry.setting? (e : PolicyEntry) : Option (Slot × Setting) :=
  match e.primitive with
  | .clause c => some (.clause ⟨e.key.neighbor, e.key.direction⟩ c.conditions, .effect c.effect)
  | .ospfCost n => some (.cost e.key.neighbor, .number n)
  | .staticRoute r => some (.staticRoute r.nextHop r.network, .number r.distance)
  | _ => none

/-- No slot gets two values. -/
def Bundle.Consistent (b : Bundle) : Prop :=
  ∀ e ∈ b.entries, ∀ e' ∈ b.entries, ∀ slot v v', e.setting? = some (slot, v) →
    e'.setting? = some (slot, v') → v = v'

namespace PolicyEntry

variable {e : PolicyEntry} {v : Setting}

theorem exists_clause_of_setting? {session : Session} {conditions : List Condition}
    (h : e.setting? = some (.clause session conditions, v)) : ∃ c, e.primitive = .clause c ∧
      ⟨e.key.neighbor, e.key.direction⟩ = session ∧ c.conditions = conditions ∧
        .effect c.effect = v := by
  rw [setting?] at h
  split at h <;> cases h
  exact ⟨_, ‹_›, rfl, rfl, rfl⟩

theorem exists_cost_of_setting? {b : RouterId} (h : e.setting? = some (.cost b, v)) :
    ∃ n, e.primitive = .ospfCost n ∧ e.key.neighbor = b ∧ .number n = v := by
  rw [setting?] at h
  split at h <;> cases h
  exact ⟨_, ‹_›, rfl, rfl⟩

theorem exists_staticRoute_of_setting? {nextHop : RouterId} {network : Address}
    (h : e.setting? = some (.staticRoute nextHop network, v)) : ∃ r, e.primitive = .staticRoute r ∧
      r.nextHop = nextHop ∧ r.network = network ∧ .number r.distance = v := by
  rw [setting?] at h
  split at h <;> cases h
  exact ⟨_, ‹_›, rfl, rfl, rfl⟩

end PolicyEntry

namespace NodePolicy

variable {p q : NodePolicy} {e : PolicyEntry} {es : List PolicyEntry} {b : Bundle} {slot : Slot}
  {v v' : Setting}

/-- The slot has the value, and possibly others. -/
def Sets (p : NodePolicy) : Slot → Setting → Prop
  | .clause session conditions, v => ∃ c ∈ p.routeMap session.neighbor session.direction,
      c.conditions = conditions ∧ .effect c.effect = v
  | .cost neighbor, v => ∃ n, p.ospfCost? neighbor = some n ∧ .number n = v
  | .staticRoute nextHop network, v => ∃ r ∈ p.staticRoutes,
      r.nextHop = nextHop ∧ r.network = network ∧ .number r.distance = v

/-- Each slot has at most one value. -/
def Coherent (p : NodePolicy) : Prop := ∀ slot v v', p.Sets slot v → p.Sets slot v' → v = v'

theorem sets_of_commit (h : (p.commit e).Sets slot v) :
    e.setting? = some (slot, v) ∨ p.Sets slot v := by
  cases slot with
  | clause session conditions =>
    obtain ⟨c, hc, rfl, rfl⟩ := h
    rw [routeMap_commit] at hc
    rcases mem_routeMap_install hc with hc | ⟨hb, hdir, hprim⟩
    · exact .inr ⟨c, hc, rfl, rfl⟩
    · exact .inl (by rw [PolicyEntry.setting?, hprim, hb, hdir])
  | cost neighbor =>
    obtain ⟨n, hn, rfl⟩ := h
    rw [ospfCost?_commit, ospfCost?_install] at hn
    split at hn
    · next n' hn' =>
      split at hn
      · next hb =>
        obtain rfl := Option.some.inj hn
        exact .inl (by rw [PolicyEntry.setting?, hn', hb])
      · exact .inr ⟨n, hn, rfl⟩
    · exact .inr ⟨n, hn, rfl⟩
  | staticRoute nextHop network =>
    obtain ⟨r, hr, rfl, rfl, rfl⟩ := h
    rw [staticRoutes_commit, mem_staticRoutes_install] at hr
    rcases hr with hprim | hr
    · exact .inl (by rw [PolicyEntry.setting?, hprim])
    · exact .inr ⟨r, hr, rfl, rfl, rfl⟩

theorem sets_commit_self (h : e.setting? = some (slot, v)) : (p.commit e).Sets slot v := by
  rw [PolicyEntry.setting?] at h
  split at h
  · next c hc =>
    obtain ⟨rfl, rfl⟩ := Prod.mk.inj (Option.some.inj h)
    obtain ⟨c', hc', hsame⟩ := exists_same_install (p := p) hc
    obtain ⟨hconditions, heffect⟩ := Clause.same_iff.mp hsame
    exact ⟨c', by rwa [routeMap_commit], hconditions, by rw [heffect]⟩
  · next n hn =>
    obtain ⟨rfl, rfl⟩ := Prod.mk.inj (Option.some.inj h)
    exact ⟨n, by rw [ospfCost?_commit, ospfCost?_install, hn]; exact if_pos rfl, rfl⟩
  · next r hr =>
    obtain ⟨rfl, rfl⟩ := Prod.mk.inj (Option.some.inj h)
    exact ⟨r, by rw [staticRoutes_commit, mem_staticRoutes_install]; exact .inl hr, rfl, rfl, rfl⟩
  · cases h

theorem sets_commit_of_sets (h : p.Sets slot v)
    (he : ∀ v', e.setting? = some (slot, v') → v' = v) : (p.commit e).Sets slot v := by
  cases slot with
  | clause session conditions =>
    obtain ⟨c, hc, hrest⟩ := h
    exact ⟨c, ((growsTo_commit p e).routeMap _ _).subset hc, hrest⟩
  | cost neighbor =>
    obtain ⟨n, hn, rfl⟩ := h
    have hagree : ∀ x ∈ [e], ∀ n', x.primitive = .ospfCost n' → x.key.neighbor = neighbor →
        n' = n := by
      intro x hx n' hn' hb
      obtain rfl := List.mem_singleton.mp hx
      exact Setting.number.inj (he _ (by rw [PolicyEntry.setting?, hn', hb]))
    exact ⟨n, ospfCost?_foldl_commit hn hagree, rfl⟩
  | staticRoute nextHop network =>
    obtain ⟨r, hr, hrest⟩ := h
    exact ⟨r, (growsTo_commit p e).staticRoutes.subset hr, hrest⟩

theorem sets_of_foldl_commit (h : (es.foldl commit p).Sets slot v) :
    (∃ e ∈ es, e.setting? = some (slot, v)) ∨ p.Sets slot v := by
  induction es generalizing p with
  | nil => exact .inr h
  | cons e es ih =>
    rcases ih h with ⟨x, hx, hv⟩ | h
    · exact .inl ⟨x, List.mem_cons_of_mem e hx, hv⟩
    · rcases sets_of_commit h with hv | h
      · exact .inl ⟨e, List.mem_cons_self, hv⟩
      · exact .inr h

theorem sets_foldl_commit_of_sets (h : p.Sets slot v)
    (hes : ∀ e ∈ es, ∀ v', e.setting? = some (slot, v') → v' = v) :
    (es.foldl commit p).Sets slot v := by
  induction es generalizing p with
  | nil => exact h
  | cons e es ih =>
    exact ih (sets_commit_of_sets h (hes e List.mem_cons_self))
      fun x hx => hes x (List.mem_cons_of_mem e hx)

/-- Later entries do not change what an entry has set, as long as they agree with it. -/
theorem sets_foldl_commit_of_mem (he : e ∈ es) (hv : e.setting? = some (slot, v))
    (hes : ∀ x ∈ es, ∀ v', x.setting? = some (slot, v') → v' = v) :
    (es.foldl commit p).Sets slot v := by
  induction es generalizing p with
  | nil => exact absurd he List.not_mem_nil
  | cons x es ih =>
    have hrest : ∀ y ∈ es, ∀ v', y.setting? = some (slot, v') → v' = v := fun y hy =>
      hes y (List.mem_cons_of_mem x hy)
    rcases List.mem_cons.mp he with rfl | he
    · exact sets_foldl_commit_of_sets (p := p.commit e) (sets_commit_self hv) hrest
    · exact ih he hrest

theorem KeptBy.sets (h : p.KeptBy q) (hp : p.Sets slot v) : q.Sets slot v := by
  cases slot with
  | clause session conditions =>
    obtain ⟨c, hc, hrest⟩ := hp
    exact ⟨c, (h.routeMap _ _).subset hc, hrest⟩
  | cost neighbor =>
    obtain ⟨n, hn, hv⟩ := hp
    exact ⟨n, h.costs _ n hn, hv⟩
  | staticRoute nextHop network =>
    obtain ⟨r, hr, hrest⟩ := hp
    exact ⟨r, h.staticRoutes.subset hr, hrest⟩

theorem effect_eq_of_clauseMismatch? {c d : Clause} (h : clauseMismatch? c d = none) :
    c.effect = d.effect := by
  rw [clauseMismatch?] at h
  split at h
  · cases h
  · split at h
    · cases h
    · next hsame => exact (Clause.same_iff.mp (by simpa using hsame)).2

/-- A filled slot that an entry does not clash with has the value of the entry. -/
theorem sets_of_clash?_eq_none (hclash : p.clash? e.key e.primitive = none)
    (he : e.setting? = some (slot, v)) (hp : p.Sets slot v') : p.Sets slot v := by
  rw [PolicyEntry.setting?] at he
  split at he
  · next c hc =>
    obtain ⟨rfl, rfl⟩ := Prod.mk.inj (Option.some.inj he)
    obtain ⟨c', hc', hconditions, _⟩ := hp
    rw [hc, clash?] at hclash
    cases hfind : (p.routeMap e.key.neighbor e.key.direction).find?
        (·.conditions = c.conditions) with
    | none =>
      have hno := List.find?_eq_none.mp hfind c' hc'
      simp [hconditions] at hno
    | some existing =>
      have hsame : existing.conditions = c.conditions := by simpa using List.find?_some hfind
      have hmismatch : clauseMismatch? existing c = none :=
        Option.eq_none_iff_forall_ne_some.mpr (by simpa [hfind] using hclash)
      exact ⟨existing, List.mem_of_find?_eq_some hfind, hsame,
        congrArg Setting.effect (effect_eq_of_clauseMismatch? hmismatch)⟩
  · next n hn =>
    obtain ⟨rfl, rfl⟩ := Prod.mk.inj (Option.some.inj he)
    obtain ⟨n', hn', rfl⟩ := hp
    have heq := eq_of_clash?_eq_none (hn ▸ hclash) hn'
    exact ⟨n', hn', by rw [heq]⟩
  · next r hr =>
    obtain ⟨rfl, rfl⟩ := Prod.mk.inj (Option.some.inj he)
    obtain ⟨r', hr', hhop, hnetwork, _⟩ := hp
    rw [hr, clash?] at hclash
    cases hfind : p.staticRoutes.find? fun s => s.network = r.network && s.nextHop = r.nextHop with
    | none =>
      have hno := List.find?_eq_none.mp hfind r' hr'
      simp [hnetwork, hhop] at hno
    | some existing =>
      have hkey : existing.network = r.network ∧ existing.nextHop = r.nextHop := by
        simpa using List.find?_some hfind
      refine ⟨existing, List.mem_of_find?_eq_some hfind, hkey.2, hkey.1, ?_⟩
      by_contra hne
      have hdiffer : existing.distance ≠ r.distance := fun h => hne (congrArg Setting.number h)
      simp [hfind, valueMismatch?, hdiffer] at hclash
  · cases he

theorem not_sets_empty (slot : Slot) (v : Setting) : ¬ empty.Sets slot v := by
  intro h
  cases slot with
  | clause session conditions =>
    obtain ⟨c, hc, _⟩ := h
    exact absurd hc List.not_mem_nil
  | cost neighbor =>
    obtain ⟨n, hn, _⟩ := h
    cases hn
  | staticRoute nextHop network =>
    obtain ⟨r, hr, _⟩ := h
    exact absurd hr List.not_mem_nil

namespace Coherent

theorem empty : NodePolicy.empty.Coherent := fun slot v _ h => absurd h (not_sets_empty slot v)

theorem eq_of_clash?_eq_none (h : p.Coherent) (hclash : p.clash? e.key e.primitive = none)
    (he : e.setting? = some (slot, v)) (hp : p.Sets slot v') : v = v' :=
  h slot v v' (sets_of_clash?_eq_none hclash he hp) hp

end Coherent

/-- Values are compared with those that were there, and those of the bundle with each other. -/
theorem Coherent.foldl_commit (h : p.Coherent) (hb : b.Consistent)
    (hclash : ∀ e ∈ b.entries, p.clash? e.key e.primitive = none) :
    (b.entries.foldl commit p).Coherent := by
  intro slot v v' hv hv'
  rcases sets_of_foldl_commit hv with ⟨e, he, hset⟩ | hv
  · rcases sets_of_foldl_commit hv' with ⟨e', he', hset'⟩ | hv'
    · exact hb e he e' he' slot v v' hset hset'
    · exact h.eq_of_clash?_eq_none (hclash e he) hset hv'
  · rcases sets_of_foldl_commit hv' with ⟨e', he', hset'⟩ | hv'
    · exact (h.eq_of_clash?_eq_none (hclash e' he') hset' hv).symm
    · exact h slot v v' hv hv'

end NodePolicy

/-- Each slot of each router has at most one value. -/
def PolicyModel.Coherent (m : PolicyModel) : Prop := ∀ a, (m.policy a).Coherent

theorem PolicyModel.coherent_empty : empty.Coherent := fun _ => NodePolicy.Coherent.empty

theorem PolicyModel.Coherent.merge {t : Topology} {m : PolicyModel} {b : Bundle} (h : m.Coherent)
    (hb : (m.merge t b).2 = none → b.Consistent) : (m.merge t b).1.Coherent := by
  intro a
  by_cases ha : a = b.router
  · subst a
    rcases merge_cases t m b with ⟨_, _, _, hp⟩ | ⟨hnone, hp, hno⟩
    · rw [hp]
      exact h _
    · rw [hp]
      exact (h b.router).foldl_commit (hb hnone) hno
  · rw [policy_merge_of_ne ha]
    exact h a

end PathPolicy
