import Mathlib.Data.List.Induction
import PathPolicy.Policy.Model
import PathPolicy.Proofs.OrderedMap

/-! The policy of a router holds what was committed to it. Clauses are never lost, costs are never
changed, and the number of paths only grows. -/

namespace PathPolicy

theorem Clause.same_iff {c d : Clause} :
    c.same d = true ↔ c.conditions = d.conditions ∧ c.effect = d.effect := by
  simp [same]

namespace NodePolicy

variable {p : NodePolicy} {e : PolicyEntry} {es : List PolicyEntry} {b : RouterId} {dir : Direction}
  {c : Clause}

/-- Installs an entry without a note of its origin. -/
def install (p : NodePolicy) (e : PolicyEntry) : NodePolicy :=
  match e.primitive with
  | .clause c =>
    let clauses := p.routeMap e.key.neighbor e.key.direction
    if clauses.any (·.same c) then p
    else { p with
      routeMaps := p.routeMaps.insert ⟨e.key.neighbor, e.key.direction⟩ (clauses ++ [c]) }
  | .ospfCost n => { p with ospfCosts := p.ospfCosts.insert e.key.neighbor n }
  | .maxPaths protocol n => p.raiseMaxPaths protocol n
  | .staticRoute r =>
    if r ∈ p.staticRoutes then p else { p with staticRoutes := p.staticRoutes ++ [r] }
  | .network a => { p with networks := OrderedSet.add p.networks a }
  | .community _ _ | .localPref _ => p

theorem noteOrigin_eq (p : NodePolicy) (slot : Slot) (o : RequirementRef) :
    ∃ origins, p.noteOrigin slot o = { p with origins } := by
  rw [noteOrigin]
  split
  · exact ⟨p.origins, rfl⟩
  · exact ⟨_, rfl⟩

theorem commit_eq (p : NodePolicy) (e : PolicyEntry) :
    ∃ origins, p.commit e = { p.install e with origins } := by
  cases hp : e.primitive with
  | clause c =>
    simp only [commit, install, hp, addClause]
    split
    · exact ⟨p.origins, rfl⟩
    · exact noteOrigin_eq _ _ e.origin
  | staticRoute r =>
    simp only [commit, install, hp, addStaticRoute]
    split
    · exact ⟨p.origins, rfl⟩
    · exact noteOrigin_eq _ _ e.origin
  | ospfCost n =>
    simp only [commit, install, hp, setCost]
    exact noteOrigin_eq _ _ e.origin
  | _ =>
    simp only [commit, install, hp]
    exact ⟨p.origins, rfl⟩

theorem routeMap_commit (p : NodePolicy) (e : PolicyEntry) (b : RouterId) (dir : Direction) :
    (p.commit e).routeMap b dir = (p.install e).routeMap b dir := by
  obtain ⟨origins, h⟩ := commit_eq p e
  rw [h]
  rfl

theorem ospfCost?_commit (p : NodePolicy) (e : PolicyEntry) (b : RouterId) :
    (p.commit e).ospfCost? b = (p.install e).ospfCost? b := by
  obtain ⟨origins, h⟩ := commit_eq p e
  rw [h]
  rfl

theorem staticRoutes_commit (p : NodePolicy) (e : PolicyEntry) :
    (p.commit e).staticRoutes = (p.install e).staticRoutes := by
  obtain ⟨origins, h⟩ := commit_eq p e
  rw [h]

theorem maxPaths?_commit (p : NodePolicy) (e : PolicyEntry) (pr : Protocol) :
    (p.commit e).maxPaths? pr = (p.install e).maxPaths? pr := by
  obtain ⟨origins, h⟩ := commit_eq p e
  rw [h]
  rfl

theorem announces_commit (p : NodePolicy) (e : PolicyEntry) (x : Address) :
    (p.commit e).announces x = (p.install e).announces x := by
  obtain ⟨origins, h⟩ := commit_eq p e
  rw [h]
  rfl

theorem routeMap_install : (p.install e).routeMap b dir =
    match e.primitive with
    | .clause c => if (e.key.neighbor = b ∧ e.key.direction = dir) ∧
        (p.routeMap b dir).any (·.same c) = false then p.routeMap b dir ++ [c]
      else p.routeMap b dir
    | _ => p.routeMap b dir := by
  cases hp : e.primitive with
  | clause c =>
    simp only [install, hp]
    by_cases hk : e.key.neighbor = b ∧ e.key.direction = dir
    · obtain ⟨rfl, rfl⟩ := hk
      by_cases hany : (p.routeMap e.key.neighbor e.key.direction).any (·.same c) = true
      · rw [if_pos hany, if_neg (by simp [hany])]
      · rw [if_neg hany, if_pos ⟨⟨rfl, rfl⟩, by simpa using hany⟩]
        simp [routeMap]
    · have hne : (⟨b, dir⟩ : Session) ≠ ⟨e.key.neighbor, e.key.direction⟩ := fun he => hk (by
        rw [Session.mk.injEq] at he
        exact ⟨he.1.symm, he.2.symm⟩)
      rw [if_neg fun (h : (e.key.neighbor = b ∧ e.key.direction = dir) ∧ _) => hk h.1]
      split
      · rfl
      · rw [routeMap, OrderedMap.get?_insert_of_ne _ _ hne]
        rfl
  | staticRoute r =>
    simp only [install, hp]
    split <;> rfl
  | _ => simp only [install, hp, routeMap, raiseMaxPaths]

theorem mem_routeMap_install (h : c ∈ (p.install e).routeMap b dir) : c ∈ p.routeMap b dir ∨
    e.key.neighbor = b ∧ e.key.direction = dir ∧ e.primitive = .clause c := by
  rw [routeMap_install] at h
  split at h
  · next d hd =>
    split at h
    · next hk =>
      rcases List.mem_append.mp h with h | h
      · exact .inl h
      · exact .inr ⟨hk.1.1, hk.1.2, by rw [hd, List.mem_singleton.mp h]⟩
    · exact .inl h
  · exact .inl h

theorem mem_routeMap_install_of_mem (h : c ∈ p.routeMap b dir) :
    c ∈ (p.install e).routeMap b dir := by
  rw [routeMap_install]
  split
  · split
    · exact List.mem_append_left _ h
    · exact h
  · exact h

theorem exists_same_install (h : e.primitive = .clause c) :
    ∃ c' ∈ (p.install e).routeMap e.key.neighbor e.key.direction, c'.same c = true := by
  simp only [routeMap_install, h]
  by_cases hany : (p.routeMap e.key.neighbor e.key.direction).any (·.same c) = true
  · rw [if_neg (by simp [hany])]
    exact List.any_eq_true.mp hany
  · rw [if_pos ⟨⟨trivial, trivial⟩, by simpa using hany⟩]
    exact ⟨c, by simp, Clause.same_iff.mpr ⟨rfl, rfl⟩⟩

theorem ospfCost?_install : (p.install e).ospfCost? b =
    match e.primitive with
    | .ospfCost n => if b = e.key.neighbor then some n else p.ospfCost? b
    | _ => p.ospfCost? b := by
  cases hp : e.primitive with
  | ospfCost n => simp only [install, hp, ospfCost?, OrderedMap.get?_insert]
  | clause c | staticRoute r =>
    simp only [install, hp]
    split <;> rfl
  | _ => simp only [install, hp, ospfCost?, raiseMaxPaths]

theorem staticRoutes_install : (p.install e).staticRoutes =
    match e.primitive with
    | .staticRoute r => if r ∈ p.staticRoutes then p.staticRoutes else p.staticRoutes ++ [r]
    | _ => p.staticRoutes := by
  cases hp : e.primitive with
  | clause c | staticRoute r =>
    simp only [install, hp]
    split <;> rfl
  | _ => simp only [install, hp, raiseMaxPaths]

theorem mem_staticRoutes_install {r : StaticRoute} : r ∈ (p.install e).staticRoutes ↔
    e.primitive = .staticRoute r ∨ r ∈ p.staticRoutes := by
  rw [staticRoutes_install]
  split
  · next r' hr' =>
    rw [hr', Primitive.staticRoute.injEq]
    by_cases hr : r' ∈ p.staticRoutes
    · rw [if_pos hr]
      exact ⟨.inr, fun h => h.elim (fun he => he ▸ hr) id⟩
    · rw [if_neg hr, List.mem_append, List.mem_singleton, or_comm, eq_comm]
  · next hno => exact ⟨.inr, fun h => h.elim (fun he => absurd he (hno r)) id⟩

theorem maxPaths?_install {pr : Protocol} : (p.install e).maxPaths? pr =
    match e.primitive with
    | .maxPaths pr' n =>
      if pr = pr' then some (max ((p.maxPaths? pr').getD n) n) else p.maxPaths? pr
    | _ => p.maxPaths? pr := by
  cases hp : e.primitive with
  | maxPaths pr' n => simp only [install, hp, raiseMaxPaths, maxPaths?, OrderedMap.get?_update]
  | clause c | staticRoute r =>
    simp only [install, hp]
    split <;> rfl
  | _ => simp only [install, hp, maxPaths?]

theorem announces_install {x : Address} : (p.install e).announces x = true ↔
    e.primitive = .network x ∨ p.announces x = true := by
  cases hp : e.primitive with
  | network a =>
    simp only [install, hp, announces, OrderedSet.contains_add, Primitive.network.injEq]
    rw [eq_comm]
  | clause c | staticRoute r =>
    simp only [install, hp]
    split <;> simp [announces]
  | _ => simp [install, hp, announces, raiseMaxPaths]

/-- Two entries do not set the cost of one interface to different values. -/
def CostsAgree (es : List PolicyEntry) : Prop :=
  ∀ e ∈ es, ∀ e' ∈ es, ∀ n n', e.primitive = .ospfCost n → e'.primitive = .ospfCost n' →
    e.key.neighbor = e'.key.neighbor → n = n'

/-- The policy holds these entries, and nothing else. -/
structure Holds (p : NodePolicy) (es : List PolicyEntry) : Prop where
  clause_mem : ∀ b dir c, c ∈ p.routeMap b dir →
    ∃ e ∈ es, e.key.neighbor = b ∧ e.key.direction = dir ∧ e.primitive = .clause c
  clause : ∀ e ∈ es, ∀ c, e.primitive = .clause c →
    ∃ c' ∈ p.routeMap e.key.neighbor e.key.direction, c'.same c = true
  cost_iff : ∀ b n, p.ospfCost? b = some n ↔
    ∃ e ∈ es, e.key.neighbor = b ∧ e.primitive = .ospfCost n
  maxPaths_mem : ∀ pr n, p.maxPaths? pr = some n → ∃ e ∈ es, e.primitive = .maxPaths pr n
  maxPaths_le : ∀ e ∈ es, ∀ pr n, e.primitive = .maxPaths pr n →
    ∃ m, p.maxPaths? pr = some m ∧ n ≤ m
  network_iff : ∀ x, p.announces x = true ↔ ∃ e ∈ es, e.primitive = .network x

theorem Holds.ospfCost?_commit (h : p.Holds es) (hagree : CostsAgree (es ++ [e])) (n : Nat) :
    (p.commit e).ospfCost? b = some n ↔
      ∃ x ∈ es ++ [e], x.key.neighbor = b ∧ x.primitive = .ospfCost n := by
  simp only [List.mem_append, List.mem_singleton, or_and_right, exists_or, exists_eq_left,
    NodePolicy.ospfCost?_commit, ospfCost?_install, ← h.cost_iff]
  split
  · next m hm =>
    by_cases hb : b = e.key.neighbor
    · subst b
      have hold : p.ospfCost? e.key.neighbor = some n → n = m := fun hn => by
        obtain ⟨x, hx, hkey, hcost⟩ := (h.cost_iff _ _).mp hn
        exact hagree x (List.mem_append_left _ hx) e (by simp) n m hcost hm hkey
      simp only [if_true, hm, Option.some.injEq, Primitive.ospfCost.injEq, true_and]
      exact ⟨.inr, fun hor => hor.elim (fun hn => (hold hn).symm) id⟩
    · have hb' : ¬ e.key.neighbor = b := fun he => hb he.symm
      simp [hb, hb']
  · next hno =>
    exact ⟨.inl, fun hor => hor.elim id fun he => absurd he.2 (hno n)⟩

theorem Holds.exists_of_maxPaths?_commit (h : p.Holds es) {pr : Protocol} {n : Nat}
    (hn : (p.commit e).maxPaths? pr = some n) :
    ∃ x ∈ es ++ [e], x.primitive = .maxPaths pr n := by
  have hprior : p.maxPaths? pr = some n → ∃ x ∈ es ++ [e], x.primitive = .maxPaths pr n := by
    intro hn
    obtain ⟨x, hx, hxm⟩ := h.maxPaths_mem pr n hn
    exact ⟨x, List.mem_append_left _ hx, hxm⟩
  rw [maxPaths?_commit, maxPaths?_install] at hn
  split at hn
  · next pr' m hm =>
    split at hn
    · next hpr =>
      subst pr'
      have hmax := Option.some.inj hn
      cases hold : p.maxPaths? pr with
      | none =>
        simp only [hold, Option.getD_none, Nat.max_self] at hmax
        exact ⟨e, by simp, hmax ▸ hm⟩
      | some k =>
        simp only [hold, Option.getD_some] at hmax
        rcases Nat.le_total k m with hle | hle
        · rw [Nat.max_eq_right hle] at hmax
          exact ⟨e, by simp, hmax ▸ hm⟩
        · rw [Nat.max_eq_left hle] at hmax
          exact hprior (hmax ▸ hold)
    · exact hprior hn
  · exact hprior hn

theorem Holds.le_maxPaths?_commit (h : p.Holds es) {x : PolicyEntry} (hx : x ∈ es ++ [e])
    {pr : Protocol} {n : Nat} (hn : x.primitive = .maxPaths pr n) :
    ∃ m, (p.commit e).maxPaths? pr = some m ∧ n ≤ m := by
  rw [maxPaths?_commit, maxPaths?_install]
  rcases List.mem_append.mp hx with hx | hx
  · obtain ⟨m, hm, hle⟩ := h.maxPaths_le x hx pr n hn
    split
    · next pr' k _ =>
      split
      · next hpr =>
        subst pr'
        exact ⟨_, rfl, by rw [hm, Option.getD_some]; omega⟩
      · exact ⟨m, hm, hle⟩
    · exact ⟨m, hm, hle⟩
  · obtain rfl := List.mem_singleton.mp hx
    simp only [hn, if_true]
    exact ⟨_, rfl, by omega⟩

theorem Holds.commit (h : p.Holds es) (hagree : CostsAgree (es ++ [e])) :
    (p.commit e).Holds (es ++ [e]) := by
  refine ⟨fun b dir c hc => ?_, fun x hx c hc => ?_, fun b n => h.ospfCost?_commit hagree n,
    fun pr n hn => h.exists_of_maxPaths?_commit hn, fun x hx pr n hn => h.le_maxPaths?_commit hx hn,
    fun x => ?_⟩
  · rw [routeMap_commit] at hc
    rcases mem_routeMap_install hc with hc | ⟨hb, hdir, hc⟩
    · obtain ⟨x, hx, hrest⟩ := h.clause_mem b dir c hc
      exact ⟨x, List.mem_append_left _ hx, hrest⟩
    · exact ⟨e, by simp, hb, hdir, hc⟩
  · rw [routeMap_commit]
    rcases List.mem_append.mp hx with hx | hx
    · obtain ⟨c', hc', hsame⟩ := h.clause x hx c hc
      exact ⟨c', mem_routeMap_install_of_mem hc', hsame⟩
    · obtain rfl := List.mem_singleton.mp hx
      exact exists_same_install hc
  · rw [announces_commit, announces_install, h.network_iff]
    simp [or_comm]

theorem holds_foldl_commit (h : CostsAgree es) : (es.foldl commit empty).Holds es := by
  induction es using List.reverseRecOn with
  | nil =>
    exact ⟨by simp [routeMap, empty], by simp, by simp [ospfCost?, empty],
      by simp [maxPaths?, empty], by simp, by simp [announces, OrderedMap.contains, empty]⟩
  | append_singleton es e ih =>
    have hes : CostsAgree es := fun x hx y hy =>
      h x (List.mem_append_left _ hx) y (List.mem_append_left _ hy)
    rw [List.foldl_append]
    exact (ih hes).commit h

end NodePolicy

end PathPolicy
