import PathPolicy.Proofs.Alike
import PathPolicy.Proofs.Resolution

/-! The same requirements under other indices. Only errors name a requirement by its index, so a
store with the same requirements in another order has the same groups, up to references. -/

namespace PathPolicy

section Except

variable {ε α β : Type}

theorem toOption_bind (x : Except ε α) (f : α → Except ε β) :
    (x >>= f).toOption = x.toOption.bind fun a => (f a).toOption := by
  cases x <;> rfl

theorem toOption_mapM {f f' : α → Except ε β} (h : ∀ x, (f' x).toOption = (f x).toOption)
    (xs : List α) : (xs.mapM f').toOption = (xs.mapM f).toOption := by
  induction xs with
  | nil => rfl
  | cons x xs ih => simp only [List.mapM_cons, toOption_bind, h, ih]

theorem exists_mapM_ok {f : α → Except ε β} {xs : List α} (h : ∀ x ∈ xs, ∃ y, f x = .ok y) :
    ∃ ys, xs.mapM f = .ok ys := by
  induction xs with
  | nil => exact ⟨[], rfl⟩
  | cons x xs ih =>
    obtain ⟨y, hy⟩ := h x (by simp)
    obtain ⟨ys, hys⟩ := ih fun z hz => h z (List.mem_cons_of_mem x hz)
    refine ⟨y :: ys, ?_⟩
    rw [List.mapM_cons, hy, hys]
    rfl

theorem eq_ok_of_toOption {x y : Except ε α} {a : α} (h : y.toOption = x.toOption)
    (hx : x = .ok a) : y = .ok a := by
  subst hx
  cases y with
  | error e => cases h
  | ok b => exact congrArg Except.ok (Option.some.inj h)

end Except

namespace Resolver

variable {v : Resolver} {o o' : RequirementRef}

theorem toOption_router (v : Resolver) (o o' : RequirementRef) (name : String) :
    (v.router o' name).toOption = (v.router o name).toOption := by
  rw [router, router]
  split <;> rfl

theorem toOption_visits (v : Resolver) (o o' : RequirementRef) (names : List String) :
    (v.visits o' names).toOption = (v.visits o names).toOption := by
  rw [visits, visits, toOption_bind, toOption_bind, toOption_mapM (v.toOption_router o o')]

theorem toOption_path (v : Resolver) (o o' : RequirementRef) (r : PathReq) :
    (v.path o' r).toOption = (v.path o r).toOption := by
  rw [path, path]
  dsimp only
  rw [toOption_bind, toOption_bind, toOption_visits v o o']
  refine congrArg _ (funext fun visits => ?_)
  -- each check is the same on both sides, and one that fails leaves no value
  by_cases hlast : r.path.getLast? ≠ some r.destination
  · rw [if_pos hlast, if_pos hlast]
    rfl
  · rw [if_neg hlast, if_neg hlast]
    cases firstRepeated? [] (visits.map (·.router)) with
    | some repeated => rfl
    | none =>
      cases Visit.brokenHop? v.topology visits with
      | some hop => rfl
      | none =>
        dsimp only
        by_cases hbgp : r.protocol = .bgp
        · rw [if_pos hbgp, if_pos hbgp]
          cases (visits.map (·.router)).find? fun a => (v.topology.asn? a).isNone <;> rfl
        · rw [if_neg hbgp, if_neg hbgp]

/-- The same requirement under another index says the same. -/
theorem exists_requirement {i j : Nat} {r : Requirement} {req : ResolvedRequirement}
    (h : v.requirement i r = .ok req) :
    ∃ req', v.requirement j r = .ok req' ∧ req'.demand = req.demand := by
  obtain ⟨paths, hpaths, h⟩ := bind_eq_ok h
  obtain rfl := Except.ok.inj h
  have hpaths' := eq_ok_of_toOption
    (toOption_mapM (v.toOption_path (r.reference i) (r.reference j)) r.members) hpaths
  refine ⟨⟨r.reference j, r.exact, paths⟩, ?_, rfl⟩
  rw [requirement, hpaths']
  rfl

end Resolver

/-- The stores have accepted the same requirements, in any order and any number of times. -/
structure Store.SameRequirements (t : Topology) (s s' : Store) : Prop where
  filled : s.Filled t
  filled' : s'.Filled t
  mem_iff : ∀ r, r ∈ s.requirements ↔ r ∈ s'.requirements

namespace Store.SameRequirements

variable {v : Resolver} {s s' : Store} {key : GroupKey}

theorem symm {t : Topology} (h : SameRequirements t s s') : SameRequirements t s' s :=
  ⟨h.filled', h.filled, fun r => (h.mem_iff r).symm⟩

theorem keys_eq {t : Topology} (h : SameRequirements t s s') : s'.keys = s.keys := by
  refine OrderedMap.keys_eq_of_mem_iff fun k => ?_
  change k ∈ s'.keys ↔ k ∈ s.keys
  rw [h.filled'.mem_keys_iff, h.filled.mem_keys_iff]
  exact exists_congr fun r => and_congr_left fun _ => (h.mem_iff r).symm

theorem exists_index {t : Topology} (h : SameRequirements t s s') {i : Nat} {r : Requirement}
    (hir : (i, r) ∈ s.group key) : ∃ j, (j, r) ∈ s'.group key := by
  obtain ⟨hr, rfl⟩ := h.filled.sound.of_mem_group hir
  obtain ⟨j, hj⟩ := List.mem_iff_getElem?.mp ((h.mem_iff r).mp hr)
  exact ⟨j, h.filled'.mem_group hj⟩

variable {reqs reqs' : List ResolvedRequirement}

theorem exists_mapM (h : SameRequirements v.topology s s')
    (hreqs : (s.group key).mapM (fun r => v.requirement r.1 r.2) = .ok reqs) :
    ∃ reqs', (s'.group key).mapM (fun r => v.requirement r.1 r.2) = .ok reqs' := by
  refine exists_mapM_ok fun ⟨j, r⟩ hjr => ?_
  obtain ⟨i, hir⟩ := h.symm.exists_index hjr
  obtain ⟨req, _, hok⟩ := exists_of_forall₂ (forall₂_of_mapM hreqs).flip hir
  obtain ⟨req', hok', _⟩ := Resolver.exists_requirement (j := j) hok
  exact ⟨req', hok'⟩

theorem demand_mem (h : SameRequirements v.topology s s')
    (hreqs : (s.group key).mapM (fun r => v.requirement r.1 r.2) = .ok reqs)
    (hreqs' : (s'.group key).mapM (fun r => v.requirement r.1 r.2) = .ok reqs')
    {d : RequirementKind × List (List RouterId)} (hd : d ∈ reqs.map (·.demand)) :
    d ∈ reqs'.map (·.demand) := by
  obtain ⟨req, hreq, rfl⟩ := List.mem_map.mp hd
  obtain ⟨⟨i, r⟩, hir, hok⟩ := exists_of_mem_mapM hreqs hreq
  obtain ⟨j, hjr⟩ := h.exists_index hir
  obtain ⟨req', hreq', hok'⟩ := exists_of_forall₂ (forall₂_of_mapM hreqs').flip hjr
  obtain ⟨req'', hok'', hdemand⟩ := Resolver.exists_requirement (j := j) hok
  obtain rfl : req' = req'' := Except.ok.inj (hok'.symm.trans hok'')
  exact List.mem_map.mpr ⟨req', hreq', hdemand⟩

theorem exists_group (h : SameRequirements v.topology s s') {o : Option RequirementGroup}
    (ho : v.group s key = .ok o) :
    ∃ o', v.group s' key = .ok o' ∧ Option.Rel RequirementGroup.Alike o o' := by
  rw [Resolver.group] at ho ⊢
  cases hd : v.topology.routerId? key.destination with
  | none =>
    simp only [hd] at ho
    obtain rfl := Except.ok.inj ho
    exact ⟨none, rfl, .none⟩
  | some d =>
    simp only [hd] at ho
    obtain ⟨reqs, hreqs, ho⟩ := bind_eq_ok ho
    obtain rfl := Except.ok.inj ho
    obtain ⟨reqs', hreqs'⟩ := h.exists_mapM hreqs
    refine ⟨some ⟨key.protocol, d, reqs'⟩, ?_, .some ⟨rfl, rfl, fun x => ?_⟩⟩
    · dsimp only
      rw [hreqs']
      rfl
    · exact ⟨h.demand_mem hreqs hreqs', h.symm.demand_mem hreqs' hreqs⟩

theorem exists_groups (h : SameRequirements v.topology s s') {gs : List RequirementGroup}
    (hgs : v.groups s = .ok gs) :
    ∃ gs', v.groups s' = .ok gs' ∧ List.Forall₂ RequirementGroup.Alike gs gs' := by
  obtain ⟨os, hos, hgs⟩ := bind_eq_ok hgs
  obtain rfl := Except.ok.inj hgs
  have hall : ∀ (keys : List GroupKey) os, keys.mapM (v.group s) = .ok os →
      ∃ os', keys.mapM (v.group s') = .ok os' ∧
        List.Forall₂ RequirementGroup.Alike (os.filterMap id) (os'.filterMap id) := by
    intro keys
    induction keys with
    | nil =>
      intro os hos
      obtain rfl : [] = os := Except.ok.inj hos
      exact ⟨[], rfl, .nil⟩
    | cons key keys ih =>
      intro os hos
      rw [List.mapM_cons] at hos
      obtain ⟨o, ho, hos⟩ := bind_eq_ok hos
      obtain ⟨rest, hrest, hos⟩ := bind_eq_ok hos
      obtain rfl : o :: rest = os := Except.ok.inj hos
      obtain ⟨o', ho', hrel⟩ := h.exists_group ho
      obtain ⟨rest', hrest', hforall⟩ := ih rest hrest
      refine ⟨o' :: rest', ?_, ?_⟩
      · rw [List.mapM_cons, ho', hrest']
        rfl
      · cases hrel with
        | none => exact hforall
        | some halike => exact .cons halike hforall
  obtain ⟨os', hos', hforall⟩ := hall s.keys os hos
  refine ⟨os'.filterMap id, ?_, hforall⟩
  rw [Resolver.groups, h.keys_eq, hos']
  rfl

end Store.SameRequirements

end PathPolicy
