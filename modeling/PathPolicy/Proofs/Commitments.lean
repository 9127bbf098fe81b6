import PathPolicy.Proofs.Intent

/-! The commitments of a group. Every intent of its requirements is either in line with the one that
is committed for its neighbor, or it leaves a conflict at its router. -/

namespace PathPolicy

theorem Intent.decision_eq_of_clash? {existing new : Intent} (h : existing.clash? new = none)
    (hd : new.defers = false) : existing.decision = new.decision := by
  rw [clash?] at h
  split at h
  · simp [*]
  · cases h
  · cases h
  · next m n _ _ =>
    have hmn : m = n := by simpa [hd] using h
    simp [*]

theorem Intent.permits_of_clash? {existing new : Intent} {v : Nat}
    (h : existing.clash? new = none) (hv : new.decision = .permit v) :
    ∃ w, existing.decision = .permit w := by
  cases he : existing.decision with
  | permit w => exact ⟨w, rfl⟩
  | deny => simp [clash?, he, hv] at h

namespace Commitments

variable {t : Topology} {g : RequirementGroup} {s : Commitments} {i : Intent} {is js : List Intent}

theorem isConflicted_iff {a : RouterId} : s.isConflicted a = true ↔ a ∈ s.conflicted := by
  simp [isConflicted]

theorem addIntent_cases (t : Topology) (s : Commitments) (i : Intent) :
    (s.intents.get? i.key = none ∧
      s.addIntent t i = { s with intents := s.intents.insert i.key i }) ∨
    (∃ e, s.intents.get? i.key = some e ∧ e.clash? i = none ∧ s.addIntent t i = s) ∨
    (∃ e c, s.intents.get? i.key = some e ∧ c.requirement = i.origin ∧
      s.addIntent t i = { s with
        conflicts := s.conflicts ++ [c]
        conflicted := s.conflicted ++ [i.key.router] }) := by
  rw [addIntent]
  split
  · next hnone => exact .inl ⟨hnone, rfl⟩
  · next e he =>
    split
    · next hc => exact .inr (.inl ⟨e, he, hc, rfl⟩)
    · exact .inr (.inr ⟨e, _, he, rfl, rfl⟩)

/-- The committed intents are among these, and the router of one that is not in line with the
committed one has a conflict. -/
structure Covers (s : Commitments) (is : List Intent) : Prop where
  committed : ∀ k i, s.intents.get? k = some i → i ∈ is ∧ i.key = k
  settled : ∀ i ∈ is, ∃ e, s.intents.get? i.key = some e ∧
    (s.isConflicted i.key.router = true ∨ e.clash? i = none)

theorem Covers.addIntent (h : s.Covers is) (t : Topology) (i : Intent) :
    (s.addIntent t i).Covers (is ++ [i]) := by
  rcases addIntent_cases t s i with ⟨hnone, he⟩ | ⟨e, hget, hclash, he⟩ | ⟨e, c, hget, _, he⟩
  · rw [he]
    refine ⟨fun k j hj => ?_, fun j hj => ?_⟩
    · rw [OrderedMap.get?_insert] at hj
      split at hj
      · next hk =>
        obtain rfl := Option.some.inj hj
        exact ⟨by simp, hk.symm⟩
      · exact ⟨by simp [(h.committed k j hj).1], (h.committed k j hj).2⟩
    · simp only [OrderedMap.get?_insert]
      rcases List.mem_append.mp hj with hj | hj
      · obtain ⟨e, hget, hor⟩ := h.settled j hj
        have hne : j.key ≠ i.key := fun hk => by simp [← hk, hget] at hnone
        exact ⟨e, by rw [if_neg hne, hget], hor⟩
      · obtain rfl := List.mem_singleton.mp hj
        refine ⟨j, if_pos rfl, .inr ?_⟩
        cases hd : j.decision <;> simp [Intent.clash?, hd]
  · rw [he]
    refine ⟨fun k j hj => ⟨by simp [(h.committed k j hj).1], (h.committed k j hj).2⟩, ?_⟩
    intro j hj
    rcases List.mem_append.mp hj with hj | hj
    · exact h.settled j hj
    · obtain rfl := List.mem_singleton.mp hj
      exact ⟨e, hget, .inr hclash⟩
  · rw [he]
    refine ⟨fun k j hj => ⟨by simp [(h.committed k j hj).1], (h.committed k j hj).2⟩, ?_⟩
    intro j hj
    rcases List.mem_append.mp hj with hj | hj
    · obtain ⟨e', hget', hor⟩ := h.settled j hj
      refine ⟨e', hget', hor.imp_left fun hc => ?_⟩
      exact isConflicted_iff.mpr (List.mem_append_left _ (isConflicted_iff.mp hc))
    · obtain rfl := List.mem_singleton.mp hj
      exact ⟨e, hget, .inl (isConflicted_iff.mpr (by simp))⟩

theorem Covers.foldl_addIntent (h : s.Covers is) (t : Topology) (js : List Intent) :
    (js.foldl (Commitments.addIntent t) s).Covers (is ++ js) := by
  induction js generalizing s is with
  | nil => simpa using h
  | cons j js ih =>
    rw [List.append_cons]
    exact ih (h.addIntent t j)

theorem maxPaths_foldl_addIntent (t : Topology) (s : Commitments) (js : List Intent) :
    (js.foldl (addIntent t) s).maxPaths = s.maxPaths := by
  induction js generalizing s with
  | nil => rfl
  | cons j js ih =>
    rw [List.foldl_cons, ih]
    rcases addIntent_cases t s j with ⟨_, he⟩ | ⟨_, _, _, he⟩ | ⟨_, _, _, _, he⟩ <;> rw [he]

/-- Conflicts blame only these requirements, and there is one if any router is in conflict. -/
structure Blames (s : Commitments) (refs : List RequirementRef) : Prop where
  requirement : ∀ c ∈ s.conflicts, c.requirement ∈ refs
  silent : s.conflicts = [] → s.conflicted = []

theorem Blames.mono {refs refs' : List RequirementRef} (h : s.Blames refs) (hs : refs ⊆ refs') :
    s.Blames refs' :=
  ⟨fun c hc => hs (h.requirement c hc), h.silent⟩

theorem Blames.concat {refs : List RequirementRef} (h : s.Blames refs) {c : Conflict}
    (hc : c.requirement ∈ refs) (rs : List RouterId) :
    Blames { s with conflicts := s.conflicts ++ [c], conflicted := s.conflicted ++ rs } refs := by
  refine ⟨fun x hx => ?_, fun hnil => by simp at hnil⟩
  rcases List.mem_append.mp hx with hx | hx
  · exact h.requirement x hx
  · rwa [List.mem_singleton.mp hx]

theorem Blames.foldl_addIntent {refs : List RequirementRef} (h : s.Blames refs)
    (hjs : ∀ j ∈ js, j.origin ∈ refs) : (js.foldl (addIntent t) s).Blames refs := by
  induction js generalizing s with
  | nil => exact h
  | cons j js ih =>
    have hj := hjs j (by simp)
    refine ih ?_ fun k hk => hjs k (List.mem_cons_of_mem j hk)
    rcases addIntent_cases t s j with ⟨_, he⟩ | ⟨_, _, _, he⟩ | ⟨_, c, _, hc, he⟩
    · rw [he]
      exact ⟨h.requirement, h.silent⟩
    · rwa [he]
    · rw [he]
      exact h.concat (hc ▸ hj) _

/-- The greatest numbers of paths out of these, by router. -/
structure Balances (s : Commitments) (ms : List (RouterId × Nat × RequirementRef)) : Prop where
  mem : ∀ a m, s.maxPaths.get? a = some m → (a, m) ∈ ms
  le : ∀ a k o, (a, k, o) ∈ ms → ∃ k' o', s.maxPaths.get? a = some (k', o') ∧ k ≤ k'

theorem Balances.addMaxPaths {ms : List (RouterId × Nat × RequirementRef)} (h : s.Balances ms)
    (o : RequirementRef) (m : RouterId × Nat) :
    (s.addMaxPaths o m).Balances (ms ++ [(m.1, m.2, o)]) := by
  rw [Commitments.addMaxPaths]
  refine ⟨fun a n hn => ?_, fun a k o' hm => ?_⟩
  · simp only [OrderedMap.get?_update] at hn
    split at hn
    · next ha =>
      obtain rfl := Option.some.inj hn
      split
      · next k first hget =>
        have hmem := h.mem _ _ hget
        split <;> simp [ha, hmem]
      · simp [ha]
    · exact List.mem_append_left _ (h.mem a n hn)
  · simp only [OrderedMap.get?_update]
    rcases List.mem_append.mp hm with hm | hm
    · obtain ⟨k', o'', hget, hle⟩ := h.le a k o' hm
      by_cases ha : a = m.1
      · rw [if_pos ha, ← ha, hget]
        by_cases hlt : k' < m.2
        · exact ⟨m.2, o, by simp [hlt], by omega⟩
        · exact ⟨k', o'', by simp [hlt], hle⟩
      · exact ⟨k', o'', by rw [if_neg ha, hget], hle⟩
    · obtain ⟨rfl, rfl, rfl⟩ : a = m.1 ∧ k = m.2 ∧ o' = o := by simpa using hm
      rw [if_pos rfl]
      cases hget : s.maxPaths.get? m.1 with
      | none => exact ⟨m.2, o', rfl, le_rfl⟩
      | some n =>
        by_cases hlt : n.1 < m.2
        · exact ⟨m.2, o', by simp [hlt], le_rfl⟩
        · exact ⟨n.1, n.2, by simp [hlt], by omega⟩

theorem Balances.foldl_addMaxPaths {ms : List (RouterId × Nat × RequirementRef)}
    (h : s.Balances ms) (o : RequirementRef) (xs : List (RouterId × Nat)) :
    (xs.foldl (Commitments.addMaxPaths o) s).Balances (ms ++ xs.map fun m => (m.1, m.2, o)) := by
  induction xs generalizing s ms with
  | nil => simpa using h
  | cons x xs ih =>
    rw [List.map_cons, List.append_cons]
    exact ih (h.addMaxPaths o x)

theorem foldl_addMaxPaths_fields (o : RequirementRef) (s : Commitments)
    (xs : List (RouterId × Nat)) :
    (xs.foldl (addMaxPaths o) s).intents = s.intents ∧
      (xs.foldl (addMaxPaths o) s).conflicted = s.conflicted ∧
      (xs.foldl (addMaxPaths o) s).conflicts = s.conflicts := by
  induction xs generalizing s with
  | nil => exact ⟨rfl, rfl, rfl⟩
  | cons x xs ih => exact ih (s.addMaxPaths o x)

theorem conflicted_subset_foldl_addIntent (t : Topology) (s : Commitments) (js : List Intent) :
    s.conflicted ⊆ (js.foldl (addIntent t) s).conflicted := by
  induction js generalizing s with
  | nil => exact fun _ h => h
  | cons j js ih =>
    refine List.Subset.trans (fun a ha => ?_) (ih (s.addIntent t j))
    rcases addIntent_cases t s j with ⟨_, he⟩ | ⟨_, _, _, he⟩ | ⟨_, _, _, _, he⟩ <;> simp [he, ha]

end Commitments

namespace ResolvedRequirement

variable {t : Topology} {g : RequirementGroup} {req : ResolvedRequirement}

/-- What a requirement asks for. One with a loop asks for nothing. -/
def asked (req : ResolvedRequirement) (t : Topology) (g : RequirementGroup) : RequirementIntents :=
  match req.intents t g with
  | .ok r => r
  | .error _ => ⟨[], []⟩

def askedMaxPaths (req : ResolvedRequirement) (t : Topology) (g : RequirementGroup) :
    List (RouterId × Nat × RequirementRef) :=
  (req.asked t g).maxPaths.map fun m => (m.1, m.2, req.reference)

theorem mem_asked {i : Intent} : i ∈ (req.asked t g).intents ↔
    ∃ r heights, req.intents t g = .ok r ∧ req.IntentsOver t g heights r ∧ i ∈ r.intents := by
  rw [asked]
  split
  · next r hr =>
    simp only [hr, Except.ok.injEq]
    constructor
    · intro h
      obtain ⟨heights, hover⟩ := exists_intentsOver hr
      exact ⟨r, heights, rfl, hover, h⟩
    · rintro ⟨_, _, rfl, _, h⟩
      exact h
  · next e he => simp [he]

theorem mem_askedMaxPaths {a : RouterId} {k : Nat} {o : RequirementRef} :
    (a, k, o) ∈ req.askedMaxPaths t g ↔
      o = req.reference ∧ (∃ r, req.intents t g = .ok r) ∧ (a, k) ∈ req.maxPaths g req.ranks := by
  rw [askedMaxPaths, asked]
  split
  · next r hr =>
    obtain ⟨heights, hover⟩ := exists_intentsOver hr
    simp only [hover.maxPaths_eq, List.mem_map, Prod.mk.injEq, hr]
    constructor
    · rintro ⟨⟨x, n⟩, hm, rfl, rfl, rfl⟩
      exact ⟨rfl, ⟨r, rfl⟩, hm⟩
    · rintro ⟨rfl, _, hm⟩
      exact ⟨(a, k), hm, rfl, rfl, rfl⟩
  · next e he => simp [he]

end ResolvedRequirement

/-- The state after these requirements of a group. -/
structure Commitments.Combines (t : Topology) (g : RequirementGroup)
    (done : List ResolvedRequirement) (s : Commitments) : Prop where
  covers : s.Covers (done.flatMap fun req => (req.asked t g).intents)
  balances : s.Balances (done.flatMap fun req => req.askedMaxPaths t g)
  looped : ∀ req ∈ done, ∀ e, req.intents t g = .error e →
    ∀ p ∈ req.paths, ∀ a ∈ p, a ≠ g.destination → s.isConflicted a = true
  blames : s.Blames (done.map (·.reference))

namespace Commitments.Combines

variable {t : Topology} {g : RequirementGroup} {done : List ResolvedRequirement} {s : Commitments}
  {req : ResolvedRequirement}

theorem addLooped (h : s.Combines t g done) {e : RouterId × RouterId}
    (he : req.intents t g = .error e) :
    (s.addRequirement t g req).Combines t g (done ++ [req]) := by
  have hasked : req.asked t g = ⟨[], []⟩ := by rw [ResolvedRequirement.asked, he]
  have hrefs : done.map (·.reference) ⊆ (done ++ [req]).map (·.reference) := by simp
  rw [addRequirement, he]
  refine ⟨?_, ?_, fun r hr e' he' p hp a ha hne => ?_, ?_⟩
  · simp only [List.flatMap_append, List.flatMap_singleton, hasked, List.append_nil]
    refine ⟨h.covers.committed, fun i hi => ?_⟩
    obtain ⟨x, hx, hor⟩ := h.covers.settled i hi
    exact ⟨x, hx, hor.imp_left fun hc => isConflicted_iff.mpr
      (List.mem_append_left _ (isConflicted_iff.mp hc))⟩
  · simp only [List.flatMap_append, List.flatMap_singleton, ResolvedRequirement.askedMaxPaths,
      hasked, List.map_nil, List.append_nil]
    exact ⟨h.balances.mem, h.balances.le⟩
  · refine isConflicted_iff.mpr (List.mem_append.mpr ?_)
    rcases List.mem_append.mp hr with hr | hr
    · exact .inl (isConflicted_iff.mp (h.looped r hr e' he' p hp a ha hne))
    · obtain rfl := List.mem_singleton.mp hr
      exact .inr (List.mem_filter.mpr ⟨List.mem_flatten.mpr ⟨p, hp, ha⟩, by simpa using hne⟩)
  · exact (h.blames.mono hrefs).concat (by simp) _

theorem addAsked (h : s.Combines t g done) {r : RequirementIntents}
    (hr : req.intents t g = .ok r) : (s.addRequirement t g req).Combines t g (done ++ [req]) := by
  have hasked : req.asked t g = r := by rw [ResolvedRequirement.asked, hr]
  have hrefs : done.map (·.reference) ⊆ (done ++ [req]).map (·.reference) := by simp
  rw [addRequirement, hr]
  obtain ⟨hi, hd, hc⟩ := foldl_addMaxPaths_fields req.reference (r.intents.foldl (addIntent t) s)
    r.maxPaths
  have hcovers := h.covers.foldl_addIntent t r.intents
  have hbalances : (r.intents.foldl (addIntent t) s).Balances
      (done.flatMap fun req => req.askedMaxPaths t g) :=
    ⟨by simpa only [maxPaths_foldl_addIntent] using h.balances.mem,
      by simpa only [maxPaths_foldl_addIntent] using h.balances.le⟩
  have hblames : (r.intents.foldl (addIntent t) s).Blames ((done ++ [req]).map (·.reference)) := by
    refine (h.blames.mono hrefs).foldl_addIntent fun i hi => ?_
    obtain ⟨heights, hover⟩ := ResolvedRequirement.exists_intentsOver hr
    obtain ⟨a, b, _, _, rfl⟩ := (hover.mem_iff i).mp hi
    simp [ResolvedRequirement.intentFor]
  refine ⟨?_, ?_, fun q hq e he p hp a ha hne => ?_, ?_⟩
  · simp only [List.flatMap_append, List.flatMap_singleton, hasked]
    exact ⟨by simpa only [hi] using hcovers.committed,
      by simpa only [hi, isConflicted, hd] using hcovers.settled⟩
  · simp only [List.flatMap_append, List.flatMap_singleton, ResolvedRequirement.askedMaxPaths,
      hasked]
    exact hbalances.foldl_addMaxPaths req.reference r.maxPaths
  · rcases List.mem_append.mp hq with hq | hq
    · have hold := isConflicted_iff.mp (h.looped q hq e he p hp a ha hne)
      exact isConflicted_iff.mpr (hd ▸ conflicted_subset_foldl_addIntent t s r.intents hold)
    · obtain rfl := List.mem_singleton.mp hq
      simp [hr] at he
  · exact ⟨by simpa only [hc] using hblames.requirement,
      by simpa only [hc, hd] using hblames.silent⟩

theorem addRequirement (h : s.Combines t g done) (req : ResolvedRequirement) :
    (s.addRequirement t g req).Combines t g (done ++ [req]) := by
  cases hr : req.intents t g with
  | error e => exact h.addLooped hr
  | ok r => exact h.addAsked hr

theorem foldl (h : s.Combines t g done) (reqs : List ResolvedRequirement) :
    (reqs.foldl (Commitments.addRequirement t g) s).Combines t g (done ++ reqs) := by
  induction reqs generalizing s done with
  | nil => simpa using h
  | cons req reqs ih =>
    rw [List.append_cons]
    exact ih (h.addRequirement req)

theorem empty (t : Topology) (g : RequirementGroup) : Commitments.empty.Combines t g [] where
  covers := ⟨fun k i h => by simp [Commitments.empty] at h, by simp⟩
  balances := ⟨fun a m h => by simp [Commitments.empty] at h, by simp⟩
  looped := by simp
  blames := ⟨by simp [Commitments.empty], fun _ => rfl⟩

end Commitments.Combines

namespace RequirementGroup

theorem mem_strictestFirst {g : RequirementGroup} {req : ResolvedRequirement} :
    req ∈ g.strictestFirst ↔ req ∈ g.requirements :=
  mem_sortBy

theorem combine_combines (g : RequirementGroup) (t : Topology) :
    (g.combine t).Combines t g g.strictestFirst :=
  (Commitments.Combines.empty t g).foldl g.strictestFirst

end RequirementGroup

end PathPolicy
