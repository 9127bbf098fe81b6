import PathPolicy.Proofs.Commitments
import PathPolicy.Proofs.SimplePath
import PathPolicy.Synthesis.Group

/-! The check for paths that the permitted next hops admit but that are no members. All admitted
paths are found, and the router at which one of them leaves the members is put in conflict. -/

namespace PathPolicy

theorem nodup_eraseDups {α : Type} [DecidableEq α] (xs : List α) : xs.eraseDups.Nodup := by
  induction hn : xs.length using Nat.strong_induction_on generalizing xs with
  | _ n ih =>
    cases xs with
    | nil => simp
    | cons x xs =>
      have hle := List.length_filter_le (fun y => !y == x) xs
      rw [List.length_cons] at hn
      rw [List.eraseDups_cons, List.nodup_cons]
      exact ⟨by simp, ih _ (by omega) _ rfl⟩

section LeavesAt

variable {members : List (List RouterId)} {path : List RouterId}

/-- A path that leaves the members nowhere begins one. -/
theorem exists_prefix_of_leavesAt? (h : leavesAt? members path = none)
    (hlen : 2 ≤ path.length) : ∃ m ∈ members, path <+: m := by
  have hall := List.find?_eq_none.mp h (path.length - 1) (List.mem_range'_1.mpr (by omega))
  have hfull : path.length - 1 + 1 = path.length := by omega
  simpa [hfull] using hall

theorem lt_length_of_leavesAt? {i : Nat} (h : leavesAt? members path = some i) :
    0 < i ∧ i < path.length := by
  have hm := List.mem_range'_1.mp (List.mem_of_find?_eq_some h)
  omega

end LeavesAt

namespace Commitments

variable {s : Commitments} {a b : RouterId}

/-- The next hop is permitted by a router without conflict. -/
def Admits (s : Commitments) (a b : RouterId) : Prop :=
  ∃ k i v, s.intents.get? k = some i ∧ k.router = a ∧ k.neighbor = b ∧ i.decision = .permit v ∧
    s.isConflicted a = false

def addPermitted (s : Commitments) (m : OrderedMap RouterId (List RouterId))
    (e : PolicyKey × Intent) : OrderedMap RouterId (List RouterId) :=
  match e.2.decision with
  | .permit _ =>
    if s.isConflicted e.1.router then m
    else m.update e.1.router fun hops => hops.getD [] ++ [e.1.neighbor]
  | .deny => m

theorem permittedHops_eq (s : Commitments) :
    s.permittedHops = s.intents.entries.foldl s.addPermitted OrderedMap.empty := rfl

theorem mem_addPermitted {m : OrderedMap RouterId (List RouterId)} {e : PolicyKey × Intent} :
    b ∈ ((s.addPermitted m e).get? a).getD [] ↔
      (e.1.router = a ∧ e.1.neighbor = b ∧ (∃ v, e.2.decision = .permit v) ∧
        s.isConflicted a = false) ∨ b ∈ (m.get? a).getD [] := by
  rw [addPermitted]
  cases hd : e.2.decision with
  | deny => simp
  | permit v =>
    by_cases hc : s.isConflicted e.1.router = true
    · have hno : ¬ (e.1.router = a ∧ s.isConflicted a = false) := by
        rintro ⟨rfl, h⟩
        simp [hc] at h
      simp only [hc, if_true]
      tauto
    · rw [if_neg hc, OrderedMap.get?_update]
      by_cases ha : a = e.1.router
      · subst a
        simp [hc, or_comm, eq_comm (a := b)]
      · have ha' : ¬ e.1.router = a := fun he => ha he.symm
        simp [ha, ha']

theorem mem_permittedHops : b ∈ (s.permittedHops.get? a).getD [] ↔ s.Admits a b := by
  have hfold : ∀ (es : List (PolicyKey × Intent)) m,
      b ∈ ((es.foldl s.addPermitted m).get? a).getD [] ↔
        (∃ e ∈ es, e.1.router = a ∧ e.1.neighbor = b ∧ (∃ v, e.2.decision = .permit v) ∧
          s.isConflicted a = false) ∨ b ∈ (m.get? a).getD [] := by
    intro es
    induction es with
    | nil => simp
    | cons e es ih =>
      intro m
      rw [List.foldl_cons, ih, mem_addPermitted, List.exists_mem_cons_iff, or_left_comm, or_assoc]
  rw [permittedHops_eq, hfold]
  simp only [OrderedMap.get?_empty, Option.getD_none, List.not_mem_nil, or_false]
  constructor
  · rintro ⟨⟨k, i⟩, hm, hr, hn, ⟨v, hv⟩, hc⟩
    exact ⟨k, i, v, OrderedMap.get?_eq_some_iff.mpr hm, hr, hn, hv, hc⟩
  · rintro ⟨k, i, v, hm, hr, hn, hv, hc⟩
    exact ⟨(k, i), OrderedMap.get?_eq_some_iff.mp hm, hr, hn, ⟨v, hv⟩, hc⟩

theorem mem_admittedPaths {sources : List RouterId} {d : RouterId} {path : List RouterId}
    (hhead : path.head? = some a) (ha : a ∈ sources) (hlast : path.getLast? = some d)
    (hnd : path.Nodup) (hchain : path.IsChain s.Admits) :
    path ∈ s.admittedPaths sources d := by
  refine List.mem_flatMap.mpr ⟨a, List.mem_reverse.mpr ha, ?_⟩
  have hnodes := nodup_eraseDups (sources ++ s.permittedHops.values.flatten)
  rw [mem_simplePaths (hnodes.erase a) hnodes.not_mem_erase]
  refine ⟨hhead, hlast, hnd, ?_, ?_⟩
  · exact hchain.imp fun x y h => List.mem_reverse.mpr (mem_permittedHops.mpr h)
  · obtain ⟨rest, rfl⟩ := List.head?_eq_some_iff.mp hhead
    intro y hy
    obtain ⟨x, hx⟩ : ∃ x, Hop (a :: rest) x y := by
      obtain ⟨i, hi⟩ := List.mem_iff_getElem?.mp hy
      have hlt : i < (a :: rest).length := by
        have := (List.getElem?_eq_some_iff.mp hi).1
        simp only [List.tail_cons, List.length_cons] at this ⊢
        omega
      exact ⟨(a :: rest)[i], Hop.of_getElem? (List.getElem?_eq_getElem hlt) (by simpa using hi)⟩
    have hm := mem_permittedHops.mpr (hx.of_isChain hchain)
    have hne : y ≠ a := fun he => (List.nodup_cons.mp hnd).1 (he ▸ hy)
    refine (List.mem_erase_of_ne hne).mpr (List.mem_eraseDups.mpr (List.mem_append_right _ ?_))
    cases hget : s.permittedHops.get? x with
    | none => simp [hget] at hm
    | some hops =>
      exact List.mem_flatten.mpr ⟨hops, OrderedMap.mem_values_iff.mpr ⟨x, hget⟩, by
        simpa [hget] using hm⟩

end Commitments

namespace SpliceCheck

variable {t : Topology} {dir : Direction} {s : Commitments} {c : SpliceCheck}
  {members done : List (List RouterId)} {path : List RouterId} {refs : List RequirementRef}

/-- The path is no member, and this is the hop by which it leaves them. -/
def LeavesBy (members : List (List RouterId)) (path : List RouterId) (a b : RouterId) : Prop :=
  path ∉ members ∧
    ∃ i, leavesAt? members path = some i ∧ path[i - 1]? = some a ∧ path[i]? = some b

/-- The state of the check after these paths. -/
structure Checks (s : Commitments) (dir : Direction) (members : List (List RouterId))
    (refs : List RequirementRef) (done : List (List RouterId)) (c : SpliceCheck) : Prop where
  intents : c.commitments.intents = s.intents
  maxPaths : c.commitments.maxPaths = s.maxPaths
  conflicted : c.commitments.conflicted = s.conflicted
  blames : c.commitments.Blames refs
  silent : c.commitments.conflicts = [] → c.spliced = []
  spliced : ∀ p ∈ done, ∀ a b, LeavesBy members p a b →
    s.intents.contains ⟨a, b, dir⟩ = true → ⟨a, b, dir⟩ ∈ c.spliced

theorem checkHop_cases (t : Topology) (dir : Direction) (c : SpliceCheck) (path : List RouterId)
    (i : Nat) (a b : RouterId) :
    (c.checkHop t dir path i a b = c ∧
      (c.commitments.intents.contains ⟨a, b, dir⟩ = true → ⟨a, b, dir⟩ ∈ c.spliced)) ∨
    ∃ intent x, c.commitments.intents.get? ⟨a, b, dir⟩ = some intent ∧
      x.requirement = intent.origin ∧ c.checkHop t dir path i a b =
        ⟨{ c.commitments with conflicts := c.commitments.conflicts ++ [x] },
          ⟨a, b, dir⟩ :: c.spliced⟩ := by
  rw [checkHop]
  dsimp only
  split
  · next hnone => exact .inl ⟨rfl, by simp [OrderedMap.contains, hnone]⟩
  · next intent hget =>
    split
    · next hm => exact .inl ⟨rfl, fun _ => hm⟩
    · exact .inr ⟨intent, _, hget, rfl, rfl⟩

theorem checkPath_cases (t : Topology) (dir : Direction) (members : List (List RouterId))
    (c : SpliceCheck) (path : List RouterId) :
    (c.checkPath t dir members path = c ∧
      ∀ x y, ¬ LeavesBy members path x y) ∨
    ∃ i a b, c.checkPath t dir members path = c.checkHop t dir path i a b ∧
      ∀ x y, LeavesBy members path x y → x = a ∧ y = b := by
  rw [checkPath]
  split
  · next hm => exact .inl ⟨rfl, fun _ _ h => h.1 hm⟩
  · split
    · next hnone =>
      refine .inl ⟨rfl, fun x y h => ?_⟩
      obtain ⟨_, i, hi, _⟩ := h
      simp [hnone] at hi
    · next i hi =>
      split
      · next a b ha hb =>
        refine .inr ⟨i, a, b, rfl, fun x y h => ?_⟩
        obtain ⟨_, j, hj, hx, hy⟩ := h
        obtain rfl : i = j := Option.some.inj (hi.symm.trans hj)
        exact ⟨Option.some.inj (hx.symm.trans ha), Option.some.inj (hy.symm.trans hb)⟩
      · next hno =>
        refine .inl ⟨rfl, fun x y h => ?_⟩
        obtain ⟨_, j, hj, hx, hy⟩ := h
        obtain rfl : i = j := Option.some.inj (hi.symm.trans hj)
        exact hno x y hx hy

theorem Checks.checkPath (hc : Checks s dir members refs done c)
    (horigin : ∀ k i, s.intents.get? k = some i → i.origin ∈ refs) (t : Topology)
    (path : List RouterId) :
    Checks s dir members refs (done ++ [path]) (c.checkPath t dir members path) := by
  rcases checkPath_cases t dir members c path with ⟨he, hno⟩ | ⟨i, a, b, he, hkey⟩
  · rw [he]
    refine ⟨hc.intents, hc.maxPaths, hc.conflicted, hc.blames, hc.silent, fun p hp x y hl => ?_⟩
    rcases List.mem_append.mp hp with hp | hp
    · exact hc.spliced p hp x y hl
    · obtain rfl := List.mem_singleton.mp hp
      exact absurd hl (hno x y)
  · rw [he]
    rcases checkHop_cases t dir c path i a b with ⟨he', hin⟩ | ⟨intent, x, hget, hx, he'⟩
    · rw [he']
      refine ⟨hc.intents, hc.maxPaths, hc.conflicted, hc.blames, hc.silent, fun p hp x y hl => ?_⟩
      rcases List.mem_append.mp hp with hp | hp
      · exact hc.spliced p hp x y hl
      · obtain rfl := List.mem_singleton.mp hp
        obtain ⟨rfl, rfl⟩ := hkey x y hl
        rw [← hc.intents]
        exact hin
    · rw [he']
      have hx' : x.requirement ∈ refs := hx ▸ horigin _ _ (hc.intents ▸ hget)
      refine ⟨hc.intents, hc.maxPaths, hc.conflicted, ?_, fun hnil => by simp at hnil, ?_⟩
      · simpa using hc.blames.concat hx' []
      · intro p hp x y hl hcont
        rcases List.mem_append.mp hp with hp | hp
        · exact List.mem_cons_of_mem _ (hc.spliced p hp x y hl hcont)
        · obtain rfl := List.mem_singleton.mp hp
          obtain ⟨rfl, rfl⟩ := hkey x y hl
          exact List.mem_cons_self

theorem Checks.foldl (hc : Checks s dir members refs done c)
    (horigin : ∀ k i, s.intents.get? k = some i → i.origin ∈ refs) (t : Topology)
    (paths : List (List RouterId)) :
    Checks s dir members refs (done ++ paths)
      (paths.foldl (SpliceCheck.checkPath t dir members) c) := by
  induction paths generalizing c done with
  | nil => simpa using hc
  | cons path paths ih =>
    rw [List.append_cons]
    exact ih (hc.checkPath horigin t path)

theorem Checks.start (hs : s.Blames refs) : Checks s dir members refs [] ⟨s, []⟩ :=
  ⟨rfl, rfl, rfl, hs, fun _ => rfl, by simp⟩

end SpliceCheck

/-- The commitments `s'` are `s` after the check for spliced paths. -/
structure Commitments.Spliced (g : RequirementGroup) (refs : List RequirementRef)
    (s s' : Commitments) : Prop where
  intents : s'.intents = s.intents
  maxPaths : s'.maxPaths = s.maxPaths
  conflicted : ∀ a, s.isConflicted a = true → s'.isConflicted a = true
  blames : s'.Blames refs
  spliced : ∀ p ∈ s.admittedPaths (g.sources s) g.destination, ∀ a b,
    SpliceCheck.LeavesBy g.paths p a b → s.intents.contains ⟨a, b, g.direction⟩ = true →
      s'.isConflicted a = true

theorem SpliceCheck.Checks.result {g : RequirementGroup} {s : Commitments} {c : SpliceCheck}
    {refs : List RequirementRef} (hc : Checks s g.direction g.paths refs
      (s.admittedPaths (g.sources s) g.destination) c) : s.Spliced g refs c.result := by
  refine ⟨hc.intents, hc.maxPaths, fun a ha => ?_, ⟨hc.blames.requirement, fun hnil => ?_⟩, ?_⟩
  · refine Commitments.isConflicted_iff.mpr (List.mem_append_left _ ?_)
    rw [hc.conflicted]
    exact Commitments.isConflicted_iff.mp ha
  · have hnil' := hc.silent hnil
    rw [SpliceCheck.result, hnil']
    simpa [Commitments.exclude] using hc.blames.silent hnil
  · intro p hp a b hl hcont
    refine Commitments.isConflicted_iff.mpr (List.mem_append_right _ ?_)
    exact List.mem_map.mpr ⟨⟨a, b, g.direction⟩, hc.spliced p hp a b hl hcont, rfl⟩

theorem RequirementGroup.checkSplices_spliced {g : RequirementGroup} {s : Commitments}
    {refs : List RequirementRef} (t : Topology) (hs : s.Blames refs)
    (horigin : ∀ k i, s.intents.get? k = some i → i.origin ∈ refs) :
    s.Spliced g refs (g.checkSplices t s) :=
  ((SpliceCheck.Checks.start hs).foldl horigin t _).result

end PathPolicy
