import PathPolicy.Proofs.ForwardingLoops
import PathPolicy.Proofs.SoleRequirement

/-! The search for admitted paths keeps the paths that it has yet to extend on a stack. It comes to
an end, also where permitted hops lead round in circles, and then it has found each simple path over
permitted hops once. -/

namespace PathPolicy

structure PathSearch where
  /-- The path that is looked at next is on top. -/
  stack : List (List Nat)
  found : List (List Nat)
  deriving DecidableEq, Repr

namespace PathSearch

variable {hops : Nat → List Nat} {target : Nat} {paths paths' found found' : List (List Nat)}

def start (sources : List Nat) : PathSearch := ⟨(sources.map fun a => [a]).reverse, []⟩

/-- The path with one more hop, which leads to a node that is not on it. -/
def extensions (hops : List Nat) (path : List Nat) : List (List Nat) :=
  (hops.filter (· ∉ path)).map fun b => path ++ [b]

/-- A path is found if it ends at the target. Otherwise its extensions are put on the stack in
its place, one after the other. -/
def step (hops : Nat → List Nat) (target : Nat) (s : PathSearch) : PathSearch :=
  match s.stack with
  | [] => s
  | path :: rest =>
    match path.getLast? with
    | none => { s with stack := rest }
    | some a =>
      if a = target then ⟨rest, s.found ++ [path]⟩
      else { s with stack := (extensions (hops a) path).reverse ++ rest }

theorem step_target (pre : List Nat) (rest found : List (List Nat)) :
    step hops target ⟨(pre ++ [target]) :: rest, found⟩ = ⟨rest, found ++ [pre ++ [target]]⟩ := by
  simp [step]

theorem step_extend {a : Nat} (ha : a ≠ target) (pre : List Nat) (rest found : List (List Nat)) :
    step hops target ⟨(pre ++ [a]) :: rest, found⟩ =
      ⟨(extensions (hops a) (pre ++ [a])).reverse ++ rest, found⟩ := by
  simp [step, ha]

/-- The search works these paths off the stack, whatever is below them, and then has found those. -/
def Explores (hops : Nat → List Nat) (target : Nat) (paths found : List (List Nat)) : Prop :=
  ∀ rest before, ∃ n, (step hops target)^[n] ⟨paths ++ rest, before⟩ = ⟨rest, before ++ found⟩

namespace Explores

theorem nil : Explores hops target [] [] := fun rest before => ⟨0, by simp⟩

theorem append (h : Explores hops target paths found) (h' : Explores hops target paths' found') :
    Explores hops target (paths ++ paths') (found ++ found') := by
  intro rest before
  obtain ⟨n, hn⟩ := h (paths' ++ rest) before
  obtain ⟨m, hm⟩ := h' rest (before ++ found)
  refine ⟨m + n, ?_⟩
  rw [Function.iterate_add_apply, List.append_assoc, hn, hm, List.append_assoc]

theorem flatMap {bs : List Nat} {f : Nat → List Nat} {g : Nat → List (List Nat)}
    (h : ∀ b ∈ bs, Explores hops target [f b] (g b)) :
    Explores hops target (bs.map f) (bs.flatMap g) := by
  induction bs with
  | nil => exact nil
  | cons b bs ih =>
    have hb := h b List.mem_cons_self
    have hbs := ih fun c hc => h c (List.mem_cons_of_mem b hc)
    exact hb.append hbs

theorem target_path (pre : List Nat) :
    Explores hops target [pre ++ [target]] [pre ++ [target]] :=
  fun rest before => ⟨1, step_target pre rest before⟩

theorem extend {a : Nat} (ha : a ≠ target) {pre : List Nat}
    (h : Explores hops target (extensions (hops a) (pre ++ [a])).reverse found) :
    Explores hops target [pre ++ [a]] found := by
  intro rest before
  obtain ⟨n, hn⟩ := h rest before
  refine ⟨n + 1, ?_⟩
  rw [Function.iterate_succ_apply, List.singleton_append, step_extend ha, hn]

end Explores

theorem extensions_reverse (bs path : List Nat) :
    (extensions bs path).reverse = (bs.reverse.filter (· ∉ path)).map fun b => path ++ [b] := by
  rw [extensions, ← List.map_reverse, ← List.filter_reverse]

theorem flatMap_filter_eq (p : Nat → Bool) (f : Nat → List (List Nat)) (bs : List Nat) :
    (bs.filter p).flatMap f = bs.flatMap fun b => if p b then f b else [] := by
  induction bs with
  | nil => rfl
  | cons b bs ih => by_cases hb : p b = true <;> simp [hb, ih]

/-- With its nodes gone from the unused ones, a path is worked off into the simple paths that begin
with it. -/
theorem explores {unused pre : List Nat} {a : Nat} (hnd : unused.Nodup)
    (hunused : ∀ x, ∀ b ∈ hops x, (b ∈ unused ↔ b ∉ pre ++ [a])) :
    Explores hops target [pre ++ [a]]
      ((simplePaths (fun x => (hops x).reverse) target unused a).map (pre ++ ·)) := by
  induction unused, a using simplePaths.induct target generalizing pre with
  | case1 unused =>
    rw [simplePaths, if_pos rfl]
    exact .target_path pre
  | case2 unused a ha ih =>
    have hchild : ∀ b ∈ (hops a).reverse.filter (· ∉ pre ++ [a]),
        Explores hops target [pre ++ [a] ++ [b]]
          ((simplePaths (fun x => (hops x).reverse) target (unused.erase b) b).map
            (pre ++ [a] ++ ·)) := by
      intro b hb
      obtain ⟨hmem, hfresh⟩ := List.mem_filter.mp hb
      have hb := (hunused a b (List.mem_reverse.mp hmem)).mpr (of_decide_eq_true hfresh)
      apply ih b hb (hnd.erase b)
      intro x c hc
      have hc' := hunused x c hc
      rw [hnd.mem_erase_iff, hc', List.mem_append (s := pre ++ [a]), List.mem_singleton]
      tauto
    have hfound : (simplePaths (fun x => (hops x).reverse) target unused a).map (pre ++ ·) =
        ((hops a).reverse.filter (· ∉ pre ++ [a])).flatMap fun b =>
          (simplePaths (fun x => (hops x).reverse) target (unused.erase b) b).map
            (pre ++ [a] ++ ·) := by
      rw [simplePaths, if_neg ha, List.map_flatMap, flatMap_filter_eq]
      apply List.flatMap_congr
      intro b hb
      have hb := hunused a b (List.mem_reverse.mp hb)
      by_cases hfresh : b ∈ unused
      · rw [dif_pos hfresh, if_pos (decide_eq_true (hb.mp hfresh)), List.map_map]
        simp
      · have hon : ¬ b ∉ pre ++ [a] := fun h => hfresh (hb.mpr h)
        rw [dif_neg hfresh, if_neg fun h => hon (of_decide_eq_true h), List.map_nil]
    apply Explores.extend ha
    rw [hfound, extensions_reverse]
    exact .flatMap hchild

end PathSearch

section SimplePaths

variable {next : Nat → List Nat} {target a : Nat} {unused path : List Nat}

theorem head?_of_mem_simplePaths (h : path ∈ simplePaths next target unused a) :
    path.head? = some a := by
  rw [simplePaths] at h
  split at h
  · rw [List.mem_singleton.mp h]
    rfl
  · obtain ⟨b, _, hpath⟩ := List.mem_flatMap.mp h
    split at hpath
    · obtain ⟨rest, _, rfl⟩ := List.mem_map.mp hpath
      rfl
    · cases hpath

theorem simplePaths_nodup (hnext : ∀ x, (next x).Nodup) :
    (simplePaths next target unused a).Nodup := by
  induction unused, a using simplePaths.induct target with
  | case1 unused =>
    rw [simplePaths, if_pos rfl]
    exact List.nodup_singleton _
  | case2 unused a ha ih =>
    rw [simplePaths, if_neg ha, List.nodup_flatMap]
    constructor
    · intro b hb
      by_cases hfresh : b ∈ unused
      · rw [dif_pos hfresh]
        exact (ih b hfresh).map List.cons_injective
      · rw [dif_neg hfresh]
        exact List.nodup_nil
    -- paths over different next nodes differ in their second node
    · apply (hnext a).imp
      intro b c hbc path hpath hpath'
      have hsecond : ∀ x, path ∈ (if _h : x ∈ unused then
          (simplePaths next target (unused.erase x) x).map (a :: ·) else []) →
            path.tail.head? = some x := by
        intro x hx
        split at hx
        · obtain ⟨rest, hrest, rfl⟩ := List.mem_map.mp hx
          exact head?_of_mem_simplePaths hrest
        · cases hx
      exact hbc (Option.some.inj ((hsecond b hpath).symm.trans (hsecond c hpath')))

end SimplePaths

namespace Commitments

variable {s : Commitments} {a : RouterId} {dir : Direction}

def permittedNeighbor? (s : Commitments) (a : RouterId) (e : PolicyKey × Intent) :
    Option RouterId :=
  match e.2.decision with
  | .permit _ => if e.1.router = a ∧ s.isConflicted a = false then some e.1.neighbor else none
  | .deny => none

theorem get?_addPermitted (m : OrderedMap RouterId (List RouterId)) (e : PolicyKey × Intent) :
    ((s.addPermitted m e).get? a).getD [] =
      (m.get? a).getD [] ++ (s.permittedNeighbor? a e).toList := by
  rw [addPermitted, permittedNeighbor?]
  cases e.2.decision with
  | deny => simp
  | permit v =>
    by_cases hc : s.isConflicted e.1.router = true
    · have hno : ¬ (e.1.router = a ∧ s.isConflicted a = false) := by
        rintro ⟨rfl, h⟩
        simp [hc] at h
      simp [hc, hno]
    · by_cases ha : a = e.1.router
      · subst a
        simp [hc, OrderedMap.get?_update]
      · simp [hc, OrderedMap.get?_update, ha, Ne.symm ha]

theorem permittedHops_get? (s : Commitments) (a : RouterId) :
    (s.permittedHops.get? a).getD [] = s.intents.entries.filterMap (s.permittedNeighbor? a) := by
  have hfold : ∀ (es : List (PolicyKey × Intent)) m,
      ((es.foldl s.addPermitted m).get? a).getD [] =
        (m.get? a).getD [] ++ es.filterMap (s.permittedNeighbor? a) := by
    intro es
    induction es with
    | nil => simp
    | cons e es ih =>
      intro m
      rw [List.foldl_cons, ih, get?_addPermitted, List.append_assoc]
      cases h : s.permittedNeighbor? a e <;> simp [h]
  rw [permittedHops_eq, hfold]
  rfl

theorem permittedHops_nodup (hdir : ∀ k ∈ s.intents.keys, k.direction = dir) (a : RouterId) :
    ((s.permittedHops.get? a).getD []).Nodup := by
  have hkey : ∀ e ∈ s.intents.entries, ∀ b, s.permittedNeighbor? a e = some b →
      e.1 = ⟨a, b, dir⟩ := by
    intro e he b hb
    have hdirection := hdir e.1 (List.mem_map_of_mem he)
    rw [permittedNeighbor?] at hb
    split at hb
    · split at hb
      · next h =>
        obtain rfl := Option.some.inj hb
        rw [← h.1, ← hdirection]
      · cases hb
    · cases hb
  have hnodup : s.intents.entries.Pairwise fun e f => e.1 ≠ f.1 :=
    List.pairwise_map.mp s.intents.keys_nodup
  rw [permittedHops_get?]
  apply List.pairwise_filterMap.mpr
  apply hnodup.imp_of_mem
  intro e f he hf hne b hb c hc hbc
  subst hbc
  exact hne ((hkey e he b hb).trans (hkey f hf b hc).symm)

/-- A simple path from a source to its first visit of the destination, on which all hops are
permitted by routers without conflict. -/
structure IsAdmitted (s : Commitments) (sources : List RouterId) (d : RouterId)
    (path : List RouterId) : Prop where
  source : ∃ a ∈ sources, path.head? = some a
  last : path.getLast? = some d
  first_visit : d ∉ path.dropLast
  nodup : path.Nodup
  permitted : path.IsChain s.Admits

theorem mem_admittedPaths_iff {sources path : List RouterId} {d : RouterId} :
    path ∈ s.admittedPaths sources d ↔ s.IsAdmitted sources d path := by
  constructor
  · intro h
    obtain ⟨a, ha, hhead, hlast, hnd, hchain⟩ := of_mem_admittedPaths h
    refine ⟨⟨a, ha, hhead⟩, hlast, ?_, hnd, hchain⟩
    obtain ⟨pre, rfl⟩ := List.getLast?_eq_some_iff.mp hlast
    rw [List.dropLast_concat]
    exact fun hd => List.disjoint_of_nodup_append hnd hd (List.mem_singleton_self d)
  · intro h
    obtain ⟨a, ha, hhead⟩ := h.source
    exact mem_admittedPaths hhead ha h.last h.nodup h.permitted

theorem admittedPaths_nodup (hdir : ∀ k ∈ s.intents.keys, k.direction = dir)
    {sources : List RouterId} (hsources : sources.Nodup) (d : RouterId) :
    (s.admittedPaths sources d).Nodup := by
  apply List.nodup_flatMap.mpr
  constructor
  · intro a _
    apply simplePaths_nodup
    intro x
    exact List.nodup_reverse.mpr (permittedHops_nodup hdir x)
  · apply (List.nodup_reverse.mpr hsources).imp
    intro a b hab path ha hb
    have hhead := (head?_of_mem_simplePaths ha).symm.trans (head?_of_mem_simplePaths hb)
    exact hab (Option.some.inj hhead)

theorem explores_admittedPaths (s : Commitments) (sources : List RouterId) (d : RouterId) :
    PathSearch.Explores (fun a => (s.permittedHops.get? a).getD []) d
      (PathSearch.start sources).stack (s.admittedPaths sources d) := by
  have hnodes := nodup_eraseDups (sources ++ s.permittedHops.values.flatten)
  rw [PathSearch.start, ← List.map_reverse]
  apply PathSearch.Explores.flatMap
  have hmem : ∀ x, ∀ b ∈ (s.permittedHops.get? x).getD [],
      b ∈ (sources ++ s.permittedHops.values.flatten).eraseDups := by
    intro x b hb
    cases hget : s.permittedHops.get? x with
    | none => simp [hget] at hb
    | some bs =>
      have hvalues := OrderedMap.mem_values_iff.mpr ⟨x, hget⟩
      have hbs : b ∈ bs := by simpa [hget] using hb
      exact List.mem_eraseDups.mpr
        (List.mem_append_right _ (List.mem_flatten.mpr ⟨bs, hvalues, hbs⟩))
  intro a _
  have hunused : ∀ x, ∀ b ∈ (s.permittedHops.get? x).getD [],
      (b ∈ (sources ++ s.permittedHops.values.flatten).eraseDups.erase a ↔ b ∉ [] ++ [a]) := by
    intro x b hb
    rw [hnodes.mem_erase_iff]
    simp [hmem x b hb]
  have hexplores : PathSearch.Explores _ d _ _ := PathSearch.explores (hnodes.erase a) hunused
  simpa using hexplores

/-- The search ends with an empty stack, and it has found exactly the admitted paths, each once. -/
theorem search_finds_admitted (hdir : ∀ k ∈ s.intents.keys, k.direction = dir)
    (sources : OrderedSet RouterId) (d : RouterId) :
    (∃ n, (PathSearch.step (fun a => (s.permittedHops.get? a).getD []) d)^[n]
      (PathSearch.start sources.toList) = ⟨[], s.admittedPaths sources.toList d⟩) ∧
    (s.admittedPaths sources.toList d).Nodup ∧
    ∀ path, path ∈ s.admittedPaths sources.toList d ↔ s.IsAdmitted sources.toList d path := by
  refine ⟨?_, admittedPaths_nodup hdir sources.keys_nodup d, fun path => mem_admittedPaths_iff⟩
  obtain ⟨n, hn⟩ := s.explores_admittedPaths sources.toList d [] []
  refine ⟨n, ?_⟩
  simpa [PathSearch.start] using hn

end Commitments

/-- A group commits its routers in one direction. -/
theorem RequirementGroup.direction_of_mem_keys_combine (g : RequirementGroup) (t : Topology) :
    ∀ k ∈ (g.combine t).intents.keys, k.direction = g.direction := by
  intro k hk
  obtain ⟨i, hi⟩ := OrderedMap.mem_keys_iff.mp hk
  obtain ⟨_, _, _, _, _, _, rfl⟩ := exists_asks_of_combine hi
  rfl

namespace Network.Triangle

def detours : Requirement := .kConnected ⟨.ospf, "D", [path "A" "B", path "B" "A"], false⟩

/-- `A` and `B` permit each other as next hops. -/
def detourGroup : RequirementGroup :=
  ⟨.ospf, 0, [⟨detours.reference 0, false, [[1, 2, 0], [2, 1, 0]]⟩]⟩

theorem search_finds_admitted_triangle : ∃ n,
    (PathSearch.step (fun a => ((detourGroup.combine topology).permittedHops.get? a).getD []) 0)^[n]
      (PathSearch.start [1, 2]) = ⟨[], [[2, 1, 0], [2, 0], [1, 2, 0], [1, 0]]⟩ := by
  have hpaths : (detourGroup.combine topology).admittedPaths [1, 2] 0 =
      [[2, 1, 0], [2, 0], [1, 2, 0], [1, 0]] := by decide +kernel
  obtain ⟨n, hn⟩ := (Commitments.search_finds_admitted
    (detourGroup.direction_of_mem_keys_combine topology) (OrderedSet.ofList [1, 2]) 0).1
  exact ⟨n, hn.trans (congrArg (PathSearch.mk []) hpaths)⟩

end Network.Triangle

end PathPolicy
