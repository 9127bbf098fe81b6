import PathPolicy.Network.Diamond
import PathPolicy.Proofs.Resolution

/-! Calls on a store. Each call adds its requirements up to the first malformed one, and after any
calls the groups list every requirement of the store once, in the group of its key. -/

namespace PathPolicy

theorem Requirement.requirement_of_memberError? {r : Requirement} {reference : RequirementRef}
    {m : PathReq} {i : Nat} {e : RequirementError} (h : r.memberError? reference m i = some e) :
    e.requirement = reference := by
  rw [memberError?] at h
  split at h
  · cases h
    rfl
  · split at h
    · cases h
      rfl
    · split at h
      · cases h
        rfl
      · cases h

namespace Store

inductive Call
  | add (r : Requirement)
  | extend (rs : List Requirement)
  deriving DecidableEq

inductive Answer
  | index (i : Nat)
  | done
  | rejected (e : RequirementError)
  deriving DecidableEq

/-- Adding one requirement answers its index. -/
def call (s : Store) : Call → Store × Answer
  | .add r =>
    match s.add r with
    | .ok s' => (s', .index s.size)
    | .error e => (s, .rejected e)
  | .extend rs =>
    match s.addAll rs with
    | (s', none) => (s', .done)
    | (s', some e) => (s', .rejected e)

def after (t : Topology) (calls : List Call) : Store :=
  calls.foldl (fun s c => (s.call c).1) (ofTopology t)

namespace Call

def requirements : Call → List Requirement
  | add r => [r]
  | extend rs => rs

def accepted (t : Topology) (c : Call) : List Requirement :=
  c.requirements.takeWhile fun r => r.WellFormed t

def malformed? (t : Topology) (c : Call) : Option Requirement :=
  c.requirements.find? fun r => ¬r.WellFormed t

/-- What a call is answered when it meets nothing malformed. -/
def success (c : Call) (s : Store) : Answer :=
  match c with
  | add _ => .index s.size
  | extend _ => .done

/-- A call adds requirements up to the first malformed one, and the error names that one by the
index that it would have had. -/
structure Served (t : Topology) (s : Store) (c : Call) (result : Store × Answer) : Prop where
  requirements : result.1.requirements = s.requirements ++ c.accepted t
  unchanged : c.accepted t = [] → result.1 = s
  success : c.malformed? t = none → result.2 = c.success s
  rejected : ∀ r, c.malformed? t = some r →
    ∃ e, result.2 = .rejected e ∧ e.requirement = r.reference (s.size + (c.accepted t).length)

end Call

/-- The keys ascend, and the indices of every group. Every requirement is in the group of its key
and in no other. -/
structure Filed (s : Store) : Prop where
  keys_ascending : s.keys.Pairwise fun k k' => compare k k' = .lt
  group_ne_nil : ∀ k ∈ s.keys, s.group k ≠ []
  indices : ∀ k is, s.groups.get? k = some is → (s.group k).map (·.1) = is
  ascending : ∀ k, ((s.group k).map (·.1)).Pairwise (· < ·)
  mem_group : ∀ k i r, (i, r) ∈ s.group k ↔ s.get? i = some r ∧ r.key = k
  one_group : ∀ i < s.size, ∃! k, k ∈ s.keys ∧ i ∈ (s.group k).map (·.1)

variable {t : Topology} {s s' : Store} {r : Requirement}

theorem requirement_of_error? {e : RequirementError} (h : s.error? r = some e) :
    e.requirement = r.reference s.size := by
  rw [error?] at h
  split at h
  · cases h
    rfl
  · split at h
    · cases h
      rfl
    · split at h
      · cases h
        rfl
      · obtain ⟨m, _, hm⟩ := List.exists_of_findSome?_eq_some h
        exact Requirement.requirement_of_memberError? hm

theorem Filled.add_of_wellFormed (h : Filled t s) (hr : r.WellFormed t) :
    ∃ s', s.add r = .ok s' := by
  rw [Store.add, h.error?_eq_none_iff.mpr hr]
  exact ⟨_, rfl⟩

theorem Filled.add_of_malformed (h : Filled t s) (hr : ¬r.WellFormed t) :
    ∃ e, s.add r = .error e ∧ e.requirement = r.reference s.size := by
  obtain ⟨e, he⟩ := Option.ne_none_iff_exists'.mp fun hnone => hr (h.error?_eq_none_iff.mp hnone)
  rw [Store.add, he]
  exact ⟨e, rfl, requirement_of_error? he⟩

theorem Filled.addAll_spec (h : Filled t s) (rs : List Requirement) :
    (s.addAll rs).1.requirements = s.requirements ++ rs.takeWhile (·.WellFormed t) ∧
      (rs.find? (¬·.WellFormed t) = none → (s.addAll rs).2 = none) ∧
      ∀ r, rs.find? (¬·.WellFormed t) = some r → ∃ e, (s.addAll rs).2 = some e ∧
        e.requirement = r.reference (s.size + (rs.takeWhile (·.WellFormed t)).length) := by
  induction rs generalizing s with
  | nil => simp [Store.addAll]
  | cons r rs ih =>
    by_cases hr : r.WellFormed t
    · obtain ⟨s₁, hadd⟩ := h.add_of_wellFormed hr
      obtain ⟨hreqs, hdone, herr⟩ := ih (.add h hadd)
      have hsize : s₁.size = s.size + 1 := by simp [size, (add_ok hadd).2.1]
      rw [(add_ok hadd).2.1] at hreqs
      simp only [Store.addAll, hadd]
      refine ⟨by simp [hreqs, hr], by simpa [hr] using hdone, ?_⟩
      simpa [hr, hsize, Nat.add_comm 1, Nat.add_assoc] using herr
    · obtain ⟨e, hadd, he⟩ := h.add_of_malformed hr
      simp [Store.addAll, hadd, hr, he]

theorem Filled.addAll_unchanged (h : Filled t s) {rs : List Requirement}
    (hrs : rs.takeWhile (·.WellFormed t) = []) : (s.addAll rs).1 = s := by
  cases rs with
  | nil => rfl
  | cons r rs =>
    have hr : ¬r.WellFormed t := fun hr => by simp [hr] at hrs
    obtain ⟨e, hadd, _⟩ := h.add_of_malformed hr
    simp [Store.addAll, hadd]

theorem call_fst (s : Store) (c : Call) : (s.call c).1 = (s.addAll c.requirements).1 := by
  cases c with
  | add r =>
    rw [call, Call.requirements, addAll]
    cases s.add r <;> rfl
  | extend rs =>
    rw [call, Call.requirements]
    split <;> simp [*]

theorem call_snd (s : Store) (c : Call) :
    (s.call c).2 = ((s.addAll c.requirements).2.map .rejected).getD (c.success s) := by
  cases c with
  | add r =>
    rw [call, Call.requirements, addAll]
    cases s.add r <;> rfl
  | extend rs =>
    rw [call, Call.requirements]
    split <;> simp [*, Call.success]

theorem Filled.served (h : Filled t s) (c : Call) : c.Served t s (s.call c) := by
  obtain ⟨hreqs, hdone, herr⟩ := h.addAll_spec c.requirements
  refine ⟨?_, fun hnil => ?_, fun hnone => ?_, fun r hr => ?_⟩
  · rw [call_fst]
    exact hreqs
  · rw [call_fst]
    exact h.addAll_unchanged hnil
  · rw [call_snd, hdone hnone]
    rfl
  · obtain ⟨e, he, href⟩ := herr r hr
    exact ⟨e, by rw [call_snd, he]; rfl, href⟩

theorem after_concat (t : Topology) (calls : List Call) (c : Call) :
    after t (calls ++ [c]) = ((after t calls).call c).1 := by
  simp [after]

theorem after_filled (t : Topology) (calls : List Call) : Filled t (after t calls) := by
  induction calls using List.reverseRecOn with
  | nil => exact .new
  | append_singleton calls c ih =>
    rw [after_concat, call_fst]
    exact ih.addAll c.requirements

theorem requirements_after (t : Topology) (calls : List Call) :
    (after t calls).requirements = calls.flatMap (Call.accepted t) := by
  induction calls using List.reverseRecOn with
  | nil => rfl
  | append_singleton calls c ih =>
    rw [after_concat, ((after_filled t calls).served c).requirements, ih]
    simp

theorem Sound.map_fst_group (hs : s.Sound) {k : GroupKey} {is : List Nat}
    (h : s.groups.get? k = some is) : (s.group k).map (·.1) = is := by
  have hfound : ∀ i ∈ is, ((s.get? i).map fun r => (i, r)).map (·.1) = some i := by
    intro i hi
    obtain ⟨r, hr, _⟩ := hs.group k is h i hi
    have hr' : s.get? i = some r := hr
    simp [hr']
  rw [Store.group, h, Option.getD_some, List.map_filterMap, List.filterMap_congr hfound,
    List.filterMap_some]

theorem Filled.filed (h : Filled t s) : s.Filed := by
  have hmem : ∀ k i r, (i, r) ∈ s.group k ↔ s.get? i = some r ∧ r.key = k := by
    intro k i r
    constructor
    · exact fun hir => ⟨get?_of_mem_group hir, (h.sound.of_mem_group hir).2⟩
    · rintro ⟨hr, rfl⟩
      exact h.mem_group hr
  refine ⟨List.pairwise_map.mpr s.groups.ascending,
    fun k hk => h.sound.group_ne_nil_of_mem_keys hk, fun k is => h.sound.map_fst_group,
    fun k => ?_, hmem, fun i hi => ?_⟩
  · cases hget : s.groups.get? k with
    | none => simp [group, hget]
    | some is =>
      have his : is = (List.range s.size).filter fun i => (s.get? i).map (·.key) = some k := by
        rw [← h.indices_eq, hget, Option.getD_some]
      rw [h.sound.map_fst_group hget, his]
      exact List.pairwise_lt_range.filter _
  · have hr : s.get? i = some s.requirements[i] := List.getElem?_eq_getElem hi
    refine ⟨(s.requirements[i]).key, ⟨h.mem_keys_iff.mpr ⟨_, List.getElem_mem hi, rfl⟩,
      List.mem_map.mpr ⟨_, h.mem_group hr, rfl⟩⟩, ?_⟩
    rintro k ⟨-, hk⟩
    obtain ⟨⟨j, r⟩, hjr, rfl⟩ := List.mem_map.mp hk
    obtain ⟨hget, rfl⟩ := (hmem k j r).mp hjr
    rw [Option.some.inj (hr.symm.trans hget)]

end Store

namespace Resolver

variable {v : Resolver} {s : Store}

/-- The resolved requirement has the reference of the indexed one, and a path for every member. -/
structure Carries (v : Resolver) (x : Nat × Requirement) (req : ResolvedRequirement) : Prop where
  reference : req.reference = x.2.reference x.1
  exact : req.exact = x.2.exact
  paths : List.Forall₂ (fun m p => v.path req.reference m = .ok p) x.2.members req.paths

/-- The resolved group is the one of the key, with its requirements in their order. -/
structure Mirrors (v : Resolver) (s : Store) (key : GroupKey) (g : RequirementGroup) : Prop where
  protocol : g.protocol = key.protocol
  destination : v.topology.routerId? key.destination = some g.destination
  requirements : List.Forall₂ v.Carries (s.group key) g.requirements

theorem carries_of_ok {x : Nat × Requirement} {req : ResolvedRequirement}
    (h : v.requirement x.1 x.2 = .ok req) : v.Carries x req := by
  obtain ⟨paths, hpaths, h⟩ := bind_eq_ok h
  obtain rfl := Except.ok.inj h
  exact ⟨rfl, rfl, forall₂_of_mapM hpaths⟩

theorem Resolved.mirrors {key : GroupKey} {g : RequirementGroup} (h : v.Resolved s key g) :
    v.Mirrors s key g :=
  ⟨h.protocol.symm, h.destination, (forall₂_of_mapM h.requirements).imp fun _ _ => carries_of_ok⟩

/-- No group is left out, since a store holds requirements with known destinations only. -/
theorem exists_group_of_mem_keys {key : GroupKey} {o : Option RequirementGroup}
    (hs : s.Filled v.topology) (hkey : key ∈ s.keys) (h : v.group s key = .ok o) :
    ∃ g, o = some g ∧ v.Mirrors s key g := by
  obtain ⟨r, hr, rfl⟩ := hs.mem_keys_iff.mp hkey
  obtain ⟨router, hrouter, hname⟩ := (hs.wellFormed r hr).known
  cases o with
  | some g => exact ⟨g, rfl, (group_ok h).mirrors⟩
  | none =>
    rw [group] at h
    split at h
    · next hnone =>
      refine absurd ?_ (Topology.name_notMem_of_routerId? hnone)
      exact List.mem_map.mpr ⟨router, hrouter, hname⟩
    · obtain ⟨requirements, _, h⟩ := bind_eq_ok h
      cases Except.ok.inj h

theorem mirrors_of_groups {gs : List RequirementGroup} (hs : s.Filled v.topology)
    (h : v.groups s = .ok gs) : List.Forall₂ (v.Mirrors s) s.keys gs := by
  obtain ⟨os, hos, h⟩ := bind_eq_ok h
  obtain rfl := Except.ok.inj h
  have hall := (List.forall₂_and_left s.keys os).mpr ⟨fun _ hkey => hkey, forall₂_of_mapM hos⟩
  refine forall₂_filterMap_id (hall.imp fun key o => ?_)
  rintro ⟨hkey, hgroup⟩
  exact exists_group_of_mem_keys hs hkey hgroup

end Resolver

/-- After any calls a store holds what they added, in the order of the calls, and it is filed by
protocol and destination. The groups that are resolved from it are its groups. -/
theorem Store.holds_accepted (t : Topology) (calls : List Call) :
    (after t calls).requirements = calls.flatMap (Call.accepted t) ∧
      (∀ r ∈ (after t calls).requirements, r.WellFormed t) ∧
      (∀ c : Call, c.Served t (after t calls) ((after t calls).call c)) ∧
      (after t calls).Filed ∧
      ∀ allow gs, (Resolver.mk t allow).groups (after t calls) = .ok gs →
        List.Forall₂ ((Resolver.mk t allow).Mirrors (after t calls)) (after t calls).keys gs := by
  have hfilled := after_filled t calls
  exact ⟨requirements_after t calls, hfilled.wellFormed, hfilled.served, hfilled.filed,
    fun allow gs => Resolver.mirrors_of_groups (v := ⟨t, allow⟩) hfilled⟩

namespace Network.Diamond

/-- The second call and the second requirement of the third one are malformed. -/
def mixedCalls : List Store.Call :=
  [.add balanced, .add (.path ⟨.bgp, "E", ["S", "E"], false⟩),
    .extend [ordered .ospf, .ecmp ⟨.bgp, "D", [], false⟩, ordered .bgp],
    .add (.path (path .ospf "B"))]

theorem holds_accepted_mixed : ∃ gs,
    (Resolver.mk topology false).groups (Store.after topology mixedCalls) = .ok gs ∧
      List.Forall₂ ((Resolver.mk topology false).Mirrors (Store.after topology mixedCalls))
        (Store.after topology mixedCalls).keys gs ∧
      (Store.after topology mixedCalls).requirements =
        [balanced, ordered .ospf, .path (path .ospf "B")] := by
  obtain ⟨gs, hgs⟩ := exists_ok_of_toBool
    (x := (Resolver.mk topology false).groups (Store.after topology mixedCalls))
    (by decide +kernel)
  exact ⟨gs, hgs, (Store.holds_accepted topology mixedCalls).2.2.2.2 false gs hgs, by decide +kernel⟩

end Network.Diamond

end PathPolicy
