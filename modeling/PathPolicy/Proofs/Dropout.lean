import Mathlib
import PathPolicy.Network.Diamond
import PathPolicy.Proofs.Blame
import PathPolicy.Proofs.Run

/-! Each group of a store gets a policy. A router on its members decides on all neighbors, or it drops
out of the group with all that the group asks of it, and then a conflict says so. -/

namespace PathPolicy

namespace Bundles

variable {m : Bundles} {a r : RouterId} {α : Type}

theorem mem_keys_add {es : List PolicyEntry} : a ∈ (m.add r es).keys ↔ r = a ∨ a ∈ m.keys := by
  simp only [add, OrderedMap.mem_keys_iff, OrderedMap.get?_update]
  by_cases ha : a = r
  · simp [ha]
  · have ha' : ¬ r = a := fun he => ha he.symm
    simp [ha, ha']

theorem mem_keys_foldl_add (router : α → RouterId) (entries : α → List PolicyEntry) (xs : List α)
    (m : Bundles) : a ∈ (xs.foldl (fun m x => m.add (router x) (entries x)) m).keys ↔
      (∃ x ∈ xs, router x = a) ∨ a ∈ m.keys := by
  induction xs generalizing m with
  | nil => simp
  | cons x xs ih => rw [List.foldl_cons, ih, mem_keys_add, List.exists_mem_cons_iff,
      or_left_comm, or_assoc]

theorem router_mem_keys {b : Bundle} (h : b ∈ m.toList) : b.router ∈ m.keys := by
  obtain ⟨e, he, rfl⟩ := List.mem_map.mp h
  exact List.mem_map_of_mem he

end Bundles

namespace RequirementGroup

variable {t : Topology} {g : RequirementGroup} {mark : GroupMark} {s : Commitments} {a : RouterId}
  {community : Option Community} {policy : GroupPolicy}

theorem mem_keys_decisionBundles (h : a ∈ (decisionBundles mark s).keys) :
    s.isConflicted a = false := by
  have hfold := Bundles.mem_keys_foldl_add (a := a) (fun x : PolicyKey × Intent => x.1.router)
    (fun x => (mark.lower x.1.neighbor x.2.decision).map fun p => ⟨x.1, p, x.2.origin⟩)
    (settled s).entries OrderedMap.empty
  rcases hfold.mp h with ⟨x, hx, rfl⟩ | h
  · simpa using (List.mem_filter.mp hx).2
  · simp [OrderedMap.keys, OrderedMap.empty] at h

theorem mem_keys_withAnnouncement {m : Bundles} {networks : List Address}
    (h : a ∈ (g.withAnnouncement networks m).keys) : g.destination = a ∨ a ∈ m.keys := by
  rw [withAnnouncement] at h
  split at h
  · exact Bundles.mem_keys_add.mp h
  · exact .inr h

theorem mem_keys_withMaxPaths {m : Bundles} (h : a ∈ (g.withMaxPaths s m).keys) :
    s.isConflicted a = false ∨ a ∈ m.keys := by
  have hfold := Bundles.mem_keys_foldl_add (a := a)
    (fun x : RouterId × Nat × RequirementRef => x.1)
    (fun x => [⟨.ofRouter x.1, .maxPaths g.protocol x.2.1, x.2.2⟩])
    (s.maxPaths.filter fun r _ => !s.isConflicted r).entries m
  refine (hfold.mp h).imp_left ?_
  rintro ⟨x, hx, rfl⟩
  simpa using (List.mem_filter.mp hx).2

/-- A router in conflict has no bundle, not even an empty one. -/
theorem ne_router_of_isConflicted (hc : s.isConflicted a = true) (hne : a ≠ g.destination) :
    ∀ b ∈ g.bundles mark s, b.router ≠ a := by
  rintro b hb rfl
  have hkey := Bundles.router_mem_keys hb
  rcases mem_keys_withMaxPaths hkey with hno | hkey
  · simp [hc] at hno
  · rcases mem_keys_withAnnouncement hkey with hd | hkey
    · exact hne hd.symm
    · have hno := mem_keys_decisionBundles hkey
      simp [hc] at hno

theorem mem_routers_iff : a ∈ g.routers ↔ ∃ p ∈ g.paths, a ∈ p := by
  rw [routers, OrderedSet.mem_ofList, List.mem_flatten]

/-- Every requirement decides on all neighbors of the routers on its members. -/
theorem undecided?_combine (hv : g.Valid t) : g.undecided? t (g.combine t) = none := by
  refine List.findSome?_eq_none_iff.mpr fun a ha => ?_
  obtain ⟨hmem, hcond⟩ := List.mem_filter.mp ha
  obtain ⟨hne, hc⟩ : a ≠ g.destination ∧ (g.combine t).isConflicted a = false := by
    simpa using hcond
  have hinvolves : g.Involves a := ⟨hne, mem_routers_iff.mp hmem⟩
  obtain ⟨req, hreq, c, huses⟩ := hinvolves.exists_uses hv
  obtain ⟨_, _, hall⟩ := exists_settled_of_combine hreq (hv req hreq) huses hc
  refine Option.map_eq_none_iff.mpr (List.find?_eq_none.mpr fun b hb => ?_)
  obtain ⟨e, hget, _⟩ := hall b (Topology.mem_neighbors.mp hb)
  simp [OrderedMap.contains, hget]

theorem exists_policy (hv : g.Valid t) (hn : g.protocol ≠ .ospf → g.networks t ≠ [])
    (community : Option Community) : ∃ policy, g.synthesize t community = .ok policy := by
  have hloopback : ¬ ((g.networks t).isEmpty && g.protocol ≠ .ospf) = true := by
    simpa using fun hnil hp => hn hp hnil
  rw [synthesize]
  dsimp only
  rw [if_neg hloopback, undecided?_combine hv]
  exact ⟨_, rfl⟩

end RequirementGroup

/-- A destination of a store has a loopback, if its protocol needs one. -/
theorem Resolver.Resolved.networks_ne_nil {v : Resolver} {s : Store} {key : GroupKey}
    {g : RequirementGroup} (h : v.Resolved s key g) (hs : s.Filled v.topology)
    (hkey : key ∈ s.keys) (hp : g.protocol ≠ .ospf) : g.networks v.topology ≠ [] := by
  obtain ⟨⟨i, r⟩, hr⟩ := List.exists_mem_of_ne_nil _ (hs.sound.group_ne_nil_of_mem_keys hkey)
  obtain ⟨hmem, rfl⟩ := hs.sound.of_mem_group hr
  obtain ⟨router, hrouter, hname, hloopbacks⟩ :=
    (hs.wellFormed _ hmem).loopback fun he => hp (h.protocol.symm.trans he)
  obtain ⟨router', hget, hname'⟩ := Topology.routerId?_eq_some h.destination
  obtain rfl : router' = router := List.inj_on_of_nodup_map v.topology.names_nodup
    (List.mem_of_getElem? hget) hrouter (hname'.trans hname.symm)
  obtain ⟨x, hx⟩ := List.exists_mem_of_ne_nil _ hloopbacks
  refine List.ne_nil_of_mem (a := x.network) ?_
  rw [RequirementGroup.networks, hget]
  exact List.mem_eraseDups.mpr (List.mem_map_of_mem hx)

theorem Resolver.Resolved.distinguished {v : Resolver} {s : Store} {key : GroupKey}
    {g : RequirementGroup} (h : v.Resolved s key g) : g.Distinguished := by
  intro req hreq req' hreq' href
  obtain ⟨⟨i, r⟩, hr, hok⟩ := exists_of_mem_mapM h.requirements hreq
  obtain ⟨⟨i', r'⟩, hr', hok'⟩ := exists_of_mem_mapM h.requirements hreq'
  have hindex : i = i' := by
    rw [(requirement_ok hok).1, (requirement_ok hok').1] at href
    exact congrArg RequirementRef.index href
  subst i'
  obtain rfl : r = r' :=
    Option.some.inj ((Store.get?_of_mem_group hr).symm.trans (Store.get?_of_mem_group hr'))
  exact Except.ok.inj (hok.symm.trans hok')

namespace GroupPolicy

def DecidesAll (p : GroupPolicy) (t : Topology) (a : RouterId) : Prop :=
  ∀ b ∈ t.neighbors a, p.decisions.contains ⟨a, b, p.protocol.keyDirection⟩ = true

/-- Nothing of the group is installed at the router. -/
def DropsOut (p : GroupPolicy) (a : RouterId) : Prop :=
  ¬ p.Decides a ∧ ∀ b ∈ p.bundles, b.router ≠ a

end GroupPolicy

namespace RequirementGroup

variable {t : Topology} {g : RequirementGroup} {a : RouterId} {community : Option Community}
  {policy : GroupPolicy}

theorem decidesAll_of_not_isConflicted (hv : g.Valid t)
    (h : g.synthesize t community = .ok policy) (ha : g.Involves a)
    (hc : (g.commitments t).isConflicted a = false) : policy.DecidesAll t a := by
  obtain ⟨req, hreq, c, huses⟩ := ha.exists_uses hv
  obtain ⟨_, _, hall⟩ := exists_settled hreq (hv req hreq) huses hc
  intro b hb
  obtain ⟨e, hget, _⟩ := hall b (Topology.mem_neighbors.mp hb)
  have hdir : policy.protocol.keyDirection = g.direction := by
    rw [protocol_of_synthesize h, direction]
  rw [hdir, OrderedMap.contains, get?_decisions h, hget]
  simp [Option.filter, hc]

theorem dropsOut_iff (hv : g.Valid t) (h : g.synthesize t community = .ok policy)
    (ha : g.Involves a) : policy.DropsOut a ↔ a ∈ (g.commitments t).conflicted := by
  rw [← Commitments.isConflicted_iff]
  constructor
  · rintro ⟨hno, _⟩
    by_contra hc
    have hc : (g.commitments t).isConflicted a = false := by simpa using hc
    obtain ⟨req, hreq, c, huses⟩ := ha.exists_uses hv
    obtain ⟨_, _, hall⟩ := exists_settled hreq (hv req hreq) huses hc
    obtain ⟨e, hget, _⟩ := hall c ((hv req hreq).adjacent_of_uses huses)
    exact hno ((decides_iff h).mpr ⟨hc, _, e, hget, rfl⟩)
  · intro hc
    refine ⟨fun hd => ?_, ?_⟩
    · have hno := ((decides_iff h).mp hd).1
      simp [hc] at hno
    · rw [synthesize_ok h]
      exact ne_router_of_isConflicted hc ha.1

theorem not_decides_of_not_involves (hv : g.Valid t) (h : g.synthesize t community = .ok policy)
    (ha : ¬ g.Involves a) : ¬ policy.Decides a := by
  intro hd
  obtain ⟨_, k, i, hget, rfl⟩ := (decides_iff h).mp hd
  obtain ⟨req, hreq, a, b, _, hasks, rfl⟩ := exists_asks hget
  obtain ⟨c, huses⟩ := hasks.uses
  obtain ⟨p, hp, hh⟩ := huses
  exact ha ⟨(hv req hreq).ne_destination_of_uses ⟨p, hp, hh⟩, p, mem_paths.mpr ⟨req, hreq, hp⟩,
    hh.left_mem⟩

theorem Involves.transit (hground : Resolver.Grounded t g) (ha : g.Involves a) :
    g.Transit t a := by
  obtain ⟨req, hreq, b, huses⟩ := ha.exists_uses hground.valid
  exact (hground.valid req hreq).transit_of_uses huses

/-- The policy of a group is all or nothing at each router on its members, and nothing elsewhere. -/
theorem commits_all_or_nothing {v : Resolver} {store : Store} {key : GroupKey}
    (hfilled : store.Filled v.topology) (hkey : key ∈ store.keys)
    (hg : v.group store key = .ok (some g)) (community : Option Community) :
    ∃ policy, g.synthesize v.topology community = .ok policy ∧
      (∀ a, g.Involves a → (policy.DecidesAll v.topology a ∨ policy.DropsOut a) ∧
        (policy.DropsOut a ↔ ∃ c ∈ policy.conflicts, c.Excludes v.topology g a)) ∧
      ∀ a, ¬ g.Involves a → ¬ policy.Decides a := by
  have hres := Resolver.group_ok hg
  have hground := hres.grounded hfilled.sound hkey
  obtain ⟨policy, h⟩ := exists_policy hground.valid (hres.networks_ne_nil hfilled hkey) community
  have hconflicts : policy.conflicts = (g.commitments v.topology).conflicts := by
    rw [synthesize_ok h]
  have haccounts := commitments_accounted hground hres.distinguished
  refine ⟨policy, h, fun a ha => ⟨?_, ?_⟩, fun a => not_decides_of_not_involves hground.valid h⟩
  · by_cases hc : a ∈ (g.commitments v.topology).conflicted
    · exact .inr ((dropsOut_iff hground.valid h ha).mpr hc)
    · refine .inl (decidesAll_of_not_isConflicted hground.valid h ha ?_)
      simpa [Commitments.isConflicted] using hc
  · rw [dropsOut_iff hground.valid h ha, hconflicts]
    exact haccounts.out_iff a (ha.transit hground)

end RequirementGroup

namespace Network.Diamond

/-- Traffic from `S` to `D` goes over both middles in one requirement and over `A` only in another. -/
def disputed : Store :=
  ((Store.ofTopology topology).addAll [balanced, .path (path .bgp "A")]).1

def disputedGroup : RequirementGroup :=
  ⟨.bgp, 3, [⟨balanced.reference 0, false, [[0, 1, 3], [0, 2, 3]]⟩,
    ⟨(Requirement.path (path .bgp "A")).reference 1, false, [[0, 1, 3]]⟩]⟩

theorem disputed_group :
    run.resolver.group disputed ⟨.bgp, "D"⟩ = .ok (some disputedGroup) := by decide +kernel

theorem disputed_conflicts :
    (disputedGroup.synthesize topology none).toOption.map (fun p => p.conflicts.map
      fun c => (c.node, c.reason)) = some [("S", .permitAndDeny)] := by cbv

/-- The top of the diamond drops out of the group, and the routers in the middle do not. -/
theorem commits_all_or_nothing_diamond : ∃ policy,
    disputedGroup.synthesize topology none = .ok policy ∧ policy.DropsOut 0 ∧
      policy.DecidesAll topology 1 := by
  have hkey : ⟨.bgp, "D"⟩ ∈ disputed.keys := by decide +kernel
  obtain ⟨policy, h, hall, _⟩ := RequirementGroup.commits_all_or_nothing (v := run.resolver)
    (Store.Filled.new.addAll [balanced, .path (path .bgp "A")]) hkey disputed_group none
  obtain ⟨c, hc, hnode, hreason⟩ : ∃ c, policy.conflicts = [c] ∧ c.node = "S" ∧
      c.reason = .permitAndDeny := by
    have hrun := disputed_conflicts
    rw [show disputedGroup.synthesize topology none = .ok policy from h] at hrun
    obtain ⟨c, hc, he⟩ := List.map_eq_singleton_iff.mp (Option.some.inj hrun)
    exact ⟨c, hc, Prod.mk.inj he⟩
  have hexcludes : ∀ a, c.Excludes topology disputedGroup a ↔ "S" = topology.name a := by
    intro a
    rw [Conflict.Excludes, if_neg (by simp [hreason]), hnode]
  obtain ⟨_, htop⟩ := hall 0 ⟨by decide, [0, 1, 3], by decide, by decide⟩
  obtain ⟨hmiddle, hout⟩ := hall 1 ⟨by decide, [0, 1, 3], by decide, by decide⟩
  have hin : ¬ policy.DropsOut 1 := by
    rw [hout, hc]
    rintro ⟨_, hmem, hex⟩
    obtain rfl := List.mem_singleton.mp hmem
    exact absurd ((hexcludes 1).mp hex) (by decide +kernel)
  refine ⟨policy, h, htop.mpr ⟨c, by simp [hc], (hexcludes 0).mpr ?_⟩, hmiddle.resolve_right hin⟩
  decide +kernel

end Network.Diamond

end PathPolicy
