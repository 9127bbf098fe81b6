import Mathlib
import PathPolicy.Forwarding.Fidelity
import PathPolicy.Proofs.Convergence

/-! BGP traffic takes the next hops that the strict requirements of a group ask for, once the
propagation has come to rest, and the comparison of the paths finds no violation. -/

namespace PathPolicy

open Bgp RequirementGroup ResolvedRequirement

namespace ForwardingState

variable {s : ForwardingState} {fresh path rest : List RouterId} {a b : RouterId}

theorem mem_keys_of_head?_nextHops (h : (s.nextHops a).head? = some b) : a ∈ s.hops.keys := by
  rw [OrderedMap.mem_keys_iff]
  rw [nextHops] at h
  cases hget : s.hops.get? a with
  | none => simp [hget] at h
  | some v => exact ⟨v, rfl⟩

theorem follow_eq (hlast : (a :: rest).getLast? = some s.destination) (ha : a ∈ path)
    (hnd : (path ++ rest).Nodup)
    (hhops : ∀ x y, Hop (a :: rest) x y → (s.nextHops x).head? = some y)
    (hfresh : ∀ x ∈ a :: rest, x ≠ s.destination → x ∈ fresh) :
    s.follow fresh path a = .ok (path ++ rest) := by
  induction rest generalizing fresh path a with
  | nil =>
    have hdest : a = s.destination := by simpa using hlast
    rw [follow, if_pos hdest, List.append_nil]
  | cons b rest ih =>
    have hdisjoint := List.disjoint_of_nodup_append hnd
    have hlast' : (b :: rest).getLast? = some s.destination := by simpa using hlast
    have hne : a ≠ s.destination := fun he =>
      hdisjoint ha (he ▸ List.mem_of_getLast? hlast')
    obtain ⟨others, hnext⟩ :=
      List.head?_eq_some_iff.mp (hhops a b (Hop.cons_iff.mpr (.inl ⟨rfl, rfl⟩)))
    have hb : b ∉ path := fun hm => hdisjoint hm List.mem_cons_self
    rw [follow, if_neg hne, dif_pos (hfresh a List.mem_cons_self hne), hnext]
    simp only [if_neg hb]
    rw [ih hlast' (by simp) (by simpa using hnd) (fun x y h => hhops x y (h.cons a))
      fun x hx hxd => ?_]
    · simp
    · have hxa : x ≠ a := fun he => hdisjoint ha (he ▸ hx)
      exact (List.mem_erase_of_ne hxa).mpr (hfresh x (List.mem_cons_of_mem a hx) hxd)

theorem route_eq (hlast : (a :: rest).getLast? = some s.destination) (hnd : (a :: rest).Nodup)
    (hhops : ∀ x y, Hop (a :: rest) x y → (s.nextHops x).head? = some y) :
    s.route a = .ok (a :: rest) := by
  refine follow_eq hlast List.mem_cons_self hnd hhops fun x hx hne => ?_
  obtain ⟨y, hy⟩ := Hop.exists_of_mem hlast hx hne
  exact mem_keys_of_head?_nextHops (hhops x y hy)

end ForwardingState

theorem ResolvedRequirement.requirement_of_violation? {t : Topology} {req : ResolvedRequirement}
    {v : Violation} {state : Except ForwardingError ForwardingState}
    (h : req.violation? t state = some v) :
    v.requirement = req.reference := by
  obtain ⟨path, _, h⟩ := Option.bind_eq_some_iff.mp h
  obtain ⟨source, _, h⟩ := Option.bind_eq_some_iff.mp h
  split at h
  · split at h
    · cases h
    · rw [← Option.some.inj h]
  · rw [← Option.some.inj h]

namespace RequirementGroup.InForce

variable {t : Topology} {g : RequirementGroup} {community : Option Community} {network : Address}
  {m : PolicyModel} {req : ResolvedRequirement} {a b : RouterId} {p : List RouterId}

variable (hf : g.InForce t community network m) (hreq : req ∈ g.requirements)

include hf hreq

theorem nextHops_iff_expects (hk : req.kind ≠ .kConnected) (hp : p ∈ req.paths) (ha : a ∈ p)
    (hne : a ≠ g.destination) :
    b ∈ (ForwardingState.ofHops g.destination
        (hops g.destination (ribAfter t m g.destination network (maxRounds t)))).nextHops a ↔
      req.Expects a b := by
  have hv := hf.grounded.valid req hreq
  obtain ⟨c, _, huses⟩ := hv.exists_uses hp ha hne
  obtain ⟨heights, hh⟩ := exists_heights hf.clear hreq hv huses
  obtain ⟨row, hrow⟩ := hf.exists_settled_of_strict hreq hk hh ⟨p, hp, ha⟩
  have hle := hf.heightIn_le_pinRounds hreq hk (hv.descends hk hh) a
  have hsum := g.pinRounds_add t
  rw [nextHops_hops hne, hrow.rows_eq (maxRounds t) (by rw [maxRounds]; omega), hrow.senders hne]
  exact get?_ranks_eq_zero_iff hv (hf.grounded.single req hreq) hne

theorem head?_nextHops (hk : req.kind = .path ∨ req.kind = .order)
    (hp : req.paths.head? = some p) (hhop : Hop p a b) :
    ((ForwardingState.ofHops g.destination
      (hops g.destination (ribAfter t m g.destination network (maxRounds t)))).nextHops a).head? =
        some b := by
  have hv := hf.grounded.valid req hreq
  have hmem : p ∈ req.paths := List.mem_of_head? hp
  have hstrict : req.kind ≠ .kConnected := by rcases hk with hk | hk <;> simp [hk]
  have hne := hv.ne_destination_of_uses ⟨p, hmem, hhop⟩
  have hexpects : req.Expects a b := by
    obtain ⟨others, hpaths⟩ := List.head?_eq_some_iff.mp hp
    rw [expects_iff_find? hk, hpaths]
    exact ⟨p, List.find?_cons_of_pos (by simp [hhop.left_mem]), hhop⟩
  have hin := fun b => hf.nextHops_iff_expects (b := b) hreq hstrict hmem hhop.left_mem hne
  obtain ⟨x, hx⟩ := Option.isSome_iff_exists.mp
    (List.isSome_head?.mpr (List.ne_nil_of_mem ((hin b).mpr hexpects)))
  rw [hx, hv.expects_unique hk ((hin x).mp (List.mem_of_head? hx)) hexpects]

theorem violation?_eq_none : req.violation? t (.ok (ForwardingState.ofHops g.destination
    (hops g.destination (ribAfter t m g.destination network (maxRounds t))))) = none := by
  have hv := hf.grounded.valid req hreq
  rw [violation?]
  cases hmain : req.mainPath? with
  | none => rfl
  | some p =>
    have hkind : (req.kind = .path ∨ req.kind = .order) ∧ req.paths.head? = some p := by
      rw [mainPath?] at hmain
      cases hk : req.kind <;> simp_all [Option.filter_eq_some_iff]
    obtain ⟨hk, hp⟩ := hkind
    have hmem : p ∈ req.paths := List.mem_of_head? hp
    cases p with
    | nil => rfl
    | cons source rest =>
      have hroute := ForwardingState.route_eq (s := ForwardingState.ofHops g.destination
        (hops g.destination (ribAfter t m g.destination network (maxRounds t))))
        (hv.ends _ hmem) (hv.simple _ hmem) fun x y h => hf.head?_nextHops hreq hk hp h
      simp [Except.bind, hroute]

end RequirementGroup.InForce

namespace Synthesizer

variable {s : Synthesizer} {store : Store} {gs : List RequirementGroup} {g : RequirementGroup}
  {model : PolicyModel} {conflicts : List Conflict}

/-- The routes of a BGP group that no conflict blames converge in time, its strict requirements get
exactly the next hops that they ask for, and none of its requirements is reported. -/
theorem bgp_converges_as_expected (hfilled : store.Filled s.topology)
    (hdisjoint : store.NetworksDisjoint s.topology)
    (h : s.synthesizePartial store = .ok (model, conflicts)) (hgs : s.groups store = .ok gs)
    (hg : g ∈ gs) (hbgp : g.protocol = .bgp) (hu : g.Unblamed conflicts) :
    ∃ state, ForwardingState.compute s.topology model .bgp g.destination = .ok state ∧
      (∀ req ∈ g.requirements, req.kind ≠ .kConnected → ∀ p ∈ req.paths, ∀ a ∈ p,
        a ≠ g.destination → ∀ b, b ∈ state.nextHops a ↔ req.Expects a b) ∧
      ∀ groups ⊆ gs, ∀ v ∈ model.violations s.topology groups, ∀ req ∈ g.requirements,
        v.requirement ≠ req.reference := by
  obtain ⟨entries, community, hran, hmarked, hdistinct, hground⟩ := exists_ran hfilled h hgs hg
  have hd := networksDisjoint_of_store hfilled.sound hdisjoint (groups_ok hgs)
  obtain ⟨network, hf⟩ := hran.exists_inForce hdistinct hd hmarked hu hbgp hground
  refine ⟨_, hf.forwarding_eq, fun req hreq hk p hp a ha hne b =>
    hf.nextHops_iff_expects hreq hk hp ha hne, fun groups hsub v hv req hreq href => ?_⟩
  obtain ⟨g', hg', hv⟩ := List.mem_flatMap.mp hv
  obtain ⟨req', hreq', hviolation⟩ := List.mem_filterMap.mp hv
  -- references of different groups differ, so it is the group itself that has the violation
  have hsame : req'.reference = req.reference := by
    rw [← href]
    exact (requirement_of_violation? hviolation).symm
  obtain rfl := Resolver.eq_of_reference hfilled.sound (groups_ok hgs) (hsub hg') hg hreq' hreq
    hsame
  have hnone := hf.violation?_eq_none hreq'
  rw [hbgp, ForwardingState.compute, hf.forwarding_eq, hnone] at hviolation
  cases hviolation

end Synthesizer

namespace Network.Diamond

/-- Traffic from the top of the diamond is spread over both ways. -/
theorem bgp_converges_as_expected_diamond : ∃ model state,
    run.synthesizePartial (storeOf balanced) = .ok (model, []) ∧
      ForwardingState.compute topology model .bgp 3 = .ok state ∧
      ∀ b, b ∈ state.nextHops 0 ↔ b = 1 ∨ b = 2 := by
  obtain ⟨model, h⟩ := exists_ok_of_toBool (x := run.synthesize (storeOf balanced)) (by cbv)
  have hpartial := Synthesizer.synthesizePartial_of_synthesize h
  obtain ⟨state, hstate, hiff, _⟩ := Synthesizer.bgp_converges_as_expected (storeOf_filled _)
    balanced_networksDisjoint hpartial balanced_groups List.mem_cons_self rfl
    (fun c hc => absurd hc List.not_mem_nil)
  refine ⟨model, state, hpartial, hstate, fun b => ?_⟩
  rw [hiff _ List.mem_cons_self (by decide) [0, 1, 3] (by decide) 0 (by decide) (by decide) b,
    expects_iff_uses (.inl rfl)]
  simp [Uses, Hop.cons_iff, Hop.not_nil, eq_comm]

end Network.Diamond

end PathPolicy
