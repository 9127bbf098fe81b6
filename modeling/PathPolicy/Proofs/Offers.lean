import PathPolicy.Proofs.Imports
import PathPolicy.Proofs.Rounds

/-! Routes of a BGP group on their way through the network. The decisions of the group tell what a
router makes of the best route of a neighbor, and each chosen route has a simple path of
speakers. -/

namespace PathPolicy

open Bgp RequirementGroup

namespace RequirementGroup

/-- The policy of the group is in force, with room for all expected next hops. -/
structure InForce (g : RequirementGroup) (t : Topology) (community : Option Community)
    (network : Address) (m : PolicyModel) : Prop extends Enforced g t community network m where
  bgp : g.protocol = .bgp
  grounded : Resolver.Grounded t g
  maxPaths_pos : ∀ a, 0 < maxPaths m a
  length_le_maxPaths : ∀ req ∈ g.requirements, req.kind ≠ .kConnected → ∀ a,
    ∀ bs : List RouterId, bs.Nodup → (∀ b ∈ bs, req.Expects a b) → bs.length ≤ maxPaths m a

/-- What holds of the routes of a group at a router. -/
structure Carries (g : RequirementGroup) (t : Topology) (community : Option Community)
    (network : Address) (a : RouterId) (r : Route) : Prop where
  network_eq : r.network = network
  simple : (a :: r.path).Nodup
  speakers : ∀ x ∈ r.path, isSpeaker t x = true
  marked : g.Involves a → r.communities.contains (g.mark t community).community = true

variable {t : Topology} {g : RequirementGroup} {community : Option Community} {network : Address}
  {m : PolicyModel} {a b : RouterId} {best r : Route}

theorem Enforced.offer?_eq (he : g.Enforced t community network m)
    (hnet : best.network = network) :
    offer? m a b best =
      if a ∈ b :: best.path then none
      else match g.decision? t a b with
        | some d => (g.mark t community).import? b ⟨best.network, b :: best.path,
            best.communities, Route.defaultLocalPref, b⟩ d
        | none => some ⟨best.network, b :: best.path, best.communities,
            Route.defaultLocalPref, b⟩ := by
  have hin := he.incoming a b ⟨best.network, b :: best.path, best.communities,
    Route.defaultLocalPref, b⟩ hnet
  rw [offer?, he.outgoing]
  exact congrArg (if a ∈ b :: best.path then none else ·) hin

theorem Enforced.offer?_eq_some (he : g.Enforced t community network m)
    (hnet : best.network = network) (h : offer? m a b best = some r) :
    a ∉ b :: best.path ∧ r.network = network ∧ r.path = b :: best.path ∧ r.sender = b ∧
      (g.decision? t a b = none ∧ r.localPref = Route.defaultLocalPref ∨
        ∃ v, g.decision? t a b = some (.permit v) ∧ r.localPref = v ∧
          r.communities.contains (g.mark t community).community = true) := by
  rw [he.offer?_eq hnet] at h
  split at h
  · cases h
  · next hloop =>
    split at h
    · next d hd =>
      obtain ⟨v, rfl, hn, hp, hs, hpref, hcomm⟩ := GroupMark.import?_eq_some h
      exact ⟨hloop, hn.trans hnet, hp, hs, .inr ⟨v, hd, hpref, hcomm⟩⟩
    · next hd =>
      obtain rfl := Option.some.inj h
      exact ⟨hloop, hnet, rfl, rfl, .inl ⟨hd, rfl⟩⟩

theorem Carries.announced (g : RequirementGroup) (t : Topology) (community : Option Community)
    (network : Address) :
    g.Carries t community network g.destination (announced g.destination network) :=
  ⟨rfl, by simp [Bgp.announced], by simp [Bgp.announced], fun h => absurd rfl h.1⟩

namespace InForce

theorem isSpeaker_destination (hf : g.InForce t community network m) :
    isSpeaker t g.destination = true := by
  obtain ⟨req, hreq⟩ := List.exists_mem_of_ne_nil _ hf.grounded.requirements_ne_nil
  obtain ⟨p, hp⟩ := List.exists_mem_of_ne_nil _ (hf.grounded.paths_ne_nil req hreq)
  have hlast := (hf.grounded.valid req hreq).ends p hp
  exact hf.grounded.speakers hf.bgp p (mem_paths.mpr ⟨req, hreq, hp⟩) _
    (List.mem_of_getLast? hlast)

theorem exists_offer? (hf : g.InForce t community network m)
    (hc : g.Carries t community network b best) (ha : a ∉ b :: best.path)
    (hd : g.decision? t a b ≠ some .deny) : ∃ r, offer? m a b best = some r := by
  rw [hf.offer?_eq hc.network_eq, if_neg ha]
  cases hdec : g.decision? t a b with
  | none => exact ⟨_, rfl⟩
  | some d =>
    cases d with
    | deny => exact absurd hdec hd
    | permit v =>
      refine GroupMark.exists_import? (fun hb => ?_) v
      obtain ⟨req, hreq, huses⟩ := exists_uses_of_permit hdec
      exact hc.marked (involves_of_uses hreq huses hb)

theorem carries_offer? (hf : g.InForce t community network m)
    (hc : g.Carries t community network b best) (hb : b ∈ sessions t a)
    (h : offer? m a b best = some r) : g.Carries t community network a r := by
  obtain ⟨hadj, hs⟩ := mem_sessions.mp hb
  obtain ⟨hloop, hnet, hpath, _, hpref⟩ := hf.offer?_eq_some hc.network_eq h
  refine ⟨hnet, ?_, fun x hx => ?_, fun ha => ?_⟩
  · rw [hpath]
    exact List.nodup_cons.mpr ⟨hloop, hc.simple⟩
  · rw [hpath] at hx
    rcases List.mem_cons.mp hx with rfl | hx
    · exact hs
    · exact hc.speakers x hx
  · obtain ⟨d, hd⟩ := exists_decision_of_adjacent hf.clear hf.grounded.valid ha hadj
    rcases hpref with ⟨hnone, _⟩ | ⟨_, _, _, hcomm⟩
    · simp [hd] at hnone
    · exact hcomm

variable {k : Nat}

theorem carries_of_mem_rows (hf : g.InForce t community network m)
    (h : r ∈ (ribAfter t m g.destination network k).rows a) :
    g.Carries t community network a r := by
  have hs := hf.isSpeaker_destination
  induction k generalizing a r with
  | zero =>
    have hlt := lt_size_of_isSpeaker (isSpeaker_of_mem_rows hs h)
    rw [ribAfter_zero, rows_start hlt] at h
    split at h
    · next ha =>
      rw [ha, List.mem_singleton.mp h]
      exact .announced g t community network
    · simp at h
  | succ k ih =>
    by_cases hne : a = g.destination
    · subst a
      rw [rows_destination (lt_size_of_isSpeaker hs), List.mem_singleton] at h
      exact h ▸ .announced g t community network
    · obtain ⟨b, hb, best, hbest, hoffer⟩ := exists_offer_of_mem_rows hne h
      exact hf.carries_offer? (ih (mem_rows_of_best? hbest)) hb hoffer

theorem carries_of_best? (hf : g.InForce t community network m)
    (h : (ribAfter t m g.destination network k).best? a = some r) :
    g.Carries t community network a r :=
  hf.carries_of_mem_rows (mem_rows_of_best? h)

theorem eq_of_compareRoutes (hf : g.InForce t community network m) {x : Route}
    (hr : r ∈ candidates t m (ribAfter t m g.destination network k) a)
    (hx : x ∈ candidates t m (ribAfter t m g.destination network k) a)
    (h : compareRoutes t x r = .eq) : x = r := by
  obtain ⟨b, hb, best, hbest, hoffer⟩ := mem_candidates.mp hr
  obtain ⟨c, hc, best', hbest', hoffer'⟩ := mem_candidates.mp hx
  have hb' := (hf.offer?_eq_some (hf.carries_of_best? hbest).network_eq hoffer).2.2.2.1
  have hc' := (hf.offer?_eq_some (hf.carries_of_best? hbest').network_eq hoffer').2.2.2.1
  have hname := name_eq_of_compareRoutes h
  rw [hb', hc'] at hname
  have hcs := (mem_sessions.mp hc).2
  have hbs := (mem_sessions.mp hb).2
  obtain rfl : c = b :=
    Topology.name_injective (lt_size_of_isSpeaker hcs) (lt_size_of_isSpeaker hbs) hname
  obtain rfl := Option.some.inj (hbest.symm.trans hbest')
  exact Option.some.inj (hoffer'.symm.trans hoffer)

theorem best?_succ (hf : g.InForce t community network m) (hs : isSpeaker t a = true)
    (hne : a ≠ g.destination) :
    (ribAfter t m g.destination network (k + 1)).best? a = (sortBy (compareRoutes t)
      (candidates t m (ribAfter t m g.destination network k) a)).head? := by
  rw [best?_eq_head?, rows_succ hs hne, head?_choose (hf.maxPaths_pos a)]

end InForce

end RequirementGroup

theorem Synthesizer.Ran.exists_inForce {s : Synthesizer} {gs : List RequirementGroup}
    {model : PolicyModel} {conflicts : List Conflict} {entries : RouterId → List PolicyEntry}
    {g : RequirementGroup} {community : Option Community}
    (h : s.Ran gs model conflicts entries) (hdistinct : gs.Pairwise Resolver.Distinct)
    (hdisjoint : NetworksDisjoint s.topology gs) (hg : (g, community) ∈ s.marked gs)
    (hu : g.Unblamed conflicts) (hbgp : g.protocol = .bgp)
    (hground : Resolver.Grounded s.topology g) :
    ∃ network, g.InForce s.topology community network model := by
  obtain ⟨network, he⟩ :=
    h.exists_enforced hdistinct hdisjoint hg hu hbgp hground.requirements_ne_nil
  refine ⟨network, he, hbgp, hground, fun a => h.maxPaths_pos a .bgp,
    fun req hreq hk a bs hnd hbs => ?_⟩
  have hle := h.length_le_maxPaths hg hu hreq (hground.valid req hreq) hk (by simp [hbgp]) hnd hbs
  rw [hbgp] at hle
  exact hle

end PathPolicy
