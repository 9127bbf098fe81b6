import PathPolicy.Proofs.Admission
import PathPolicy.Proofs.OspfTraffic

/-! BGP and OSPF traffic from the sources of a group takes a member, whatever kinds of requirements
the group is made of. With BGP, each router of the members has a route in the end, and the paths of
the chosen routes get shorter from hop to hop. -/

namespace PathPolicy

open RequirementGroup ResolvedRequirement

variable {s : Synthesizer} {gs : List RequirementGroup} {model : PolicyModel} {g : RequirementGroup}
  {community : Option Community} {a b : RouterId} {p : List RouterId}

namespace RequirementGroup.InForce

open Bgp

variable {t : Topology} {network : Address} {m : PolicyModel} {best r : Route}

/-- The chosen routes at the end of the propagation. -/
def lastRib (g : RequirementGroup) (t : Topology) (network : Address) (m : PolicyModel) : Rib :=
  ribAfter t m g.destination network (maxRounds t)

variable (hf : g.InForce t community network m)

include hf

/-- One more round would not change the best routes. -/
theorem best?_lastRib (hs : isSpeaker t a = true) (hne : a ≠ g.destination) :
    (lastRib g t network m).best? a = (sortBy (compareRoutes t)
      (candidates t m (lastRib g t network m) a)).head? := by
  rw [lastRib, ← hf.best?_succ hs hne]
  exact hf.best?_congr (by rw [maxRounds]; omega) (by rw [maxRounds]; omega) a

theorem exists_offer_of_lastRib (hne : a ≠ g.destination)
    (h : (lastRib g t network m).best? a = some r) :
    ∃ b ∈ sessions t a, ∃ best, (lastRib g t network m).best? b = some best ∧
      offer? m a b best = some r := by
  have hs := isSpeaker_of_mem_rows hf.isSpeaker_destination (mem_rows_of_best? h)
  rw [hf.best?_lastRib hs hne] at h
  exact mem_candidates.mp (mem_of_head?_sortBy h).1

/-- All routers on the path of a best route have routes. -/
theorem exists_best?_of_mem_path (h : (lastRib g t network m).best? a = some r) {x : RouterId}
    (hx : x ∈ r.path) : ∃ r', (lastRib g t network m).best? x = some r' := by
  induction hn : r.path.length generalizing a r with
  | zero => simp [List.length_eq_zero_iff.mp hn] at hx
  | succ n ih =>
    by_cases hne : a = g.destination
    · have hm := mem_rows_of_best? h
      rw [hne, lastRib, rows_destination hf.grounded.destination_lt, List.mem_singleton] at hm
      simp [hm, announced] at hx
    · obtain ⟨b, _, best, hbest, hoffer⟩ := hf.exists_offer_of_lastRib hne h
      obtain ⟨_, _, hpath, _⟩ :=
        hf.offer?_eq_some (hf.carries_of_best? hbest).network_eq hoffer
      rw [hpath] at hx hn
      rcases List.mem_cons.mp hx with rfl | hx
      · exact ⟨best, hbest⟩
      · exact ih hbest hx (by simpa using hn)

theorem exists_best?_of_involves (ha : g.Involves a) :
    ∃ r, (lastRib g t network m).best? a = some r := by
  obtain ⟨_, p, hp, hap⟩ := ha
  obtain ⟨req, hreq, hpr⟩ := mem_paths.mp hp
  have hv := hf.grounded.valid req hreq
  have halong : ∃ n, n < p.length ∧ ∃ r, (lastRib g t network m).best? a = some r := by
    refine hv.induction_along hpr (P := fun a _ => ∃ r, (lastRib g t network m).best? a = some r)
      ?_ (fun a b _ hhop hb => ?_) hap
    · exact ⟨announced g.destination network, by
        rw [best?_eq_head?, lastRib, rows_destination hf.grounded.destination_lt]
        rfl⟩
    · have huses : req.Uses a b := ⟨p, hpr, hhop⟩
      obtain ⟨best, hbest⟩ := hb
      by_cases hloop : a ∈ best.path
      · exact hf.exists_best?_of_mem_path hbest hloop
      · have hspeaks := hf.grounded.speakers hf.bgp p hp
        have hnot : a ∉ b :: best.path := fun hm => by
          rcases List.mem_cons.mp hm with he | hm
          · exact hv.ne_of_uses huses he
          · exact hloop hm
        obtain ⟨v, hpermit⟩ := exists_permit_of_uses hf.clear hreq hv huses
        obtain ⟨r, hr⟩ := hf.exists_offer? (hf.carries_of_best? hbest) hnot (by simp [hpermit])
        have hsession := mem_sessions.mpr ⟨hv.adjacent_of_uses huses, hspeaks b hhop.right_mem⟩
        rw [hf.best?_lastRib (hspeaks a hhop.left_mem) (hv.ne_destination_of_uses huses)]
        exact exists_head?_sortBy (mem_candidates.mpr ⟨b, hsession, best, hbest, hr⟩)
  obtain ⟨_, _, hr⟩ := halong
  exact hr

/-- The length of the path of the best route. -/
def pathLength (rib : Rib) (a : RouterId) : Nat :=
  match rib.best? a with
  | some r => r.path.length
  | none => 0

theorem bgp_leads : (ForwardingState.ofHops g.destination
      (hops g.destination (lastRib g t network m))).Leads g.Involves
    fun a b => g.Allows t a b ∧ pathLength (lastRib g t network m) b <
      pathLength (lastRib g t network m) a := by
  intro a ha
  obtain ⟨r, hr⟩ := hf.exists_best?_of_involves ha
  obtain ⟨b, hb, best, hbest, hoffer⟩ := hf.exists_offer_of_lastRib ha.1 hr
  obtain ⟨_, _, hpath, hsender, hpref⟩ :=
    hf.offer?_eq_some (hf.carries_of_best? hbest).network_eq hoffer
  have hallows : g.Allows t a b := by
    obtain ⟨d, hd⟩ :=
      exists_decision_of_adjacent hf.clear hf.grounded.valid ha (mem_sessions.mp hb).1
    rcases hpref with ⟨hnone, _⟩ | ⟨v, hv, _⟩
    · simp [hd] at hnone
    · exact ⟨v, hv⟩
  refine ⟨b, ?_, ⟨hallows, ?_⟩, hallows.involves⟩
  · rw [nextHops_hops ha.1, List.head?_map, ← best?_eq_head?, hr, Option.map_some, hsender]
  · simp only [pathLength, hr, hbest, hpath, List.length_cons]
    omega

end RequirementGroup.InForce

namespace Synthesizer

variable {store : Store}

/-- Traffic from each source of a BGP or OSPF group takes a member path. -/
theorem route_is_member (hsize : s.topology.size ≤ 5000) (hfilled : store.Filled s.topology)
    (hdisjoint : store.NetworksDisjoint s.topology) (h : s.synthesize store = .ok model)
    (hgs : s.groups store = .ok gs) (hg : g ∈ gs) (hprotocol : g.protocol ≠ .static) :
    ∃ state, ForwardingState.compute s.topology model g.protocol g.destination = .ok state ∧
      ∀ q ∈ g.paths, ∀ a, q.head? = some a → a ≠ g.destination →
        ∃ p ∈ g.paths, state.route a = .ok p := by
  obtain ⟨entries, community, hran, hmarked, hdistinct, hground⟩ :=
    exists_ran hfilled (synthesizePartial_of_synthesize h) hgs hg
  have hd := networksDisjoint_of_store hfilled.sound hdisjoint (groups_ok hgs)
  have hu : g.Unblamed [] := fun c hc => absurd hc List.not_mem_nil
  obtain ⟨policy, hpolicy, _⟩ := hran.synthesized _ hmarked
  -- it is enough that a measure falls on the allowed hops that traffic takes
  have hmember : ∀ (state : ForwardingState) (measure : RouterId → Nat),
      state.destination = g.destination →
      (state.Leads g.Involves fun a b => g.Allows s.topology a b ∧ measure b < measure a) →
      ∀ q ∈ g.paths, ∀ a, q.head? = some a → a ≠ g.destination →
        ∃ p ∈ g.paths, state.route a = .ok p := by
    intro state measure hdest hleads q hq a hhead hne
    have ha : g.Involves a := ⟨hne, q, hq, List.mem_of_mem_head? hhead⟩
    obtain ⟨p, hp, hpa, hnd, hchain, hlast⟩ :=
      ForwardingState.exists_route_of_leads hleads ha measure fun _ _ h => h.2
    refine ⟨p, ?_, hp⟩
    exact mem_paths_of_allows hground.valid (hran.clear hmarked hu) hpolicy ⟨q, hq, hhead⟩ hne hpa
      hnd (hchain.imp fun _ _ h => h.1) (hdest ▸ hlast)
  cases hp : g.protocol with
  | static => exact absurd hp hprotocol
  | ospf => exact ⟨_, rfl, hmember _ _ rfl (hran.ospf_leads hmarked hu hp hground hsize)⟩
  | bgp =>
    obtain ⟨network, hf⟩ := hran.exists_inForce hdistinct hd hmarked hu hp hground
    exact ⟨_, hf.forwarding_eq, hmember _ _ rfl hf.bgp_leads⟩

end Synthesizer

namespace Network.Diamond

/-- Traffic from the top of the diamond takes one of the two ways around. -/
theorem route_is_member_diamond : ∃ model state, run.synthesize (storeOf balanced) = .ok model ∧
    ForwardingState.compute topology model .bgp 3 = .ok state ∧
      ∃ p ∈ [[0, 1, 3], [0, 2, 3]], state.route 0 = .ok p := by
  obtain ⟨model, h⟩ := exists_ok_of_toBool (x := run.synthesize (storeOf balanced)) (by cbv)
  have hsize : topology.size ≤ 5000 := by cbv
  obtain ⟨state, hstate, hroute⟩ := Synthesizer.route_is_member hsize (storeOf_filled balanced)
    balanced_networksDisjoint h balanced_groups List.mem_cons_self (by decide)
  exact ⟨model, state, h, hstate, hroute [0, 1, 3] (by decide) 0 rfl (by decide)⟩

end Network.Diamond

end PathPolicy
