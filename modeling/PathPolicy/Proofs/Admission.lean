import Mathlib
import PathPolicy.Proofs.Imports

/-! The simple paths from the sources that a group admits are its members. This holds of the
decisions of any group, and of the routes that a BGP destination sends back along such paths. -/

namespace PathPolicy

namespace RequirementGroup

section Decisions

variable {t : Topology} {g : RequirementGroup} {community : Option Community} {policy : GroupPolicy}

/-- Of all simple paths from the sources to the destination, a group admits exactly the members
whose routers all have decisions. -/
theorem admitted_iff_member (hg : g.Valid t) (h : g.synthesize t community = .ok policy)
    (p : List RouterId) :
    (p.Nodup ∧ 2 ≤ p.length ∧ (∃ m ∈ g.paths, m.head? = p.head?) ∧
        p.getLast? = some g.destination ∧ p.IsChain (policy.Permits g.direction)) ↔
      p ∈ g.paths ∧ 2 ≤ p.length ∧ ∀ a ∈ p, a ≠ g.destination → policy.Decides a := by
  constructor
  · rintro ⟨hnd, hlen, hsource, hlast, hchain⟩
    refine ⟨mem_paths_of_permits hg h hnd hlen hsource hlast hchain, hlen, fun a ha hne => ?_⟩
    obtain ⟨b, hb⟩ := Hop.exists_of_mem hlast ha hne
    exact (hb.of_isChain hchain).decides
  · rintro ⟨hp, hlen, hdecides⟩
    obtain ⟨req, hreq, hpr⟩ := mem_paths.mp hp
    have hv := hg req hreq
    refine ⟨hv.simple p hpr, hlen, ⟨p, hp, rfl⟩, hv.ends p hpr, Hop.isChain_iff.mpr ?_⟩
    intro a b hab
    have hne := hab.ne_last (hv.simple p hpr) (hv.ends p hpr)
    exact permits_of_uses hg h hreq ⟨p, hpr, hab⟩ (hdecides a hab.left_mem hne)

theorem diamond_valid : diamond.Valid Network.Diamond.topology := by
  intro req hreq
  obtain rfl := List.mem_singleton.mp hreq
  refine ⟨by decide, ?_, by decide⟩
  intro p hp
  rcases List.mem_pair.mp hp with rfl | rfl <;>
    exact List.isChain_cons_cons.mpr ⟨by cbv, List.isChain_pair.mpr (by cbv)⟩

/-- Both ways around the diamond are admitted. -/
theorem admitted_iff_member_diamond : diamond.Valid Network.Diamond.topology ∧
    ∃ policy, diamond.synthesize Network.Diamond.topology none = .ok policy ∧
      (∀ p : List RouterId, (p.Nodup ∧ 2 ≤ p.length ∧ (∃ m ∈ diamond.paths, m.head? = p.head?) ∧
          p.getLast? = some 3 ∧ p.IsChain (policy.Permits .incoming)) ↔
        p ∈ [[0, 1, 3], [0, 2, 3]] ∧ 2 ≤ p.length ∧ ∀ a ∈ p, a ≠ 3 → policy.Decides a) ∧
      [0, 1, 3].IsChain (policy.Permits .incoming) ∧
      [0, 2, 3].IsChain (policy.Permits .incoming) := by
  refine ⟨diamond_valid, ?_⟩
  obtain ⟨policy, h⟩ := exists_ok_of_toBool
    (x := diamond.synthesize Network.Diamond.topology none) (by cbv)
  have hadmitted := admitted_iff_member diamond_valid h
  have hrouters : (diamond.synthesize Network.Diamond.topology none).toOption.map (fun p =>
      p.decisions.keys.map (·.router)) = some [0, 0, 1, 1, 2, 2] := by cbv
  rw [h] at hrouters
  have hkeys : policy.decisions.keys.map (·.router) = [0, 0, 1, 1, 2, 2] :=
    Option.some.inj hrouters
  have hon : ∀ p ∈ diamond.paths, ∀ a ∈ p, a ≠ 3 → a ∈ [0, 0, 1, 1, 2, 2] := by decide
  have hdecides : ∀ p ∈ diamond.paths, ∀ a ∈ p, a ≠ 3 → policy.Decides a := by
    intro p hp a ha hne
    have hmem := hon p hp a ha hne
    rw [← hkeys] at hmem
    exact List.mem_map.mp hmem
  refine ⟨policy, h, hadmitted, ?_, ?_⟩
  · exact ((hadmitted [0, 1, 3]).mpr ⟨by decide, by decide, hdecides _ (by decide)⟩).2.2.2.2
  · exact ((hadmitted [0, 2, 3]).mpr ⟨by decide, by decide, hdecides _ (by decide)⟩).2.2.2.2

end Decisions

end RequirementGroup

/-- Sends a route back along a path, from its last router to its first one, through the export map
and the import map of each session. -/
def Bgp.deliver? (m : PolicyModel) (r : Route) : List RouterId → Option Route
  | a :: b :: rest => do
    let received ← deliver? m r (b :: rest)
    let sent : Route := { received with path := b :: received.path, sender := b }
    RouteMap.apply ((m.policy a).routeMap b .incoming)
      (← RouteMap.apply ((m.policy b).routeMap a .outgoing) sent)
  | _ => some r

open RequirementGroup

namespace RequirementGroup

variable {t : Topology} {g : RequirementGroup} {community : Option Community} {network : Address}
  {m : PolicyModel} {a b : RouterId} {r : Route} {p rest : List RouterId}

theorem Enforced.deliver?_cons (he : g.Enforced t community network m)
    (hr : ∀ received, Bgp.deliver? m r (b :: rest) = some received → received.network = network) :
    Bgp.deliver? m r (a :: b :: rest) = (Bgp.deliver? m r (b :: rest)).bind fun received =>
      match g.decision? t a b with
      | some d => (g.mark t community).import? b
          { received with path := b :: received.path, sender := b } d
      | none => some { received with path := b :: received.path, sender := b } := by
  rw [Bgp.deliver?]
  cases hd : Bgp.deliver? m r (b :: rest) with
  | none => rfl
  | some received =>
    have hin := he.incoming a b { received with path := b :: received.path, sender := b }
      (hr received hd)
    rw [he.outgoing]
    exact hin

theorem Enforced.network_of_deliver? (he : g.Enforced t community network m)
    (hr : r.network = network) {received : Route} (h : Bgp.deliver? m r p = some received) :
    received.network = network := by
  induction p generalizing received with
  | nil =>
    obtain rfl := Option.some.inj h
    exact hr
  | cons a p ih =>
    cases p with
    | nil =>
      obtain rfl := Option.some.inj h
      exact hr
    | cons b rest =>
      rw [he.deliver?_cons fun _ hd => ih hd] at h
      obtain ⟨x, hx, hd⟩ := Option.bind_eq_some_iff.mp h
      have hnet := ih hx
      split at hd
      · obtain ⟨_, _, hin, _⟩ := GroupMark.import?_eq_some hd
        exact hin.trans hnet
      · rw [← Option.some.inj hd]
        exact hnet

theorem Enforced.isChain_allows (he : g.Enforced t community network m) (hv : g.Valid t)
    (hr : r.network = network) (ha : g.Involves a) (hnd : (a :: rest).Nodup)
    (hlinked : (a :: rest).IsChain fun a b => t.adjacent a b = true)
    (hlast : (a :: rest).getLast? = some g.destination)
    (h : (Bgp.deliver? m r (a :: rest)).isSome = true) :
    (a :: rest).IsChain (g.Allows t) := by
  induction rest generalizing a with
  | nil => simp
  | cons b rest ih =>
    obtain ⟨hadj, hlinked'⟩ := List.isChain_cons_cons.mp hlinked
    obtain ⟨d, hd⟩ := exists_decision_of_adjacent he.clear hv ha hadj
    rw [he.deliver?_cons fun _ hx => he.network_of_deliver? hr hx, hd] at h
    obtain ⟨received, hreceived⟩ := Option.isSome_iff_exists.mp h
    obtain ⟨x, hx, himport⟩ := Option.bind_eq_some_iff.mp hreceived
    obtain ⟨v, rfl, _⟩ := GroupMark.import?_eq_some himport
    refine List.isChain_cons_cons.mpr ⟨⟨v, hd⟩, ?_⟩
    have hnd' := (List.nodup_cons.mp hnd).2
    have hlast' : (b :: rest).getLast? = some g.destination := by simpa using hlast
    by_cases hb : b = g.destination
    · cases rest with
      | nil => simp
      | cons c rest =>
        have hm : g.destination ∈ c :: rest := List.mem_of_getLast? (by simpa using hlast')
        exact absurd (hb ▸ hm) (List.nodup_cons.mp hnd').1
    · exact ih (Allows.involves ⟨v, hd⟩ hb) hnd' hlinked' hlast' (by rw [hx]; rfl)

/-- Along permitted hops the route gets the community of the group, and arrives. -/
theorem Enforced.exists_delivered (he : g.Enforced t community network m) (hr : r.network = network)
    (hne : p ≠ []) (hnd : p.Nodup) (hlast : p.getLast? = some g.destination)
    (hchain : p.IsChain (g.Allows t)) :
    ∃ received, Bgp.deliver? m r p = some received ∧ (p.head? ≠ some g.destination →
      received.communities.contains (g.mark t community).community = true) := by
  induction p with
  | nil => simp at hne
  | cons a p ih =>
    cases p with
    | nil => exact ⟨r, rfl, fun hhead => absurd hlast hhead⟩
    | cons b rest =>
      obtain ⟨⟨v, hd⟩, hchain'⟩ := List.isChain_cons_cons.mp hchain
      obtain ⟨received, hreceived, hcommunity⟩ :=
        ih (by simp) (List.nodup_cons.mp hnd).2 (by simpa using hlast) hchain'
      obtain ⟨r', hr'⟩ := GroupMark.exists_import? (m := g.mark t community) (b := b)
        (r := { received with path := b :: received.path, sender := b })
        (fun hb => hcommunity fun hhead => hb (Option.some.inj hhead)) v
      obtain ⟨_, _, _, _, _, _, hc⟩ := GroupMark.import?_eq_some hr'
      refine ⟨r', ?_, fun _ => hc⟩
      rw [he.deliver?_cons fun _ hx => he.network_of_deliver? hr hx, hreceived, hd]
      exact hr'

theorem permits_iff_allows {policy : GroupPolicy} (hc : g.Clear t)
    (h : g.synthesize t community = .ok policy) :
    policy.Permits g.direction a b ↔ g.Allows t a b := by
  rw [permits_iff h, and_iff_right (hc a)]
  simp only [Allows, decision?, Option.map_eq_some_iff]
  constructor
  · rintro ⟨i, v, hget, hd⟩
    exact ⟨v, i, hget, hd⟩
  · rintro ⟨v, i, hget, hd⟩
    exact ⟨i, v, hget, hd⟩

/-- A simple path of allowed hops from a source to the destination is a member. -/
theorem mem_paths_of_allows {policy : GroupPolicy} (hv : g.Valid t) (hc : g.Clear t)
    (hpolicy : g.synthesize t community = .ok policy) (hsource : ∃ q ∈ g.paths, q.head? = some a)
    (hne : a ≠ g.destination) (hhead : p.head? = some a) (hnd : p.Nodup)
    (hchain : p.IsChain (g.Allows t)) (hlast : p.getLast? = some g.destination) :
    p ∈ g.paths := by
  have hlen : 2 ≤ p.length := by
    match p, hhead, hlast with
    | [x], hhead, hlast =>
      obtain rfl : x = a := by simpa using hhead
      exact absurd (by simpa using hlast) hne
    | x :: y :: rest, _, _ => simp
  have hpermits := hchain.imp fun x y hxy => (permits_iff_allows hc hpolicy).mpr hxy
  exact mem_paths_of_permits hv hpolicy hnd hlen (hhead ▸ hsource) hlast hpermits

/-- The route arrives along the members, and along no other simple path from a source. -/
theorem Enforced.isSome_deliver?_iff {policy : GroupPolicy}
    (he : g.Enforced t community network m) (hv : g.Valid t)
    (hpolicy : g.synthesize t community = .ok policy) (hr : r.network = network) (hnd : p.Nodup)
    (hlinked : p.IsChain fun a b => t.adjacent a b = true)
    (hlast : p.getLast? = some g.destination)
    (hsource : ∃ q ∈ g.paths, q.head? = p.head? ∧ q.head? ≠ some g.destination) :
    (Bgp.deliver? m r p).isSome = true ↔ p ∈ g.paths := by
  constructor
  · intro hdeliver
    obtain ⟨q, hq, hhead, hne⟩ := hsource
    cases p with
    | nil => simp at hlast
    | cons a rest =>
      have hqa : q.head? = some a := hhead
      have ha : g.Involves a := ⟨fun hd => hne (hd ▸ hqa), q, hq, List.mem_of_mem_head? hqa⟩
      have hchain := he.isChain_allows hv hr ha hnd hlinked hlast hdeliver
      exact mem_paths_of_allows hv he.clear hpolicy ⟨q, hq, hqa⟩ ha.1 rfl hnd hchain hlast
  · intro hp
    obtain ⟨req, hreq, hpr⟩ := mem_paths.mp hp
    have hchain : p.IsChain (g.Allows t) :=
      Hop.isChain_iff.mpr fun a b hab =>
        exists_permit_of_uses he.clear hreq (hv req hreq) ⟨p, hpr, hab⟩
    have hne : p ≠ [] := fun hnil => by simp [hnil] at hlast
    obtain ⟨received, hreceived, _⟩ := he.exists_delivered hr hne hnd hlast hchain
    rw [hreceived]
    rfl

end RequirementGroup

namespace Synthesizer

variable {s : Synthesizer} {store : Store} {gs : List RequirementGroup} {g : RequirementGroup}
  {model : PolicyModel}

/-- Any path of a BGP group that routes can take is a member, and every member is such a path. -/
theorem delivered_iff_member (hfilled : store.Filled s.topology)
    (hdisjoint : store.NetworksDisjoint s.topology) (h : s.synthesize store = .ok model)
    (hgs : s.groups store = .ok gs) (hg : g ∈ gs) (hbgp : g.protocol = .bgp) :
    ∃ network, Bgp.announcement? s.topology model g.destination = some network ∧
      ∀ p : List RouterId, p.Nodup → p.IsChain (fun a b => s.topology.adjacent a b = true) →
        p.getLast? = some g.destination →
        (∃ q ∈ g.paths, q.head? = p.head? ∧ q.head? ≠ some g.destination) →
        ((Bgp.deliver? model (Bgp.announced g.destination network) p).isSome = true ↔
          p ∈ g.paths) := by
  obtain ⟨entries, community, hran, hmarked, hdistinct, hground⟩ :=
    exists_ran hfilled (synthesizePartial_of_synthesize h) hgs hg
  have hd := networksDisjoint_of_store hfilled.sound hdisjoint (groups_ok hgs)
  have hu : g.Unblamed [] := fun c hc => absurd hc List.not_mem_nil
  obtain ⟨network, he⟩ :=
    hran.exists_enforced hdistinct hd hmarked hu hbgp hground.requirements_ne_nil
  obtain ⟨policy, hpolicy, _⟩ := hran.synthesized _ hmarked
  refine ⟨network, he.announcement, fun p hnd hlinked hlast hsource => ?_⟩
  exact he.isSome_deliver?_iff hground.valid hpolicy rfl hnd hlinked hlast hsource

end Synthesizer

namespace Network.Diamond

/-- The two ways around the diamond, and no other path. -/
theorem delivered_iff_member_diamond : ∃ model network,
    run.synthesize (storeOf balanced) = .ok model ∧
      ∀ p : List RouterId, p.Nodup → p.IsChain (fun a b => topology.adjacent a b = true) →
        p.getLast? = some 3 → p.head? = some 0 →
        ((Bgp.deliver? model (Bgp.announced 3 network) p).isSome = true ↔
          p ∈ [[0, 1, 3], [0, 2, 3]]) := by
  obtain ⟨model, h⟩ := exists_ok_of_toBool (x := run.synthesize (storeOf balanced)) (by cbv)
  obtain ⟨network, _, hiff⟩ := Synthesizer.delivered_iff_member (storeOf_filled balanced)
    balanced_networksDisjoint h balanced_groups List.mem_cons_self rfl
  refine ⟨model, network, h, fun p hnd hlinked hlast hhead => ?_⟩
  exact hiff p hnd hlinked hlast ⟨[0, 1, 3], by decide, hhead.symm, by decide⟩

end Network.Diamond

end PathPolicy
