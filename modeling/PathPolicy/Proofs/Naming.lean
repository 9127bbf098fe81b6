import PathPolicy.Proofs.Workers

/-! Requirements that are written down by the names of their routers. Every simple path over links is
found again by its names, and a store with a single requirement has a single group. -/

namespace PathPolicy

theorem firstRepeated?_eq_none {α : Type} [DecidableEq α] {seen xs : List α} (hnd : xs.Nodup)
    (hnew : ∀ x ∈ xs, x ∉ seen) : firstRepeated? seen xs = none := by
  induction xs generalizing seen with
  | nil => rfl
  | cons x xs ih =>
    obtain ⟨hx, hnd⟩ := List.nodup_cons.mp hnd
    rw [firstRepeated?, if_neg (hnew x List.mem_cons_self)]
    refine ih hnd fun y hy hm => ?_
    rcases List.mem_cons.mp hm with rfl | hm
    · exact hx hy
    · exact hnew y (List.mem_cons_of_mem x hy) hm

namespace Visit

variable {t : Topology} {visits : List Visit}

theorem collapse_eq_self (hnd : (visits.map (·.router)).Nodup) : collapse visits = visits := by
  induction visits with
  | nil => rfl
  | cons v rest ih =>
    obtain ⟨hv, hnd⟩ := List.nodup_cons.mp hnd
    cases rest with
    | nil => rfl
    | cons w rest =>
      have hne : v.router ≠ w.router := fun he => hv (by simp [he])
      rw [collapse, if_neg hne, ih hnd]

theorem brokenHop?_eq_none
    (h : (visits.map (·.router)).IsChain fun a b => t.adjacent a b = true) :
    brokenHop? t visits = none := by
  induction visits with
  | nil => rfl
  | cons v rest ih =>
    cases rest with
    | nil => rfl
    | cons w rest =>
      obtain ⟨hvw, hrest⟩ := List.isChain_cons_cons.mp h
      rw [brokenHop?, if_pos hvw]
      exact ih hrest

end Visit

namespace Resolver

variable {v : Resolver} {reference : RequirementRef} {p : List RouterId} {d : RouterId}
  {protocol : Protocol} {exact : Bool}

theorem router_name {a : RouterId} (ha : a < v.topology.size) :
    v.router reference (v.topology.name a) = .ok a := by
  rw [router, Topology.routerId?_name ha]

theorem visits_names (hp : ∀ a ∈ p, a < v.topology.size) (hnd : p.Nodup) :
    ∃ visits, v.visits reference (v.topology.names p) = .ok visits ∧
      visits.map (·.router) = p := by
  have hrouters : (v.topology.names p).mapM (v.router reference) = .ok p := by
    rw [mapM_eq_ok_iff, Topology.names, List.forall₂_map_left_iff, List.forall₂_same]
    exact fun a ha => router_name (hp a ha)
  have hplain : (p.zipIdx.map fun r => Visit.mk r.1 r.2).map (·.router) = p := by
    rw [List.map_map]
    exact List.zipIdx_map_fst 0 p
  refine ⟨_, by rw [visits, hrouters]; rfl, ?_⟩
  split
  · rw [Visit.collapse_eq_self (hplain.symm ▸ hnd), hplain]
  · exact hplain

/-- A simple path over links is found by the names of its routers. -/
theorem path_names (hp : ∀ a ∈ p, a < v.topology.size) (hnd : p.Nodup)
    (hlinked : p.IsChain fun a b => v.topology.adjacent a b = true) (hlast : p.getLast? = some d)
    (hspeakers : protocol = .bgp → ∀ a ∈ p, (v.topology.asn? a).isSome = true) :
    v.path reference ⟨protocol, v.topology.name d, v.topology.names p, exact⟩ = .ok p := by
  obtain ⟨visits, hvisits, hrouters⟩ : ∃ visits, v.visits reference (v.topology.names p) =
      .ok visits ∧ visits.map (·.router) = p := visits_names hp hnd
  have hend : (v.topology.names p).getLast? = some (v.topology.name d) := by
    rw [Topology.names, List.getLast?_map, hlast]
    rfl
  have hrepeated : firstRepeated? [] p = none :=
    firstRepeated?_eq_none hnd fun x _ => List.not_mem_nil
  have hbroken : Visit.brokenHop? v.topology visits = none :=
    Visit.brokenHop?_eq_none (hrouters.symm ▸ hlinked)
  have hsilent : protocol = .bgp → p.find? (fun a => (v.topology.asn? a).isNone) = none :=
    fun hbgp => List.find?_eq_none.mpr fun a ha => by
      simpa [Option.isSome_iff_ne_none] using hspeakers hbgp a ha
  by_cases hbgp : protocol = .bgp
  · simp [path, hvisits, hrouters, hend, hrepeated, hbroken, hbgp, hsilent hbgp, bind, Except.bind,
      pure, Except.pure]
  · simp [path, hvisits, hrouters, hend, hrepeated, hbroken, hbgp, bind, Except.bind, pure,
      Except.pure]

end Resolver

namespace Store

variable {t : Topology} {r : Requirement}

/-- A store with a single requirement has a single group. -/
theorem keys_of_single (h : (ofTopology t).error? r = none) :
    ((ofTopology t).addAll [r]).1.keys = [r.key] ∧
      ((ofTopology t).addAll [r]).1.group r.key = [(0, r)] := by
  have hadd : ((ofTopology t).addAll [r]).1 = { ofTopology t with
      requirements := [r]
      groups := OrderedMap.empty.insert r.key [0] } := by
    rw [addAll, add, h]
    rfl
  rw [hadd]
  refine ⟨rfl, ?_⟩
  simp [group, get?]

end Store

/-- The group of the only requirement of a store. -/
theorem Resolver.group_of_single {v : Resolver} {r : Requirement} {req : ResolvedRequirement}
    {d : RouterId} (h : (Store.ofTopology v.topology).error? r = none)
    (hd : v.topology.routerId? r.destination = some d) (hreq : v.requirement 0 r = .ok req) :
    v.group ((Store.ofTopology v.topology).addAll [r]).1 r.key =
      .ok (some ⟨r.protocol, d, [req]⟩) := by
  have hd' : v.topology.routerId? r.key.destination = some d := hd
  have hmap : [(0, r)].mapM (fun x => v.requirement x.1 x.2) = .ok [req] :=
    mapM_eq_ok_iff.mpr (.cons hreq .nil)
  rw [group, hd', (Store.keys_of_single h).2]
  dsimp only
  rw [hmap]
  rfl

end PathPolicy
