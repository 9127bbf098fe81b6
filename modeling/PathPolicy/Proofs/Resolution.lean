import PathPolicy.Proofs.Member
import PathPolicy.Proofs.Store
import PathPolicy.Requirement.Resolution
import PathPolicy.Synthesis.Group

/-! Groups whose paths were found in a topology are valid, and each protocol and destination has at
most one group. -/

namespace PathPolicy

section Except

variable {ε α β : Type}

theorem exists_ok_of_toBool {x : Except ε α} (h : x.toBool = true) : ∃ a, x = .ok a := by
  cases x with
  | error e => cases h
  | ok a => exact ⟨a, rfl⟩

theorem bind_eq_ok {x : Except ε α} {f : α → Except ε β} {b : β} (h : x >>= f = .ok b) :
    ∃ a, x = .ok a ∧ f a = .ok b := by
  cases x with
  | error e => cases h
  | ok a => exact ⟨a, rfl, h⟩

theorem forall₂_of_mapM {f : α → Except ε β} {xs : List α} {ys : List β}
    (h : xs.mapM f = .ok ys) : List.Forall₂ (fun x y => f x = .ok y) xs ys := by
  induction xs generalizing ys with
  | nil =>
    obtain rfl : [] = ys := Except.ok.inj h
    exact .nil
  | cons x xs ih =>
    rw [List.mapM_cons] at h
    obtain ⟨y, hy, h⟩ := bind_eq_ok h
    obtain ⟨zs, hzs, h⟩ := bind_eq_ok h
    obtain rfl : y :: zs = ys := Except.ok.inj h
    exact .cons hy (ih hzs)

theorem exists_of_forall₂ {R : α → β → Prop} {xs : List α} {ys : List β} {y : β}
    (h : List.Forall₂ R xs ys) (hy : y ∈ ys) : ∃ x ∈ xs, R x y := by
  induction h with
  | nil => simp at hy
  | cons hxy _ ih =>
    rcases List.mem_cons.mp hy with rfl | hy
    · exact ⟨_, List.mem_cons_self, hxy⟩
    · obtain ⟨x, hx, hR⟩ := ih hy
      exact ⟨x, List.mem_cons_of_mem _ hx, hR⟩

theorem forall₂_filterMap_id {R : α → β → Prop} {xs : List α} {os : List (Option β)}
    (h : List.Forall₂ (fun x o => ∃ y, o = some y ∧ R x y) xs os) :
    List.Forall₂ R xs (os.filterMap id) := by
  induction h with
  | nil => exact .nil
  | cons hxo _ ih =>
    obtain ⟨y, rfl, hR⟩ := hxo
    exact .cons hR ih

theorem exists_of_mem_mapM {f : α → Except ε β} {xs : List α} {ys : List β} {y : β}
    (h : xs.mapM f = .ok ys) (hy : y ∈ ys) : ∃ x ∈ xs, f x = .ok y := by
  obtain ⟨x, hx, hfx⟩ := exists_of_forall₂ (forall₂_of_mapM h) hy
  exact ⟨x, hx, hfx⟩

theorem pairwise_of_mapM {f : α → Except ε β} {R : α → α → Prop} {S : β → β → Prop} {xs : List α}
    {ys : List β} (h : xs.mapM f = .ok ys) (hx : xs.Pairwise R)
    (hS : ∀ x x' y y', R x x' → f x = .ok y → f x' = .ok y' → S y y') : ys.Pairwise S := by
  have hf := forall₂_of_mapM h
  clear h
  induction hf with
  | nil => exact .nil
  | @cons x y xs ys hxy hrest ih =>
    have hp := List.pairwise_cons.mp hx
    refine List.pairwise_cons.mpr ⟨fun y' hy' => ?_, ih hp.2⟩
    obtain ⟨x', hx', hfx'⟩ := exists_of_forall₂ hrest hy'
    exact hS x x' y y' (hp.1 x' hx') hxy hfx'

end Except

namespace Visit

variable {t : Topology} {visits : List Visit}

theorem getLast?_collapse (visits : List Visit) : (collapse visits).getLast? = visits.getLast? := by
  induction visits with
  | nil => rfl
  | cons v rest ih =>
    cases rest with
    | nil => rfl
    | cons w rest =>
      rw [collapse]
      split
      · rw [ih, List.getLast?_cons_cons]
      · have hne : collapse (w :: rest) ≠ [] := fun hnil => by
          rw [hnil, eq_comm, List.getLast?_nil, List.getLast?_eq_none_iff] at ih
          cases ih
        rw [List.getLast?_cons_of_ne_nil hne, ih, List.getLast?_cons_cons]

theorem isChain_of_brokenHop? (h : brokenHop? t visits = none) :
    (visits.map (·.router)).IsChain fun a b => t.adjacent a b = true := by
  induction visits with
  | nil => simp
  | cons v rest ih =>
    cases rest with
    | nil => simp
    | cons w rest =>
      rw [brokenHop?] at h
      split at h
      · next hadj => exact List.isChain_cons_cons.mpr ⟨hadj, ih h⟩
      · cases h

end Visit

theorem nodup_of_firstRepeated? {α : Type} [DecidableEq α] {seen xs : List α}
    (h : firstRepeated? seen xs = none) : xs.Nodup ∧ ∀ x ∈ xs, x ∉ seen := by
  induction xs generalizing seen with
  | nil => simp
  | cons x xs ih =>
    rw [firstRepeated?] at h
    split at h
    · cases h
    · next hx =>
      obtain ⟨hnd, hnot⟩ := ih h
      refine ⟨List.nodup_cons.mpr ⟨fun hm => hnot x hm List.mem_cons_self, hnd⟩, fun y hy => ?_⟩
      rcases List.mem_cons.mp hy with rfl | hy
      · exact hx
      · exact fun hs => hnot y hy (List.mem_cons_of_mem x hs)

namespace Resolver

variable {v : Resolver} {reference : RequirementRef} {r : PathReq} {path : List RouterId}

theorem router_ok {name : String} {a : RouterId} (h : v.router reference name = .ok a) :
    v.topology.routerId? name = some a := by
  rw [router] at h
  split at h
  · next hr => rw [hr, Except.ok.inj h]
  · cases h

theorem visits_ok {names : List String} {visits : List Visit} {d : String}
    (h : v.visits reference names = .ok visits) (hd : names.getLast? = some d) :
    ∃ a, v.topology.routerId? d = some a ∧ (visits.map (·.router)).getLast? = some a := by
  obtain ⟨routers, hm, h⟩ := bind_eq_ok h
  obtain ⟨a, ha, hlast⟩ : ∃ a, v.topology.routerId? d = some a ∧ routers.getLast? = some a := by
    obtain ⟨front, rfl⟩ := List.getLast?_eq_some_iff.mp hd
    rw [List.mapM_append] at hm
    obtain ⟨xs, _, hm⟩ := bind_eq_ok hm
    obtain ⟨ys, hys, hm⟩ := bind_eq_ok hm
    obtain rfl : xs ++ ys = routers := Except.ok.inj hm
    rw [List.mapM_cons] at hys
    obtain ⟨y, hy, hys⟩ := bind_eq_ok hys
    obtain rfl : [y] = ys := Except.ok.inj hys
    exact ⟨y, router_ok hy, by simp⟩
  refine ⟨a, ha, ?_⟩
  have hplain : ((routers.zipIdx.map fun r => Visit.mk r.1 r.2).map (·.router)).getLast? =
      some a := by
    rw [List.map_map]
    change (routers.zipIdx.map Prod.fst).getLast? = some a
    rw [List.zipIdx_map_fst, hlast]
  obtain rfl := Except.ok.inj h
  split
  · rw [List.getLast?_map, Visit.getLast?_collapse, ← List.getLast?_map, hplain]
  · exact hplain

structure Found (v : Resolver) (r : PathReq) (path : List RouterId) : Prop where
  simple : path.Nodup
  linked : path.IsChain fun a b => v.topology.adjacent a b = true
  ends : ∃ a, v.topology.routerId? r.destination = some a ∧ path.getLast? = some a
  speakers : r.protocol = .bgp → ∀ a ∈ path, (v.topology.asn? a).isSome = true

theorem path_ok (h : v.path reference r = .ok path) : v.Found r path := by
  obtain ⟨visits, hvisits, h⟩ := bind_eq_ok h
  have hfound : r.path.getLast? = some r.destination →
      firstRepeated? [] (visits.map (·.router)) = none →
      Visit.brokenHop? v.topology visits = none →
      (r.protocol = .bgp → ∀ a ∈ visits.map (·.router), (v.topology.asn? a).isSome = true) →
      v.Found r (visits.map (·.router)) := fun hlast hrepeated hbroken hspeakers =>
    ⟨(nodup_of_firstRepeated? hrepeated).1, Visit.isChain_of_brokenHop? hbroken,
      visits_ok hvisits hlast, hspeakers⟩
  dsimp only at h
  split at h
  · cases h
  · next hlast =>
    have hlast : r.path.getLast? = some r.destination := by simpa using hlast
    split at h
    · cases h
    · next hrepeated =>
      have hrepeated := Option.eq_none_iff_forall_ne_some.mpr hrepeated
      split at h
      · cases h
      · next hbroken =>
        have hbroken := Option.eq_none_iff_forall_ne_some.mpr
          fun (x : Visit × Visit) hx => hbroken x.1 x.2 hx
        split at h
        · split at h
          · cases h
          · next hsilent =>
            obtain rfl := Except.ok.inj h
            have hsilent := Option.eq_none_iff_forall_ne_some.mpr hsilent
            refine hfound hlast hrepeated hbroken fun _ a ha => ?_
            simpa [Option.isSome_iff_ne_none] using List.find?_eq_none.mp hsilent a ha
        · next hp =>
          obtain rfl := Except.ok.inj h
          exact hfound hlast hrepeated hbroken fun hbgp => absurd hbgp hp

theorem requirement_ok {index : Nat} {r : Requirement} {req : ResolvedRequirement}
    (h : v.requirement index r = .ok req) : req.reference = r.reference index ∧
      r.members.mapM (v.path (r.reference index)) = .ok req.paths := by
  obtain ⟨paths, hpaths, h⟩ := bind_eq_ok h
  obtain rfl := Except.ok.inj h
  exact ⟨rfl, hpaths⟩

structure Resolved (v : Resolver) (s : Store) (key : GroupKey) (g : RequirementGroup) : Prop where
  protocol : key.protocol = g.protocol
  destination : v.topology.routerId? key.destination = some g.destination
  requirements : (s.group key).mapM (fun r => v.requirement r.1 r.2) = .ok g.requirements

theorem group_ok {s : Store} {key : GroupKey} {g : RequirementGroup}
    (h : v.group s key = .ok (some g)) : v.Resolved s key g := by
  rw [group] at h
  split at h
  · simp [pure, Except.pure] at h
  · next d hd =>
    obtain ⟨requirements, hreqs, h⟩ := bind_eq_ok h
    obtain rfl := Option.some.inj (Except.ok.inj h)
    exact ⟨rfl, hd, hreqs⟩

theorem Resolved.key_eq {s : Store} {k k' : GroupKey} {g g' : RequirementGroup}
    (h : v.Resolved s k g) (h' : v.Resolved s k' g') (hp : g.protocol = g'.protocol)
    (hd : g.destination = g'.destination) : k = k' := by
  have hprotocol : k.protocol = k'.protocol := by rw [h.protocol, h'.protocol, hp]
  have hdestination := Topology.routerId?_injective h.destination (hd ▸ h'.destination)
  cases k
  cases k'
  simp_all

def Distinct (g g' : RequirementGroup) : Prop :=
  g.protocol = g'.protocol → g.destination ≠ g'.destination

theorem groups_ok {s : Store} {gs : List RequirementGroup} (h : v.groups s = .ok gs) :
    (∀ g ∈ gs, ∃ key ∈ s.keys, v.Resolved s key g) ∧ gs.Pairwise Distinct := by
  obtain ⟨os, hos, h⟩ := bind_eq_ok h
  obtain rfl := Except.ok.inj h
  constructor
  · intro g hg
    obtain ⟨o, ho, he⟩ := List.mem_filterMap.mp hg
    obtain rfl : o = some g := he
    obtain ⟨key, hkey, hgroup⟩ := exists_of_mem_mapM hos ho
    exact ⟨key, hkey, group_ok hgroup⟩
  · have hp : os.Pairwise fun o o' => ∀ g g', o = some g → o' = some g' → Distinct g g' := by
      refine pairwise_of_mapM hos s.groups.keys_nodup fun k k' o o' hne hk hk' g g' ho ho' => ?_
      subst ho ho'
      exact fun hp hd => hne ((group_ok hk).key_eq (group_ok hk') hp hd)
    exact hp.filterMap id fun o o' hoo g hg g' hg' => hoo g g' hg hg'

structure Grounded (t : Topology) (g : RequirementGroup) : Prop where
  valid : g.Valid t
  destination_lt : g.destination < t.size
  requirements_ne_nil : g.requirements ≠ []
  paths_ne_nil : ∀ req ∈ g.requirements, req.paths ≠ []
  single : ∀ req ∈ g.requirements, req.kind = .path → ∃ p, req.paths = [p]
  speakers : g.protocol = .bgp → ∀ p ∈ g.paths, ∀ a ∈ p, (t.asn? a).isSome = true

theorem Resolved.exists_requirement {s : Store} {key : GroupKey} {g : RequirementGroup}
    {req : ResolvedRequirement} (hs : s.Sound) (h : v.Resolved s key g)
    (hreq : req ∈ g.requirements) : ∃ i, ∃ r ∈ s.requirements, r.key = key ∧
      v.requirement i r = .ok req := by
  obtain ⟨⟨i, r⟩, hir, hok⟩ := exists_of_mem_mapM h.requirements hreq
  obtain ⟨hr, hkey⟩ := hs.of_mem_group hir
  exact ⟨i, r, hr, hkey, hok⟩

theorem Resolved.key_of_reference {s : Store} {key : GroupKey} {g : RequirementGroup}
    {req : ResolvedRequirement} (hs : s.Sound) (h : v.Resolved s key g)
    (hreq : req ∈ g.requirements) : key = ⟨req.reference.protocol, req.reference.destination⟩ := by
  obtain ⟨i, r, _, rfl, hok⟩ := h.exists_requirement hs hreq
  rw [(requirement_ok hok).1]
  rfl

theorem eq_of_reference {s : Store} {gs : List RequirementGroup} {g g' : RequirementGroup}
    {req req' : ResolvedRequirement} (hs : s.Sound) (h : v.groups s = .ok gs) (hg : g ∈ gs)
    (hg' : g' ∈ gs) (hreq : req ∈ g.requirements) (hreq' : req' ∈ g'.requirements)
    (href : req.reference = req'.reference) : g = g' := by
  obtain ⟨hres, hdistinct⟩ := groups_ok h
  obtain ⟨key, _, hk⟩ := hres g hg
  obtain ⟨key', _, hk'⟩ := hres g' hg'
  have hkey : key = key' := by
    rw [hk.key_of_reference hs hreq, hk'.key_of_reference hs hreq', href]
  subst key'
  have hsymm : Std.Symm Distinct := ⟨fun x y h hp hd => h hp.symm hd.symm⟩
  by_contra hne
  exact hdistinct.forall hg hg' hne (hk.protocol.symm.trans hk'.protocol)
    (Option.some.inj (hk.destination.symm.trans hk'.destination))

theorem Resolved.found {s : Store} {key : GroupKey} {g : RequirementGroup}
    {req : ResolvedRequirement} {p : List RouterId} (hs : s.Sound) (h : v.Resolved s key g)
    (hreq : req ∈ g.requirements) (hp : p ∈ req.paths) :
    ∃ m, m.protocol = g.protocol ∧ m.destination = key.destination ∧ v.Found m p := by
  obtain ⟨i, r, hr, hkey, hok⟩ := h.exists_requirement hs hreq
  obtain ⟨m, hm, hpath⟩ := exists_of_mem_mapM (requirement_ok hok).2 hp
  refine ⟨m, ?_, ?_, path_ok hpath⟩
  · rw [hs.protocol r hr m hm, ← h.protocol, ← hkey]
    rfl
  · rw [hs.destination r hr m hm, ← hkey]
    rfl

theorem Resolved.grounded {s : Store} {key : GroupKey} {g : RequirementGroup} (hs : s.Sound)
    (h : v.Resolved s key g) (hkey : key ∈ s.keys) : Grounded v.topology g := by
  refine ⟨fun req hreq => ⟨fun p hp => ?_, fun p hp => ?_, fun p hp => ?_⟩,
    Topology.lt_size_of_routerId? h.destination, ?_, ?_, ?_, ?_⟩
  · obtain ⟨m, _, _, hfound⟩ := h.found hs hreq hp
    exact hfound.simple
  · obtain ⟨m, _, _, hfound⟩ := h.found hs hreq hp
    exact hfound.linked
  · obtain ⟨m, _, hd, hfound⟩ := h.found hs hreq hp
    obtain ⟨a, ha, hlast⟩ := hfound.ends
    rw [hd, h.destination] at ha
    rw [hlast, ha]
  · have hlen := (forall₂_of_mapM h.requirements).length_eq
    have hpos := List.length_pos_iff.mpr (hs.group_ne_nil_of_mem_keys hkey)
    exact List.length_pos_iff.mp (hlen ▸ hpos)
  · intro req hreq
    obtain ⟨i, r, hr, _, hok⟩ := h.exists_requirement hs hreq
    have hlen := (forall₂_of_mapM (requirement_ok hok).2).length_eq
    have hpos := List.length_pos_iff.mpr (hs.members_ne_nil r hr)
    exact List.length_pos_iff.mp (hlen ▸ hpos)
  · intro req hreq hkind
    obtain ⟨i, r, hr, _, hok⟩ := h.exists_requirement hs hreq
    obtain ⟨href, hpaths⟩ := requirement_ok hok
    have hlen := (forall₂_of_mapM hpaths).length_eq
    have hr' : r.kind = .path := by
      rw [ResolvedRequirement.kind, href] at hkind
      exact hkind
    cases r <;> simp_all [Requirement.kind, Requirement.members]
    exact List.length_eq_one_iff.mp hlen.symm
  · intro hbgp p hp a ha
    obtain ⟨req, hreq, hpr⟩ := RequirementGroup.mem_paths.mp hp
    obtain ⟨m, hprotocol, _, hfound⟩ := h.found hs hreq hpr
    exact hfound.speakers (hprotocol.trans hbgp) a ha

end Resolver

def Topology.networksOf (t : Topology) (name : String) : List Address :=
  match (t.routerId? name).bind t.router? with
  | some r => r.loopbacks.map (·.network)
  | none => []

/-- No two BGP destinations have a loopback network in common. -/
def Store.NetworksDisjoint (t : Topology) (s : Store) : Prop :=
  ∀ r ∈ s.requirements, ∀ r' ∈ s.requirements, r.protocol = .bgp → r'.protocol = .bgp →
    r.destination ≠ r'.destination → (t.networksOf r.destination).Disjoint
      (t.networksOf r'.destination)

theorem Store.destination_eq_of_singleton {s : Store} {r x y : Requirement}
    (h : s.requirements = [r]) (hx : x ∈ s.requirements) (hy : y ∈ s.requirements) :
    x.destination = y.destination := by
  rw [h, List.mem_singleton] at hx hy
  rw [hx, hy]

theorem Resolver.Resolved.mem_networks_iff {v : Resolver} {s : Store} {key : GroupKey}
    {g : RequirementGroup} (h : v.Resolved s key g) {x : Address} :
    x ∈ g.networks v.topology ↔ x ∈ v.topology.networksOf key.destination := by
  rw [RequirementGroup.networks, Topology.networksOf, h.destination, Option.bind_some]
  split <;> simp [*]

end PathPolicy
