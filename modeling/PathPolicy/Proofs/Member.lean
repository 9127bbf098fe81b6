import PathPolicy.Proofs.Topology
import PathPolicy.Requirement

/-! The members of requirements as paths of a topology, and the hops that a requirement asks
traffic to take. -/

namespace PathPolicy

namespace ResolvedRequirement

/-- All members are simple paths over links, and end at the destination. -/
structure Valid (t : Topology) (destination : RouterId) (req : ResolvedRequirement) : Prop where
  simple : ∀ p ∈ req.paths, p.Nodup
  linked : ∀ p ∈ req.paths, p.IsChain fun a b => t.adjacent a b = true
  ends : ∀ p ∈ req.paths, p.getLast? = some destination

def Uses (req : ResolvedRequirement) (a b : RouterId) : Prop := ∃ p ∈ req.paths, Hop p a b

/-- Traffic of the requirement at `a` should take the hop to `b`: the hop of the first member
through `a` where the members are alternatives, and that of any member otherwise. -/
def Expects (req : ResolvedRequirement) (a b : RouterId) : Prop :=
  match req.kind with
  | .path | .order => ∃ p, req.paths.find? (a ∈ ·) = some p ∧ Hop p a b
  | .ecmp | .kConnected => req.Uses a b

variable {t : Topology} {d : RouterId} {req : ResolvedRequirement} {a b c : RouterId}

theorem expects_iff_find? (h : req.kind = .path ∨ req.kind = .order) :
    req.Expects a b ↔ ∃ p, req.paths.find? (a ∈ ·) = some p ∧ Hop p a b := by
  rcases h with h | h <;> simp [Expects, h]

theorem expects_iff_uses (h : req.kind = .ecmp ∨ req.kind = .kConnected) :
    req.Expects a b ↔ req.Uses a b := by
  rcases h with h | h <;> simp [Expects, h]

namespace Valid

theorem adjacent_of_uses (hv : req.Valid t d) (h : req.Uses a b) : t.adjacent a b = true := by
  obtain ⟨p, hp, hh⟩ := h
  exact hh.of_isChain (hv.linked p hp)

theorem ne_destination_of_uses (hv : req.Valid t d) (h : req.Uses a b) : a ≠ d := by
  obtain ⟨p, hp, hh⟩ := h
  exact hh.ne_last (hv.simple p hp) (hv.ends p hp)

theorem ne_of_uses (hv : req.Valid t d) (h : req.Uses a b) : a ≠ b := by
  obtain ⟨p, hp, hh⟩ := h
  exact hh.ne_of_nodup (hv.simple p hp)

theorem exists_uses (hv : req.Valid t d) {p : List RouterId} (hp : p ∈ req.paths) (ha : a ∈ p)
    (hne : a ≠ d) : ∃ b, Hop p a b ∧ req.Uses a b := by
  obtain ⟨b, hb⟩ := Hop.exists_of_mem (hv.ends p hp) ha hne
  exact ⟨b, hb, p, hp, hb⟩

theorem lt_size (hv : req.Valid t d) (hd : d < t.size) {p : List RouterId} (hp : p ∈ req.paths)
    (ha : a ∈ p) : a < t.size := by
  by_cases hne : a = d
  · exact hne ▸ hd
  · obtain ⟨b, _, huses⟩ := hv.exists_uses hp ha hne
    exact (Topology.lt_size_of_adjacent (hv.adjacent_of_uses huses)).1

theorem length_le_size (hv : req.Valid t d) (hd : d < t.size) {p : List RouterId}
    (hp : p ∈ req.paths) : p.length ≤ t.size := by
  have hsub : p ⊆ List.range t.size := fun a ha => List.mem_range.mpr (hv.lt_size hd hp ha)
  have hle := ((hv.simple p hp).subperm hsub).length_le
  rwa [List.length_range] at hle

/-- What holds of the destination, and of a router if it holds of the next one, holds along a
member. The number counts the hops to the destination. -/
theorem induction_along (hv : req.Valid t d) {p : List RouterId} (hp : p ∈ req.paths)
    {P : RouterId → Nat → Prop} (hlast : P d 0) (hstep : ∀ a b n, Hop p a b → P b n → P a (n + 1))
    (ha : a ∈ p) : ∃ n, n < p.length ∧ P a n := by
  have hsuffix : ∀ rest a, a :: rest <:+ p → P a rest.length := by
    intro rest
    induction rest with
    | nil =>
      rintro a ⟨pre, rfl⟩
      obtain rfl : a = d := by simpa using hv.ends _ hp
      exact hlast
    | cons b rest ih =>
      intro a h
      have hhop : Hop p a b := (List.prefix_append [a, b] rest).isInfix.trans h.isInfix
      exact hstep a b rest.length hhop (ih b ((List.suffix_cons a (b :: rest)).trans h))
  obtain ⟨pre, rest, rfl⟩ := List.append_of_mem ha
  refine ⟨rest.length, ?_, hsuffix rest a (List.suffix_append pre (a :: rest))⟩
  rw [List.length_append, List.length_cons]
  omega

/-- The hops from one router lie on different members, since each member takes only one. -/
theorem length_le_of_uses (hv : req.Valid t d) {bs : List RouterId} (hnd : bs.Nodup)
    (h : ∀ b ∈ bs, req.Uses a b) : bs.length ≤ req.paths.length := by
  classical
  let next := fun p : List RouterId => if h : ∃ b, Hop p a b then some h.choose else none
  have hsub : bs ⊆ req.paths.filterMap next := by
    intro b hb
    obtain ⟨p, hp, hh⟩ := h b hb
    refine List.mem_filterMap.mpr ⟨p, hp, ?_⟩
    have hex : ∃ b, Hop p a b := ⟨b, hh⟩
    simp only [next, dif_pos hex, Option.some.injEq]
    exact Hop.right_unique (hv.simple p hp) hex.choose_spec hh
  exact (hnd.subperm hsub).length_le.trans (List.length_filterMap_le _ _)

theorem expects_unique (hv : req.Valid t d) (h : req.kind = .path ∨ req.kind = .order)
    (hb : req.Expects a b) (hc : req.Expects a c) : b = c := by
  rw [expects_iff_find? h] at hb hc
  obtain ⟨p, hp, hpb⟩ := hb
  obtain ⟨q, hq, hqc⟩ := hc
  obtain rfl : p = q := Option.some.inj (hp.symm.trans hq)
  exact Hop.right_unique (hv.simple p (List.mem_of_find?_eq_some hp)) hpb hqc

end Valid

end ResolvedRequirement

namespace RequirementGroup

def Valid (t : Topology) (g : RequirementGroup) : Prop :=
  ∀ req ∈ g.requirements, req.Valid t g.destination

/-- A router on a member, but not the destination. -/
def Involves (g : RequirementGroup) (a : RouterId) : Prop :=
  a ≠ g.destination ∧ ∃ p ∈ g.paths, a ∈ p

variable {t : Topology} {g : RequirementGroup} {a : RouterId}

theorem mem_paths {p : List RouterId} : p ∈ g.paths ↔ ∃ req ∈ g.requirements, p ∈ req.paths :=
  List.mem_flatMap

theorem Involves.exists_uses (h : g.Involves a) (hv : g.Valid t) :
    ∃ req ∈ g.requirements, ∃ b, req.Uses a b := by
  obtain ⟨hne, p, hp, hap⟩ := h
  obtain ⟨req, hreq, hpr⟩ := mem_paths.mp hp
  obtain ⟨b, _, huses⟩ := (hv req hreq).exists_uses hpr hap hne
  exact ⟨req, hreq, b, huses⟩

end RequirementGroup

end PathPolicy
