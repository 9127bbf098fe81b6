import PathPolicy.Proofs.GroupPolicy
import PathPolicy.Proofs.Resolution

/-! Which routers drop out of a group, and the conflicts that say so. A conflict on a decision and one
on a spliced path take out the router that they name, and a forwarding loop takes out all routers of
its requirement. -/

namespace PathPolicy

/-- The router drops out of the group because of this conflict. -/
def Conflict.Excludes (c : Conflict) (t : Topology) (g : RequirementGroup) (a : RouterId) : Prop :=
  if c.reason = .forwardingLoop then
    ∃ req ∈ g.requirements, req.reference = c.requirement ∧ ∃ p ∈ req.paths, a ∈ p
  else c.node = t.name a

theorem Intent.clash?_ne_forwardingLoop {existing new : Intent} {reason : ConflictReason}
    (h : existing.clash? new = some reason) : reason ≠ .forwardingLoop := by
  rintro rfl
  rw [clash?] at h
  split at h
  · cases h
  · cases h
  · cases h
  · split at h <;> cases h

/-- A router of the topology that could drop out of the group. -/
def RequirementGroup.Transit (t : Topology) (g : RequirementGroup) (a : RouterId) : Prop :=
  a < t.size ∧ a ≠ g.destination

/-- The routers that are out are those that the conflicts exclude. -/
structure Accounts (t : Topology) (g : RequirementGroup) (cs : List Conflict)
    (out : RouterId → Prop) : Prop where
  transit : ∀ a, out a → g.Transit t a
  out_iff : ∀ a, g.Transit t a → (out a ↔ ∃ c ∈ cs, c.Excludes t g a)

variable {t : Topology} {g : RequirementGroup} {req : ResolvedRequirement} {cs : List Conflict}
  {out out' : RouterId → Prop} {c : Conflict} {a : RouterId}

namespace Accounts

theorem empty (t : Topology) (g : RequirementGroup) : Accounts t g [] fun _ => False :=
  ⟨fun _ h => h.elim, fun _ _ => by simp⟩

theorem congr (h : Accounts t g cs out) (hout : ∀ a, out' a ↔ out a) : Accounts t g cs out' := by
  obtain rfl : out' = out := funext fun a => propext (hout a)
  exact h

theorem concat (h : Accounts t g cs out) (htransit : ∀ a, out' a → g.Transit t a)
    (hout : ∀ a, g.Transit t a → (out' a ↔ out a ∨ c.Excludes t g a)) :
    Accounts t g (cs ++ [c]) out' := by
  refine ⟨htransit, fun a ha => ?_⟩
  rw [hout a ha, h.out_iff a ha]
  constructor
  · rintro (⟨x, hx, hex⟩ | hex)
    · exact ⟨x, List.mem_append_left _ hx, hex⟩
    · exact ⟨c, by simp, hex⟩
  · rintro ⟨x, hx, hex⟩
    rcases List.mem_append.mp hx with hx | hx
    · exact .inl ⟨x, hx, hex⟩
    · obtain rfl := List.mem_singleton.mp hx
      exact .inr hex

/-- A conflict that names a router takes out this router. -/
theorem concat_named (h : Accounts t g cs out) {b : RouterId} (hb : g.Transit t b)
    (hreason : c.reason ≠ .forwardingLoop) (hnode : c.node = t.name b)
    (hout : ∀ a, out' a ↔ out a ∨ a = b) : Accounts t g (cs ++ [c]) out' := by
  refine h.concat (fun a ha => ?_) fun a ha => ?_
  · rcases (hout a).mp ha with ha | rfl
    · exact h.transit a ha
    · exact hb
  · rw [hout, Conflict.Excludes, if_neg hreason, hnode]
    refine or_congr_right ⟨fun he => by rw [he], fun he => ?_⟩
    exact Topology.name_injective ha.1 hb.1 he.symm

end Accounts

namespace Commitments

variable {s : Commitments} {i : Intent} {is : List Intent}

/-- The routers in conflict are those that the conflicts exclude. -/
def Accounted (t : Topology) (g : RequirementGroup) (s : Commitments) : Prop :=
  Accounts t g s.conflicts (· ∈ s.conflicted)

theorem Accounted.addIntent (h : s.Accounted t g) (hi : g.Transit t i.key.router) :
    (s.addIntent t i).Accounted t g := by
  rw [Commitments.addIntent]
  split
  · exact h
  · split
    · exact h
    · next reason hreason =>
      refine Accounts.concat_named h hi (Intent.clash?_ne_forwardingLoop hreason) rfl fun a => ?_
      simp [exclude, addConflict]

theorem Accounted.foldl_addIntent (h : s.Accounted t g) (his : ∀ i ∈ is, g.Transit t i.key.router) :
    (is.foldl (Commitments.addIntent t) s).Accounted t g := by
  induction is generalizing s with
  | nil => exact h
  | cons i is ih =>
    exact ih (h.addIntent (his i (by simp))) fun x hx => his x (List.mem_cons_of_mem i hx)

end Commitments

/-- References tell the requirements of the group apart. -/
def RequirementGroup.Distinguished (g : RequirementGroup) : Prop :=
  ∀ req ∈ g.requirements, ∀ req' ∈ g.requirements, req.reference = req'.reference → req = req'

theorem Conflict.excludes_of_loop (hdist : g.Distinguished) (hreq : req ∈ g.requirements)
    (hreason : c.reason = .forwardingLoop) (hc : c.requirement = req.reference) :
    c.Excludes t g a ↔ ∃ p ∈ req.paths, a ∈ p := by
  rw [Conflict.Excludes, if_pos hreason, hc]
  constructor
  · rintro ⟨req', hreq', href, hex⟩
    obtain rfl := hdist req' hreq' req hreq href
    exact hex
  · exact fun hex => ⟨req, hreq, rfl, hex⟩

theorem ResolvedRequirement.Valid.transit_of_uses (hv : req.Valid t g.destination) {b : RouterId}
    (h : req.Uses a b) : g.Transit t a :=
  ⟨(Topology.lt_size_of_adjacent (hv.adjacent_of_uses h)).1, hv.ne_destination_of_uses h⟩

namespace Commitments

variable {s : Commitments}

theorem Accounted.addRequirement (h : s.Accounted t g) (hground : Resolver.Grounded t g)
    (hdist : g.Distinguished) (hreq : req ∈ g.requirements) :
    (s.addRequirement t g req).Accounted t g := by
  have hv := hground.valid req hreq
  rw [Commitments.addRequirement]
  split
  · next node neighbor _ =>
    -- all routers of the requirement are out, its destination excepted
    refine Accounts.concat h (fun a ha => ?_) fun a ha => ?_
    · rcases List.mem_append.mp ha with ha | ha
      · exact h.transit a ha
      · obtain ⟨hflat, hne⟩ := List.mem_filter.mp ha
        obtain ⟨p, hp, hap⟩ := List.mem_flatten.mp hflat
        exact ⟨hv.lt_size hground.destination_lt hp hap, by simpa using hne⟩
    · rw [Conflict.excludes_of_loop hdist hreq rfl rfl]
      simp [exclude, addConflict, ha.2]
  · next r hr =>
    have hfold : (r.intents.foldl (Commitments.addIntent t) s).Accounted t g := by
      refine h.foldl_addIntent fun i hi => ?_
      obtain ⟨heights, hover⟩ := ResolvedRequirement.exists_intentsOver hr
      obtain ⟨a, b, ⟨c, huses⟩, _, rfl⟩ := (hover.mem_iff i).mp hi
      exact hv.transit_of_uses huses
    obtain ⟨_, hconflicted, hconflicts⟩ := foldl_addMaxPaths_fields req.reference
      (r.intents.foldl (Commitments.addIntent t) s) r.maxPaths
    rw [Accounted, hconflicted, hconflicts]
    exact hfold

theorem Accounted.foldl_addRequirement (h : s.Accounted t g) (hground : Resolver.Grounded t g)
    (hdist : g.Distinguished) {reqs : List ResolvedRequirement} (hreqs : reqs ⊆ g.requirements) :
    (reqs.foldl (Commitments.addRequirement t g) s).Accounted t g := by
  induction reqs generalizing s with
  | nil => exact h
  | cons req reqs ih =>
    obtain ⟨hreq, hreqs⟩ := List.cons_subset.mp hreqs
    exact ih (h.addRequirement hground hdist hreq) hreqs

end Commitments

namespace SpliceCheck

variable {s : Commitments} {c : SpliceCheck} {members : List (List RouterId)}

/-- Spliced routers are out too, although they get into conflict only after the check. -/
structure Accounted (t : Topology) (g : RequirementGroup) (c : SpliceCheck) : Prop where
  accounts : Accounts t g c.commitments.conflicts fun a =>
    a ∈ c.commitments.conflicted ∨ a ∈ c.spliced.map (·.router)
  transit : ∀ k i, c.commitments.intents.get? k = some i → g.Transit t k.router

theorem Accounted.checkHop (h : c.Accounted t g) (path : List RouterId) (i : Nat)
    (a b : RouterId) : (c.checkHop t g.direction path i a b).Accounted t g := by
  rw [SpliceCheck.checkHop]
  dsimp only
  split
  · exact h
  · next intent hget =>
    split
    · exact h
    · refine ⟨h.accounts.concat_named (h.transit _ _ hget) (by simp) rfl fun x => ?_, h.transit⟩
      simp only [Commitments.addConflict, List.map_cons, List.mem_cons]
      tauto

theorem Accounted.checkPath (h : c.Accounted t g) (members : List (List RouterId))
    (path : List RouterId) : (c.checkPath t g.direction members path).Accounted t g := by
  rcases checkPath_cases t g.direction members c path with ⟨he, _⟩ | ⟨i, a, b, he, _⟩
  · rwa [he]
  · rw [he]
    exact h.checkHop path i a b

theorem Accounted.foldl (h : c.Accounted t g) (members paths : List (List RouterId)) :
    (paths.foldl (SpliceCheck.checkPath t g.direction members) c).Accounted t g := by
  induction paths generalizing c with
  | nil => exact h
  | cons path paths ih => exact ih (h.checkPath members path)

theorem Accounted.result (h : c.Accounted t g) : c.result.Accounted t g :=
  h.accounts.congr fun _ => List.mem_append

end SpliceCheck

namespace RequirementGroup

/-- At the end of the synthesis of a group, the conflicts account for all routers that are out. -/
theorem commitments_accounted (hground : Resolver.Grounded t g) (hdist : g.Distinguished) :
    (g.commitments t).Accounted t g := by
  have hstart : Commitments.empty.Accounted t g :=
    (Accounts.empty t g).congr fun a => by simp [Commitments.empty]
  have hcombine : (g.combine t).Accounted t g :=
    hstart.foldl_addRequirement hground hdist fun _ h => mem_strictestFirst.mp h
  refine SpliceCheck.Accounted.result (SpliceCheck.Accounted.foldl ⟨?_, fun k i hget => ?_⟩ _ _)
  · exact hcombine.congr fun a => by simp
  · obtain ⟨req, hreq, a, b, _, hasks, rfl⟩ := exists_asks_of_combine hget
    obtain ⟨c, huses⟩ := hasks.uses
    exact (hground.valid req hreq).transit_of_uses huses

end RequirementGroup

end PathPolicy
