import Mathlib.Data.Prod.Lex
import PathPolicy.Network.Numbered
import PathPolicy.Proofs.DepthFirst
import PathPolicy.Proofs.Dropout

/-! Forwarding loops. A requirement without heights has a router that its most preferred hops lead
back to. A conflict names this router, and the first of its most preferred next hops, whether or not
the loop goes over that one. -/

namespace PathPolicy

namespace Digraph

theorem edges_addEdges {g : Digraph} {es : List (Nat × Nat)} (h : (g.edges ++ es).Nodup) :
    (g.addEdges es).edges = g.edges ++ es := by
  induction es generalizing g with
  | nil => simp [addEdges]
  | cons e es ih =>
    have hno : (e.1, e.2) ∉ g.edges := fun hm =>
      List.disjoint_of_nodup_append h hm List.mem_cons_self
    have hadd : (g.addEdge e.1 e.2).edges = g.edges ++ [e] := by
      simp [addEdge, edges_addNode, hno]
    change ((g.addEdge e.1 e.2).addEdges es).edges = _
    rw [ih (by rwa [hadd, ← List.append_cons]), hadd, ← List.append_cons]

end Digraph

namespace HopRanks

variable {m : HopRanks} {a b d : RouterId}

/-- The most preferred hops are listed by router, and those of a router by next hop. -/
theorem preferredHops_pairwise (m : HopRanks) :
    m.preferredHops.Pairwise fun e f => e.1 < f.1 ∨ e.1 = f.1 ∧ e.2 < f.2 := by
  refine List.pairwise_flatMap.mpr ⟨fun x _ => ?_, m.ascending.imp fun {x y} hlt => ?_⟩
  · refine List.pairwise_map.mpr ((x.2.ascending.filter _).imp fun {e f} hlt => ?_)
    exact .inr ⟨rfl, Nat.compare_eq_lt.mp hlt⟩
  · intro e he f hf
    obtain ⟨_, _, rfl⟩ := List.mem_map.mp he
    obtain ⟨_, _, rfl⟩ := List.mem_map.mp hf
    exact .inl (Nat.compare_eq_lt.mp hlt)

theorem edges_preferred (m : HopRanks) (d : RouterId) :
    (m.preferred d).edges = m.preferredHops := by
  have hnil : (Digraph.empty.addNode d).edges = [] := Digraph.edges_addNode _ _
  have hnodup : m.preferredHops.Nodup := by
    refine m.preferredHops_pairwise.imp fun {e f} hlt he => ?_
    subst f
    rcases hlt with hlt | ⟨_, hlt⟩
    · exact lt_irrefl _ hlt
    · exact lt_irrefl _ hlt
  rw [preferred_eq, Digraph.edges_addEdges (by rwa [hnil, List.nil_append]), hnil, List.nil_append]

theorem successors_preferred_pairwise (m : HopRanks) (d a : RouterId) :
    ((m.preferred d).successors a).Pairwise (· < ·) := by
  rw [Digraph.successors, edges_preferred]
  refine List.pairwise_filterMap.mpr (m.preferredHops_pairwise.imp fun {e f} hlt b hb c hc => ?_)
  simp only [Option.ite_none_right_eq_some, Option.some.injEq] at hb hc
  obtain ⟨rfl, rfl⟩ := hb
  obtain ⟨hf, rfl⟩ := hc
  rcases hlt with hlt | ⟨_, hlt⟩
  · exact absurd hf hlt.ne'
  · exact hlt

/-- The first successor is the least one. -/
theorem headD_successors (h : (m.hops a).get? b = some 0) (x : RouterId) :
    (m.hops a).get? (((m.preferred d).successors a).headD x) = some 0 ∧
      ((m.preferred d).successors a).headD x ≤ b := by
  have hmem : ∀ c, c ∈ (m.preferred d).successors a ↔ (m.hops a).get? c = some 0 := fun c => by
    rw [Digraph.mem_successors, mem_edges_preferred]
  have hb := (hmem b).mpr h
  have hsorted := m.successors_preferred_pairwise d a
  rw [← hmem]
  cases hs : (m.preferred d).successors a with
  | nil => simp [hs] at hb
  | cons c cs =>
    rw [hs] at hb hsorted
    refine ⟨List.mem_cons_self, ?_⟩
    rcases List.mem_cons.mp hb with rfl | hb
    · exact le_rfl
    · exact ((List.pairwise_cons.mp hsorted).1 b hb).le

end HopRanks

namespace ResolvedRequirement

variable {t : Topology} {g : RequirementGroup} {req : ResolvedRequirement} {a b d : RouterId}

/-- The next hop is one of the most preferred ones. -/
def Favors (req : ResolvedRequirement) (a b : RouterId) : Prop :=
  (req.ranks.hops a).get? b = some 0

/-- The hop stands for a loop: its router lies on one, and its next hop is the first of the most
preferred ones there. -/
structure ReportsLoop (req : ResolvedRequirement) (a b : RouterId) : Prop where
  loop : Relation.TransGen req.Favors a a
  favors : req.Favors a b
  least : ∀ c, req.Favors a c → b ≤ c

theorem reportsLoop_of_heights (h : req.heights req.ranks d = .error (a, b)) :
    req.kind ≠ .kConnected ∧ req.ReportsLoop a b := by
  rw [heights] at h
  split at h
  · cases h
  · next hk =>
    refine ⟨hk, ?_⟩
    rw [preferredHeights] at h
    split at h
    · cases h
    · next x hx =>
      obtain ⟨rfl, rfl⟩ := Prod.mk.inj (Except.error.inj h)
      have hreaches := Digraph.reaches_of_topologicalOrder (HopRanks.preferred_wellFormed _ _) hx
      have hloop : Relation.TransGen req.Favors x x :=
        hreaches.lift id fun _ _ he => HopRanks.mem_edges_preferred.mp he
      obtain ⟨c, hc, _⟩ := Relation.TransGen.head'_iff.mp hloop
      exact ⟨hloop, (HopRanks.headD_successors hc x).1, fun c hc =>
        (HopRanks.headD_successors hc x).2⟩

/-- Of two routers, the one on a later first member is before the other one, and on the same member
the one with more routers left. -/
def stage (req : ResolvedRequirement) (a : RouterId) : Nat ×ₗ Nat :=
  toLex (req.paths.findIdx (a ∈ ·),
    (req.paths.find? (a ∈ ·)).elim 0 fun p => p.length - p.idxOf a)

theorem Valid.stage_lt (hv : req.Valid t d) {p : List RouterId}
    (hp : req.paths.find? (a ∈ ·) = some p) (hh : Hop p a b) : req.stage b < req.stage a := by
  obtain ⟨_, i, hi, rfl, hbefore⟩ := List.find?_eq_some_iff_getElem.mp hp
  have hindex : req.paths.findIdx (a ∈ ·) = i :=
    (List.findIdx_eq hi).mpr ⟨by simpa using hh.left_mem, by simpa using hbefore⟩
  -- The member of `a` has `b` on it too, so that of `b` is not a later one.
  have hle : req.paths.findIdx (b ∈ ·) ≤ i := by
    by_contra hlt
    have hno := List.not_of_lt_findIdx (Nat.lt_of_not_le hlt)
    simp [hh.right_mem] at hno
  refine Prod.Lex.toLex_lt_toLex.mpr ?_
  rw [hindex]
  rcases hle.lt_or_eq with hlt | heq
  · exact .inl hlt
  · have hfind : req.paths.find? (b ∈ ·) = some req.paths[i] := by
      have hsame := (List.findIdx_eq hi).mp heq
      exact List.find?_eq_some_iff_getElem.mpr ⟨hsame.1, i, hi, rfl, by simpa using hsame.2⟩
    have hlt : req.paths[i].idxOf b < req.paths[i].length :=
      List.idxOf_lt_length_of_mem hh.right_mem
    have hnext := hh.idxOf_right (hv.simple _ (List.getElem_mem hi))
    refine .inr ⟨heq, ?_⟩
    rw [hp, hfind, Option.elim_some, Option.elim_some]
    omega

/-- Alternatives have no loops, since each router follows the first of them that it is on. -/
theorem Valid.exists_heights_of_alternatives (hv : req.Valid t d)
    (hk : req.kind = .path ∨ req.kind = .order)
    (hsingle : req.kind = .path → ∃ p, req.paths = [p]) :
    ∃ heights, req.heights req.ranks d = .ok heights := by
  refine exists_heights req.stage fun a b h => ?_
  have hne := hv.ne_destination_of_uses (exists_get?_ranks.mp ⟨0, h⟩)
  obtain ⟨p, hp, hh⟩ := (expects_iff_find? hk).mp ((get?_ranks_eq_zero_iff hv hsingle hne).mp h)
  exact hv.stage_lt hp hh

theorem heights_of_intents {e : RouterId × RouterId} (h : req.intents t g = .error e) :
    req.heights req.ranks g.destination = .error e := by
  rw [intents] at h
  change (req.heights req.ranks g.destination >>= fun heights => _) = _ at h
  cases hh : req.heights req.ranks g.destination with
  | error e' =>
    rw [hh] at h
    exact congrArg Except.error (Except.error.inj h)
  | ok heights =>
    rw [hh] at h
    cases h

end ResolvedRequirement

/-- The conflicts that are forwarding loops name the hops that stand for them. -/
def NamesLoops (t : Topology) (g : RequirementGroup) (cs : List Conflict) : Prop :=
  ∀ c ∈ cs, c.reason = .forwardingLoop → ∃ req ∈ g.requirements, ∃ a b,
    req.intents t g = .error (a, b) ∧ c.requirement = req.reference ∧ c.node = t.name a ∧
      c.neighbor = t.name b

variable {t : Topology} {g : RequirementGroup} {req : ResolvedRequirement} {cs : List Conflict}
  {c : Conflict}

theorem NamesLoops.concat (h : NamesLoops t g cs) (hc : c.reason ≠ .forwardingLoop) :
    NamesLoops t g (cs ++ [c]) := by
  intro x hx hreason
  rcases List.mem_append.mp hx with hx | hx
  · exact h x hx hreason
  · exact absurd (List.mem_singleton.mp hx ▸ hreason) hc

namespace Commitments

variable {s : Commitments} {i : Intent} {is : List Intent}

theorem namesLoops_addIntent (h : NamesLoops t g s.conflicts) :
    NamesLoops t g (s.addIntent t i).conflicts := by
  rw [addIntent]
  split
  · exact h
  · split
    · exact h
    · next reason hreason => exact h.concat (Intent.clash?_ne_forwardingLoop hreason)

theorem namesLoops_foldl_addIntent (h : NamesLoops t g s.conflicts) :
    NamesLoops t g (is.foldl (addIntent t) s).conflicts := by
  induction is generalizing s with
  | nil => exact h
  | cons i is ih => exact ih (namesLoops_addIntent h)

theorem namesLoops_addRequirement (h : NamesLoops t g s.conflicts) (hreq : req ∈ g.requirements) :
    NamesLoops t g (s.addRequirement t g req).conflicts := by
  rw [addRequirement]
  split
  · next a b he =>
    intro c hc hreason
    rcases List.mem_append.mp hc with hc | hc
    · exact h c hc hreason
    · obtain rfl := List.mem_singleton.mp hc
      exact ⟨req, hreq, a, b, he, rfl, rfl, rfl⟩
  · next r _ =>
    rw [(foldl_addMaxPaths_fields req.reference _ r.maxPaths).2.2]
    exact namesLoops_foldl_addIntent h

theorem namesLoops_foldl_addRequirement {reqs : List ResolvedRequirement}
    (h : NamesLoops t g s.conflicts) (hreqs : reqs ⊆ g.requirements) :
    NamesLoops t g (reqs.foldl (addRequirement t g) s).conflicts := by
  induction reqs generalizing s with
  | nil => exact h
  | cons req reqs ih =>
    obtain ⟨hreq, hreqs⟩ := List.cons_subset.mp hreqs
    exact ih (namesLoops_addRequirement h hreq) hreqs

end Commitments

namespace SpliceCheck

variable {c : SpliceCheck} {members : List (List RouterId)} {path : List RouterId}

theorem namesLoops_checkHop (h : NamesLoops t g c.commitments.conflicts) (i : Nat)
    (a b : RouterId) :
    NamesLoops t g (c.checkHop t g.direction path i a b).commitments.conflicts := by
  rw [checkHop]
  dsimp only
  split
  · exact h
  · split
    · exact h
    · exact h.concat (by simp)

theorem namesLoops_checkPath (h : NamesLoops t g c.commitments.conflicts) :
    NamesLoops t g (c.checkPath t g.direction members path).commitments.conflicts := by
  rcases checkPath_cases t g.direction members c path with ⟨he, _⟩ | ⟨i, a, b, he, _⟩
  · rwa [he]
  · rw [he]
    exact namesLoops_checkHop h i a b

theorem namesLoops_foldl_checkPath {paths : List (List RouterId)}
    (h : NamesLoops t g c.commitments.conflicts) :
    NamesLoops t g (paths.foldl (checkPath t g.direction members) c).commitments.conflicts := by
  induction paths generalizing c with
  | nil => exact h
  | cons path paths ih => exact ih (namesLoops_checkPath h)

end SpliceCheck

namespace RequirementGroup

variable {community : Option Community} {policy : GroupPolicy}

theorem namesLoops_commitments (t : Topology) (g : RequirementGroup) :
    NamesLoops t g (g.commitments t).conflicts := by
  have hcombine : NamesLoops t g (g.combine t).conflicts :=
    Commitments.namesLoops_foldl_addRequirement (by simp [NamesLoops, Commitments.empty])
      fun _ h => mem_strictestFirst.mp h
  exact SpliceCheck.namesLoops_foldl_checkPath hcombine

/-- A forwarding loop is one of equally preferred next hops, and goes over the router that is named.
The named next hop is the first one of this router. -/
theorem named_router_on_loop (hg : g.Valid t)
    (hsingle : ∀ req ∈ g.requirements, req.kind = .path → ∃ p, req.paths = [p])
    (h : g.synthesize t community = .ok policy) (hc : c ∈ policy.conflicts)
    (hreason : c.reason = .forwardingLoop) :
    ∃ req ∈ g.requirements, c.requirement = req.reference ∧ req.kind = .ecmp ∧
      ∃ a b, c.node = t.name a ∧ c.neighbor = t.name b ∧ req.ReportsLoop a b ∧
        ((∀ b', req.Favors a b' → b' = b) → Relation.ReflTransGen req.Favors b a) := by
  rw [synthesize_ok h] at hc
  obtain ⟨req, hreq, a, b, he, href, hnode, hneighbor⟩ :=
    namesLoops_commitments t g c hc hreason
  have hheights := ResolvedRequirement.heights_of_intents he
  obtain ⟨hk, hloop⟩ := ResolvedRequirement.reportsLoop_of_heights hheights
  have hno : ¬ (req.kind = .path ∨ req.kind = .order) := by
    intro halt
    obtain ⟨heights, hok⟩ := (hg req hreq).exists_heights_of_alternatives halt (hsingle req hreq)
    simp [hheights] at hok
  have hecmp : req.kind = .ecmp := by
    cases hkind : req.kind <;> simp_all
  refine ⟨req, hreq, href, hecmp, a, b, hnode, hneighbor, hloop, fun honly => ?_⟩
  obtain ⟨b', hb', hback⟩ := Relation.TransGen.head'_iff.mp hloop.loop
  exact honly b' hb' ▸ hback

end RequirementGroup

/-! Two routers that are linked with each other and with the destination `D`. -/

namespace Network.Triangle

def topology : Topology := (ofLinks [("D", "A"), ("D", "B"), ("A", "B")]).toOption.getD .empty

def path (first second : String) : PathReq := ⟨.ospf, "D", [first, second, "D"], false⟩

def crossed : Requirement := .ecmp ⟨.ospf, "D", [path "A" "B", path "B" "A"], false⟩

def store : Store := ((Store.ofTopology topology).addAll [crossed]).1

def group : RequirementGroup := ⟨.ospf, 0, [⟨crossed.reference 0, false, [[1, 2, 0], [2, 1, 0]]⟩]⟩

theorem resolved : (Resolver.mk topology false).group store ⟨.ospf, "D"⟩ = .ok (some group) := by
  decide +kernel

theorem grounded : Resolver.Grounded topology group := by
  have hkey : ⟨.ospf, "D"⟩ ∈ store.keys := by decide +kernel
  exact (Resolver.group_ok resolved).grounded (Store.Filled.new.addAll [crossed]).sound hkey

theorem conflicts_eq : (group.synthesize topology none).toOption.map (fun p => p.conflicts) =
    some [⟨"B", "D", crossed.reference 0, none, .forwardingLoop⟩] := by cbv

theorem exists_policy : ∃ policy, group.synthesize topology none = .ok policy ∧
    policy.conflicts = [⟨"B", "D", crossed.reference 0, none, .forwardingLoop⟩] := by
  obtain ⟨policy, h⟩ := RequirementGroup.exists_policy grounded.valid (fun hno => absurd rfl hno) none
  have hconflicts := conflicts_eq
  rw [h] at hconflicts
  exact ⟨policy, h, Option.some.inj hconflicts⟩

theorem named_router_on_loop_triangle : ∃ policy, group.synthesize topology none = .ok policy ∧
    ∃ c ∈ policy.conflicts, c.reason = .forwardingLoop ∧
      ∃ req ∈ group.requirements, ∃ a, c.node = topology.name a ∧
        Relation.TransGen req.Favors a a := by
  obtain ⟨policy, h, hc⟩ := exists_policy
  have hmem : ⟨"B", "D", crossed.reference 0, none, .forwardingLoop⟩ ∈ policy.conflicts := by simp [hc]
  obtain ⟨req, hreq, _, _, a, _, hnode, _, hloop, _⟩ :=
    RequirementGroup.named_router_on_loop grounded.valid grounded.single h hmem rfl
  exact ⟨policy, h, _, hmem, rfl, req, hreq, a, hnode, hloop.loop⟩

/-- The next hop that is named together with `B` is the destination, which leads nowhere. -/
theorem named_hop_off_loop : ∃ policy, group.synthesize topology none = .ok policy ∧
    ∃ c ∈ policy.conflicts, c.reason = .forwardingLoop ∧ c.node = topology.name 2 ∧
      c.neighbor = topology.name group.destination ∧
      ∀ req ∈ group.requirements, ¬ Relation.ReflTransGen req.Favors group.destination 2 := by
  obtain ⟨policy, h, hc⟩ := exists_policy
  refine ⟨policy, h, ⟨"B", "D", crossed.reference 0, none, .forwardingLoop⟩, by simp [hc], rfl,
    by decide +kernel, by decide +kernel, fun req hreq hback => ?_⟩
  obtain he | ⟨b, hb, _⟩ := Relation.ReflTransGen.cases_head hback
  · exact absurd he (by decide)
  · have huses := ResolvedRequirement.exists_get?_ranks.mp ⟨0, hb⟩
    exact (grounded.valid req hreq).ne_destination_of_uses huses rfl

end Network.Triangle

end PathPolicy
