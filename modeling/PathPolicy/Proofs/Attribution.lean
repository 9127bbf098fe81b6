import PathPolicy.Proofs.Accumulation
import PathPolicy.Proofs.Marks

/-! Who is to blame for a conflict between groups. A rejected bundle of a group asks for a number in
a slot that holds another number, from the accepted bundle of an earlier group of the same protocol,
and the conflict names the requirements that asked for these two numbers. Clauses of BGP groups never
conflict with those of other groups. -/

namespace PathPolicy

/-- The router that the slot is about the traffic to or the routes from. -/
def Slot.neighbor : Slot → RouterId
  | .clause session _ => session.neighbor
  | .cost neighbor => neighbor
  | .staticRoute nextHop _ => nextHop

/-- The cost or the distance that a decision sets. Denied next hops get a cost, but no route. -/
def Decision.number? (protocol : Protocol) : Decision → Option Nat
  | .permit n => some n
  | .deny => if protocol = .ospf then some denyOspfCost else none

theorem exists_getElem?_of_forall₂ {α β : Type} {R : α → β → Prop} {xs : List α} {ys : List β}
    {y : β} {i : Nat} (h : List.Forall₂ R xs ys) (hy : ys[i]? = some y) :
    ∃ x, xs[i]? = some x ∧ R x y := by
  induction h generalizing i with
  | nil => simp at hy
  | cons hxy _ ih =>
    cases i with
    | zero =>
      obtain rfl := Option.some.inj hy
      exact ⟨_, rfl, hxy⟩
    | succ i => exact ih hy

/-- An element of a concatenation is in one of the parts or in what follows them. -/
theorem exists_append_of_flatMap_append {α β : Type} {f : α → List β} {xs : List α}
    {tail before after : List β} {y : β} (h : xs.flatMap f ++ tail = before ++ y :: after) :
    (∃ xs₁ x xs₂ ys₁ ys₂, xs = xs₁ ++ x :: xs₂ ∧ f x = ys₁ ++ y :: ys₂ ∧
      before = xs₁.flatMap f ++ ys₁) ∨
    ∃ ys₁, before = xs.flatMap f ++ ys₁ ∧ tail = ys₁ ++ y :: after := by
  induction xs generalizing before with
  | nil => exact .inr ⟨before, rfl, h⟩
  | cons x xs ih =>
    have hrest : ∀ ys, before = f x ++ ys → xs.flatMap f ++ tail = ys ++ y :: after →
        (∃ xs₁ x' xs₂ ys₁ ys₂, x :: xs = xs₁ ++ x' :: xs₂ ∧ f x' = ys₁ ++ y :: ys₂ ∧
          before = xs₁.flatMap f ++ ys₁) ∨
        ∃ ys₁, before = (x :: xs).flatMap f ++ ys₁ ∧ tail = ys₁ ++ y :: after := by
      rintro ys rfl hys
      rcases ih hys with ⟨xs₁, x', xs₂, ys₁, ys₂, rfl, hx', rfl⟩ | ⟨ys₁, rfl, htail⟩
      · exact .inl ⟨x :: xs₁, x', xs₂, ys₁, ys₂, rfl, hx', by simp⟩
      · exact .inr ⟨ys₁, by simp, htail⟩
    rw [List.flatMap_cons, List.append_assoc] at h
    rcases List.append_eq_append_iff.mp h with ⟨ys, hbefore, hys⟩ | ⟨ys, hx, hys⟩
    · exact hrest ys hbefore hys
    · cases ys with
      | nil => exact hrest [] (by simpa using hx.symm) (by simpa using hys.symm)
      | cons y' ys =>
        obtain ⟨rfl, rfl⟩ := List.cons.inj hys
        exact .inl ⟨[], x, xs, before, ys, rfl, hx, rfl⟩

/-- What a fold collects was there, or it comes from one of its steps. -/
theorem mem_foldl_iff {α β γ : Type} {f : β × List γ → α → β × List γ} {state : β × List γ}
    {xs : List α} {c : γ} (gives : β → α → Prop)
    (h : ∀ state x, c ∈ (f state x).2 ↔ c ∈ state.2 ∨ gives state.1 x) :
    c ∈ (xs.foldl f state).2 ↔ c ∈ state.2 ∨
      ∃ before x after, xs = before ++ x :: after ∧ gives (before.foldl f state).1 x := by
  induction xs generalizing state with
  | nil => simp
  | cons x xs ih =>
    rw [List.foldl_cons, ih, h, or_assoc]
    refine or_congr_right ⟨?_, ?_⟩
    · rintro (hc | ⟨before, y, after, rfl, hc⟩)
      · exact ⟨[], x, xs, rfl, hc⟩
      · exact ⟨x :: before, y, after, rfl, hc⟩
    · rintro ⟨before, y, after, heq, hc⟩
      cases before with
      | nil =>
        obtain ⟨rfl, rfl⟩ := List.cons.inj heq
        exact .inl hc
      | cons _ before =>
        obtain ⟨rfl, rfl⟩ := List.cons.inj heq
        exact .inr ⟨before, y, after, rfl, hc⟩

/-- A moment in the merge of groups: the groups that are done, the group whose turn it is, and the
ones that follow, and likewise for the bundles of the group. -/
structure MergeTurn where
  done : List GroupPolicy
  policy : GroupPolicy
  rest : List GroupPolicy
  before : List Bundle
  bundle : Bundle
  after : List Bundle

namespace MergeTurn

variable {x : MergeTurn} {s : Synthesizer} {ps : List GroupPolicy}

structure Of (x : MergeTurn) (ps : List GroupPolicy) : Prop where
  policies : ps = x.done ++ x.policy :: x.rest
  bundles : x.policy.bundles = x.before ++ x.bundle :: x.after

/-- The conflict that the merge of the bundle reports. -/
def outcome (x : MergeTurn) (s : Synthesizer) : Option Conflict :=
  ((s.stateBefore x.done x.policy x.before).1.merge s.topology x.bundle).2

/-- The bundles that are merged before. -/
def earlier (x : MergeTurn) : List Bundle := x.done.flatMap (·.bundles) ++ x.before

theorem outcome_eq (x : MergeTurn) (s : Synthesizer) :
    x.outcome s = ((PolicyModel.mergeAll s.topology x.earlier).merge s.topology x.bundle).2 := by
  rw [outcome, Synthesizer.stateBefore_fst, earlier]

theorem Of.policy_mem (h : x.Of ps) : x.policy ∈ ps := by
  rw [h.policies]
  simp

theorem Of.bundle_mem (h : x.Of ps) : x.bundle ∈ x.policy.bundles := by
  rw [h.bundles]
  simp

theorem Of.mem_of_mem_earlier (h : x.Of ps) {b : Bundle} (hb : b ∈ x.earlier) :
    ∃ p ∈ ps, b ∈ p.bundles := by
  rcases List.mem_append.mp hb with hb | hb
  · obtain ⟨p, hp, hbp⟩ := List.mem_flatMap.mp hb
    exact ⟨p, by rw [h.policies]; exact List.mem_append_left _ hp, hbp⟩
  · exact ⟨x.policy, h.policy_mem, by rw [h.bundles]; exact List.mem_append_left _ hb⟩

theorem Of.getElem?_policies (h : x.Of ps) : ps[x.done.length]? = some x.policy := by
  rw [h.policies]
  simp

/-- A bundle that was accepted before had a turn in an earlier group, or it is of the same group. -/
theorem Of.exists_earlier (h : x.Of ps) {b : Bundle}
    (hb : b ∈ PolicyModel.accepted s.topology x.earlier) :
    (∃ y : MergeTurn, y.Of ps ∧ y.done.length < x.done.length ∧ y.bundle = b ∧
      y.outcome s = none) ∨ b ∈ x.before := by
  obtain ⟨before, after, heq, hnone⟩ := PolicyModel.exists_append_of_mem_accepted hb
  rcases exists_append_of_flatMap_append heq with
    ⟨done, p, rest, bs, bs', hdone, hbundles, rfl⟩ | ⟨bs, _, hx⟩
  · let y : MergeTurn := ⟨done, p, rest ++ x.policy :: x.rest, bs, b, bs'⟩
    refine .inl ⟨y, ⟨?_, hbundles⟩, ?_, rfl, ?_⟩
    · rw [h.policies, hdone]
      simp [y]
    · rw [hdone]
      simp [y]
    · rw [outcome_eq]
      exact hnone
  · exact .inr (by simp [hx])

end MergeTurn

theorem Bundles.nodup_routers (m : Bundles) : (m.toList.map (·.router)).Nodup := by
  have hkeys : m.toList.map (·.router) = m.keys := by
    rw [toList, List.map_map, OrderedMap.keys]
    rfl
  rw [hkeys]
  exact OrderedMap.keys_nodup m

namespace RequirementGroup

variable {t : Topology} {g : RequirementGroup} {community : Option Community} {p : GroupPolicy}
  {a : RouterId} {e : PolicyEntry} {slot : Slot} {n : Nat}

/-- The group sets costs of interfaces or distances of its networks. -/
def Governs (g : RequirementGroup) (t : Topology) : Slot → Prop
  | .clause _ _ => False
  | .cost _ => g.protocol = .ospf
  | .staticRoute _ network => g.protocol = .static ∧ network ∈ g.networks t

theorem Governs.protocol_eq {g' : RequirementGroup} (h : g.Governs t slot)
    (h' : g'.Governs t slot) : g.protocol = g'.protocol := by
  cases slot with
  | clause session conditions => exact h.elim
  | cost neighbor => exact Eq.trans h (Eq.symm h')
  | staticRoute nextHop network => exact h.1.trans h'.1.symm

/-- The group has decided on the number, and the bundle sets it for the requirement that asks for
it. -/
structure Sets (g : RequirementGroup) (t : Topology) (p : GroupPolicy) (bundle : Bundle)
    (slot : Slot) (n : Nat) (o : RequirementRef) : Prop where
  governs : g.Governs t slot
  entry : ∃ e ∈ bundle.entries, e.setting? = some (slot, .number n) ∧ e.origin = o
  decided : ∃ d, p.decisions.get? ⟨bundle.router, slot.neighbor, .outgoing⟩ = some d ∧
    d.number? g.protocol = some n
  asked : ∃ req ∈ g.requirements, req.reference = o ∧ ∃ i ∈ (req.asked t g).intents,
    i.key = ⟨bundle.router, slot.neighbor, .outgoing⟩ ∧ i.decision.number? g.protocol = some n

theorem exists_asked {k : PolicyKey} {i : Intent} (h : (g.commitments t).intents.get? k = some i) :
    i.key = k ∧ ∃ req ∈ g.requirements, req.reference = i.origin ∧ i ∈ (req.asked t g).intents := by
  rw [(g.combine_spliced t).intents] at h
  obtain ⟨hm, rfl⟩ := (g.combine_combines t).covers.committed k i h
  obtain ⟨req, hreq, hi⟩ := List.mem_flatMap.mp hm
  obtain ⟨r, heights, _, hover, hir⟩ := ResolvedRequirement.mem_asked.mp hi
  obtain ⟨_, _, _, _, rfl⟩ := (hover.mem_iff i).mp hir
  exact ⟨rfl, req, mem_strictestFirst.mp hreq, rfl, hi⟩

/-- What a lowered decision sets. -/
theorem governs_of_mem_lower {k : PolicyKey} {d : Decision} {q : Primitive} {o : RequirementRef}
    (hq : q ∈ (g.mark t community).lower k.neighbor d)
    (hset : (⟨k, q, o⟩ : PolicyEntry).setting? = some (slot, .number n)) :
    g.Governs t slot ∧ slot.neighbor = k.neighbor ∧ g.direction = .outgoing ∧
      d.number? g.protocol = some n := by
  cases slot with
  | clause session conditions =>
    obtain ⟨_, _, _, _, heffect⟩ := PolicyEntry.exists_clause_of_setting? hset
    cases heffect
  | cost neighbor =>
    obtain ⟨m, rfl, hneighbor, hm⟩ := PolicyEntry.exists_cost_of_setting? hset
    obtain ⟨hospf, rfl⟩ := ospfCost_of_mem_lower hq
    have hprotocol : g.protocol = .ospf := hospf
    obtain rfl := Setting.number.inj hm
    refine ⟨hprotocol, hneighbor.symm, by rw [direction, hprotocol]; rfl, ?_⟩
    cases d <;> simp [Decision.number?, GroupMark.cost, hprotocol]
  | staticRoute nextHop network =>
    obtain ⟨r, rfl, hhop, hnetwork, hdistance⟩ := PolicyEntry.exists_staticRoute_of_setting? hset
    obtain ⟨hstatic, hneighbor, rfl, hmem⟩ := staticRoute_of_mem_lower hq
    have hprotocol : g.protocol = .static := hstatic
    obtain rfl := Setting.number.inj hdistance
    refine ⟨⟨hprotocol, hnetwork ▸ hmem⟩, hhop.symm.trans hneighbor,
      by rw [direction, hprotocol]; rfl, rfl⟩

theorem sets_of_mem_bundles {bundle : Bundle} (hp : g.synthesize t community = .ok p)
    (hb : bundle ∈ p.bundles) (he : e ∈ bundle.entries)
    (hset : e.setting? = some (slot, .number n)) :
    g.Sets t p bundle slot n e.origin ∧ e.key = ⟨bundle.router, slot.neighbor, .outgoing⟩ := by
  rw [Synthesizer.bundles_of_synthesize hp] at hb
  have hentry : ∃ x ∈ bundle.entries, x.setting? = some (slot, .number n) ∧ x.origin = e.origin :=
    ⟨e, he, hset, rfl⟩
  cases Bundled.of_mem hb he with
  | @decision k i q hget hrouter hconf hq =>
    obtain ⟨hgoverns, hneighbor, hdir, hnumber⟩ := governs_of_mem_lower hq hset
    obtain ⟨_, _, _, _, _, _, hk⟩ := exists_asks hget
    have hkey : k = ⟨bundle.router, slot.neighbor, .outgoing⟩ := by
      rw [← hrouter, hneighbor, ← hdir, hk]
    obtain ⟨hi, req, hreq, href, hasked⟩ := exists_asked hget
    refine ⟨⟨hgoverns, hentry, ⟨i.decision, ?_, hnumber⟩, req, hreq, href, i, hasked,
      hi.trans hkey, hnumber⟩, hkey⟩
    rw [get?_decisions hp, ← hkey, hget, hrouter, hconf]
    rfl
  | network _ _ _ _ => cases hset
  | maxPaths _ _ => cases hset

end RequirementGroup

theorem RequirementGroup.nodup_routers_of_synthesize {t : Topology} {g : RequirementGroup}
    {community : Option Community} {p : GroupPolicy} (hp : g.synthesize t community = .ok p) :
    (p.bundles.map (·.router)).Nodup := by
  rw [Synthesizer.bundles_of_synthesize hp]
  exact Bundles.nodup_routers _

namespace Synthesizer

open PolicyModel RequirementGroup

variable {s : Synthesizer} {store : Store} {gs : List RequirementGroup} {ps : List GroupPolicy}
  {x y : MergeTurn} {c : Conflict} {bs : List Bundle} {state : PolicyModel × List Conflict}
  {model : PolicyModel} {conflicts : List Conflict}

theorem mem_conflicts_foldl_mergeBundle : c ∈ (bs.foldl s.mergeBundle state).2 ↔ c ∈ state.2 ∨
    ∃ before b after, bs = before ++ b :: after ∧
      ((before.foldl s.mergeBundle state).1.merge s.topology b).2 = some c := by
  refine mem_foldl_iff (fun (m : PolicyModel) b => (m.merge s.topology b).2 = some c)
    fun state b => ?_
  rw [mergeBundle_snd, List.mem_append, Option.mem_toList]

theorem mem_conflicts_foldl_mergeGroup : c ∈ (ps.foldl s.mergeGroup state).2 ↔ c ∈ state.2 ∨
    ∃ done p rest, ps = done ++ p :: rest ∧
      c ∈ (s.mergeGroup ((done.foldl s.mergeGroup state).1, []) p).2 := by
  refine mem_foldl_iff (fun (m : PolicyModel) p => c ∈ (s.mergeGroup (m, []) p).2)
    fun state p => ?_
  simp only [mergeGroup, mem_conflicts_foldl_mergeBundle, foldl_mergeBundle_fst, List.mem_append,
    List.not_mem_nil, false_or, or_assoc]

/-- The conflicts of a run are those within the groups and those of the turns. -/
theorem mem_conflicts_iff : c ∈ (ps.foldl s.mergeGroup (.empty, [])).2 ↔
    (∃ p ∈ ps, c ∈ p.conflicts) ∨ ∃ x : MergeTurn, x.Of ps ∧ x.outcome s = some c := by
  rw [mem_conflicts_foldl_mergeGroup]
  simp only [mergeGroup, mem_conflicts_foldl_mergeBundle, List.nil_append, List.not_mem_nil,
    false_or]
  constructor
  · rintro ⟨done, p, rest, rfl, hc | ⟨before, b, after, hbs, hc⟩⟩
    · exact .inl ⟨p, by simp, hc⟩
    · refine .inr ⟨⟨done, p, rest, before, b, after⟩, ⟨rfl, hbs⟩, ?_⟩
      rw [← hc, MergeTurn.outcome, stateBefore, foldl_mergeBundle_fst, foldl_mergeBundle_fst]
  · rintro (⟨p, hp, hc⟩ | ⟨x, hx, hc⟩)
    · obtain ⟨done, rest, rfl⟩ := List.append_of_mem hp
      exact ⟨done, p, rest, rfl, .inl hc⟩
    · refine ⟨x.done, x.policy, x.rest, hx.policies,
        .inr ⟨x.before, x.bundle, x.after, hx.bundles, ?_⟩⟩
      rw [← hc, MergeTurn.outcome, stateBefore, foldl_mergeBundle_fst, foldl_mergeBundle_fst]

section Groups

variable (hf : List.Forall₂ (fun x p => x.1.synthesize s.topology x.2 = .ok p) (s.marked gs) ps)

include hf

/-- The group whose turn it is. -/
theorem exists_group_of_turn (hx : x.Of ps) : ∃ g community, gs[x.done.length]? = some g ∧
    (g, community) ∈ s.marked gs ∧ g.synthesize s.topology community = .ok x.policy := by
  obtain ⟨⟨g, community⟩, hget, hsyn⟩ := exists_getElem?_of_forall₂ hf hx.getElem?_policies
  refine ⟨g, community, ?_, List.mem_of_getElem? hget, hsyn⟩
  have hfst := congrArg (Option.map Prod.fst) hget
  rw [← List.getElem?_map, map_fst_marked] at hfst
  exact hfst

/-- Clauses with the same conditions for the same neighbor have the same effect. -/
theorem clause_settings_agree {p p' : GroupPolicy} {b b' : Bundle} {e e' : PolicyEntry}
    {session : Session} {conditions : List Condition} {v v' : Setting} (hp : p ∈ ps)
    (hb : b ∈ p.bundles) (he : e ∈ b.entries)
    (hv : e.setting? = some (.clause session conditions, v)) (hp' : p' ∈ ps)
    (hb' : b' ∈ p'.bundles) (he' : e' ∈ b'.entries)
    (hv' : e'.setting? = some (.clause session conditions, v')) (hrouter : b'.router = b.router) :
    v' = v := by
  obtain ⟨x, hx, hsyn⟩ := exists_mem_marked_of_mem hf hp
  obtain ⟨x', hx', hsyn'⟩ := exists_mem_marked_of_mem hf hp'
  rw [bundles_of_synthesize hsyn] at hb
  rw [bundles_of_synthesize hsyn'] at hb'
  obtain ⟨c, hc, hsession, hconditions, rfl⟩ := PolicyEntry.exists_clause_of_setting? hv
  obtain ⟨c', hc', hsession', hconditions', rfl⟩ := PolicyEntry.exists_clause_of_setting? hv'
  obtain ⟨hbgp, _, _, d, hd, hclause⟩ := (Bundled.of_mem hb he).of_clause hc
  obtain ⟨hbgp', _, _, d', hd', hclause'⟩ := (Bundled.of_mem hb' he').of_clause hc'
  have hsame : c'.conditions = c.conditions := hconditions'.trans hconditions.symm
  have hlist : c.prefixList? = c'.prefixList? := by
    rw [Clause.prefixList?, Clause.prefixList?, hsame]
  obtain rfl := eq_of_clauses hx hx' hbgp hbgp' hclause hclause' hlist
  have hneighbor : e'.key.neighbor = e.key.neighbor :=
    congrArg Session.neighbor (hsession'.trans hsession.symm)
  rw [hrouter, hneighbor, hd] at hd'
  obtain rfl := Option.some.inj hd'
  rw [hneighbor] at hclause'
  rw [GroupMark.eq_of_conditions hclause hclause' hsame]

/-- A conflict at a turn of `g` is with what an earlier turn, one of another group `g'` of the same
protocol, has set on the same router. It names the requirements that ask for the two values. -/
structure Attributed (s : Synthesizer) (x y : MergeTurn) (g g' : RequirementGroup) (c : Conflict) :
    Prop where
  earlier : y.done.length < x.done.length
  router : y.bundle.router = x.bundle.router
  merged : y.outcome s = none
  protocol : g'.protocol = g.protocol
  destination : g'.destination ≠ g.destination
  values : ∃ slot existing requested other, existing ≠ requested ∧
    g'.Sets s.topology y.policy y.bundle slot existing other ∧
    g.Sets s.topology x.policy x.bundle slot requested c.requirement ∧
    c = ⟨s.topology.name x.bundle.router, s.topology.name slot.neighbor, c.requirement, some other,
      .valueMismatch existing requested⟩

theorem exists_attributed (hdistinct : gs.Pairwise Resolver.Distinct) (hx : x.Of ps)
    (hc : x.outcome s = some c) :
    ∃ y g g', y.Of ps ∧ gs[x.done.length]? = some g ∧ gs[y.done.length]? = some g' ∧
      Attributed s x y g g' c := by
  have hconsistent : ∀ b ∈ x.earlier, b.Consistent := fun b hb => by
    obtain ⟨p, hp, hbp⟩ := hx.mem_of_mem_earlier hb
    exact consistent_of_mem hf p hp b hbp
  rw [MergeTurn.outcome_eq] at hc
  obtain ⟨e, he, b, hb, hrouter, e', he', slot, v, v', hv, hv', hne, hconflict, hreason⟩ :=
    exists_rival_of_merge hconsistent hc
  obtain ⟨g, community, hg, _, hsyn⟩ := exists_group_of_turn hf hx
  have hother : b ∉ x.before := fun hmem => by
    -- a group has one bundle for each router
    have hnodup := RequirementGroup.nodup_routers_of_synthesize hsyn
    rw [hx.bundles, List.map_append, List.map_cons] at hnodup
    exact List.disjoint_of_nodup_append hnodup (List.mem_map_of_mem hmem)
      (hrouter ▸ List.mem_cons_self)
  obtain ⟨y, hy, hlt, rfl, hmerged⟩ := (hx.exists_earlier hb).resolve_right hother
  obtain ⟨g', community', hg', _, hsyn'⟩ := exists_group_of_turn hf hy
  have hnumbers : (∃ n, v = .number n) ∧ ∃ n, v' = .number n := by
    cases slot with
    | clause session conditions =>
      exact absurd (clause_settings_agree hf hx.policy_mem hx.bundle_mem he hv hy.policy_mem
        hy.bundle_mem he' hv' hrouter) hne
    | cost neighbor =>
      obtain ⟨n, _, _, rfl⟩ := PolicyEntry.exists_cost_of_setting? hv
      obtain ⟨n', _, _, rfl⟩ := PolicyEntry.exists_cost_of_setting? hv'
      exact ⟨⟨n, rfl⟩, n', rfl⟩
    | staticRoute nextHop network =>
      obtain ⟨r, _, _, _, rfl⟩ := PolicyEntry.exists_staticRoute_of_setting? hv
      obtain ⟨r', _, _, _, rfl⟩ := PolicyEntry.exists_staticRoute_of_setting? hv'
      exact ⟨⟨_, rfl⟩, _, rfl⟩
  obtain ⟨⟨requested, rfl⟩, existing, rfl⟩ := hnumbers
  obtain ⟨hsets, hkey⟩ := sets_of_mem_bundles hsyn hx.bundle_mem he hv
  obtain ⟨hsets', _⟩ := sets_of_mem_bundles hsyn' hy.bundle_mem he' hv'
  have horigin : c.requirement = e.origin := congrArg Conflict.requirement hconflict
  have hprotocol : g'.protocol = g.protocol := hsets'.governs.protocol_eq hsets.governs
  refine ⟨y, g, g', hy, hg, hg', hlt, hrouter, hmerged, hprotocol, ?_, slot, existing, requested,
    e'.origin, fun heq => hne (congrArg Setting.number heq), hsets', horigin ▸ hsets, ?_⟩
  · obtain ⟨hi, rfl⟩ := List.getElem?_eq_some_iff.mp hg'
    obtain ⟨hj, rfl⟩ := List.getElem?_eq_some_iff.mp hg
    exact List.pairwise_iff_getElem.mp hdistinct _ _ hi hj hlt hprotocol
  · rw [hkey, hreason existing requested rfl rfl, ← horigin] at hconflict
    exact hconflict

end Groups

/-- Conflicts that are not within a group are genuine, and they are attributed to the right
requirements. -/
theorem merge_conflicts_attributed (h : s.synthesizePartial store = .ok (model, conflicts)) :
    ∃ gs ps, s.groups store = .ok gs ∧ s.groupPolicies gs = .ok ps ∧
      (∀ c, c ∈ conflicts ↔
        (∃ p ∈ ps, c ∈ p.conflicts) ∨ ∃ x : MergeTurn, x.Of ps ∧ x.outcome s = some c) ∧
      ∀ x c, x.Of ps → x.outcome s = some c → ∃ y g g', y.Of ps ∧
        gs[x.done.length]? = some g ∧ gs[y.done.length]? = some g' ∧ Attributed s x y g g' c := by
  obtain ⟨gs, hgs, h⟩ := bind_eq_ok h
  obtain ⟨ps, hps, h⟩ := bind_eq_ok h
  obtain ⟨_, rfl⟩ := Prod.mk.inj (Except.ok.inj h)
  have hdistinct := (Resolver.groups_ok (groups_ok hgs)).2
  exact ⟨gs, ps, hgs, hps, fun c => mem_conflicts_iff,
    fun x c hx hc => exists_attributed (groupPolicies_ok hps) hdistinct hx hc⟩

end Synthesizer

namespace Network.Diamond

/-- Traffic from `S` avoids `A` on its way to `B`, and takes it on its way to `D`. -/
def contested : Store :=
  ((Store.ofTopology topology).addAll
    [.path (path .ospf "A"), .path ⟨.ospf, "B", ["S", "B"], false⟩]).1

theorem contested_conflicts : (run.synthesizePartial contested).toOption.map
    (fun r => r.2.map (·.reason)) = some [.valueMismatch 65535 1] := by cbv

theorem contested_policies : ((run.groups contested).toOption.bind fun gs =>
    (run.groupPolicies gs).toOption.map (·.flatMap (·.conflicts))) = some [] := by cbv

/-- The group of `B` comes first, and its cost for the interface toward `A` stays. -/
theorem merge_conflicts_attributed_contested : ∃ model c gs ps x y g g',
    run.synthesizePartial contested = .ok (model, [c]) ∧ c.reason = .valueMismatch 65535 1 ∧
      run.groups contested = .ok gs ∧ run.groupPolicies gs = .ok ps ∧
      x.Of ps ∧ x.outcome run = some c ∧ y.Of ps ∧
      gs[x.done.length]? = some g ∧ gs[y.done.length]? = some g' ∧
      Synthesizer.Attributed run x y g g' c := by
  have hrun := contested_conflicts
  cases hresult : run.synthesizePartial contested with
  | error e => simp [hresult, Except.toOption] at hrun
  | ok r =>
    obtain ⟨model, conflicts⟩ := r
    rw [hresult] at hrun
    obtain ⟨c, rfl, hreason⟩ := List.map_eq_singleton_iff.mp (Option.some.inj hrun)
    obtain ⟨gs, ps, hgs, hps, hconflicts, hall⟩ :=
      Synthesizer.merge_conflicts_attributed hresult
    have hsilent : ps.flatMap (·.conflicts) = [] := by
      have hpolicies := contested_policies
      rw [hgs] at hpolicies
      change (run.groupPolicies gs).toOption.map _ = _ at hpolicies
      rw [hps] at hpolicies
      exact Option.some.inj hpolicies
    rcases (hconflicts c).mp List.mem_cons_self with ⟨p, hp, hc⟩ | ⟨x, hx, hc⟩
    · exact absurd (List.mem_flatMap.mpr ⟨p, hp, hc⟩) (by simp [hsilent])
    · obtain ⟨y, g, g', hy, hg, hg', hattributed⟩ := hall x c hx hc
      exact ⟨model, c, gs, ps, x, y, g, g', rfl, hreason, hgs, hps, hx, hc, hy, hg, hg',
        hattributed⟩

end Network.Diamond

end PathPolicy
