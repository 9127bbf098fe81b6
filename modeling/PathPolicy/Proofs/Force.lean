import PathPolicy.Forwarding.Bgp
import PathPolicy.Proofs.RouteMap
import PathPolicy.Proofs.Run

/-! The policy of a group that no conflict blames is in force in the final model: its costs, its
numbers of paths, its announcement, and its route maps, whatever the other groups add. -/

namespace PathPolicy

namespace RequirementGroup

/-- No conflict has a requirement of the group as the one that it blames. -/
def Unblamed (g : RequirementGroup) (conflicts : List Conflict) : Prop :=
  ∀ c ∈ conflicts, ∀ req ∈ g.requirements, c.requirement ≠ req.reference

def decision? (g : RequirementGroup) (t : Topology) (a b : RouterId) : Option Decision :=
  ((g.commitments t).intents.get? ⟨a, b, g.direction⟩).map (·.decision)

theorem get?_decisions_eq_some_iff {t : Topology} {g : RequirementGroup}
    {community : Option Community} {p : GroupPolicy} {k : PolicyKey} {d : Decision}
    (h : g.synthesize t community = .ok p) : p.decisions.get? k = some d ↔
      k.direction = g.direction ∧ g.decision? t k.router k.neighbor = some d ∧
        (g.commitments t).isConflicted k.router = false := by
  rw [get?_decisions h]
  simp only [Option.map_eq_some_iff, Option.filter_eq_some_iff, Bool.not_eq_true']
  constructor
  · rintro ⟨i, ⟨hget, hc⟩, rfl⟩
    obtain ⟨_, _, a, b, _, _, rfl⟩ := exists_asks hget
    exact ⟨rfl, by rw [decision?, hget, Option.map_some], hc⟩
  · rintro ⟨hdir, hd, hc⟩
    obtain ⟨i, hget, rfl⟩ := Option.map_eq_some_iff.mp hd
    rw [← hdir] at hget
    exact ⟨i, ⟨hget, hc⟩, rfl⟩

/-- Each decision of a router without conflict leads to entries. -/
theorem exists_bundled_of_decision {t : Topology} {g : RequirementGroup} {mark : GroupMark}
    {a b : RouterId} {d : Decision} {q : Primitive} (hc : (g.commitments t).isConflicted a = false)
    (hd : g.decision? t a b = some d) (hq : q ∈ mark.lower b d) :
    ∃ e, Bundled g mark (g.commitments t) a e ∧ e.key = ⟨a, b, g.direction⟩ ∧ e.primitive = q := by
  obtain ⟨i, hget, rfl⟩ := Option.map_eq_some_iff.mp hd
  exact ⟨_, .decision hget rfl hc hq, rfl, rfl⟩

def Allows (g : RequirementGroup) (t : Topology) (a b : RouterId) : Prop :=
  ∃ v, g.decision? t a b = some (.permit v)

/-- The group ends up without any conflict. -/
def Clear (g : RequirementGroup) (t : Topology) : Prop :=
  ∀ a, (g.commitments t).isConflicted a = false

section Clear

variable {t : Topology} {g : RequirementGroup} {req : ResolvedRequirement} {a b c : RouterId}

theorem exists_heights (hc : g.Clear t) (hreq : req ∈ g.requirements)
    (hv : req.Valid t g.destination) (huses : req.Uses a c) :
    ∃ heights, req.heights req.ranks g.destination = .ok heights := by
  obtain ⟨heights, hh, _⟩ := exists_settled hreq hv huses (hc a)
  exact ⟨heights, hh⟩

theorem decision_of_strict (hc : g.Clear t) (hreq : req ∈ g.requirements)
    (hv : req.Valid t g.destination) (hk : req.kind ≠ .kConnected) {heights : List (RouterId × Nat)}
    (hh : req.heights req.ranks g.destination = .ok heights) (huses : req.Uses a c)
    (hadj : t.adjacent a b = true) :
    g.decision? t a b = some (req.decisionFor t g heights a b) := by
  obtain ⟨heights', hh', hall⟩ := exists_settled hreq hv huses (hc a)
  obtain rfl : heights = heights' := Except.ok.inj (hh.symm.trans hh')
  obtain ⟨e, hget, hclash⟩ := hall b hadj
  have hdefers : (req.intentFor t g heights a b).defers = false := by
    simp [ResolvedRequirement.intentFor, hk]
  rw [decision?, hget, Option.map_some, Intent.decision_eq_of_clash? hclash hdefers]
  rfl

theorem decision_of_rank (hc : g.Clear t) (hreq : req ∈ g.requirements)
    (hv : req.Valid t g.destination) (hk : req.kind ≠ .kConnected) {heights : List (RouterId × Nat)}
    (hh : req.heights req.ranks g.destination = .ok heights) {rank : Nat}
    (h : (req.ranks.hops a).get? b = some rank) :
    g.decision? t a b = some (.permit
      (permitValue g.protocol req.kind t.size req.ranks heights a b rank)) := by
  have huses : req.Uses a b := ResolvedRequirement.exists_get?_ranks.mp ⟨rank, h⟩
  rw [decision_of_strict hc hreq hv hk hh huses (hv.adjacent_of_uses huses)]
  exact congrArg some (ResolvedRequirement.decisionFor_eq_permit_iff.mpr ⟨rank, h, rfl⟩)

theorem exists_permit_of_uses (hc : g.Clear t) (hreq : req ∈ g.requirements)
    (hv : req.Valid t g.destination) (huses : req.Uses a b) :
    ∃ v, g.decision? t a b = some (.permit v) := by
  obtain ⟨heights, _, hall⟩ := exists_settled hreq hv huses (hc a)
  obtain ⟨e, hget, hclash⟩ := hall b (hv.adjacent_of_uses huses)
  obtain ⟨v, hv⟩ := ResolvedRequirement.exists_decisionFor_of_uses t g heights huses
  obtain ⟨w, hw⟩ := Intent.permits_of_clash? hclash hv
  exact ⟨w, by rw [decision?, hget, Option.map_some, hw]⟩

theorem exists_decision_of_adjacent (hc : g.Clear t) (hv : g.Valid t) (ha : g.Involves a)
    (hadj : t.adjacent a b = true) : ∃ d, g.decision? t a b = some d := by
  obtain ⟨req, hreq, c, huses⟩ := ha.exists_uses hv
  obtain ⟨_, _, hall⟩ := exists_settled hreq (hv req hreq) huses (hc a)
  obtain ⟨e, hget, _⟩ := hall b hadj
  exact ⟨e.decision, by rw [decision?, hget]; rfl⟩

theorem exists_asks_of_decision {d : Decision} (h : g.decision? t a b = some d) :
    ∃ req ∈ g.requirements, ∃ heights, req.heights req.ranks g.destination = .ok heights ∧
      (∃ c, req.Uses a c) ∧ t.adjacent a b = true ∧ d = req.decisionFor t g heights a b := by
  obtain ⟨i, hget, rfl⟩ := Option.map_eq_some_iff.mp h
  obtain ⟨req, hreq, a', b', heights, hasks, hk⟩ := exists_asks hget
  obtain ⟨rfl, rfl, _⟩ : a = a' ∧ b = b' ∧ True := by simpa using hk
  exact ⟨req, hreq, heights, hasks.heights_eq, hasks.uses, hasks.adjacent, by
    rw [hasks.intent_eq]; rfl⟩

theorem exists_uses_of_permit {v : Nat} (h : g.decision? t a b = some (.permit v)) :
    ∃ req ∈ g.requirements, req.Uses a b := by
  obtain ⟨req, hreq, heights, _, _, _, hd⟩ := exists_asks_of_decision h
  exact ⟨req, hreq, ResolvedRequirement.uses_of_decisionFor hd.symm⟩

theorem involves_of_uses (hreq : req ∈ g.requirements) (h : req.Uses a b)
    (hb : b ≠ g.destination) : g.Involves b := by
  obtain ⟨p, hp, hh⟩ := h
  exact ⟨hb, p, mem_paths.mpr ⟨req, hreq, hp⟩, hh.right_mem⟩

theorem Allows.involves (h : g.Allows t a b) (hb : b ≠ g.destination) : g.Involves b := by
  obtain ⟨v, hv⟩ := h
  obtain ⟨req, hreq, huses⟩ := exists_uses_of_permit hv
  exact involves_of_uses hreq huses hb

end Clear

/-- No two of the BGP groups have a network in common. -/
def NetworksDisjoint (t : Topology) (gs : List RequirementGroup) : Prop :=
  ∀ g ∈ gs, ∀ g' ∈ gs, g.protocol = .bgp → g'.protocol = .bgp → g.destination ≠ g'.destination →
    (g.networks t).Disjoint (g'.networks t)

theorem disjoint_of_store {v : Resolver} {store : Store} {gs : List RequirementGroup}
    {protocol : Protocol} (hs : store.Sound)
    (hd : ∀ r ∈ store.requirements, ∀ r' ∈ store.requirements, r.protocol = protocol →
      r'.protocol = protocol → r.destination ≠ r'.destination →
        (v.topology.networksOf r.destination).Disjoint (v.topology.networksOf r'.destination))
    (h : v.groups store = .ok gs) :
    ∀ g ∈ gs, ∀ g' ∈ gs, g.protocol = protocol → g'.protocol = protocol →
      g.destination ≠ g'.destination → (g.networks v.topology).Disjoint (g'.networks v.topology) := by
  intro g hg g' hg' hp hp' hne x hx hx'
  obtain ⟨key, hkey, hres⟩ := (Resolver.groups_ok h).1 g hg
  obtain ⟨key', hkey', hres'⟩ := (Resolver.groups_ok h).1 g' hg'
  have hex : ∀ {k : GroupKey}, k ∈ store.keys → ∃ r ∈ store.requirements, r.key = k := by
    intro k hk
    obtain ⟨⟨i, r⟩, hr⟩ := List.exists_mem_of_ne_nil _ (hs.group_ne_nil_of_mem_keys hk)
    exact ⟨r, hs.of_mem_group hr⟩
  obtain ⟨r, hr, rfl⟩ := hex hkey
  obtain ⟨r', hr', rfl⟩ := hex hkey'
  refine hd r hr r' hr' (hres.protocol.trans hp) (hres'.protocol.trans hp') (fun hdest => hne ?_)
    (hres.mem_networks_iff.mp hx) (hres'.mem_networks_iff.mp hx')
  have hsame := hres'.destination
  rw [show r'.key.destination = r.key.destination from hdest.symm, hres.destination] at hsame
  exact Option.some.inj hsame

theorem networksDisjoint_of_store {v : Resolver} {store : Store} {gs : List RequirementGroup}
    (hs : store.Sound) (hd : store.NetworksDisjoint v.topology) (h : v.groups store = .ok gs) :
    NetworksDisjoint v.topology gs :=
  disjoint_of_store hs hd h

end RequirementGroup

namespace Synthesizer

open RequirementGroup

variable {s : Synthesizer} {gs : List RequirementGroup} {model : PolicyModel}
  {conflicts : List Conflict} {entries : RouterId → List PolicyEntry} {g : RequirementGroup}
  {community : Option Community} {req : ResolvedRequirement} {a b c : RouterId}

/-- Groups of one protocol that have a network in common are the same, where destinations share no
networks. -/
theorem eq_of_common_network {protocol : Protocol} (hdistinct : gs.Pairwise Resolver.Distinct)
    (hdisjoint : ∀ g ∈ gs, ∀ g' ∈ gs, g.protocol = protocol → g'.protocol = protocol →
      g.destination ≠ g'.destination → (g.networks s.topology).Disjoint (g'.networks s.topology))
    {x y : RequirementGroup × Option Community} (hx : x ∈ s.marked gs) (hy : y ∈ s.marked gs)
    (hxp : x.1.protocol = protocol) (hyp : y.1.protocol = protocol) {network : Address}
    (hxn : network ∈ x.1.networks s.topology) (hyn : network ∈ y.1.networks s.topology) : x = y := by
  refine eq_of_mem_marked hdistinct hx hy (hxp.trans hyp.symm) ?_
  by_contra hne
  exact hdisjoint x.1 (mem_of_mem_marked hx) y.1 (mem_of_mem_marked hy) hxp hyp hne hxn hyn

namespace Ran

theorem holds (h : s.Ran gs model conflicts entries) (a : RouterId) :
    ((entries a).foldl NodePolicy.commit .empty).Holds (entries a) :=
  NodePolicy.holds_foldl_commit (h.agree a)

theorem conflicts_eq_nil (h : s.Ran gs model conflicts entries) (hg : (g, community) ∈ s.marked gs)
    (hu : g.Unblamed conflicts) : (g.commitments s.topology).conflicts = [] := by
  obtain ⟨p, hp, hsub⟩ := h.synthesized _ hg
  rw [synthesize_ok hp] at hsub
  rw [List.eq_nil_iff_forall_not_mem]
  intro x hx
  have href := (g.combine_spliced s.topology).blames.requirement x hx
  obtain ⟨req, hreq, he⟩ := List.mem_map.mp href
  exact hu x (hsub hx) req (mem_strictestFirst.mp hreq) he.symm

theorem clear (h : s.Ran gs model conflicts entries) (hg : (g, community) ∈ s.marked gs)
    (hu : g.Unblamed conflicts) : g.Clear s.topology := by
  have hnil := (g.combine_spliced s.topology).blames.silent (h.conflicts_eq_nil hg hu)
  intro a
  simp [Commitments.isConflicted, hnil]

theorem exists_entry_of_decision (h : s.Ran gs model conflicts entries)
    (hg : (g, community) ∈ s.marked gs) (hu : g.Unblamed conflicts) {d : Decision} {q : Primitive}
    (hd : g.decision? s.topology a b = some d)
    (hq : q ∈ (g.mark s.topology community).lower b d) :
    ∃ e ∈ entries a, e.key = ⟨a, b, g.direction⟩ ∧ e.primitive = q := by
  obtain ⟨e, hbundled, he⟩ := exists_bundled_of_decision (h.clear hg hu a) hd hq
  exact ⟨e, h.accepted _ hg hu a e hbundled, he⟩

theorem ospfCost? (h : s.Ran gs model conflicts entries) (hg : (g, community) ∈ s.marked gs)
    (hu : g.Unblamed conflicts) (hp : g.protocol = .ospf) {d : Decision}
    (hd : g.decision? s.topology a b = some d) :
    (model.policy a).ospfCost? b = some (GroupMark.cost d) := by
  have hlower : Primitive.ospfCost (GroupMark.cost d) ∈
      (g.mark s.topology community).lower b d := by
    have hmark : (g.mark s.topology community).protocol = .ospf := hp
    simp [GroupMark.lower, hmark]
  obtain ⟨e, he, hkey, hprim⟩ := h.exists_entry_of_decision hg hu hd hlower
  rw [h.policy]
  exact ((h.holds a).cost_iff b _).mpr ⟨e, he, by rw [hkey], hprim⟩

theorem le_maxPaths? (h : s.Ran gs model conflicts entries) (hg : (g, community) ∈ s.marked gs)
    (hu : g.Unblamed conflicts) (hreq : req ∈ g.requirements)
    (hv : req.Valid s.topology g.destination) (hk : req.kind = .ecmp) (hp : g.protocol ≠ .static)
    (hb : req.Uses a b) (hc : req.Uses a c) (hne : b ≠ c) :
    ∃ m, (model.policy a).maxPaths? g.protocol = some m ∧ req.paths.length ≤ m := by
  have hcomb := g.combine_combines s.topology
  have hmem := mem_strictestFirst.mpr hreq
  have hok : ∃ r, req.intents s.topology g = .ok r := by
    cases hr : req.intents s.topology g with
    | ok r => exact ⟨r, rfl⟩
    | error e =>
      obtain ⟨p, hpm, hh⟩ := hb
      have hlooped := hcomb.looped req hmem e hr p hpm a hh.left_mem
        (hv.ne_destination_of_uses ⟨p, hpm, hh⟩)
      simp [not_isConflicted_combine (h.clear hg hu a)] at hlooped
  have hasked := ResolvedRequirement.mem_askedMaxPaths.mpr
    ⟨rfl, hok, req.mem_maxPaths hk hp hb hc hne⟩
  obtain ⟨k, o, hget, hle⟩ := hcomb.balances.le a _ _ (List.mem_flatMap.mpr ⟨req, hmem, hasked⟩)
  rw [← (g.combine_spliced s.topology).maxPaths] at hget
  have hentry := h.accepted _ hg hu a _ (.maxPaths hget (h.clear hg hu a))
  obtain ⟨m, hm, hkm⟩ := (h.holds a).maxPaths_le _ hentry _ _ rfl
  rw [h.policy]
  exact ⟨m, hm, hle.trans hkm⟩

theorem maxPaths?_pos (h : s.Ran gs model conflicts entries) {pr : Protocol} {m : Nat}
    (hm : (model.policy a).maxPaths? pr = some m) : 0 < m := by
  rw [h.policy] at hm
  obtain ⟨e, he, hprim⟩ := (h.holds a).maxPaths_mem pr m hm
  obtain ⟨x, _, hbundled⟩ := h.mem a e he
  cases hbundled with
  | decision _ _ _ hp =>
    obtain rfl := hprim
    rw [GroupMark.lower] at hp
    split at hp <;> simp at hp
  | network _ _ _ _ => cases hprim
  | @maxPaths n o hget _ =>
    obtain ⟨rfl, rfl⟩ := Primitive.maxPaths.inj hprim
    rw [(x.1.combine_spliced s.topology).maxPaths] at hget
    obtain ⟨req, _, hasked⟩ :=
      List.mem_flatMap.mp ((x.1.combine_combines s.topology).balances.mem _ _ hget)
    have hmem := (ResolvedRequirement.mem_askedMaxPaths.mp hasked).2.2
    exact (ResolvedRequirement.eq_of_mem_maxPaths hmem).2.1

theorem maxPaths_pos (h : s.Ran gs model conflicts entries) (a : RouterId) (pr : Protocol) :
    0 < ((model.policy a).maxPaths? pr).getD 1 := by
  cases hm : (model.policy a).maxPaths? pr with
  | none => exact Nat.one_pos
  | some m => exact h.maxPaths?_pos hm

/-- All expected next hops of a router can be in use at once. -/
theorem length_le_maxPaths (h : s.Ran gs model conflicts entries)
    (hg : (g, community) ∈ s.marked gs) (hu : g.Unblamed conflicts) (hreq : req ∈ g.requirements)
    (hv : req.Valid s.topology g.destination) (hk : req.kind ≠ .kConnected)
    (hp : g.protocol ≠ .static) {bs : List RouterId} (hnd : bs.Nodup)
    (hbs : ∀ b ∈ bs, req.Expects a b) :
    bs.length ≤ ((model.policy a).maxPaths? g.protocol).getD 1 := by
  match bs, hnd, hbs with
  | [], _, _ => exact Nat.zero_le _
  | [b], _, _ => exact h.maxPaths_pos a g.protocol
  | b :: c :: rest, hnd, hbs =>
    have hne : b ≠ c := fun he => (List.nodup_cons.mp hnd).1 (he ▸ List.mem_cons_self)
    have hb := hbs b (by simp)
    have hc := hbs c (by simp)
    cases hkind : req.kind with
    | kConnected => exact absurd hkind hk
    | path => exact absurd (hv.expects_unique (.inl hkind) hb hc) hne
    | order => exact absurd (hv.expects_unique (.inr hkind) hb hc) hne
    | ecmp =>
      have huses : ∀ x ∈ b :: c :: rest, req.Uses a x := fun x hx =>
        (ResolvedRequirement.expects_iff_uses (.inl hkind)).mp (hbs x hx)
      obtain ⟨m, hm, hle⟩ := h.le_maxPaths? hg hu hreq hv hkind hp (huses b (by simp))
        (huses c (by simp)) hne
      rw [hm, Option.getD_some]
      exact (hv.length_le_of_uses hnd huses).trans hle

end Ran

end Synthesizer

end PathPolicy
