import PathPolicy.Proofs.Imports

/-! The static routes of the model. They are what the static groups decided to permit. -/

namespace PathPolicy

open RequirementGroup

namespace NodePolicy

variable {p : NodePolicy} {e : PolicyEntry} {es : List PolicyEntry} {r : StaticRoute}

theorem mem_staticRoutes_foldl_commit : r ∈ (es.foldl commit p).staticRoutes ↔
    (∃ e ∈ es, e.primitive = .staticRoute r) ∨ r ∈ p.staticRoutes := by
  induction es generalizing p with
  | nil => simp
  | cons e es ih =>
    rw [List.foldl_cons, ih, staticRoutes_commit, mem_staticRoutes_install,
      List.exists_mem_cons_iff, or_left_comm, or_assoc]

theorem mem_staticRoutes_finalize : r ∈ p.finalize.staticRoutes ↔ r ∈ p.staticRoutes :=
  mem_sortBy

/-- Two entries do not set different distances for a network over one next hop. -/
def DistancesAgree (es : List PolicyEntry) : Prop :=
  ∀ e ∈ es, ∀ e' ∈ es, ∀ r r', e.primitive = .staticRoute r → e'.primitive = .staticRoute r' →
    r.network = r'.network → r.nextHop = r'.nextHop → r.distance = r'.distance

end NodePolicy

theorem staticRoute_of_mem_lower {m : GroupMark} {b : RouterId} {d : Decision} {r : StaticRoute}
    (h : .staticRoute r ∈ m.lower b d) :
    m.protocol = .static ∧ r.nextHop = b ∧ d = .permit r.distance ∧ r.network ∈ m.networks := by
  rw [GroupMark.lower] at h
  split at h
  · simp at h
  · simp at h
  · next hp =>
    cases d with
    | deny => simp [GroupMark.staticRoutes] at h
    | permit v =>
      obtain ⟨r', hr', hsame⟩ := List.mem_map.mp h
      obtain rfl := Primitive.staticRoute.inj hsame
      obtain ⟨network, hnetwork, rfl⟩ := List.mem_map.mp hr'
      exact ⟨hp, rfl, rfl, hnetwork⟩

/-- Static routes come from the permitted next hops of static groups. -/
theorem RequirementGroup.Bundled.of_staticRoute {t : Topology} {g : RequirementGroup}
    {community : Option Community} {a : RouterId} {e : PolicyEntry} {r : StaticRoute}
    (h : Bundled g (g.mark t community) (g.commitments t) a e)
    (hr : e.primitive = .staticRoute r) :
    g.protocol = .static ∧ g.decision? t a r.nextHop = some (.permit r.distance) ∧
      r.network ∈ g.networks t := by
  cases h with
  | @decision k i q hget hrouter hconf hq =>
    obtain rfl : q = .staticRoute r := hr
    obtain ⟨hstatic, hhop, hd, hnetwork⟩ := staticRoute_of_mem_lower hq
    obtain ⟨_, _, a', b', _, _, rfl⟩ := exists_asks hget
    obtain rfl : a' = a := hrouter
    refine ⟨hstatic, ?_, hnetwork⟩
    rw [hhop, decision?, hget, Option.map_some, hd]
  | network _ _ _ _ => cases hr
  | maxPaths _ _ => cases hr

theorem RequirementGroup.distancesAgree_of_mem_bundles {t : Topology} {g : RequirementGroup}
    {community : Option Community} {b : Bundle}
    (hb : b ∈ g.bundles (g.mark t community) (g.commitments t)) :
    NodePolicy.DistancesAgree b.entries := by
  intro e he e' he' r r' hr hr' _ hhop
  obtain ⟨_, hd, _⟩ := (Bundled.of_mem hb he).of_staticRoute hr
  obtain ⟨_, hd', _⟩ := (Bundled.of_mem hb he').of_staticRoute hr'
  rw [hhop, hd'] at hd
  exact (Decision.permit.inj (Option.some.inj hd)).symm

namespace Synthesizer

variable {s : Synthesizer} {gs : List RequirementGroup} {ps : List GroupPolicy} {store : Store}
  {model : PolicyModel} {conflicts : List Conflict} {entries : RouterId → List PolicyEntry}
  {g : RequirementGroup} {community : Option Community} {a b : RouterId}

namespace Ran

theorem exists_decision_of_staticRoute (h : s.Ran gs model conflicts entries) {r : StaticRoute}
    (hr : r ∈ (model.policy a).staticRoutes) :
    ∃ x ∈ s.marked gs, x.1.protocol = .static ∧
      x.1.decision? s.topology a r.nextHop = some (.permit r.distance) ∧
        r.network ∈ x.1.networks s.topology := by
  rw [h.policy, NodePolicy.mem_staticRoutes_finalize,
    NodePolicy.mem_staticRoutes_foldl_commit] at hr
  rcases hr with ⟨e, he, hprim⟩ | hr
  · obtain ⟨x, hx, hbundled⟩ := h.mem a e he
    exact ⟨x, hx, hbundled.of_staticRoute hprim⟩
  · exact absurd hr List.not_mem_nil

theorem staticRoute_mem (h : s.Ran gs model conflicts entries) (hg : (g, community) ∈ s.marked gs)
    (hu : g.Unblamed conflicts) (hstatic : g.protocol = .static) {v : Nat}
    (hd : g.decision? s.topology a b = some (.permit v)) {network : Address}
    (hnetwork : network ∈ g.networks s.topology) :
    ⟨network, b, v⟩ ∈ (model.policy a).staticRoutes := by
  have hmark : (g.mark s.topology community).protocol = .static := hstatic
  have hlower : Primitive.staticRoute ⟨network, b, v⟩ ∈
      (g.mark s.topology community).lower b (.permit v) := by
    rw [GroupMark.lower, hmark]
    exact List.mem_map_of_mem (List.mem_map_of_mem hnetwork)
  obtain ⟨e, he, _, hprim⟩ := h.exists_entry_of_decision hg hu hd hlower
  rw [h.policy, NodePolicy.mem_staticRoutes_finalize, NodePolicy.mem_staticRoutes_foldl_commit]
  exact .inl ⟨e, he, hprim⟩

end Ran

end Synthesizer

end PathPolicy
