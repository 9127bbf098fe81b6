import PathPolicy.Proofs.Traffic

/-! Routes at rest, under any policies. What a router chose fits what its neighbors chose, so that
the traffic takes the path of the best route, hop by hop. -/

namespace PathPolicy

section SameWay

/-- The routes took the same way. -/
structure Route.SameWay (r s : Route) : Prop where
  path_eq : s.path = r.path
  sender_eq : s.sender = r.sender

variable {r s u : Route}

theorem Route.SameWay.refl (r : Route) : r.SameWay r := ⟨rfl, rfl⟩

theorem Route.SameWay.trans (h : r.SameWay s) (h' : s.SameWay u) : r.SameWay u :=
  ⟨h'.path_eq.trans h.path_eq, h'.sender_eq.trans h.sender_eq⟩

theorem SetAction.sameWay_apply (r : Route) (x : SetAction) : r.SameWay (x.apply r) := by
  cases x with
  | community c additive => cases additive <;> exact ⟨rfl, rfl⟩
  | localPref n => exact ⟨rfl, rfl⟩

theorem Effect.sameWay_of_apply {x : Effect} (h : x.apply r = some s) : r.SameWay s := by
  cases x with
  | deny => cases h
  | permit actions =>
    obtain rfl := Option.some.inj h
    induction actions generalizing r with
    | nil => exact .refl r
    | cons x actions ih => exact (SetAction.sameWay_apply r x).trans (ih rfl)

/-- Route maps drop routes and change what they carry, but not the way that they took. -/
theorem RouteMap.sameWay_of_apply {cs : List Clause} (h : apply cs r = some s) : r.SameWay s := by
  rw [apply, decide_eq] at h
  split at h
  · exact Effect.sameWay_of_apply h
  · exact Option.some.inj h ▸ .refl r

end SameWay

namespace Bgp

variable {t : Topology} {m : PolicyModel} {d a b : RouterId} {network : Address} {best r : Route}
  {k : Nat}

theorem offer?_eq_some (h : offer? m a b best = some r) :
    a ∉ b :: best.path ∧ r.path = b :: best.path ∧ r.sender = b := by
  rw [offer?] at h
  split at h
  · cases h
  · next hnew =>
    obtain ⟨exported, hexport, himport⟩ := Option.bind_eq_some_iff.mp h
    have hway := (RouteMap.sameWay_of_apply hexport).trans (RouteMap.sameWay_of_apply himport)
    exact ⟨hnew, hway.path_eq, hway.sender_eq⟩

def HasSession (t : Topology) (a b : RouterId) : Prop :=
  t.adjacent a b = true ∧ isSpeaker t a = true ∧ isSpeaker t b = true

/-- A simple path over sessions to the destination, along the best routes. -/
structure Tracks (t : Topology) (d : RouterId) (rib : Rib) (p : List RouterId) : Prop where
  simple : p.Nodup
  sessions : p.IsChain (HasSession t)
  ends : p.getLast? = some d
  hops : ∀ x y, Hop p x y → (rib.best? x).map (·.sender) = some y

namespace Tracks

variable {rib : Rib} {p : List RouterId}

theorem singleton (t : Topology) (d : RouterId) (rib : Rib) : Tracks t d rib [d] where
  simple := List.nodup_singleton d
  sessions := List.isChain_singleton d
  ends := rfl
  hops x y h := by
    rcases Hop.cons_iff.mp h with ⟨_, hy⟩ | h
    · cases hy
    · exact absurd h Hop.not_nil

theorem cons (h : Tracks t d rib (b :: p)) (ha : a ∉ b :: p) (hab : HasSession t a b)
    (hbest : rib.best? a = some r) (hr : r.sender = b) : Tracks t d rib (a :: b :: p) where
  simple := List.nodup_cons.mpr ⟨ha, h.simple⟩
  sessions := List.isChain_cons_cons.mpr ⟨hab, h.sessions⟩
  ends := by rw [List.getLast?_cons_cons, h.ends]
  hops x y hxy := by
    rcases Hop.cons_iff.mp hxy with ⟨rfl, hy⟩ | hxy
    · obtain rfl : b = y := Option.some.inj hy
      rw [hbest, Option.map_some, hr]
    · exact h.hops x y hxy

end Tracks

/-- At rest, the path of a best route goes on with the path of the best route of its sender. -/
theorem tracks_of_best? (hd : d < t.size)
    (hrest : ribAfter t m d network (k + 1) = ribAfter t m d network k)
    (h : (ribAfter t m d network k).best? a = some r) :
    Tracks t d (ribAfter t m d network k) (a :: r.path) := by
  induction hp : r.path generalizing a r with
  | nil =>
    by_cases hne : a = d
    · exact hne ▸ .singleton t a _
    · obtain ⟨b, _, best, _, hoffer⟩ :=
        exists_offer_of_mem_rows hne (hrest.symm ▸ mem_rows_of_best? h)
      rw [(offer?_eq_some hoffer).2.1] at hp
      cases hp
  | cons b p ih =>
    have hne : a ≠ d := by
      rintro rfl
      rw [best?_eq_head?, rows_destination hd] at h
      obtain rfl := Option.some.inj h
      cases hp
    have hmem := mem_rows_of_best? h
    obtain ⟨c, hc, best, hbest, hoffer⟩ :=
      exists_offer_of_mem_rows hne (hrest.symm ▸ hmem)
    obtain ⟨hnew, hpath, hsender⟩ := offer?_eq_some hoffer
    obtain ⟨rfl, rfl⟩ := List.cons.inj (hpath.symm.trans hp)
    obtain ⟨hadj, hspeaks⟩ := mem_sessions.mp hc
    exact (ih hbest rfl).cons hnew ⟨hadj, isSpeaker_of_ne_of_mem_rows hne hmem, hspeaks⟩ h hsender

/-- What all routers have chosen when the propagation of the announcement ends. -/
def converged? (t : Topology) (m : PolicyModel) (d : RouterId) : Option Rib := do
  let network ← announcement? t m d
  converge? (round t (choosers t m d)) (maxRounds t) (start t d network)

theorem nextHops_of_forwarding {state : ForwardingState} (h : forwarding t m d = .ok state) :
    state.destination = d ∧ ((∀ a, state.nextHops a = []) ∨ ∃ rib, converged? t m d = some rib ∧
      ∀ a, a ≠ d → state.nextHops a = (rib.rows a).map (·.sender)) := by
  rw [forwarding] at h
  split at h
  · obtain rfl := Except.ok.inj h
    exact ⟨rfl, .inl fun _ => rfl⟩
  · next network hannounced =>
    dsimp only at h
    split at h
    · next rib hrib =>
      obtain rfl := Except.ok.inj h
      refine ⟨rfl, .inr ⟨rib, ?_, fun a hne => nextHops_hops hne rib⟩⟩
      rw [converged?, hannounced]
      exact hrib
    · cases h

theorem tracks_of_converged? {rib : Rib} (h : converged? t m d = some rib)
    (hbest : rib.best? a = some r) : Tracks t d rib (a :: r.path) := by
  obtain ⟨network, hannounced, hconverge⟩ := Option.bind_eq_some_iff.mp h
  obtain ⟨router, hrouter, _⟩ := Option.bind_eq_some_iff.mp hannounced
  have hd : d < t.size := (List.getElem?_eq_some_iff.mp hrouter).1
  obtain ⟨k, rfl, hfix⟩ := exists_iterate_of_converge? hconverge
  exact tracks_of_best? hd ((ribAfter_succ k).trans hfix) hbest

/-- Whatever the policies are, once the routes have settled a router has none at all, or its
traffic takes the path of its best route to the destination. -/
theorem route_eq_path_of_best {state : ForwardingState}
    (h : ForwardingState.compute t m .bgp d = .ok state) (hne : a ≠ d) :
    (state.nextHops a = [] ∧ state.route a = .error (.blackHole [a])) ∨
      ∃ rib best, converged? t m d = some rib ∧ rib.best? a = some best ∧
        state.route a = .ok (a :: best.path) ∧ (a :: best.path).Nodup ∧
        (a :: best.path).IsChain (HasSession t) ∧ (a :: best.path).getLast? = some d := by
  obtain ⟨rfl, hnone | ⟨rib, hrib, hnext⟩⟩ := nextHops_of_forwarding h
  · exact .inl ⟨hnone a, ForwardingState.route_of_nextHops_eq_nil hne (hnone a)⟩
  · cases hbest : rib.best? a with
    | none =>
      have hrow : rib.rows a = [] := List.head?_eq_none_iff.mp hbest
      have hnil : state.nextHops a = [] := by rw [hnext a hne, hrow, List.map_nil]
      exact .inl ⟨hnil, ForwardingState.route_of_nextHops_eq_nil hne hnil⟩
    | some best =>
      have htracks := tracks_of_converged? hrib hbest
      refine .inr ⟨rib, best, hrib, hbest, ?_, htracks.simple, htracks.sessions, htracks.ends⟩
      refine ForwardingState.route_eq htracks.ends htracks.simple fun x y hxy => ?_
      rw [hnext x (hxy.ne_last htracks.simple htracks.ends), List.head?_map]
      exact htracks.hops x y hxy

end Bgp

namespace Network.Diamond

/-- `D` announces its network, `S` takes no routes of `A`, and `A` prefers those of `S`. -/
def contrary : PolicyModel :=
  let entry := fun key primitive => PolicyEntry.mk key primitive (balanced.reference 0)
  let onImport := fun a b effect => entry ⟨a, b, .incoming⟩ (.clause ⟨10, [], effect⟩)
  let bundles : List Bundle := [
    ⟨3, [entry (.ofRouter 3) (.network (loopback 4).network)]⟩,
    ⟨0, [onImport 0 1 .deny]⟩,
    ⟨1, [onImport 1 0 (.permit [.localPref 200])]⟩]
  bundles.foldl (fun m b => (m.merge topology b).1) .empty

/-- Traffic from `A` to `D` makes the detour over `S` and `B`. -/
theorem route_eq_path_of_best_contrary : ∃ state,
    ForwardingState.compute topology contrary .bgp 3 = .ok state ∧
      state.route 1 = .ok [1, 0, 2, 3] := by
  obtain ⟨state, hstate⟩ := exists_ok_of_toBool
    (x := ForwardingState.compute topology contrary .bgp 3) (by decide +kernel)
  refine ⟨state, hstate, ?_⟩
  have hbest : ((Bgp.converged? topology contrary 3).bind (·.best? 1)).map (·.path) =
      some [0, 2, 3] := by decide +kernel
  rcases Bgp.route_eq_path_of_best hstate (a := 1) (by decide) with
    ⟨hnil, _⟩ | ⟨rib, best, hrib, hroute, hok, _⟩
  · have hhops : (ForwardingState.compute topology contrary .bgp 3).toOption.map (·.nextHops 1) =
        some [0] := by decide +kernel
    rw [hstate] at hhops
    simp [Except.toOption, hnil] at hhops
  · rw [hrib, Option.bind_some, hroute, Option.map_some] at hbest
    rw [hok, Option.some.inj hbest]

end Network.Diamond

end PathPolicy
