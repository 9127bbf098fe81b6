import PathPolicy.Proofs.Offers

/-! Routers on members of strict requirements settle by their heights. The greatest local preference
belongs to the most preferred hops, and the routers that these lead to have settled before. -/

namespace PathPolicy

open Bgp RequirementGroup ResolvedRequirement

namespace RequirementGroup

/-- The routes that a router on a member keeps from the round of its height on. -/
structure Settled (g : RequirementGroup) (t : Topology) (network : Address) (m : PolicyModel)
    (req : ResolvedRequirement) (heights : List (RouterId × Nat)) (a : RouterId)
    (row : List Route) : Prop where
  ne_nil : row ≠ []
  senders : a ≠ g.destination →
    ∀ b, b ∈ row.map (·.sender) ↔ (req.ranks.hops a).get? b = some 0
  lower : ∀ r ∈ row, ∀ x ∈ r.path,
    (∃ p ∈ req.paths, x ∈ p) ∧ heightIn heights x < heightIn heights a
  rows_eq : ∀ k, heightIn heights a ≤ k → (ribAfter t m g.destination network k).rows a = row

variable {t : Topology} {g : RequirementGroup} {community : Option Community} {network : Address}
  {m : PolicyModel} {req : ResolvedRequirement} {heights : List (RouterId × Nat)}
  {a b c : RouterId} {best r x : Route} {k l : Nat}

theorem Settled.exists_best? {row : List Route} (h : g.Settled t network m req heights a row) :
    ∃ best ∈ row, ∀ k, heightIn heights a ≤ k →
      (ribAfter t m g.destination network k).best? a = some best := by
  obtain ⟨best, hbest⟩ := Option.isSome_iff_exists.mp (List.isSome_head?.mpr h.ne_nil)
  refine ⟨best, List.mem_of_head? hbest, fun k hk => ?_⟩
  rw [best?_eq_head?, h.rows_eq k hk, hbest]

namespace InForce

theorem senders_sublist (hf : g.InForce t community network m) (k : Nat) (a : RouterId) :
    ((candidates t m (ribAfter t m g.destination network k) a).map (·.sender)).Sublist
      (sessions t a) := by
  rw [candidates, List.map_filterMap]
  have hguard : (fun b => (((ribAfter t m g.destination network k).best? b).bind
      (offer? m a b)).map (·.sender)) = Option.guard fun b =>
        (((ribAfter t m g.destination network k).best? b).bind (offer? m a b)).isSome := by
    funext b
    cases hr : ((ribAfter t m g.destination network k).best? b).bind (offer? m a b) with
    | none => simp [Option.guard, hr]
    | some r =>
      obtain ⟨best, hbest, hoffer⟩ := Option.bind_eq_some_iff.mp hr
      have hnet := (hf.carries_of_best? hbest).network_eq
      simp [Option.guard, hr, (hf.offer?_eq_some hnet hoffer).2.2.2.1]
  rw [hguard, List.filterMap_eq_filter]
  exact List.filter_sublist

section Strict

variable (hf : g.InForce t community network m) (hreq : req ∈ g.requirements)
  (hk : req.kind ≠ .kConnected) (hh : req.heights req.ranks g.destination = .ok heights)

include hf hreq hk hh

theorem localPref_of_strict (huses : req.Uses a c) (hb : b ∈ sessions t a)
    (hc : g.Carries t community network b best) (h : offer? m a b best = some r) :
    r.localPref ≤ req.ranks.levels a ∧
      (r.localPref = req.ranks.levels a ↔ (req.ranks.hops a).get? b = some 0) := by
  have hv := hf.grounded.valid req hreq
  have hdec := decision_of_strict hf.clear hreq hv hk hh huses (mem_sessions.mp hb).1
  obtain ⟨_, _, _, _, hpref⟩ := hf.offer?_eq_some hc.network_eq h
  rcases hpref with ⟨hnone, _⟩ | ⟨v, hsome, rfl, _⟩
  · simp [hdec] at hnone
  · rw [hdec, Option.some.injEq] at hsome
    obtain ⟨d, hd, hv⟩ := decisionFor_eq_permit_iff.mp hsome
    rw [hf.bgp] at hv
    rw [hd, Option.some.injEq, ← hv]
    exact permitValue_bgp_le hk hd

theorem rows_eq_of_greatest (huses : req.Uses a c)
    (hx : x ∈ candidates t m (ribAfter t m g.destination network k) a)
    (hpref : x.localPref = req.ranks.levels a) :
    (ribAfter t m g.destination network (k + 1)).rows a =
      sortBy (compareRoutes t) ((candidates t m (ribAfter t m g.destination network k) a).filter
        (·.localPref = req.ranks.levels a)) := by
  have hv := hf.grounded.valid req hreq
  obtain ⟨p, hp, hhop⟩ := huses
  have hs := hf.grounded.speakers hf.bgp p (mem_paths.mpr ⟨req, hreq, hp⟩) a hhop.left_mem
  have hne := hv.ne_destination_of_uses ⟨p, hp, hhop⟩
  rw [rows_succ hs hne, choose_eq_of_greatest hx hpref fun r hr => ?_]
  · -- the senders are expected next hops, and there is room for all of them
    refine List.take_of_length_le ?_
    rw [(sortBy_perm _ _).length_eq, ← List.length_map (f := (·.sender))]
    have hnd : (((candidates t m (ribAfter t m g.destination network k) a).filter
        (·.localPref = req.ranks.levels a)).map (·.sender)).Nodup :=
      ((sessions_nodup t a).sublist (hf.senders_sublist k a)).sublist
        (List.filter_sublist.map _)
    refine hf.length_le_maxPaths req hreq hk a _ hnd fun b hb => ?_
    obtain ⟨r, hr, rfl⟩ := List.mem_map.mp hb
    obtain ⟨hr, hpr⟩ := List.mem_filter.mp hr
    obtain ⟨b, hb, best, hbest, hoffer⟩ := mem_candidates.mp hr
    have hc := hf.carries_of_best? hbest
    have hrank := (hf.localPref_of_strict hreq hk hh ⟨p, hp, hhop⟩ hb hc hoffer).2.mp
      (of_decide_eq_true hpr)
    rw [(hf.offer?_eq_some hc.network_eq hoffer).2.2.2.1]
    exact (get?_ranks_eq_zero_iff hv (hf.grounded.single req hreq) hne).mp hrank
  · obtain ⟨b, hb, best, hbest, hoffer⟩ := mem_candidates.mp hr
    exact (hf.localPref_of_strict hreq hk hh ⟨p, hp, hhop⟩ hb (hf.carries_of_best? hbest)
      hoffer).1

/-- While the next hops of rank zero keep their routes, so does a router. -/
theorem filter_candidates_congr (huses : req.Uses a c)
    (h : ∀ b, (req.ranks.hops a).get? b = some 0 →
      (ribAfter t m g.destination network k).best? b =
        (ribAfter t m g.destination network l).best? b) :
    (candidates t m (ribAfter t m g.destination network k) a).filter
        (·.localPref = req.ranks.levels a) =
      (candidates t m (ribAfter t m g.destination network l) a).filter
        (·.localPref = req.ranks.levels a) := by
  rw [candidates, candidates, List.filter_filterMap, List.filter_filterMap]
  refine List.filterMap_congr fun b hb => ?_
  by_cases hrank : (req.ranks.hops a).get? b = some 0
  · rw [h b hrank]
  · have hnone : ∀ k, (((ribAfter t m g.destination network k).best? b).bind
        (offer? m a b)).filter (·.localPref = req.ranks.levels a) = none := by
      intro k
      refine Option.filter_eq_none_iff.mpr fun r hr hpr => hrank ?_
      obtain ⟨best, hbest, hoffer⟩ := Option.bind_eq_some_iff.mp hr
      exact (hf.localPref_of_strict hreq hk hh huses hb (hf.carries_of_best? hbest)
        hoffer).2.mp (of_decide_eq_true hpr)
    rw [hnone, hnone]

theorem exists_candidate_of_settled {row : List Route} (hd : req.Descends g.destination heights)
    (hb : (req.ranks.hops a).get? b = some 0)
    (hrow : g.Settled t network m req heights b row) (hle : heightIn heights b ≤ k) :
    ∃ r ∈ candidates t m (ribAfter t m g.destination network k) a,
      r.localPref = req.ranks.levels a ∧ r.sender = b := by
  have hv := hf.grounded.valid req hreq
  have huses := exists_get?_ranks.mp ⟨0, hb⟩
  have hadj := hv.adjacent_of_uses huses
  have hlt := hd.lt_of_hop a b hb
  obtain ⟨best, hbest, hall⟩ := hrow.exists_best?
  have hc := hf.carries_of_best? (hall k hle)
  obtain ⟨p, hp, hhop⟩ := huses
  have hs : b ∈ sessions t a := mem_sessions.mpr ⟨hadj,
    hf.grounded.speakers hf.bgp p (mem_paths.mpr ⟨req, hreq, hp⟩) b hhop.right_mem⟩
  have hloop : a ∉ b :: best.path := by
    intro ha
    rcases List.mem_cons.mp ha with rfl | ha
    · omega
    · have hlow := (hrow.lower best hbest a ha).2
      omega
  have hdec := decision_of_strict hf.clear hreq hv hk hh ⟨p, hp, hhop⟩ hadj
  obtain ⟨r, hr⟩ := hf.exists_offer? hc hloop fun hdeny => by
    rw [hdec, Option.some.injEq, decisionFor_eq_deny_iff] at hdeny
    exact hdeny ⟨p, hp, hhop⟩
  refine ⟨r, mem_candidates.mpr ⟨b, hs, best, hall k hle, hr⟩, ?_, ?_⟩
  · exact (hf.localPref_of_strict hreq hk hh ⟨p, hp, hhop⟩ hs hc hr).2.mpr hb
  · exact (hf.offer?_eq_some hc.network_eq hr).2.2.2.1

section Hops

variable (hd : req.Descends g.destination heights) (huses : req.Uses a c)
  (hlow : ∀ b, (req.ranks.hops a).get? b = some 0 →
    ∃ row, g.Settled t network m req heights b row) (hle : heightIn heights a ≤ k + 1)

include hd hlow hle

theorem exists_candidate_of_hops (hb : (req.ranks.hops a).get? b = some 0) :
    ∃ r ∈ candidates t m (ribAfter t m g.destination network k) a,
      r.localPref = req.ranks.levels a ∧ r.sender = b := by
  have hlt := hd.lt_of_hop a b hb
  obtain ⟨row, hset⟩ := hlow b hb
  exact hf.exists_candidate_of_settled hreq hk hh hd hb hset (by omega)

include huses

theorem rows_succ_of_hops : (ribAfter t m g.destination network (k + 1)).rows a =
    sortBy (compareRoutes t) ((candidates t m (ribAfter t m g.destination network k) a).filter
      (·.localPref = req.ranks.levels a)) := by
  obtain ⟨b, hb⟩ := exists_preferred huses
  obtain ⟨x, hx, hpref, _⟩ := hf.exists_candidate_of_hops hreq hk hh hd hlow hle hb
  exact hf.rows_eq_of_greatest hreq hk hh huses hx hpref

theorem mem_rows_of_hops : r ∈ (ribAfter t m g.destination network (k + 1)).rows a ↔
    r ∈ candidates t m (ribAfter t m g.destination network k) a ∧
      r.localPref = req.ranks.levels a := by
  rw [hf.rows_succ_of_hops hreq hk hh hd huses hlow hle, mem_sortBy, List.mem_filter,
    decide_eq_true_eq]

theorem exists_offer_of_hops
    (hr : r ∈ (ribAfter t m g.destination network (k + 1)).rows a) :
    ∃ b best, (req.ranks.hops a).get? b = some 0 ∧ r.sender = b ∧ r.path = b :: best.path ∧
      (ribAfter t m g.destination network k).best? b = some best := by
  obtain ⟨hr, hpref⟩ := (hf.mem_rows_of_hops hreq hk hh hd huses hlow hle).mp hr
  obtain ⟨b, hb, best, hbest, hoffer⟩ := mem_candidates.mp hr
  have hc := hf.carries_of_best? hbest
  obtain ⟨_, _, hpath, hsender, _⟩ := hf.offer?_eq_some hc.network_eq hoffer
  exact ⟨b, best, (hf.localPref_of_strict hreq hk hh huses hb hc hoffer).2.mp hpref,
    hsender, hpath, hbest⟩

omit hle

/-- A router whose next hops of rank zero have settled settles in the round after. -/
theorem exists_settled_of_hops : ∃ row, g.Settled t network m req heights a row := by
  obtain ⟨b₀, hb₀⟩ := exists_preferred huses
  obtain ⟨k, hheight⟩ : ∃ k, heightIn heights a = k + 1 :=
    Nat.exists_eq_add_one.mpr (Nat.zero_lt_of_lt (hd.lt_of_hop a b₀ hb₀))
  have hmem := fun r =>
    hf.mem_rows_of_hops (r := r) hreq hk hh hd huses hlow hheight.le
  refine ⟨(ribAfter t m g.destination network (k + 1)).rows a, ?_, fun _ b => ⟨fun hb => ?_,
    fun hb => ?_⟩, fun r hr x hx => ?_, fun l hl => ?_⟩
  · obtain ⟨x, hx, hpref, _⟩ := hf.exists_candidate_of_hops hreq hk hh hd hlow hheight.le hb₀
    exact List.ne_nil_of_mem ((hmem x).mpr ⟨hx, hpref⟩)
  · obtain ⟨r, hr, rfl⟩ := List.mem_map.mp hb
    obtain ⟨b, _, hrank, hsender, _⟩ :=
      hf.exists_offer_of_hops hreq hk hh hd huses hlow hheight.le hr
    exact hsender ▸ hrank
  · obtain ⟨r, hr, hpref, hsender⟩ :=
      hf.exists_candidate_of_hops hreq hk hh hd hlow hheight.le hb
    exact List.mem_map.mpr ⟨r, (hmem r).mpr ⟨hr, hpref⟩, hsender⟩
  · obtain ⟨b, best, hrank, _, hpath, hbest⟩ :=
      hf.exists_offer_of_hops hreq hk hh hd huses hlow hheight.le hr
    have hlt := hd.lt_of_hop a b hrank
    obtain ⟨row, hset⟩ := hlow b hrank
    rw [hpath] at hx
    rcases List.mem_cons.mp hx with rfl | hx
    · obtain ⟨q, hq, hhop⟩ := exists_get?_ranks.mp ⟨0, hrank⟩
      exact ⟨⟨q, hq, hhop.right_mem⟩, hlt⟩
    · have hm := mem_rows_of_best? hbest
      rw [hset.rows_eq k (by omega)] at hm
      obtain ⟨hin, hbelow⟩ := hset.lower best hm x hx
      exact ⟨hin, hbelow.trans hlt⟩
  · obtain ⟨l, rfl⟩ : ∃ i, l = i + 1 := ⟨l - 1, by omega⟩
    rw [hf.rows_succ_of_hops hreq hk hh hd huses hlow hl,
      hf.rows_succ_of_hops hreq hk hh hd huses hlow hheight.le]
    refine congrArg _ (hf.filter_candidates_congr hreq hk hh huses fun b hb => ?_)
    have hlt := hd.lt_of_hop a b hb
    obtain ⟨row, hset⟩ := hlow b hb
    obtain ⟨best, _, hall⟩ := hset.exists_best?
    rw [hall l (by omega), hall k (by omega)]

end Hops

/-- By induction on the height, which falls along the hops of rank zero. -/
theorem exists_settled_of_strict (hmem : ∃ p ∈ req.paths, a ∈ p) :
    ∃ row, g.Settled t network m req heights a row := by
  have hv := hf.grounded.valid req hreq
  have hd := hv.descends hk hh
  induction hn : heightIn heights a using Nat.strong_induction_on generalizing a with
  | _ n ih =>
    subst n
    obtain ⟨p, hp, hap⟩ := hmem
    by_cases hne : a = g.destination
    · subst a
      refine ⟨[announced g.destination network], by simp, fun h => absurd rfl h, ?_, fun k _ =>
        rows_destination hf.grounded.destination_lt k⟩
      simp [announced]
    · obtain ⟨c, _, huses⟩ := hv.exists_uses hp hap hne
      refine hf.exists_settled_of_hops hreq hk hh hd huses fun b hb => ?_
      obtain ⟨q, hq, hhop⟩ := exists_get?_ranks.mp ⟨0, hb⟩
      exact ih _ (hd.lt_of_hop a b hb) ⟨q, hq, hhop.right_mem⟩ rfl

end Strict

end InForce

end RequirementGroup

end PathPolicy
