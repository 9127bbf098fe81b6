import PathPolicy.Proofs.Freshness

/-! The propagation of the routes of a group comes to rest in time. Once all routes are fresh, the
shortest ones of the unpinned routers are settled by their lengths, and no others are chosen. -/

namespace PathPolicy.RequirementGroup

open Bgp ResolvedRequirement

variable {t : Topology} {g : RequirementGroup} {community : Option Community} {network : Address}
  {m : PolicyModel} {a b : RouterId} {best r : Route} {k l n : Nat}

namespace InForce

variable (hf : g.InForce t community network m)

include hf

theorem localPref_of_not_pins (ha : g.pins a = false)
    (hc : g.Carries t community network b best) (h : offer? m a b best = some r) :
    r.localPref = Route.defaultLocalPref := by
  obtain ⟨_, _, _, _, hpref⟩ := hf.offer?_eq_some hc.network_eq h
  rcases hpref with ⟨_, hdefault⟩ | ⟨v, hdec, rfl, _⟩
  · exact hdefault
  · obtain ⟨req, hreq, heights, _, ⟨c, huses⟩, _, hd⟩ := exists_asks_of_decision hdec
    have hk : req.kind = .kConnected := by
      by_contra hk
      obtain ⟨p, hp, hhop⟩ := huses
      have hpins := pins_iff.mpr (.inr ⟨req, hreq, hk, p, hp, hhop.left_mem⟩)
      simp [hpins] at ha
    obtain ⟨d, _, hv⟩ := decisionFor_eq_permit_iff.mp hd.symm
    rw [hf.bgp, hk, permitValue_bgp_kConnected] at hv
    exact hv.symm

theorem localPref_of_mem_candidates (ha : g.pins a = false)
    (h : r ∈ candidates t m (ribAfter t m g.destination network k) a) :
    r.localPref = Route.defaultLocalPref := by
  obtain ⟨b, _, best, hbest, hoffer⟩ := mem_candidates.mp h
  exact hf.localPref_of_not_pins ha (hf.carries_of_best? hbest) hoffer

theorem fresh_of_mem_candidates (ha : g.pins a = false) (hs : isSpeaker t a = true)
    (hk : (speakers t).length ≤ k)
    (h : r ∈ candidates t m (ribAfter t m g.destination network k) a) :
    g.Fresh t network m a r := by
  obtain ⟨b, hb, best, hbest, hoffer⟩ := mem_candidates.mp h
  exact .offered ha hs hb (hf.fresh_of_best? hk hbest) hoffer

theorem best?_of_fresh_of_pins (ha : g.pins a = true) (h : g.Fresh t network m a r)
    (hk : g.pinRounds t ≤ k) : (ribAfter t m g.destination network k).best? a = some r := by
  cases h with
  | settled _ hbest => rw [hf.best?_of_pins ha hk, hbest]
  | offered hfree _ _ _ _ => simp [ha] at hfree

theorem decision?_ne_deny (hc : g.Carries t community network b best)
    (h : offer? m a b best = some r) : g.decision? t a b ≠ some .deny := by
  obtain ⟨_, _, _, _, hpref⟩ := hf.offer?_eq_some hc.network_eq h
  rcases hpref with ⟨hnone, _⟩ | ⟨v, hpermit, _⟩
  · simp [hnone]
  · simp [hpermit]

end InForce

/-- All routers with fresh routes of at most this length have made their last choice. -/
def Rests (g : RequirementGroup) (t : Topology) (network : Address) (m : PolicyModel) (n : Nat) :
    Prop :=
  ∀ a r, g.Fresh t network m a r → r.path.length ≤ n →
    ∃ best, g.Fresh t network m a best ∧ best.path.length ≤ n ∧
      ∀ k, (speakers t).length + n ≤ k → (ribAfter t m g.destination network k).best? a = some best

namespace Rests

variable (hf : g.InForce t community network m) (hr : g.Rests t network m n)

include hf hr

theorem mem_candidates (hk : (speakers t).length + n ≤ k) (hl : (speakers t).length + n ≤ l)
    (h : r ∈ candidates t m (ribAfter t m g.destination network k) a)
    (hle : r.path.length ≤ n + 1) :
    r ∈ candidates t m (ribAfter t m g.destination network l) a := by
  obtain ⟨b, hb, best, hbest, hoffer⟩ := Bgp.mem_candidates.mp h
  have hfresh := hf.fresh_of_best? (by omega) hbest
  rw [(hf.path_of_offer? hfresh hoffer).2, List.length_cons] at hle
  obtain ⟨best', _, _, hstays⟩ := hr b best hfresh (by omega)
  have hsame : best' = best := Option.some.inj ((hstays k hk).symm.trans hbest)
  exact Bgp.mem_candidates.mpr ⟨b, hb, best, hsame ▸ hstays l hl, hoffer⟩

/-- The neighbor that a shortest fresh route came from still has one that is not longer. It does not
lead over `a`, since `a` would have a shorter one then. -/
theorem exists_candidate (ha : g.pins a = false) (h : g.Fresh t network m a r)
    (hle : r.path.length ≤ n + 1)
    (hlong : ∀ r, g.Fresh t network m a r → n < r.path.length) :
    ∃ x, x.path.length ≤ n + 1 ∧ ∀ k, (speakers t).length + n ≤ k →
      x ∈ candidates t m (ribAfter t m g.destination network k) a := by
  cases h with
  | settled hpins _ => simp [ha] at hpins
  | @offered _ b best _ _ _ hb hbest hoffer =>
    obtain ⟨hloop, hpath⟩ := hf.path_of_offer? hbest hoffer
    rw [hpath, List.length_cons] at hle
    obtain ⟨best', hbest', hle', hstays⟩ := hr b best hbest (by omega)
    have hloop' : a ∉ b :: best'.path := by
      intro hm
      rcases List.mem_cons.mp hm with rfl | hm
      · exact hloop List.mem_cons_self
      · obtain ⟨r', hr', hlt⟩ := hf.exists_fresh_of_mem_path hbest' hm ha
        have hn := hlong r' hr'
        omega
    obtain ⟨x, hx⟩ := hf.exists_offer? (hf.carries_of_fresh hbest').2 hloop'
      (hf.decision?_ne_deny (hf.carries_of_fresh hbest).2 hoffer)
    refine ⟨x, ?_, fun k hk => Bgp.mem_candidates.mpr ⟨b, hb, best', hstays k hk, hx⟩⟩
    rw [(hf.path_of_offer? hbest' hx).2, List.length_cons]
    omega

theorem exists_best?_succ (ha : g.pins a = false) (h : g.Fresh t network m a r)
    (hle : r.path.length ≤ n + 1)
    (hlong : ∀ r, g.Fresh t network m a r → n < r.path.length) :
    ∃ best, g.Fresh t network m a best ∧ best.path.length ≤ n + 1 ∧
      ∀ k, (speakers t).length + (n + 1) ≤ k →
        (ribAfter t m g.destination network k).best? a = some best := by
  have hs := (hf.carries_of_fresh h).1
  obtain ⟨x, hx, hcand⟩ := hr.exists_candidate hf ha h hle hlong
  obtain ⟨best, hbest⟩ :=
    exists_head?_sortBy (t := t) (hcand ((speakers t).length + n) (Nat.le_refl _))
  obtain ⟨hmem, hfirst⟩ := mem_of_head?_sortBy hbest
  have hpref := hf.localPref_of_mem_candidates ha hmem
  have hbestle : best.path.length ≤ n + 1 := by
    have hxmem := hcand ((speakers t).length + n) (Nat.le_refl _)
    have hxpref := hf.localPref_of_mem_candidates ha hxmem
    exact (length_le_of_compareRoutes (hfirst x hxmem) (hpref.trans hxpref.symm)).trans hx
  refine ⟨best, hf.fresh_of_mem_candidates ha hs (by omega) hmem, hbestle, fun k hk => ?_⟩
  obtain ⟨k, rfl⟩ : ∃ i, k = i + 1 := ⟨k - 1, by omega⟩
  rw [hf.best?_succ hs (ne_destination_of_not_pins ha)]
  have hbestk := hr.mem_candidates hf (Nat.le_refl _) (by omega : _ ≤ k) hmem hbestle
  refine head?_sortBy_congr hbest hbestk (fun y hy hle => ?_) fun y hy heq =>
    hf.eq_of_compareRoutes hbestk hy heq
  have hypref := hf.localPref_of_mem_candidates ha hy
  have hylen := length_le_of_compareRoutes hle (hypref.trans hpref.symm)
  exact hr.mem_candidates hf (by omega) (Nat.le_refl _) hy (hylen.trans hbestle)

end Rests

namespace InForce

variable (hf : g.InForce t community network m)

include hf

theorem rests (n : Nat) : g.Rests t network m n := by
  induction n with
  | zero =>
    intro a r h hle
    cases ha : g.pins a with
    | true =>
      have hsum := g.pinRounds_add t
      exact ⟨r, h, hle, fun k hk => hf.best?_of_fresh_of_pins ha h (by omega)⟩
    | false =>
      cases h with
      | settled hpins _ => simp [ha] at hpins
      | offered _ _ _ hbest hoffer =>
        rw [(hf.path_of_offer? hbest hoffer).2] at hle
        simp at hle
  | succ n ih =>
    intro a r h hle
    cases ha : g.pins a with
    | true =>
      have hsum := g.pinRounds_add t
      exact ⟨r, h, hle, fun k hk => hf.best?_of_fresh_of_pins ha h (by omega)⟩
    | false =>
      by_cases hshort : ∃ r, g.Fresh t network m a r ∧ r.path.length ≤ n
      · obtain ⟨r, h, hle⟩ := hshort
        obtain ⟨best, hbest, hle', hstays⟩ := ih a r h hle
        exact ⟨best, hbest, by omega, fun k hk => hstays k (by omega)⟩
      · refine ih.exists_best?_succ hf ha h hle fun r h => ?_
        by_contra hn
        exact hshort ⟨r, h, by omega⟩

/-- The best routes do not change any more after two rounds for each speaker. -/
theorem best?_congr (hk : 2 * (speakers t).length ≤ k) (hl : 2 * (speakers t).length ≤ l)
    (a : RouterId) : (ribAfter t m g.destination network k).best? a =
      (ribAfter t m g.destination network l).best? a := by
  by_cases hfresh : ∃ r, g.Fresh t network m a r
  · obtain ⟨r, hr⟩ := hfresh
    obtain ⟨best, _, _, hstays⟩ := hf.rests _ a r hr (hf.length_le_of_fresh hr)
    rw [hstays k (by omega), hstays l (by omega)]
  · have hnone : ∀ k, 2 * (speakers t).length ≤ k →
        (ribAfter t m g.destination network k).best? a = none := fun k hk =>
      Option.eq_none_iff_forall_ne_some.mpr fun r hr =>
        hfresh ⟨r, hf.fresh_of_best? (by omega) hr⟩
    rw [hnone k hk, hnone l hl]

/-- The propagation reaches a fixed point within its rounds. -/
theorem forwarding_eq : Bgp.forwarding t m g.destination =
    .ok (.ofHops g.destination
      (hops g.destination (ribAfter t m g.destination network (maxRounds t)))) := by
  have hrest := ribAfter_succ_congr hf.isSpeaker_destination
    (hf.best?_congr (k := 2 * (speakers t).length + 1) (l := 2 * (speakers t).length)
      (by omega) (Nat.le_refl _))
  have hconverge := converge?_eq_iterate hrest (n := maxRounds t) (by rw [maxRounds]; omega)
  rw [Bgp.forwarding, hf.announcement]
  dsimp only
  rw [hconverge]
  rfl

end InForce

end PathPolicy.RequirementGroup
