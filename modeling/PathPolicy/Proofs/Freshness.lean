import PathPolicy.Proofs.Pinned

/-! Routers off the strict members. They may hold on to routes from before the strict members
settled, but such a stale route gets longer in each round, over routers of this kind only, so that
none is left after as many rounds as there are such routers. -/

namespace PathPolicy

open Bgp RequirementGroup ResolvedRequirement

namespace RequirementGroup

/-- The destination and the routers on members of strict requirements. -/
def pins (g : RequirementGroup) (a : RouterId) : Bool :=
  a = g.destination || g.requirements.any fun req =>
    req.kind ≠ .kConnected && req.paths.any (a ∈ ·)

def pinRounds (g : RequirementGroup) (t : Topology) : Nat := (speakers t).countP g.pins

/-- Routes that come from the routes that the pinned routers settled on. -/
inductive Fresh (g : RequirementGroup) (t : Topology) (network : Address) (m : PolicyModel) :
    RouterId → Route → Prop
  | settled {a : RouterId} {best : Route} (ha : g.pins a = true)
      (hbest : (ribAfter t m g.destination network (g.pinRounds t)).best? a = some best) :
      Fresh g t network m a best
  | offered {a b : RouterId} {best r : Route} (ha : g.pins a = false)
      (hs : isSpeaker t a = true) (hb : b ∈ sessions t a) (hbest : Fresh g t network m b best)
      (h : offer? m a b best = some r) : Fresh g t network m a r

variable {t : Topology} {g : RequirementGroup} {community : Option Community} {network : Address}
  {m : PolicyModel} {a b : RouterId} {best r : Route} {k : Nat}

theorem pins_iff : g.pins a = true ↔ a = g.destination ∨
    ∃ req ∈ g.requirements, req.kind ≠ .kConnected ∧ ∃ p ∈ req.paths, a ∈ p := by
  simp [pins]

theorem ne_destination_of_not_pins (ha : g.pins a = false) : a ≠ g.destination := by
  rintro rfl
  simp [pins_iff.mpr (.inl rfl)] at ha

theorem pinRounds_add (g : RequirementGroup) (t : Topology) :
    g.pinRounds t + (speakers t).countP (fun a => !g.pins a) = (speakers t).length := by
  have h := List.length_eq_countP_add_countP g.pins (l := speakers t)
  simp only [Bool.not_eq_true, Bool.decide_eq_false] at h
  exact h.symm

namespace InForce

section

variable (hf : g.InForce t community network m)

include hf

theorem isSpeaker_of_pins (ha : g.pins a = true) : isSpeaker t a = true := by
  rcases pins_iff.mp ha with rfl | ⟨req, hreq, _, p, hp, hap⟩
  · exact hf.isSpeaker_destination
  · exact hf.grounded.speakers hf.bgp p (mem_paths.mpr ⟨req, hreq, hp⟩) a hap

theorem heightIn_le_pinRounds {req : ResolvedRequirement} {heights : List (RouterId × Nat)}
    (hreq : req ∈ g.requirements) (hk : req.kind ≠ .kConnected)
    (hd : req.Descends g.destination heights) (a : RouterId) :
    heightIn heights a ≤ g.pinRounds t := by
  obtain ⟨order, hnd, hmem, hlt⟩ := hd.bounded
  have hsub : order ⊆ (speakers t).filter g.pins := by
    intro x hx
    have hpins : g.pins x = true := by
      rcases hmem x hx with hx | hx
      · exact pins_iff.mpr (.inl hx)
      · exact pins_iff.mpr (.inr ⟨req, hreq, hk, hx⟩)
    exact List.mem_filter.mpr ⟨isSpeaker_iff_mem_speakers.mpr (hf.isSpeaker_of_pins hpins), hpins⟩
  have hle := (hnd.subperm hsub).length_le
  rw [← List.countP_eq_length_filter] at hle
  exact (hlt a).le.trans hle

/-- A pinned router keeps its routes, which lead over pinned routers. -/
theorem rows_of_pins (ha : g.pins a = true) :
    ∃ row, (∀ k, g.pinRounds t ≤ k → (ribAfter t m g.destination network k).rows a = row) ∧
      ∀ r ∈ row, ∀ x ∈ r.path, g.pins x = true := by
  by_cases hne : a = g.destination
  · refine ⟨[announced g.destination network], fun k _ => ?_, by simp [announced]⟩
    rw [hne, rows_destination hf.grounded.destination_lt]
  · obtain ⟨req, hreq, hk, p, hp, hap⟩ := (pins_iff.mp ha).resolve_left hne
    have hv := hf.grounded.valid req hreq
    obtain ⟨c, _, huses⟩ := hv.exists_uses hp hap hne
    obtain ⟨heights, hh⟩ := exists_heights hf.clear hreq hv huses
    obtain ⟨row, hrow⟩ := hf.exists_settled_of_strict hreq hk hh ⟨p, hp, hap⟩
    refine ⟨row, fun k hle => hrow.rows_eq k ?_, fun r hr x hx => ?_⟩
    · exact (hf.heightIn_le_pinRounds hreq hk (hv.descends hk hh) a).trans hle
    · exact pins_iff.mpr (.inr ⟨req, hreq, hk, (hrow.lower r hr x hx).1⟩)

theorem best?_of_pins (ha : g.pins a = true) (hk : g.pinRounds t ≤ k) :
    (ribAfter t m g.destination network k).best? a =
      (ribAfter t m g.destination network (g.pinRounds t)).best? a := by
  obtain ⟨row, hrow, _⟩ := hf.rows_of_pins ha
  rw [best?_eq_head?, best?_eq_head?, hrow k hk, hrow _ (Nat.le_refl _)]

theorem carries_of_fresh (h : g.Fresh t network m a r) :
    isSpeaker t a = true ∧ g.Carries t community network a r := by
  induction h with
  | settled ha hbest => exact ⟨hf.isSpeaker_of_pins ha, hf.carries_of_best? hbest⟩
  | offered _ hs hb _ h ih => exact ⟨hs, hf.carries_offer? ih.2 hb h⟩

theorem path_of_offer? (hbest : g.Fresh t network m b best) (h : offer? m a b best = some r) :
    a ∉ b :: best.path ∧ r.path = b :: best.path := by
  obtain ⟨hloop, _, hpath, _⟩ :=
    hf.offer?_eq_some (hf.carries_of_fresh hbest).2.network_eq h
  exact ⟨hloop, hpath⟩

theorem length_le_of_fresh (h : g.Fresh t network m a r) :
    r.path.length ≤ (speakers t).length := by
  have hc := (hf.carries_of_fresh h).2
  have hsub : r.path ⊆ speakers t := fun x hx =>
    isSpeaker_iff_mem_speakers.mpr (hc.speakers x hx)
  exact ((List.nodup_cons.mp hc.simple).2.subperm hsub).length_le

/-- A router on the path of a fresh route has a shorter one itself, unless it is pinned. -/
theorem exists_fresh_of_mem_path (h : g.Fresh t network m a r) {x : RouterId} (hx : x ∈ r.path)
    (hfree : g.pins x = false) :
    ∃ r', g.Fresh t network m x r' ∧ r'.path.length < r.path.length := by
  induction h with
  | settled ha hbest =>
    obtain ⟨row, hrow, hpins⟩ := hf.rows_of_pins ha
    have hm := hrow _ (Nat.le_refl _) ▸ mem_rows_of_best? hbest
    simp [hpins _ hm x hx] at hfree
  | @offered a b best r _ _ _ hbest h ih =>
    rw [(hf.path_of_offer? hbest h).2] at hx ⊢
    rcases List.mem_cons.mp hx with rfl | hx
    · exact ⟨best, hbest, by simp⟩
    · obtain ⟨r', hr', hlt⟩ := ih hx
      exact ⟨r', hr', by rw [List.length_cons]; omega⟩

theorem exists_offer_of_best? (ha : g.pins a = false)
    (h : (ribAfter t m g.destination network (k + 1)).best? a = some r) :
    isSpeaker t a = true ∧ ∃ b ∈ sessions t a, ∃ best,
      (ribAfter t m g.destination network k).best? b = some best ∧ offer? m a b best = some r := by
  have hd := hf.isSpeaker_destination
  have hm := mem_rows_of_best? h
  exact ⟨isSpeaker_of_mem_rows hd hm,
    exists_offer_of_mem_rows (ne_destination_of_not_pins ha) hm⟩

/-- The part of a stale route that is known to lead over unpinned routers grows by one router in
each round. -/
theorem fresh_or_stale (h : (ribAfter t m g.destination network (g.pinRounds t + k)).best? a =
    some r) : g.Fresh t network m a r ∨
      g.pins a = false ∧ k ≤ r.path.length ∧ ∀ x ∈ r.path.take k, g.pins x = false := by
  induction k generalizing a r with
  | zero =>
    cases ha : g.pins a with
    | true => exact .inl (.settled ha h)
    | false => exact .inr ⟨rfl, Nat.zero_le _, by simp⟩
  | succ k ih =>
    cases ha : g.pins a with
    | true =>
      rw [hf.best?_of_pins ha (by omega)] at h
      exact .inl (.settled ha h)
    | false =>
      obtain ⟨hs, b, hb, best, hbest, hoffer⟩ := hf.exists_offer_of_best? ha h
      rcases ih hbest with hfresh | ⟨hfree, hle, htake⟩
      · exact .inl (.offered ha hs hb hfresh hoffer)
      · obtain ⟨_, _, hpath, _⟩ :=
          hf.offer?_eq_some (hf.carries_of_best? hbest).network_eq hoffer
        refine .inr ⟨rfl, ?_, fun x hx => ?_⟩
        · rw [hpath, List.length_cons]
          omega
        · rw [hpath, List.take_succ_cons] at hx
          rcases List.mem_cons.mp hx with rfl | hx
          · exact hfree
          · exact htake x hx

/-- No stale route is left after as many rounds as there are speakers. -/
theorem fresh_of_best? (hk : (speakers t).length ≤ k)
    (h : (ribAfter t m g.destination network k).best? a = some r) : g.Fresh t network m a r := by
  have hsum := g.pinRounds_add t
  obtain ⟨i, rfl⟩ := Nat.exists_eq_add_of_le (show g.pinRounds t ≤ k by omega)
  rcases hf.fresh_or_stale h with hfresh | ⟨hfree, hle, htake⟩
  · exact hfresh
  · -- the router and the start of its path would be too many different unpinned routers
    exfalso
    have hc := hf.carries_of_best? h
    have hs := isSpeaker_of_mem_rows hf.isSpeaker_destination (mem_rows_of_best? h)
    have hnd : (a :: r.path.take i).Nodup := hc.simple.sublist ((List.take_sublist i _).cons_cons a)
    have hsub : a :: r.path.take i ⊆ (speakers t).filter fun a => !g.pins a := by
      intro x hx
      rw [List.mem_filter, isSpeaker_iff_mem_speakers]
      rcases List.mem_cons.mp hx with rfl | hx
      · exact ⟨hs, by simp [hfree]⟩
      · exact ⟨hc.speakers x (List.mem_of_mem_take hx), by simp [htake x hx]⟩
    have hlen := (hnd.subperm hsub).length_le
    rw [List.length_cons, List.length_take_of_le hle, ← List.countP_eq_length_filter] at hlen
    omega

end

end InForce

end RequirementGroup

end PathPolicy
