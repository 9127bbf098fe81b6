import PathPolicy.Proofs.BgpFidelity

/-! Traffic that follows primary next hops. Where each router of a region sends it on inside the
region or to the destination, it arrives or runs into a loop, but it never gets lost. -/

namespace PathPolicy.ForwardingState

variable {s : ForwardingState} {inside : RouterId → Prop} {R : RouterId → RouterId → Prop}
  {fresh path p : List RouterId} {a b : RouterId}

/-- The routers of a region send traffic on inside the region, or to the destination. -/
def Leads (s : ForwardingState) (inside : RouterId → Prop) (R : RouterId → RouterId → Prop) :
    Prop :=
  ∀ a, inside a → ∃ b, (s.nextHops a).head? = some b ∧ R a b ∧ (b ≠ s.destination → inside b)

/-- The path ends with the second visit of a router. -/
def Loops (path : List RouterId) : Prop := ∃ p b, path = p ++ [b] ∧ b ∈ p

theorem isChain_concat (hchain : path.IsChain R) (hlast : path.getLast? = some a) (hab : R a b) :
    (path ++ [b]).IsChain R := by
  refine List.isChain_append.mpr ⟨hchain, List.isChain_singleton b, fun x hx y hy => ?_⟩
  obtain rfl : a = x := Option.some.inj (hlast.symm.trans hx)
  obtain rfl : b = y := by simpa using hy
  exact hab

theorem follow_of_leads (h : s.Leads inside R) (hnd : path.Nodup) (hchain : path.IsChain R)
    (hlast : path.getLast? = some a) (ha : a ≠ s.destination → inside a)
    (hfresh : ∀ x ∈ s.hops.keys, x ∉ path ∨ x = a → x ∈ fresh) :
    (∃ p, s.follow fresh path a = .ok p ∧ path <+: p ∧ p.Nodup ∧ p.IsChain R ∧
        p.getLast? = some s.destination) ∨
      ∃ p, s.follow fresh path a = .error (.loop p) ∧ path <+: p ∧ p.IsChain R ∧ Loops p := by
  fun_induction s.follow fresh path a with
  | case1 fresh path => exact .inl ⟨path, rfl, List.prefix_rfl, hnd, hchain, hlast⟩
  | case2 fresh path a hne _ hnil =>
    obtain ⟨b, hb, _⟩ := h a (ha hne)
    simp [hnil] at hb
  | case3 fresh path a hne _ b others hnext hb =>
    obtain ⟨b', hb', hab, _⟩ := h a (ha hne)
    obtain rfl : b = b' := by simpa [hnext] using hb'
    exact .inr ⟨path ++ [b], rfl, List.prefix_append _ _, isChain_concat hchain hlast hab,
      path, b, rfl, hb⟩
  | case4 fresh path a hne hmem b others hnext hb ih =>
    obtain ⟨b', hb', hab, hinside⟩ := h a (ha hne)
    obtain rfl : b = b' := by simpa [hnext] using hb'
    have hnd' : (path ++ [b]).Nodup := by simpa using hnd.concat hb
    have hleft : a ∈ path := List.mem_of_getLast? hlast
    have hfresh' : ∀ x ∈ s.hops.keys, x ∉ path ++ [b] ∨ x = b → x ∈ fresh.erase a := by
      intro x hx hor
      have hnew : x ∉ path := by
        rcases hor with hx | rfl
        · exact fun hm => hx (List.mem_append_left _ hm)
        · exact hb
      have hxa : x ≠ a := fun he => hnew (he ▸ hleft)
      exact (List.mem_erase_of_ne hxa).mpr (hfresh x hx (.inl hnew))
    rcases ih hnd' (isChain_concat hchain hlast hab) (by simp) hinside hfresh' with
      ⟨p, hp, hpre, hrest⟩ | ⟨p, hp, hpre, hrest⟩
    · exact .inl ⟨p, hp, (List.prefix_append _ _).trans hpre, hrest⟩
    · exact .inr ⟨p, hp, (List.prefix_append _ _).trans hpre, hrest⟩
  | case5 fresh path a hne hstale =>
    obtain ⟨b, hb, _⟩ := h a (ha hne)
    exact absurd (hfresh a (mem_keys_of_head?_nextHops hb) (.inr rfl)) hstale

/-- Traffic from a router of the region arrives along a simple path, or is caught in a loop. -/
theorem route_of_leads (h : s.Leads inside R) (ha : inside a) :
    (∃ p, s.route a = .ok p ∧ p.head? = some a ∧ p.Nodup ∧ p.IsChain R ∧
        p.getLast? = some s.destination) ∨
      ∃ p, s.route a = .error (.loop p) ∧ p.head? = some a ∧ p.IsChain R ∧ Loops p := by
  have hhead : ∀ p, [a] <+: p → p.head? = some a := by
    rintro _ ⟨rest, rfl⟩
    rfl
  rcases follow_of_leads h (List.nodup_singleton a) (List.isChain_singleton a) rfl (fun _ => ha)
    (fun x hx _ => hx) with ⟨p, hp, hpre, hrest⟩ | ⟨p, hp, hpre, hrest⟩
  · exact .inl ⟨p, hp, hhead p hpre, hrest⟩
  · exact .inr ⟨p, hp, hhead p hpre, hrest⟩

/-- Where a measure falls on every hop, there is no loop. -/
theorem not_loops (measure : RouterId → Nat) (hfall : ∀ a b, R a b → measure b < measure a)
    (hchain : p.IsChain R) : ¬ Loops p := by
  rintro ⟨p, b, rfl, hb⟩
  have hfalls : (p ++ [b]).IsChain fun x y => measure y < measure x :=
    hchain.imp fun x y hxy => hfall x y hxy
  have htrans : Trans (fun x y => measure y < measure x) (fun x y => measure y < measure x)
      (fun x y => measure y < measure x) := ⟨fun hxy hyz => Nat.lt_trans hyz hxy⟩
  have hpair := List.pairwise_append.mp hfalls.pairwise
  exact Nat.lt_irrefl _ (hpair.2.2 b hb b List.mem_cons_self)

theorem exists_route_of_leads (h : s.Leads inside R) (ha : inside a) (measure : RouterId → Nat)
    (hfall : ∀ a b, R a b → measure b < measure a) :
    ∃ p, s.route a = .ok p ∧ p.head? = some a ∧ p.Nodup ∧ p.IsChain R ∧
      p.getLast? = some s.destination := by
  rcases route_of_leads h ha with hok | ⟨p, _, _, hchain, hloop⟩
  · exact hok
  · exact absurd hloop (not_loops measure hfall hchain)

theorem route_destination (s : ForwardingState) : s.route s.destination = .ok [s.destination] := by
  rw [route, follow, if_pos rfl]

theorem route_of_nextHops_eq_nil (hne : a ≠ s.destination) (h : s.nextHops a = []) :
    s.route a = .error (.blackHole [a]) := by
  rw [route, follow, if_neg hne, h]
  split <;> rfl

end PathPolicy.ForwardingState
