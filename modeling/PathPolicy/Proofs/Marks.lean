import PathPolicy.Proofs.Acceptance
import PathPolicy.Proofs.Words

/-! The marks of groups. Prefix lists are named for communities, and no two BGP groups have the same
community, so that a clause tells which group it belongs to, whatever networks the destinations
share. -/

namespace PathPolicy

theorem toList_prefixListName (c : Community) : (prefixListName c).toList =
    "PL_".toList ++ (Nat.toDigits 10 c.asn ++ '_' :: Nat.toDigits 10 c.value) := by
  unfold prefixListName
  dsimp only [toString]
  simp

theorem prefixListName_injective {c c' : Community} (h : prefixListName c = prefixListName c') :
    c = c' := by
  have hlist := congrArg String.toList h
  rw [toList_prefixListName, toList_prefixListName] at hlist
  have hsplit := congrArg (Text.splitFirst '_') (List.append_cancel_left hlist)
  have hmark : ∀ n, '_' ∉ Nat.toDigits 10 n := Text.notMem_toDigits (by decide)
  rw [Text.splitFirst_append (hmark _), Text.splitFirst_append (hmark _)] at hsplit
  obtain ⟨hasn, hvalue⟩ := Prod.mk.inj hsplit
  have hnumber : ∀ m n, Nat.toDigits 10 m = Nat.toDigits 10 n → m = n := fun m n he => by
    have hread := congrArg Text.numeral? he
    rw [Text.numeral?_toDigits, Text.numeral?_toDigits] at hread
    exact Option.some.inj hread
  cases c
  cases c'
  rw [Community.mk.injEq]
  exact ⟨hnumber _ _ hasn, hnumber _ _ (Option.some.inj hvalue)⟩

section Communities

variable {asn : Nat}

theorem le_of_mem_zip_assignCommunities {gs : List RequirementGroup} {value : Nat}
    {x : RequirementGroup × Option Community} (hx : x ∈ gs.zip (assignCommunities asn value gs))
    (hbgp : x.1.protocol = .bgp) : ∃ v, value ≤ v ∧ x.2 = some ⟨asn, v⟩ := by
  induction gs generalizing value with
  | nil => simp at hx
  | cons g gs ih =>
    rw [assignCommunities] at hx
    split at hx
    · rcases List.mem_cons.mp hx with rfl | hx
      · exact ⟨value, le_rfl, rfl⟩
      · obtain ⟨v, hle, hv⟩ := ih hx
        exact ⟨v, by omega, hv⟩
    · next hno =>
      rcases List.mem_cons.mp hx with rfl | hx
      · exact absurd hbgp hno
      · exact ih hx

theorem pairwise_assignCommunities (gs : List RequirementGroup) (value : Nat) :
    (gs.zip (assignCommunities asn value gs)).Pairwise fun x y =>
      x.1.protocol = .bgp → y.1.protocol = .bgp → x.2 ≠ y.2 := by
  induction gs generalizing value with
  | nil => exact .nil
  | cons g gs ih =>
    rw [assignCommunities]
    split
    · refine List.pairwise_cons.mpr ⟨fun y hy _ hybgp => ?_, ih (value + 1)⟩
      obtain ⟨v, hle, hv⟩ := le_of_mem_zip_assignCommunities hy hybgp
      rw [hv]
      simp only [ne_eq, Option.some.injEq, Community.mk.injEq, true_and]
      omega
    · next hno => exact List.pairwise_cons.mpr ⟨fun _ _ hbgp => absurd hbgp hno, ih value⟩

end Communities

namespace GroupMark

variable {m m' : GroupMark} {b : RouterId} {d : Decision} {c c' : Clause}

theorem community_eq_of_prefixList (h : m.prefixList = m'.prefixList) :
    m.community = m'.community :=
  prefixListName_injective (congrArg PrefixList.name h)

/-- The clauses for a decision are told apart by their verdicts. -/
theorem eq_of_verdict (hc : c ∈ m.clauses b d) (hc' : c' ∈ m.clauses b d)
    (h : c'.verdict = c.verdict) : c' = c :=
  eq_of_key Clause.verdict
    (by simp [nextHopClause, denyClause, Clause.verdict, Effect.verdict]) hc hc' h

end GroupMark

namespace Synthesizer

variable {s : Synthesizer} {gs : List RequirementGroup} {x y : RequirementGroup × Option Community}
  {b b' : RouterId} {d d' : Decision} {c c' : Clause}

theorem community_mark (hx : x ∈ s.marked gs) (hbgp : x.1.protocol = .bgp) :
    some (x.1.mark s.topology x.2).community = x.2 := by
  obtain ⟨v, _, hv⟩ := le_of_mem_zip_assignCommunities hx hbgp
  rw [RequirementGroup.mark, hv, Option.getD_some]

theorem eq_of_prefixList (hx : x ∈ s.marked gs) (hy : y ∈ s.marked gs)
    (hxbgp : x.1.protocol = .bgp) (hybgp : y.1.protocol = .bgp)
    (h : (x.1.mark s.topology x.2).prefixList = (y.1.mark s.topology y.2).prefixList) : x = y := by
  have hcommunity : x.2 = y.2 := by
    rw [← community_mark hx hxbgp, GroupMark.community_eq_of_prefixList h, community_mark hy hybgp]
  have hsymm : Std.Symm fun x y : RequirementGroup × Option Community =>
      x.1.protocol = .bgp → y.1.protocol = .bgp → x.2 ≠ y.2 :=
    ⟨fun _ _ h hy hx => (h hx hy).symm⟩
  by_contra hne
  exact (pairwise_assignCommunities gs 0).forall hx hy hne hxbgp hybgp hcommunity

/-- Clauses for the same prefix list belong to one group. -/
theorem eq_of_clauses (hx : x ∈ s.marked gs) (hy : y ∈ s.marked gs) (hxbgp : x.1.protocol = .bgp)
    (hybgp : y.1.protocol = .bgp) (hc : c ∈ (x.1.mark s.topology x.2).clauses b d)
    (hc' : c' ∈ (y.1.mark s.topology y.2).clauses b' d') (h : c.prefixList? = c'.prefixList?) :
    x = y := by
  rw [GroupMark.prefixList?_of_mem_clauses hc, GroupMark.prefixList?_of_mem_clauses hc'] at h
  exact eq_of_prefixList hx hy hxbgp hybgp (Option.some.inj h)

end Synthesizer

end PathPolicy
