import PathPolicy.Graph.SimplePath
import PathPolicy.Proofs.Path

/-! The search for simple paths finds each path that takes only next nodes and fresh nodes, and
finds nothing else. -/

namespace PathPolicy

/-- A simple path from `a` to the target that takes next nodes, and after `a` unused ones only. -/
structure IsSearched (next : Nat → List Nat) (target : Nat) (unused : List Nat) (a : Nat)
    (path : List Nat) : Prop where
  head : path.head? = some a
  last : path.getLast? = some target
  nodup : path.Nodup
  chain : path.IsChain fun x y => y ∈ next x
  tail_subset : path.tail ⊆ unused

namespace IsSearched

variable {next : Nat → List Nat} {target a b : Nat} {unused path : List Nat}

theorem singleton (next : Nat → List Nat) (target : Nat) (unused : List Nat) :
    IsSearched next target unused target [target] :=
  ⟨rfl, rfl, by simp, by simp, by simp⟩

theorem eq_singleton (h : IsSearched next target unused target path) : path = [target] := by
  have hh := h.head
  have hl := h.last
  have hnd := h.nodup
  cases path with
  | nil => simp at hh
  | cons x xs =>
    obtain rfl : x = target := by simpa using hh
    cases xs with
    | nil => rfl
    | cons y ys =>
      have hm : x ∈ y :: ys := List.mem_of_getLast? (by simpa using hl)
      exact absurd hm (List.nodup_cons.mp hnd).1

theorem cons (hb : b ∈ next a) (hu : b ∈ unused) (ha : a ∉ unused)
    (h : IsSearched next target (unused.erase b) b path) :
    IsSearched next target unused a (a :: path) := by
  obtain ⟨rest, rfl⟩ := List.head?_eq_some_iff.mp h.head
  have hsub : b :: rest ⊆ unused := by
    refine List.cons_subset.mpr ⟨hu, fun x hx => List.mem_of_mem_erase (h.tail_subset ?_)⟩
    simpa using hx
  refine ⟨rfl, ?_, List.nodup_cons.mpr ⟨fun hm => ha (hsub hm), h.nodup⟩, ?_, hsub⟩
  · simpa using h.last
  · exact List.isChain_cons_cons.mpr ⟨hb, h.chain⟩

theorem uncons (hne : a ≠ target) (h : IsSearched next target unused a path) :
    ∃ b rest, path = a :: rest ∧ b ∈ next a ∧ b ∈ unused ∧
      IsSearched next target (unused.erase b) b rest := by
  obtain ⟨rest, rfl⟩ := List.head?_eq_some_iff.mp h.head
  have hl := h.last
  have hnd := List.nodup_cons.mp h.nodup
  cases rest with
  | nil => exact absurd (by simpa using hl) hne
  | cons b rest =>
    have hc := List.isChain_cons_cons.mp h.chain
    have hsub : b :: rest ⊆ unused := h.tail_subset
    have hb := List.nodup_cons.mp hnd.2
    have hlast : (b :: rest).getLast? = some target := by simpa using hl
    refine ⟨b, b :: rest, rfl, hc.1, hsub List.mem_cons_self, rfl, hlast, hnd.2, hc.2, ?_⟩
    intro x hx
    have hxb : x ≠ b := fun he => hb.1 (he ▸ hx)
    exact (List.mem_erase_of_ne hxb).mpr (hsub (List.mem_cons_of_mem b hx))

end IsSearched

theorem mem_simplePaths {next : Nat → List Nat} {target : Nat} {unused : List Nat} {a : Nat}
    {path : List Nat} (hnd : unused.Nodup) (ha : a ∉ unused) :
    path ∈ simplePaths next target unused a ↔ IsSearched next target unused a path := by
  induction unused, a using simplePaths.induct target generalizing path with
  | case1 unused =>
    rw [simplePaths, if_pos rfl, List.mem_singleton]
    exact ⟨fun h => h ▸ .singleton next target unused, fun h => h.eq_singleton⟩
  | case2 unused a hne ih =>
    have hstep : ∀ b ∈ unused, ∀ rest, rest ∈ simplePaths next target (unused.erase b) b ↔
        IsSearched next target (unused.erase b) b rest :=
      fun b hb rest => ih b hb (hnd.erase b) (List.Nodup.not_mem_erase hnd)
    rw [simplePaths, if_neg hne, List.mem_flatMap]
    constructor
    · rintro ⟨b, hb, hm⟩
      split at hm
      · next hu =>
        obtain ⟨rest, hr, rfl⟩ := List.mem_map.mp hm
        exact ((hstep b hu rest).mp hr).cons hb hu ha
      · simp at hm
    · intro h
      obtain ⟨b, rest, rfl, hb, hu, hr⟩ := h.uncons hne
      refine ⟨b, hb, ?_⟩
      rw [dif_pos hu]
      exact List.mem_map.mpr ⟨rest, (hstep b hu rest).mpr hr, rfl⟩

end PathPolicy
