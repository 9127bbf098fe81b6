import Mathlib.Data.List.Chain
import Mathlib.Data.List.Nodup
import Mathlib.Data.List.Perm.Subperm
import PathPolicy.Topology

/-! Paths as lists of routers. On a simple path each router but the last has one successor, and the
last one has none. -/

namespace PathPolicy

def Hop (path : List RouterId) (a b : RouterId) : Prop := [a, b] <:+: path

namespace Hop

variable {path : List RouterId} {a b c : RouterId}

theorem left_mem (h : Hop path a b) : a ∈ path := h.subset (by simp)

theorem right_mem (h : Hop path a b) : b ∈ path := h.subset (by simp)

theorem cons (h : Hop path a b) (x : RouterId) : Hop (x :: path) a b :=
  h.trans (List.suffix_cons x path).isInfix

theorem cons_iff {x : RouterId} :
    Hop (x :: path) a b ↔ x = a ∧ path.head? = some b ∨ Hop path a b := by
  rw [Hop, List.infix_cons_iff, List.cons_prefix_cons, ← Hop]
  cases path with
  | nil => simp
  | cons y ys => simp [List.cons_prefix_cons, eq_comm]

theorem not_nil : ¬ Hop [] a b := fun h => by simpa using h.left_mem

theorem mem_zip_tail : (a, b) ∈ path.zip path.tail ↔ Hop path a b := by
  induction path with
  | nil => simp [not_nil]
  | cons x xs ih =>
    rw [cons_iff, ← ih]
    cases xs with
    | nil => simp
    | cons y ys => simp [eq_comm]

theorem of_getElem? {i : Nat} (ha : path[i]? = some a) (hb : path[i + 1]? = some b) :
    Hop path a b := by
  obtain ⟨hi, rfl⟩ := List.getElem?_eq_some_iff.mp ha
  obtain ⟨hj, rfl⟩ := List.getElem?_eq_some_iff.mp hb
  have hdrop : path.drop i = path[i] :: path[i + 1] :: path.drop (i + 2) := by
    rw [List.drop_eq_getElem_cons hi, List.drop_eq_getElem_cons hj]
  refine List.IsInfix.trans ?_ (List.drop_suffix i path).isInfix
  rw [hdrop]
  exact ⟨[], path.drop (i + 2), rfl⟩

theorem ne_of_nodup (h : Hop path a b) (hnd : path.Nodup) : a ≠ b := by
  have hh := hnd.sublist h.sublist
  simpa using hh

theorem idxOf_right (h : Hop path a b) (hnd : path.Nodup) :
    path.idxOf b = path.idxOf a + 1 := by
  have hne := h.ne_of_nodup hnd
  obtain ⟨s, t, rfl⟩ := h
  have hdisjoint := List.disjoint_of_nodup_append (List.append_assoc s [a, b] t ▸ hnd)
  have ha : a ∉ s := fun hm => hdisjoint hm (by simp)
  have hb : b ∉ s := fun hm => hdisjoint hm (by simp)
  simp [List.idxOf_append_of_notMem, ha, hb, List.idxOf_cons_ne _ hne]

theorem right_unique (hnd : path.Nodup) (hb : Hop path a b) (hc : Hop path a c) : b = c := by
  induction path with
  | nil => exact absurd hb not_nil
  | cons x xs ih =>
    have hx := List.nodup_cons.mp hnd
    rcases cons_iff.mp hb with ⟨rfl, hb'⟩ | hb'
    · rcases cons_iff.mp hc with ⟨_, hc'⟩ | hc'
      · exact Option.some.inj (hb'.symm.trans hc')
      · exact absurd hc'.left_mem hx.1
    · rcases cons_iff.mp hc with ⟨rfl, _⟩ | hc'
      · exact absurd hb'.left_mem hx.1
      · exact ih hx.2 hb' hc'

theorem exists_of_mem {d : RouterId} (hlast : path.getLast? = some d) (ha : a ∈ path)
    (hne : a ≠ d) : ∃ b, Hop path a b := by
  induction path with
  | nil => simp at ha
  | cons x xs ih =>
    cases xs with
    | nil =>
      have hx : x = d := by simpa using hlast
      have ha : a = x := by simpa using ha
      exact absurd (ha.trans hx) hne
    | cons y ys =>
      have hlast' : (y :: ys).getLast? = some d := by simpa using hlast
      rcases List.mem_cons.mp ha with rfl | ha
      · exact ⟨y, cons_iff.mpr (.inl ⟨rfl, rfl⟩)⟩
      · obtain ⟨b, hb⟩ := ih hlast' ha
        exact ⟨b, hb.cons x⟩

theorem ne_last {d : RouterId} (hnd : path.Nodup) (hlast : path.getLast? = some d)
    (h : Hop path a b) : a ≠ d := by
  rintro rfl
  obtain ⟨p, rfl⟩ := List.getLast?_eq_some_iff.mp hlast
  obtain ⟨s, t, hst⟩ := h
  have hnot : a ∉ p := fun hm =>
    List.disjoint_of_nodup_append hnd hm (by simp)
  cases t using List.reverseRecOn with
  | nil =>
    have he : s ++ [a] ++ [b] = p ++ [a] := by simpa using hst
    exact hnot (by rw [← (List.append_inj' he rfl).1]; simp)
  | append_singleton t x =>
    have he : (s ++ [a, b] ++ t) ++ [x] = p ++ [a] := by simpa using hst
    exact hnot (by rw [← (List.append_inj' he rfl).1]; simp)

theorem of_isChain {R : RouterId → RouterId → Prop} (hc : path.IsChain R) (h : Hop path a b) :
    R a b := by
  have hh := hc.infix h
  simpa using hh

theorem isChain_iff {R : RouterId → RouterId → Prop} :
    path.IsChain R ↔ ∀ a b, Hop path a b → R a b := by
  refine ⟨fun hc a b h => of_isChain hc h, fun h => ?_⟩
  induction path with
  | nil => simp
  | cons x xs ih =>
    refine List.isChain_cons.mpr ⟨fun y hy => h x y (cons_iff.mpr (.inl ⟨rfl, hy⟩)), ?_⟩
    exact ih fun a b hab => h a b (hab.cons x)

end Hop

/-- Simple paths from the same router to the same destination part somewhere. -/
theorem eq_of_hops {path other : List RouterId} {d : RouterId} (hhead : path.head? = other.head?)
    (hlast : path.getLast? = some d) (hother : other.getLast? = some d) (hnd : path.Nodup)
    (hnd' : other.Nodup) (h : ∀ a b c, Hop path a b → Hop other a c → b = c) : path = other := by
  have hend : ∀ {x y : RouterId} {rest : List RouterId}, (x :: y :: rest).Nodup →
      (x :: y :: rest).getLast? = some x → False := by
    intro x y rest hnd hlast
    rw [List.getLast?_cons_cons] at hlast
    exact (List.nodup_cons.mp hnd).1 (List.mem_of_getLast? hlast)
  induction path generalizing other with
  | nil => cases hlast
  | cons x xs ih =>
    cases other with
    | nil => cases hother
    | cons y ys =>
      obtain rfl : x = y := Option.some.inj hhead
      cases xs with
      | nil =>
        obtain rfl : x = d := Option.some.inj hlast
        cases ys with
        | nil => rfl
        | cons z zs => exact (hend hnd' hother).elim
      | cons b xs =>
        cases ys with
        | nil =>
          obtain rfl : x = d := Option.some.inj hother
          exact (hend hnd hlast).elim
        | cons c ys =>
          obtain rfl : b = c :=
            h x b c (Hop.cons_iff.mpr (.inl ⟨rfl, rfl⟩)) (Hop.cons_iff.mpr (.inl ⟨rfl, rfl⟩))
          have hrest : (b :: xs).head? = (b :: ys).head? := rfl
          rw [ih hrest hlast hother (List.nodup_cons.mp hnd).2 (List.nodup_cons.mp hnd').2
            fun a b' c' hb hc => h a b' c' (hb.cons x) (hc.cons x)]

/-- A simple path ends with the first visit of its destination. -/
theorem eq_of_prefix {path other : List RouterId} {d : RouterId} (hpre : path <+: other)
    (hlast : path.getLast? = some d) (hother : other.getLast? = some d) (hnd : other.Nodup) :
    path = other := by
  obtain ⟨rest, rfl⟩ := hpre
  cases rest using List.reverseRecOn with
  | nil => simp
  | append_singleton rest x =>
    obtain rfl : x = d := by simpa [← List.append_assoc] using hother
    have hm : x ∈ path := List.mem_of_getLast? hlast
    exact absurd (List.disjoint_of_nodup_append hnd hm (by simp)) (by simp)

end PathPolicy
