import Mathlib.Data.List.Nodup
import Mathlib.Data.List.Perm.Subperm
import PathPolicy.OrderedSet

/-! Ordered maps seen through their look-up. Two maps are compared by what they hold for each key,
and an ordered set by its members. -/

namespace PathPolicy

namespace OrderedMap

variable {κ ν μ : Type} [Ord κ]

@[simp]
theorem get?_empty (k : κ) : (empty : OrderedMap κ ν).get? k = none := rfl

theorem filter_eq_self {m : OrderedMap κ ν} {p : κ → ν → Bool} (h : ∀ k v, p k v = true) :
    m.filter p = m :=
  ext_entries (List.filter_eq_self.mpr fun e _ => h e.1 e.2)

variable [Std.LawfulEqOrd κ]

theorem lookup_eq_some_iff {k : κ} {v : ν} {xs : List (κ × ν)}
    (h : xs.Pairwise fun x y => compare x.1 y.1 = .lt) :
    lookup k xs = some v ↔ (k, v) ∈ xs := by
  induction xs with
  | nil => simp [lookup]
  | cons x xs ih =>
    obtain ⟨k', v'⟩ := x
    have hx := List.pairwise_cons.mp h
    by_cases hk : k = k'
    · subst k'
      have hnot : (k, v) ∉ xs := fun hm => by simpa using hx.1 _ hm
      simp [lookup, hnot, eq_comm]
    · have hne : compare k k' ≠ .eq := fun he => hk (Std.LawfulEqOrd.eq_of_compare he)
      simp [lookup, hne, hk, ih hx.2]

theorem get?_eq_some_iff {m : OrderedMap κ ν} {k : κ} {v : ν} :
    m.get? k = some v ↔ (k, v) ∈ m.entries :=
  lookup_eq_some_iff m.ascending

theorem get?_filter (p : κ → ν → Bool) (m : OrderedMap κ ν) (k : κ) :
    (m.filter p).get? k = (m.get? k).filter (p k) := by
  ext v
  simp [get?_eq_some_iff, filter, Option.filter_eq_some_iff]

theorem get?_mapValues (f : κ → ν → μ) (m : OrderedMap κ ν) (k : κ) :
    (m.mapValues f).get? k = (m.get? k).map (f k) := by
  ext w
  simp only [get?_eq_some_iff, Option.map_eq_some_iff, mapValues, List.mem_map, Prod.mk.injEq]
  constructor
  · rintro ⟨⟨k', v⟩, hm, rfl, rfl⟩
    exact ⟨v, hm, rfl⟩
  · rintro ⟨v, hm, rfl⟩
    exact ⟨(k, v), hm, rfl, rfl⟩

theorem mem_keys_iff {m : OrderedMap κ ν} {k : κ} : k ∈ m.keys ↔ ∃ v, m.get? k = some v := by
  simp [keys, get?_eq_some_iff]

theorem mem_values_iff {m : OrderedMap κ ν} {v : ν} : v ∈ m.values ↔ ∃ k, m.get? k = some v := by
  simp [values, get?_eq_some_iff]

theorem contains_iff {m : OrderedMap κ ν} {k : κ} : m.contains k = true ↔ k ∈ m.keys := by
  rw [contains, Option.isSome_iff_exists, mem_keys_iff]

theorem keys_nodup (m : OrderedMap κ ν) : m.keys.Nodup := by
  refine List.Nodup.of_map (f := id) ?_
  rw [List.map_id, keys, List.Nodup, List.pairwise_map]
  exact m.ascending.imp fun hlt he => by simp [he] at hlt

theorem flatMap_entries_eq [DecidableEq κ] {α : Type} (m : OrderedMap κ ν) (k : κ)
    (f : ν → List α) :
    (m.entries.flatMap fun e => if e.1 = k then f e.2 else []) = ((m.get? k).map f).getD [] := by
  obtain ⟨xs, hxs⟩ := m
  change (xs.flatMap fun e => if e.1 = k then f e.2 else []) = ((lookup k xs).map f).getD []
  induction xs with
  | nil => rfl
  | cons x xs ih =>
    obtain ⟨k', v⟩ := x
    obtain ⟨hx, hrest⟩ := List.pairwise_cons.mp hxs
    rw [List.flatMap_cons, lookup]
    by_cases hk : k' = k
    · subst k'
      have hnil : (xs.flatMap fun e => if e.1 = k then f e.2 else []) = [] := by
        refine List.flatMap_eq_nil_iff.mpr fun e he => if_neg fun hek => ?_
        simpa [hek] using hx e he
      simp [hnil]
    · have hne : compare k k' ≠ .eq := fun he => hk (Std.LawfulEqOrd.eq_of_compare he).symm
      rw [if_neg hk, if_neg hne, List.nil_append, ih hrest]

variable [Std.TransOrd κ]

theorem ext_get? {m n : OrderedMap κ ν} (h : ∀ k, m.get? k = n.get? k) : m = n := by
  have hmem : ∀ e, e ∈ m.entries ↔ e ∈ n.entries := by
    rintro ⟨k, v⟩
    rw [← get?_eq_some_iff, ← get?_eq_some_iff, h k]
  have hnodup : ∀ l : OrderedMap κ ν, l.entries.Nodup := fun l =>
    l.ascending.imp fun hlt he => by simp [he] at hlt
  have hperm : m.entries.Perm n.entries :=
    (List.perm_ext_iff_of_nodup (hnodup m) (hnodup n)).mpr hmem
  refine ext_entries (hperm.eq_of_pairwise (fun x y _ _ hxy hyx => ?_) m.ascending n.ascending)
  exact absurd hyx (Std.OrientedCmp.not_lt_of_lt hxy)

/-- The keys of a map are determined by their set. -/
theorem keys_eq_of_mem_iff {m : OrderedMap κ ν} {n : OrderedMap κ μ}
    (h : ∀ k, k ∈ m.keys ↔ k ∈ n.keys) : m.keys = n.keys := by
  have hunit : m.mapValues (fun _ _ => ()) = n.mapValues fun _ _ => () := by
    refine ext_get? fun k => ?_
    have hk := h k
    simp only [mem_keys_iff, get?_mapValues] at hk ⊢
    cases hm : m.get? k <;> cases hn : n.get? k <;> simp_all
  have hkeys := congrArg keys hunit
  simpa [keys, mapValues, Function.comp_def] using hkeys

theorem get?_insert [DecidableEq κ] (m : OrderedMap κ ν) (k k' : κ) (v : ν) :
    (m.insert k v).get? k' = if k' = k then some v else m.get? k' := by
  split
  · next h => rw [h, get?_insert_self]
  · next h => exact get?_insert_of_ne m v h

theorem get?_update [DecidableEq κ] (m : OrderedMap κ ν) (k k' : κ) (f : Option ν → ν) :
    (m.update k f).get? k' = if k' = k then some (f (m.get? k)) else m.get? k' :=
  get?_insert m k k' _

theorem get?_foldl_insert_of_notMem {xs : List (κ × ν)} {k : κ} (h : k ∉ xs.map (·.1))
    (m : OrderedMap κ ν) : (xs.foldl (fun m e => m.insert e.1 e.2) m).get? k = m.get? k := by
  induction xs generalizing m with
  | nil => rfl
  | cons x xs ih =>
    simp only [List.map_cons, List.mem_cons, not_or] at h
    rw [List.foldl_cons, ih h.2, get?_insert_of_ne m _ h.1]

theorem get?_ofList_of_notMem {xs : List (κ × ν)} {k : κ} (h : k ∉ xs.map (·.1)) :
    (ofList xs).get? k = none :=
  get?_foldl_insert_of_notMem h empty

theorem get?_ofList_of_mem {xs : List (κ × ν)} {k : κ} {v : ν} (hnd : (xs.map (·.1)).Nodup)
    (h : (k, v) ∈ xs) : (ofList xs).get? k = some v := by
  suffices hh : ∀ m : OrderedMap κ ν,
      (xs.foldl (fun m e => m.insert e.1 e.2) m).get? k = some v from hh empty
  induction xs with
  | nil => simp at h
  | cons x xs ih =>
    intro m
    have hx := List.nodup_cons.mp hnd
    rcases List.mem_cons.mp h with rfl | h
    · rw [List.foldl_cons, get?_foldl_insert_of_notMem hx.1, get?_insert_self]
    · exact ih hx.2 h _

theorem get?_ofList_map {ks : List κ} {k : κ} (f : κ → ν) (hnd : ks.Nodup) (hk : k ∈ ks) :
    (ofList (ks.map fun k => (k, f k))).get? k = some (f k) := by
  refine get?_ofList_of_mem ?_ (List.mem_map.mpr ⟨k, hk, rfl⟩)
  rw [List.map_map]
  exact (List.map_id ks).symm ▸ hnd

end OrderedMap

namespace OrderedSet

variable {α : Type} [Ord α] [Std.LawfulEqOrd α] [Std.TransOrd α]

theorem mem_add {s : OrderedSet α} {a b : α} : b ∈ (add s a).toList ↔ b = a ∨ b ∈ s.toList := by
  classical
  simp only [toList, add, OrderedMap.mem_keys_iff, OrderedMap.get?_insert]
  by_cases h : b = a <;> simp [h]

theorem mem_foldl_add {xs : List α} {s : OrderedSet α} {b : α} :
    b ∈ (xs.foldl add s).toList ↔ b ∈ xs ∨ b ∈ s.toList := by
  induction xs generalizing s with
  | nil => simp
  | cons x xs ih =>
    rw [List.foldl_cons, ih, mem_add, List.mem_cons]
    tauto

theorem mem_ofList {xs : List α} {b : α} : b ∈ (ofList xs).toList ↔ b ∈ xs := by
  rw [ofList, mem_foldl_add]
  simp [toList, OrderedMap.keys, OrderedMap.empty]

/-- A set is determined by its members. -/
theorem ext_toList {s t : OrderedSet α} (h : ∀ a, a ∈ s.toList ↔ a ∈ t.toList) : s = t := by
  refine OrderedMap.ext_get? fun a => Option.ext fun u => ?_
  have ha := h a
  simp only [toList, OrderedMap.mem_keys_iff, Unique.exists_iff] at ha
  exact ha

theorem contains_add {s : OrderedSet α} {a b : α} :
    (add s a).contains b = true ↔ b = a ∨ s.contains b = true := by
  rw [OrderedMap.contains_iff, OrderedMap.contains_iff]
  exact mem_add

end OrderedSet

end PathPolicy
