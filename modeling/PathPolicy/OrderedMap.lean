/-! Finite maps listed in ascending order of their keys, so that maps with the same entries are
equal. -/

namespace PathPolicy

structure OrderedMap (κ ν : Type) [Ord κ] where
  entries : List (κ × ν)
  ascending : entries.Pairwise fun x y => compare x.1 y.1 = .lt
  deriving DecidableEq

namespace OrderedMap

variable {κ ν μ : Type} [Ord κ]

theorem ext_entries {m n : OrderedMap κ ν} (h : m.entries = n.entries) : m = n := by
  cases m; cases n; simp_all

def empty : OrderedMap κ ν := ⟨[], .nil⟩

instance : EmptyCollection (OrderedMap κ ν) := ⟨empty⟩

instance : Inhabited (OrderedMap κ ν) := ⟨empty⟩

def isEmpty (m : OrderedMap κ ν) : Bool := m.entries.isEmpty

def size (m : OrderedMap κ ν) : Nat := m.entries.length

def keys (m : OrderedMap κ ν) : List κ := m.entries.map (·.1)

def values (m : OrderedMap κ ν) : List ν := m.entries.map (·.2)

def lookup (k : κ) : List (κ × ν) → Option ν
  | [] => none
  | (k', v) :: rest => if compare k k' = .eq then some v else lookup k rest

def get? (m : OrderedMap κ ν) (k : κ) : Option ν := lookup k m.entries

def contains (m : OrderedMap κ ν) (k : κ) : Bool := (m.get? k).isSome

def filter (p : κ → ν → Bool) (m : OrderedMap κ ν) : OrderedMap κ ν :=
  ⟨m.entries.filter fun e => p e.1 e.2, m.ascending.sublist List.filter_sublist⟩

def mapValues (f : κ → ν → μ) (m : OrderedMap κ ν) : OrderedMap κ μ :=
  ⟨m.entries.map fun e => (e.1, f e.1 e.2), List.pairwise_map.mpr m.ascending⟩

def insertEntry (k : κ) (v : ν) : List (κ × ν) → List (κ × ν)
  | [] => [(k, v)]
  | (k', v') :: rest =>
    match compare k k' with
    | .lt => (k, v) :: (k', v') :: rest
    | .eq => (k, v) :: rest
    | .gt => (k', v') :: insertEntry k v rest

theorem mem_insertEntry {k : κ} {v : ν} {e : κ × ν} {xs : List (κ × ν)}
    (h : e ∈ insertEntry k v xs) : e = (k, v) ∨ e ∈ xs := by
  induction xs with
  | nil => simpa [insertEntry] using h
  | cons x xs ih =>
    obtain ⟨k', v'⟩ := x
    rw [insertEntry] at h
    split at h <;> grind

variable [Std.LawfulEqOrd κ]

theorem lookup_insertEntry_self (k : κ) (v : ν) (xs : List (κ × ν)) :
    lookup k (insertEntry k v xs) = some v := by
  induction xs with
  | nil => simp [insertEntry, lookup]
  | cons x xs ih =>
    obtain ⟨k', v'⟩ := x
    rw [insertEntry]
    split <;> simp_all [lookup]

theorem lookup_insertEntry_of_ne {k k' : κ} (v : ν) (h : k' ≠ k) (xs : List (κ × ν)) :
    lookup k' (insertEntry k v xs) = lookup k' xs := by
  have hk : compare k' k ≠ .eq := fun e => h (Std.LawfulEqOrd.eq_of_compare e)
  induction xs with
  | nil => simp [insertEntry, lookup, hk]
  | cons x xs ih =>
    obtain ⟨k'', v''⟩ := x
    rw [insertEntry]
    split
    · simp [lookup, hk]
    · next heq =>
      obtain rfl := Std.LawfulEqOrd.eq_of_compare heq
      simp [lookup, hk]
    · simp [lookup, ih]

variable [Std.TransOrd κ]

theorem insertEntry_ascending (k : κ) (v : ν) {xs : List (κ × ν)}
    (h : xs.Pairwise fun x y => compare x.1 y.1 = .lt) :
    (insertEntry k v xs).Pairwise fun x y => compare x.1 y.1 = .lt := by
  induction xs with
  | nil => simp [insertEntry]
  | cons x xs ih =>
    obtain ⟨k', v'⟩ := x
    have hx := List.pairwise_cons.mp h
    rw [insertEntry]
    split
    · next hlt =>
      refine List.pairwise_cons.mpr ⟨fun z hz => ?_, h⟩
      rcases List.mem_cons.mp hz with rfl | hz
      · exact hlt
      · exact Std.TransCmp.lt_trans hlt (hx.1 z hz)
    · next heq =>
      obtain rfl := Std.LawfulEqOrd.eq_of_compare heq
      exact List.pairwise_cons.mpr ⟨fun z hz => hx.1 z hz, hx.2⟩
    · next hgt =>
      refine List.pairwise_cons.mpr ⟨fun z hz => ?_, ih hx.2⟩
      rcases mem_insertEntry hz with rfl | hz
      · exact Std.OrientedCmp.lt_of_gt hgt
      · exact hx.1 z hz

/-- Replaces the value of a key that is already there. -/
def insert (m : OrderedMap κ ν) (k : κ) (v : ν) : OrderedMap κ ν :=
  ⟨insertEntry k v m.entries, insertEntry_ascending k v m.ascending⟩

def update (m : OrderedMap κ ν) (k : κ) (f : Option ν → ν) : OrderedMap κ ν :=
  m.insert k (f (m.get? k))

def ofList (entries : List (κ × ν)) : OrderedMap κ ν :=
  entries.foldl (fun m e => m.insert e.1 e.2) empty

@[simp]
theorem get?_insert_self (m : OrderedMap κ ν) (k : κ) (v : ν) : (m.insert k v).get? k = some v :=
  lookup_insertEntry_self k v m.entries

theorem get?_insert_of_ne (m : OrderedMap κ ν) {k k' : κ} (v : ν) (h : k' ≠ k) :
    (m.insert k v).get? k' = m.get? k' :=
  lookup_insertEntry_of_ne v h m.entries

end OrderedMap

end PathPolicy
