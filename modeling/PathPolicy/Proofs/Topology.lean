import PathPolicy.Proofs.Path
import PathPolicy.Proofs.Sorting

/-! The neighbors of a router are the routers that it shares a link with, each listed once. -/

namespace PathPolicy

namespace Link

theorem opposite?_eq_some_iff {l : Link} (hne : l.first.router ≠ l.second.router)
    {a b : RouterId} : (l.opposite? a).map (·.router) = some b ↔ l.joins a b = true := by
  by_cases hfirst : l.first.router = a
  · have hsecond : l.second.router ≠ a := fun he => hne (hfirst.trans he.symm)
    simp [opposite?, joins, hfirst, hsecond]
  · by_cases hsecond : l.second.router = a <;> simp [opposite?, joins, hfirst, hsecond]

theorem joins_iff {l : Link} {a b : RouterId} : l.joins a b = true ↔
    (l.first.router = a ∧ l.second.router = b) ∨ (l.first.router = b ∧ l.second.router = a) := by
  simp [joins]

theorem joins_comm (l : Link) (a b : RouterId) : l.joins a b = l.joins b a := by
  rw [joins, joins, Bool.or_comm]

end Link

namespace Topology

variable {t : Topology} {a b : RouterId} {l : Link}

theorem link?_eq_some (h : t.link? a b = some l) : l ∈ t.links ∧ l.joins a b = true :=
  ⟨List.mem_of_find?_eq_some h, by simpa using List.find?_some h⟩

theorem link?_comm (t : Topology) (a b : RouterId) : t.link? a b = t.link? b a := by
  have hjoins : (fun l : Link => l.joins a b) = fun l => l.joins b a :=
    funext fun l => l.joins_comm a b
  rw [link?, link?, hjoins]

theorem link?_self (t : Topology) (a : RouterId) : t.link? a a = none := by
  refine List.find?_eq_none.mpr fun l hl hj => ?_
  have hne := (t.links_join l hl).2.2
  rcases Link.joins_iff.mp hj with ⟨hfirst, hsecond⟩ | ⟨hfirst, hsecond⟩
  · exact hne (hfirst.trans hsecond.symm)
  · exact hne (hfirst.trans hsecond.symm)

theorem ne_of_link? (h : t.link? a b = some l) : a ≠ b := by
  rintro rfl
  rw [link?_self] at h
  cases h

theorem countP_joins_le (t : Topology) (a b : RouterId) : t.links.countP (·.joins a b) ≤ 1 := by
  have hsimple := t.links_simple
  generalize t.links = ls at hsimple ⊢
  induction ls with
  | nil => simp
  | cons l ls ih =>
    obtain ⟨hl, hls⟩ := List.pairwise_cons.mp hsimple
    by_cases hj : l.joins a b = true
    · have hnone : ls.countP (·.joins a b) = 0 := by
        refine List.countP_eq_zero.mpr fun m hm hmj => ?_
        have hno := hl m hm
        rcases Link.joins_iff.mp hj with ⟨rfl, rfl⟩ | ⟨rfl, rfl⟩
        · simp [hmj] at hno
        · rw [Link.joins_comm] at hno
          simp [hmj] at hno
      simp [hj, hnone]
    · simpa [hj] using ih hls

theorem adjacent_iff : t.adjacent a b = true ↔ ∃ l ∈ t.links, l.joins a b = true := by
  simp [adjacent, link?, List.find?_isSome]

theorem lt_size_of_adjacent (h : t.adjacent a b = true) : a < t.size ∧ b < t.size := by
  obtain ⟨l, hl, hj⟩ := adjacent_iff.mp h
  have hjoin := t.links_join l hl
  simp only [Link.joins, Bool.or_eq_true, Bool.and_eq_true, decide_eq_true_eq] at hj
  rcases hj with ⟨rfl, rfl⟩ | ⟨rfl, rfl⟩
  · exact ⟨hjoin.1, hjoin.2.1⟩
  · exact ⟨hjoin.2.1, hjoin.1⟩

theorem adjacent_symm (h : t.adjacent a b = true) : t.adjacent b a = true := by
  obtain ⟨l, hl, hj⟩ := adjacent_iff.mp h
  refine adjacent_iff.mpr ⟨l, hl, ?_⟩
  simpa [Link.joins, or_comm, and_comm] using hj

theorem interfaces_of_link? (h : t.link? a b = some l) : ∃ i j : Interface,
    i.router = a ∧ j.router = b ∧ (l = ⟨i, j⟩ ∨ l = ⟨j, i⟩) ∧
      t.interface? a b = some i ∧ t.interface? b a = some j := by
  have hj := (link?_eq_some h).2
  have hne := ne_of_link? h
  have h' : t.link? b a = some l := by rw [link?_comm, h]
  obtain ⟨i, j⟩ := l
  rw [interface?, interface?, h, h', Option.bind_some, Option.bind_some]
  rcases Link.joins_iff.mp hj with ⟨rfl, rfl⟩ | ⟨rfl, rfl⟩
  · exact ⟨i, j, rfl, rfl, .inl rfl, by simp [Link.endpoint?], by simp [Link.endpoint?, hne]⟩
  · exact ⟨j, i, rfl, rfl, .inr rfl, by simp [Link.endpoint?, hne.symm], by simp [Link.endpoint?]⟩

theorem exists_interface? (h : t.adjacent a b = true) : ∃ i, t.interface? a b = some i := by
  obtain ⟨l, hl⟩ := Option.isSome_iff_exists.mp h
  obtain ⟨i, _, _, _, _, hi, _⟩ := interfaces_of_link? hl
  exact ⟨i, hi⟩

theorem mem_neighbors : b ∈ t.neighbors a ↔ t.adjacent a b = true := by
  rw [neighbors, sortedByName, mem_sortBy, neighborIds, List.mem_filterMap, adjacent_iff]
  refine exists_congr fun l => and_congr_right fun hl => ?_
  exact Link.opposite?_eq_some_iff (t.links_join l hl).2.2

theorem neighbors_nodup (t : Topology) (a : RouterId) : (t.neighbors a).Nodup := by
  have hp := List.Pairwise.and_mem.mp t.links_simple
  refine sortBy_nodup (hp.filterMap _ ?_)
  rintro l m ⟨hl, hm, hno⟩ b hb c hc rfl
  have hlb := (Link.opposite?_eq_some_iff (t.links_join l hl).2.2).mp hb
  have hmb := (Link.opposite?_eq_some_iff (t.links_join m hm).2.2).mp hc
  simp only [Link.joins] at hlb hmb hno
  grind

theorem getElem?_names {r : RouterId} (hr : r < t.size) :
    (t.routers.map (·.name))[r]? = some (t.name r) := by
  have hr' : r < t.routers.length := hr
  simp [name, router?, List.getElem?_eq_getElem hr']

theorem name_injective (ha : a < t.size) (hb : b < t.size) (h : t.name a = t.name b) : a = b := by
  refine (List.getElem?_inj (by rw [List.length_map]; exact ha) t.names_nodup).mp ?_
  rw [getElem?_names ha, getElem?_names hb, h]

theorem routerId?_injective {x y : String} (hx : t.routerId? x = some a)
    (hy : t.routerId? y = some a) : x = y := by
  obtain ⟨r, hr, rfl⟩ := routerId?_eq_some hx
  obtain ⟨r', hr', rfl⟩ := routerId?_eq_some hy
  rw [hr] at hr'
  exact congrArg _ (Option.some.inj hr')

theorem routerId?_name {r : RouterId} (hr : r < t.size) :
    t.routerId? (t.name r) = some r := by
  have hr' : r < t.routers.length := hr
  have hname : ∀ i (hi : i < t.routers.length), t.routers[i].name = t.name i := fun i hi => by
    simp [name, router?, List.getElem?_eq_getElem hi]
  refine List.findIdx?_eq_some_iff_getElem.mpr ⟨hr', decide_eq_true (hname r hr'), fun j hj => ?_⟩
  rw [decide_eq_true_eq, hname j (hj.trans hr')]
  exact fun he => hj.ne (name_injective (hj.trans hr) hr he)

theorem routerId?_eq_some_iff {n : String} {r : RouterId} :
    t.routerId? n = some r ↔ r < t.size ∧ t.name r = n := by
  constructor
  · intro h
    obtain ⟨router, hr, rfl⟩ := routerId?_eq_some h
    exact ⟨lt_size_of_routerId? h, by simp [name, hr]⟩
  · rintro ⟨hr, rfl⟩
    exact routerId?_name hr

theorem neighbors_ascending (t : Topology) (a : RouterId) :
    (t.neighbors a).Pairwise fun b c => t.name b < t.name c := by
  have hlt : ∀ b ∈ t.neighbors a, b < t.size :=
    fun b hb => (lt_size_of_adjacent (mem_neighbors.mp hb)).2
  have hsorted := pairwise_lt_of_isChain_ne (sortBy_pairwise (compareOn t.name) (t.neighborIds a))
    (t.neighbors_nodup a).isChain fun b hb c hc heq =>
      name_injective (hlt b hb) (hlt c hc) (Std.LawfulEqOrd.eq_of_compare heq)
  exact hsorted.imp fun hcmp => compareOfLessAndEq_eq_lt.mp hcmp

end Topology

end PathPolicy
