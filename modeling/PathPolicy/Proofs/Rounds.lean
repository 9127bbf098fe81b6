import Mathlib.Logic.Function.Iterate
import PathPolicy.Proofs.Choice
import PathPolicy.Proofs.OrderedMap

/-! The rounds of the BGP propagation, seen router by router: what each router has chosen after a
number of rounds, and the routes that it then chooses from. -/

namespace PathPolicy.Bgp

theorem converge?_eq_iterate {step : Rib → Rib} {n k : Nat} {start : Rib}
    (h : step^[k + 1] start = step^[k] start) (hlt : k < n) :
    converge? step n start = some (step^[n] start) := by
  induction n generalizing k start with
  | zero => omega
  | succ n ih =>
    rw [converge?, Function.iterate_succ_apply]
    split
    · next hfix => rw [hfix, Function.iterate_fixed hfix n]
    · next hne =>
      cases k with
      | zero => exact absurd h hne
      | succ k => exact ih h (by omega)

/-- A state that the rounds end in is the same after one more round. -/
theorem exists_iterate_of_converge? {step : Rib → Rib} {n : Nat} {start rib : Rib}
    (h : converge? step n start = some rib) : ∃ k, rib = step^[k] start ∧ step rib = rib := by
  induction n generalizing start with
  | zero => cases h
  | succ n ih =>
    rw [converge?] at h
    split at h
    · next hfix =>
      obtain rfl := Option.some.inj h
      exact ⟨1, rfl, congrArg step hfix⟩
    · obtain ⟨k, hk, hfix⟩ := ih h
      exact ⟨k + 1, hk, hfix⟩

theorem isSpeaker_iff_mem_speakers {t : Topology} {a : RouterId} :
    a ∈ speakers t ↔ isSpeaker t a = true := by
  rw [speakers, List.mem_filter, Topology.routersByName, Topology.sortedByName, mem_sortBy,
    List.mem_range, and_iff_right_iff_imp]
  intro h
  obtain ⟨asn, hasn⟩ := Option.isSome_iff_exists.mp h
  obtain ⟨router, hrouter, _⟩ := Option.bind_eq_some_iff.mp hasn
  exact (List.getElem?_eq_some_iff.mp hrouter).1

theorem lt_size_of_isSpeaker {t : Topology} {a : RouterId} (h : isSpeaker t a = true) :
    a < t.size := by
  have hm := (List.mem_filter.mp (isSpeaker_iff_mem_speakers.mpr h)).1
  rw [Topology.routersByName, Topology.sortedByName, mem_sortBy] at hm
  exact List.mem_range.mp hm

def sessions (t : Topology) (a : RouterId) : List RouterId := (t.neighbors a).filter (isSpeaker t)

theorem mem_sessions {t : Topology} {a b : RouterId} :
    b ∈ sessions t a ↔ t.adjacent a b = true ∧ isSpeaker t b = true := by
  rw [sessions, List.mem_filter, Topology.mem_neighbors]

theorem sessions_nodup (t : Topology) (a : RouterId) : (sessions t a).Nodup :=
  (t.neighbors_nodup a).filter _

/-- What `a` makes of the best route of `b`. -/
def offer? (m : PolicyModel) (a b : RouterId) (best : Route) : Option Route :=
  let path := b :: best.path
  if a ∈ path then none
  else
    let sent : Route := ⟨best.network, path, best.communities, Route.defaultLocalPref, b⟩
    (RouteMap.apply ((m.policy b).routeMap a .outgoing) sent).bind
      (RouteMap.apply ((m.policy a).routeMap b .incoming))

theorem learn?_peer (m : PolicyModel) (rib : Rib) (a b : RouterId) :
    learn? rib a (peer m a b) = (rib.best? b).bind (offer? m a b) := rfl

def candidates (t : Topology) (m : PolicyModel) (rib : Rib) (a : RouterId) : List Route :=
  (sessions t a).filterMap fun b => (rib.best? b).bind (offer? m a b)

theorem mem_candidates {t : Topology} {m : PolicyModel} {rib : Rib} {a : RouterId} {r : Route} :
    r ∈ candidates t m rib a ↔
      ∃ b ∈ sessions t a, ∃ best, rib.best? b = some best ∧ offer? m a b best = some r := by
  simp [candidates, List.mem_filterMap, Option.bind_eq_some_iff]

def maxPaths (m : PolicyModel) (a : RouterId) : Nat := ((m.policy a).maxPaths? .bgp).getD 1

theorem choice_speaker (t : Topology) (m : PolicyModel) (rib : Rib) (a : RouterId) :
    (speaker t m a).choice t rib = choose t (maxPaths m a) (candidates t m rib a) := by
  rw [Speaker.choice, speaker, List.filterMap_map]
  exact congrArg (choose t (maxPaths m a)) (List.filterMap_congr fun b _ => learn?_peer m rib a b)

def Rib.rows (rib : Rib) (a : RouterId) : List Route := rib[a]?.getD []

theorem best?_eq_head? (rib : Rib) (a : RouterId) : rib.best? a = (rib.rows a).head? := rfl

theorem mem_rows_of_best? {rib : Rib} {a : RouterId} {r : Route} (h : rib.best? a = some r) :
    r ∈ rib.rows a :=
  List.mem_of_head? h

def ribAfter (t : Topology) (m : PolicyModel) (d : RouterId) (network : Address) (k : Nat) : Rib :=
  (round t (choosers t m d))^[k] (start t d network)

section Rounds

variable {t : Topology} {m : PolicyModel} {d : RouterId} {network : Address} {a : RouterId}
  {k l : Nat}

theorem ribAfter_zero : ribAfter t m d network 0 = start t d network := rfl

theorem ribAfter_succ (k : Nat) :
    ribAfter t m d network (k + 1) = round t (choosers t m d) (ribAfter t m d network k) :=
  Function.iterate_succ_apply' _ _ _

theorem size_ribAfter (k : Nat) : (ribAfter t m d network k).size = t.size := by
  cases k with
  | zero => simp [ribAfter_zero, start]
  | succ k => simp [ribAfter_succ, round, choosers]

theorem rows_of_size_le (h : t.size ≤ a) (k : Nat) : (ribAfter t m d network k).rows a = [] := by
  rw [Rib.rows, Array.getElem?_eq_none (by rw [size_ribAfter]; exact h), Option.getD_none]

theorem rows_start (ha : a < t.size) :
    (start t d network).rows a = if a = d then [announced d network] else [] := by
  simp [Rib.rows, start, ha]

theorem rows_round (ha : a < t.size) (rib : Rib) :
    (round t (choosers t m d) rib).rows a =
      if isSpeaker t a && a ≠ d then choose t (maxPaths m a) (candidates t m rib a)
      else rib.rows a := by
  rw [← choice_speaker, Rib.rows, round, Array.getElem?_mapIdx]
  have hget : (choosers t m d)[a]? =
      some (if isSpeaker t a && a ≠ d then some (speaker t m a) else none) := by
    simp [choosers, ha]
  rw [hget, Option.map_some, Option.getD_some]
  split
  · next hs =>
    split at hs
    · next hc => rw [if_pos hc, Option.some.inj hs]
    · cases hs
  · next hs =>
    split at hs
    · cases hs
    · next hc => rw [if_neg hc]; rfl

theorem rows_succ (hs : isSpeaker t a = true) (hne : a ≠ d) (k : Nat) :
    (ribAfter t m d network (k + 1)).rows a =
      choose t (maxPaths m a) (candidates t m (ribAfter t m d network k) a) := by
  rw [ribAfter_succ, rows_round (lt_size_of_isSpeaker hs), if_pos (by simp [hs, hne])]

theorem rows_destination (hd : d < t.size) (k : Nat) :
    (ribAfter t m d network k).rows d = [announced d network] := by
  induction k with
  | zero => rw [ribAfter_zero, rows_start hd, if_pos rfl]
  | succ k ih => rw [ribAfter_succ, rows_round hd, if_neg (by simp), ih]

theorem rows_of_not_isSpeaker (hs : isSpeaker t a = false) (hne : a ≠ d) (k : Nat) :
    (ribAfter t m d network k).rows a = [] := by
  by_cases ha : a < t.size
  · induction k with
    | zero => rw [ribAfter_zero, rows_start ha, if_neg hne]
    | succ k ih => rw [ribAfter_succ, rows_round ha, if_neg (by simp [hs]), ih]
  · exact rows_of_size_le (Nat.le_of_not_lt ha) k

theorem isSpeaker_of_ne_of_mem_rows {r : Route} (hne : a ≠ d)
    (h : r ∈ (ribAfter t m d network k).rows a) : isSpeaker t a = true := by
  by_contra hs
  rw [rows_of_not_isSpeaker (by simpa using hs) hne] at h
  exact absurd h List.not_mem_nil

theorem isSpeaker_of_mem_rows {r : Route} (hd : isSpeaker t d = true)
    (h : r ∈ (ribAfter t m d network k).rows a) : isSpeaker t a = true := by
  by_cases hne : a = d
  · exact hne ▸ hd
  · exact isSpeaker_of_ne_of_mem_rows hne h

theorem exists_offer_of_mem_rows {r : Route} (hne : a ≠ d)
    (h : r ∈ (ribAfter t m d network (k + 1)).rows a) :
    ∃ b ∈ sessions t a, ∃ best, (ribAfter t m d network k).best? b = some best ∧
      offer? m a b best = some r := by
  rw [rows_succ (isSpeaker_of_ne_of_mem_rows hne h) hne] at h
  exact mem_candidates.mp (mem_of_mem_choose h)

theorem ribAfter_congr (h : ∀ a, (ribAfter t m d network k).rows a =
    (ribAfter t m d network l).rows a) : ribAfter t m d network k = ribAfter t m d network l := by
  refine Array.ext (by rw [size_ribAfter, size_ribAfter]) fun a hk hl => ?_
  have hrow := h a
  rw [Rib.rows, Rib.rows, Array.getElem?_eq_getElem hk, Array.getElem?_eq_getElem hl] at hrow
  exact hrow

/-- The choices of a round depend on the best routes of the round before only. -/
theorem ribAfter_succ_congr (hs : isSpeaker t d = true)
    (h : ∀ a, (ribAfter t m d network k).best? a = (ribAfter t m d network l).best? a) :
    ribAfter t m d network (k + 1) = ribAfter t m d network (l + 1) := by
  refine ribAfter_congr fun a => ?_
  by_cases hne : a = d
  · rw [hne, rows_destination (lt_size_of_isSpeaker hs), rows_destination (lt_size_of_isSpeaker hs)]
  · cases ha : isSpeaker t a with
    | false => rw [rows_of_not_isSpeaker ha hne, rows_of_not_isSpeaker ha hne]
    | true =>
      rw [rows_succ ha hne, rows_succ ha hne, candidates, candidates]
      simp only [h]

end Rounds

theorem nextHops_hops {d a : RouterId} (hne : a ≠ d) (rib : Rib) :
    (ForwardingState.ofHops d (hops d rib)).nextHops a = (rib.rows a).map (·.sender) := by
  have hkeys : ((hops d rib).map (·.1)).Nodup := by
    rw [hops, List.map_map]
    have hsub : ((rib.toList.zipIdx.filter fun r => r.2 ≠ d && !r.1.isEmpty).map (·.2)).Sublist
        (List.range' 0 rib.toList.length) := by
      rw [← List.zipIdx_map_snd 0 rib.toList]
      exact List.filter_sublist.map _
    exact List.Nodup.sublist hsub List.nodup_range'
  have hmem : ∀ v, (a, v) ∈ hops d rib ↔ ∃ row, rib[a]? = some row ∧ row ≠ [] ∧
      v = row.map (·.sender) := by
    intro v
    simp only [hops, List.mem_map, List.mem_filter, List.mem_zipIdx_iff_getElem?, Prod.mk.injEq]
    constructor
    · rintro ⟨⟨row, i⟩, ⟨hget, hcond⟩, rfl, rfl⟩
      exact ⟨row, by simpa using hget, by simpa [hne] using hcond, rfl⟩
    · rintro ⟨row, hget, hrow, rfl⟩
      exact ⟨(row, a), ⟨by simpa using hget, by simp [hne, hrow]⟩, rfl, rfl⟩
  rw [ForwardingState.nextHops, ForwardingState.ofHops]
  by_cases hrow : rib.rows a = []
  · have hnot : a ∉ (hops d rib).map (·.1) := by
      intro hm
      obtain ⟨⟨_, v⟩, hv, rfl⟩ := List.mem_map.mp hm
      obtain ⟨row, hget, hne', _⟩ := (hmem v).mp hv
      exact hne' (by simpa [Rib.rows, hget] using hrow)
    rw [OrderedMap.get?_ofList_of_notMem hnot, hrow]
    rfl
  · cases hget : rib[a]? with
    | none => simp [Rib.rows, hget] at hrow
    | some row =>
      have hrow' : rib.rows a = row := by rw [Rib.rows, hget, Option.getD_some]
      rw [OrderedMap.get?_ofList_of_mem hkeys ((hmem _).mpr ⟨row, hget, hrow' ▸ hrow, rfl⟩), hrow']
      rfl

end PathPolicy.Bgp
