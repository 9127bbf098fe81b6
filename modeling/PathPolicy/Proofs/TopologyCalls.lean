import PathPolicy.Proofs.Topology

/-! Calls on a topology. Whatever calls built it, it numbers the names of its routers, has at most
one link between two of them, and gives the link the interfaces of the call that made it. -/

namespace PathPolicy

namespace Topology

inductive Call
  | router (r : Router)
  | link (e f : Endpoint)
  | connect (a b : String)
  deriving DecidableEq

def perform (t : Topology) : Call → Except TopologyError Topology
  | .router r => t.addRouter r
  | .link e f => t.addLink e f
  | .connect a b => t.connect a b

/-- A call that fails is passed over. -/
def step (t : Topology) (c : Call) : Topology := (t.perform c).toOption.getD t

def after (calls : List Call) : Topology := calls.foldl step empty

/-- The ends of the link that a call asks for. -/
def ends (t : Topology) : Call → Option (Endpoint × Endpoint)
  | .router _ => none
  | .link e f => some (e, f)
  | .connect a b => do
    let r ← t.routerId? a
    let s ← t.routerId? b
    let index := t.links.length
    let m := t.degree r
    let n := t.degree s
    return (⟨a, s!"eth{m}", linkAddress index 1⟩, ⟨b, s!"eth{n}", linkAddress index 2⟩)

/-- The link that joins two routers by the given ends. -/
def linkOf (a b : RouterId) (e f : Endpoint) : Link :=
  ⟨⟨a, e.interface, e.address⟩, ⟨b, f.interface, f.address⟩⟩

/-- The ids are the places of the names, and the links are a simple graph on them. -/
structure Indexed (t : Topology) : Prop where
  routerId?_iff : ∀ n r, t.routerId? n = some r ↔ r < t.size ∧ t.name r = n
  link_unique : ∀ a b, t.links.countP (·.joins a b) ≤ 1
  no_self_link : ∀ l ∈ t.links, l.first.router ≠ l.second.router
  link?_comm : ∀ a b, t.link? a b = t.link? b a
  neighbors_ascending : ∀ a, (t.neighbors a).Pairwise fun b c => t.name b < t.name c
  mem_neighbors : ∀ a b, b ∈ t.neighbors a ↔ ∃ l ∈ t.links, l.joins a b = true
  interfaces : ∀ a b l, t.link? a b = some l → ∃ i j : Interface,
    i.router = a ∧ j.router = b ∧ t.interface? a b = some i ∧ t.interface? b a = some j ∧
      l.endpoint? a = some i ∧ l.opposite? a = some j
  no_interface : ∀ a b, t.link? a b = none → t.interface? a b = none

/-- One of the calls added a router of that name. -/
def Accepts (calls : List Call) (n : String) : Prop :=
  ∃ before r later t', calls = before ++ .router r :: later ∧ r.name = n ∧
    (after before).perform (.router r) = .ok t'

/-- One of the calls linked two routers that had no link before, and asked for these ends. -/
def LinkedBy (calls : List Call) (a b : RouterId) (e f : Endpoint) : Prop :=
  ∃ before c later, calls = before ++ c :: later ∧
    ((after before).ends c = some (e, f) ∨ (after before).ends c = some (f, e)) ∧
    (after before).link? a b = none ∧ (after (before ++ [c])).adjacent a b = true

/-- One of the calls asked for a link with these ends, and was answered. -/
def Grants (calls : List Call) (a b : RouterId) (e f : Endpoint) : Prop :=
  ∃ before c later t', calls = before ++ c :: later ∧ (after before).ends c = some (e, f) ∧
    (after before).routerId? e.node = some a ∧ (after before).routerId? f.node = some b ∧
    (after before).perform c = .ok t'

/-- The routers are adjacent, and these are the ends of their link. -/
def HasEnds (t : Topology) (a b : RouterId) (e f : Endpoint) : Prop :=
  t.adjacent a b = true ∧ t.interface? a b = some ⟨a, e.interface, e.address⟩ ∧
    t.interface? b a = some ⟨b, f.interface, f.address⟩

variable {t t' : Topology} {a b : RouterId} {c : Call} {e f : Endpoint} {l : Link}

theorem lookup_eq_ok_iff {n : String} : t.lookup n = .ok a ↔ t.routerId? n = some a := by
  rw [lookup]
  split <;> simp [*]

theorem addLink_ok (h : t.addLink e f = .ok t') : ∃ a b, t.routerId? e.node = some a ∧
    t.routerId? f.node = some b ∧
    ((∃ l, t.link? a b = some l ∧ t' = t) ∨
      t.link? a b = none ∧ t'.routers = t.routers ∧ t'.links = t.links ++ [linkOf a b e f]) := by
  unfold addLink at h
  split at h
  · cases h
  · cases h
  · next a b ha hb =>
    refine ⟨a, b, lookup_eq_ok_iff.mp ha, lookup_eq_ok_iff.mp hb, ?_⟩
    split at h
    · cases h
    · dsimp only at h
      split at h
      · next l hl =>
        split at h
        · cases h
          exact .inl ⟨l, hl, rfl⟩
        · cases h
      · next hl =>
        cases h
        exact .inr ⟨hl, rfl, rfl⟩

theorem addLink_of_link? (ha : t.routerId? e.node = some a) (hb : t.routerId? f.node = some b)
    (hl : t.link? a b = some l) : t.addLink e f =
      if l.sameData (linkOf a b e f) then .ok t else .error (.duplicateEdge e.node f.node) := by
  have hne := ne_of_link? hl
  have ha := lookup_eq_ok_iff.mpr ha
  have hb := lookup_eq_ok_iff.mpr hb
  unfold addLink
  split
  · simp_all
  · simp_all
  · next a' b' ha' hb' =>
    obtain rfl : a' = a := Except.ok.inj (ha'.symm.trans ha)
    obtain rfl : b' = b := Except.ok.inj (hb'.symm.trans hb)
    rw [dif_neg hne]
    dsimp only
    split
    · next existing hexisting =>
      obtain rfl : existing = l := Option.some.inj (hexisting.symm.trans hl)
      rfl
    · next hnone =>
      rw [hl] at hnone
      cases hnone

theorem perform_of_ends (h : t.ends c = some (e, f)) : t.perform c = t.addLink e f := by
  cases c with
  | router r => cases h
  | link e' f' =>
    obtain ⟨rfl, rfl⟩ := Prod.mk.inj (Option.some.inj h)
    rfl
  | connect x y =>
    obtain ⟨r, hr, h⟩ := Option.bind_eq_some_iff.mp h
    obtain ⟨s, hs, h⟩ := Option.bind_eq_some_iff.mp h
    obtain ⟨rfl, rfl⟩ := Prod.mk.inj (Option.some.inj h)
    rw [perform, connect, lookup_eq_ok_iff.mpr hr, lookup_eq_ok_iff.mpr hs]

theorem addRouter_ok {r : Router} (h : t.addRouter r = .ok t') :
    t.routerId? r.name = none ∧ t'.routers = t.routers ++ [r] ∧ t'.links = t.links := by
  unfold addRouter at h
  split at h
  · cases h
  · next hnone =>
    cases h
    exact ⟨hnone, rfl, rfl⟩

/-- Only calls for routers or for links between two known routers are answered. -/
theorem ends_of_perform (h : t.perform c = .ok t') : (∃ r, c = .router r) ∨
    ∃ e f a b, t.ends c = some (e, f) ∧ t.routerId? e.node = some a ∧
      t.routerId? f.node = some b := by
  have hends : ∀ e f, t.ends c = some (e, f) → ∃ a b, t.routerId? e.node = some a ∧
      t.routerId? f.node = some b := by
    intro e f he
    rw [perform_of_ends he] at h
    obtain ⟨a, b, ha, hb, _⟩ := addLink_ok h
    exact ⟨a, b, ha, hb⟩
  cases c with
  | router r => exact .inl ⟨r, rfl⟩
  | link e f =>
    obtain ⟨a, b, ha, hb⟩ := hends e f rfl
    exact .inr ⟨e, f, a, b, rfl, ha, hb⟩
  | connect x y =>
    rw [perform, connect] at h
    split at h
    · cases h
    · cases h
    · next r s hr hs =>
      rw [lookup_eq_ok_iff] at hr hs
      obtain ⟨⟨e, f⟩, he⟩ : ∃ z, t.ends (.connect x y) = some z := by simp [ends, hr, hs]
      obtain ⟨a, b, ha, hb⟩ := hends e f he
      exact .inr ⟨e, f, a, b, he, ha, hb⟩

theorem step_of_error {x : TopologyError} (h : t.perform c = .error x) : t.step c = t := by
  rw [step, h]
  rfl

/-- A step adds nothing, a router or a link. -/
theorem step_cases (t : Topology) (c : Call) : t.step c = t ∨
    (∃ r, c = .router r ∧ t.perform c = .ok (t.step c) ∧ t.routerId? r.name = none ∧
      (t.step c).routers = t.routers ++ [r] ∧ (t.step c).links = t.links) ∨
    ∃ e f a b, t.ends c = some (e, f) ∧ t.routerId? e.node = some a ∧
      t.routerId? f.node = some b ∧ t.link? a b = none ∧ (t.step c).routers = t.routers ∧
      (t.step c).links = t.links ++ [linkOf a b e f] := by
  cases hp : t.perform c with
  | error x => exact .inl (step_of_error hp)
  | ok t' =>
    have hstep : t.step c = t' := by
      rw [step, hp]
      rfl
    rw [hstep]
    cases he : t.ends c with
    | some x =>
      obtain ⟨e, f⟩ := x
      rw [perform_of_ends he] at hp
      obtain ⟨a, b, ha, hb, ⟨l, _, rfl⟩ | ⟨hl, hrouters, hlinks⟩⟩ := addLink_ok hp
      · exact .inl rfl
      · exact .inr (.inr ⟨e, f, a, b, rfl, ha, hb, hl, hrouters, hlinks⟩)
    | none =>
      rcases ends_of_perform hp with ⟨r, rfl⟩ | ⟨e, f, _, _, hsome, _⟩
      · obtain ⟨hnew, hrouters, hlinks⟩ := addRouter_ok hp
        exact .inr (.inl ⟨r, rfl, rfl, hnew, hrouters, hlinks⟩)
      · rw [he] at hsome
        cases hsome

theorem routers_prefix_step (t : Topology) (c : Call) : t.routers <+: (t.step c).routers := by
  rcases step_cases t c with h | ⟨_, _, _, _, h, _⟩ | ⟨_, _, _, _, _, _, _, _, h, _⟩
  · simp only [h, List.prefix_rfl]
  · simp only [h, List.prefix_append]
  · simp only [h, List.prefix_rfl]

theorem name_of_prefix (h : t.routers <+: t'.routers) (ha : a < t.size) : t'.name a = t.name a := by
  have hget : t'.routers[a]? = t.routers[a]? := by
    obtain ⟨rest, hrest⟩ := h
    rw [← hrest, List.getElem?_append_left ha]
  rw [name, name, router?, router?, hget]

theorem link?_step (h : t.link? a b = some l) : (t.step c).link? a b = some l := by
  rcases step_cases t c with he | ⟨_, _, _, _, _, hlinks⟩ | ⟨_, _, _, _, _, _, _, _, _, hlinks⟩
  · rw [he, h]
  · rw [link?, hlinks]
    exact h
  · rw [link?, hlinks, List.find?_append, Option.or_eq_some_iff]
    exact .inl h

theorem after_concat (calls : List Call) (c : Call) :
    after (calls ++ [c]) = (after calls).step c := by
  simp [after]

theorem routers_prefix_after (before later : List Call) :
    (after before).routers <+: (after (before ++ later)).routers := by
  induction later using List.reverseRecOn with
  | nil => simp
  | append_singleton later c ih =>
    rw [← List.append_assoc, after_concat]
    exact ih.trans (routers_prefix_step _ c)

theorem link?_after {before : List Call} (h : (after before).link? a b = some l)
    (later : List Call) : (after (before ++ later)).link? a b = some l := by
  induction later using List.reverseRecOn with
  | nil => rwa [List.append_nil]
  | append_singleton later c ih =>
    rw [← List.append_assoc, after_concat]
    exact link?_step ih

/-- A link and its ends stay. -/
theorem HasEnds.after {before : List Call} (h : (after before).HasEnds a b e f)
    (later : List Call) : (after (before ++ later)).HasEnds a b e f := by
  obtain ⟨hadj, hi, hj⟩ := h
  obtain ⟨l, hl⟩ := Option.isSome_iff_exists.mp hadj
  have hl' : (Topology.after before).link? b a = some l := by rw [link?_comm, hl]
  have hafter := link?_after hl later
  have hafter' := link?_after hl' later
  rw [interface?, hl] at hi
  rw [interface?, hl'] at hj
  refine ⟨by simp [adjacent, hafter], ?_, ?_⟩
  · rw [interface?, hafter, hi]
  · rw [interface?, hafter', hj]

theorem Accepts.concat {calls : List Call} {n : String} (h : Accepts calls n) (c : Call) :
    Accepts (calls ++ [c]) n := by
  obtain ⟨before, r, later, t', rfl, hn, hok⟩ := h
  exact ⟨before, r, later ++ [c], t', by simp, hn, hok⟩

theorem LinkedBy.concat {calls : List Call} (h : LinkedBy calls a b e f) (c : Call) :
    LinkedBy (calls ++ [c]) a b e f := by
  obtain ⟨before, c', later, rfl, hends, hnew, hadj⟩ := h
  exact ⟨before, c', later ++ [c], by simp, hends, hnew, hadj⟩

theorem accepts_of_mem_names {calls : List Call} {n : String}
    (h : n ∈ (after calls).routers.map (·.name)) : Accepts calls n := by
  induction calls using List.reverseRecOn with
  | nil => simp [after, empty] at h
  | append_singleton calls c ih =>
    rw [after_concat] at h
    rcases step_cases (after calls) c with he | ⟨r, rfl, hok, _, hrouters, _⟩ |
      ⟨_, _, _, _, _, _, _, _, hrouters, _⟩
    · exact (ih (he ▸ h)).concat c
    · rw [hrouters, List.map_append, List.mem_append] at h
      rcases h with h | h
      · exact (ih h).concat _
      · have hn : n = r.name := by simpa using h
        exact ⟨calls, r, [], _, rfl, hn.symm, hok⟩
    · exact (ih (hrouters ▸ h)).concat c

theorem Accepts.mem_names {calls : List Call} {n : String} (h : Accepts calls n) :
    n ∈ (after calls).routers.map (·.name) := by
  obtain ⟨before, r, later, t', rfl, rfl, hok⟩ := h
  have hr : r ∈ (after (before ++ [.router r])).routers := by
    have hstep : (after before).step (.router r) = t' := by
      rw [step, hok]
      rfl
    rw [after_concat, hstep, (addRouter_ok hok).2.1]
    simp
  have hprefix := routers_prefix_after (before ++ [.router r]) later
  rw [List.append_assoc, List.singleton_append] at hprefix
  exact List.mem_map.mpr ⟨r, hprefix.subset hr, rfl⟩

theorem exists_routerId?_iff {n : String} :
    (∃ r, t.routerId? n = some r) ↔ n ∈ t.routers.map (·.name) := by
  constructor
  · rintro ⟨r, hr⟩
    obtain ⟨router, hget, rfl⟩ := routerId?_eq_some hr
    exact List.mem_map.mpr ⟨router, List.mem_of_getElem? hget, rfl⟩
  · intro hn
    by_contra hno
    have hnone : t.routerId? n = none :=
      Option.eq_none_iff_forall_ne_some.mpr fun r hr => hno ⟨r, hr⟩
    exact name_notMem_of_routerId? hnone hn

theorem name_after_concat {calls : List Call} (ha : a < (after calls).size) :
    (after (calls ++ [c])).name a = (after calls).name a :=
  name_of_prefix (routers_prefix_after calls [c]) ha

theorem exists_linkedBy_concat {calls : List Call} (hold : (after calls).link? a b = none)
    (h : (after (calls ++ [c])).link? a b = some l) :
    ∃ e f, LinkedBy (calls ++ [c]) a b e f ∧ e.node = (after (calls ++ [c])).name a ∧
      f.node = (after (calls ++ [c])).name b ∧ (l = linkOf a b e f ∨ l = linkOf b a f e) := by
  have hadj : (after (calls ++ [c])).adjacent a b = true := by simp [adjacent, h]
  rw [after_concat] at h
  rcases step_cases (after calls) c with hstep | ⟨_, _, _, _, _, hlinks⟩ |
    ⟨e, f, x, y, hends, hx, hy, _, _, hlinks⟩
  · rw [hstep, hold] at h
    cases h
  · rw [link?, hlinks] at h
    exact absurd (hold.symm.trans h) (by simp)
  · have he : e.node = (after (calls ++ [c])).name x := by
      obtain ⟨hlt, hname⟩ := routerId?_eq_some_iff.mp hx
      rw [name_after_concat hlt, hname]
    have hf : f.node = (after (calls ++ [c])).name y := by
      obtain ⟨hlt, hname⟩ := routerId?_eq_some_iff.mp hy
      rw [name_after_concat hlt, hname]
    have hnone : (after calls).links.find? (·.joins a b) = none := hold
    rw [link?, hlinks, List.find?_append, hnone, Option.none_or] at h
    obtain rfl := List.mem_singleton.mp (List.mem_of_find?_eq_some h)
    have hjoins : (x = a ∧ y = b) ∨ (x = b ∧ y = a) :=
      Link.joins_iff.mp (by simpa using List.find?_some h)
    -- the link can be asked for from either of its ends
    rcases hjoins with ⟨rfl, rfl⟩ | ⟨rfl, rfl⟩
    · exact ⟨e, f, ⟨calls, c, [], rfl, .inl hends, hold, hadj⟩, he, hf, .inl rfl⟩
    · exact ⟨f, e, ⟨calls, c, [], rfl, .inr hends, hold, hadj⟩, hf, he, .inr rfl⟩

theorem exists_linkedBy {calls : List Call} (h : (after calls).link? a b = some l) :
    ∃ e f, LinkedBy calls a b e f ∧ e.node = (after calls).name a ∧
      f.node = (after calls).name b ∧ (l = linkOf a b e f ∨ l = linkOf b a f e) := by
  induction calls using List.reverseRecOn with
  | nil => simp [after, empty, link?] at h
  | append_singleton calls c ih =>
    cases hold : (after calls).link? a b with
    | none => exact exists_linkedBy_concat hold h
    | some l' =>
      have hsame : (after (calls ++ [c])).link? a b = some l' := by
        rw [after_concat, link?_step hold]
      obtain rfl : l = l' := Option.some.inj (h.symm.trans hsame)
      obtain ⟨e, f, hlinked, he, hf, hl⟩ := ih hold
      have hadj : (after calls).adjacent a b = true := by simp [adjacent, hold]
      have hlt := lt_size_of_adjacent hadj
      exact ⟨e, f, hlinked.concat c, by rw [he, name_after_concat hlt.1],
        by rw [hf, name_after_concat hlt.2], hl⟩

theorem interface?_linkOf (h : t.link? a b = some l)
    (hl : l = linkOf a b e f ∨ l = linkOf b a f e) :
    t.interface? a b = some ⟨a, e.interface, e.address⟩ := by
  have hne := ne_of_link? h
  rw [interface?, h, Option.bind_some]
  rcases hl with rfl | rfl
  · simp [linkOf, Link.endpoint?]
  · simp [linkOf, Link.endpoint?, hne.symm]

theorem sameData_linkOf (h : t.link? a b = some l) : l.sameData (linkOf a b e f) = true ↔
    t.interface? a b = some ⟨a, e.interface, e.address⟩ ∧
      t.interface? b a = some ⟨b, f.interface, f.address⟩ := by
  have hne := ne_of_link? h
  obtain ⟨i, j, rfl, rfl, hl, hi, hj⟩ := interfaces_of_link? h
  rw [hi, hj]
  rcases hl with rfl | rfl
  · simp only [Link.sameData, linkOf]
    grind
  · simp only [Link.sameData, linkOf]
    grind

theorem perform_of_adjacent (hends : t.ends c = some (e, f)) (ha : t.routerId? e.node = some a)
    (hb : t.routerId? f.node = some b) (h : t.adjacent a b = true) : t.perform c =
      if t.interface? a b = some ⟨a, e.interface, e.address⟩ ∧
          t.interface? b a = some ⟨b, f.interface, f.address⟩ then .ok t
      else .error (.duplicateEdge e.node f.node) := by
  obtain ⟨l, hl⟩ := Option.isSome_iff_exists.mp h
  rw [perform_of_ends hends, addLink_of_link? ha hb hl]
  simp only [sameData_linkOf hl]

/-- A call that is answered leaves a link with the ends that it asked for. -/
theorem hasEnds_of_perform (hends : t.ends c = some (e, f)) (ha : t.routerId? e.node = some a)
    (hb : t.routerId? f.node = some b) (h : t.perform c = .ok t') : t'.HasEnds a b e f := by
  by_cases hadj : t.adjacent a b = true
  · rw [perform_of_adjacent hends ha hb hadj] at h
    split at h
    · next hsame =>
      cases h
      exact ⟨hadj, hsame⟩
    · cases h
  · rw [perform_of_ends hends] at h
    obtain ⟨x, y, hx, hy, ⟨l, hl, _⟩ | ⟨hnone, _, hlinks⟩⟩ := addLink_ok h
    all_goals obtain rfl : x = a := Option.some.inj (hx.symm.trans ha)
    all_goals obtain rfl : y = b := Option.some.inj (hy.symm.trans hb)
    · simp [adjacent, hl] at hadj
    · have hold : t.links.find? (·.joins x y) = none := hnone
      have hjoins : (linkOf x y e f).joins x y = true := Link.joins_iff.mpr (.inl ⟨rfl, rfl⟩)
      have hl : t'.link? x y = some (linkOf x y e f) := by
        rw [link?, hlinks, List.find?_append, hold, Option.none_or]
        simp [hjoins]
      have hl' : t'.link? y x = some (linkOf x y e f) := by rw [link?_comm, hl]
      refine ⟨by simp [adjacent, hl], ?_, ?_⟩
      · exact interface?_linkOf hl (.inl rfl)
      · exact interface?_linkOf hl' (.inr rfl)

theorem Grants.hasEnds {calls : List Call} (h : Grants calls a b e f) :
    (after calls).HasEnds a b e f := by
  obtain ⟨before, c, later, t', rfl, hends, ha, hb, hok⟩ := h
  have hstep : after (before ++ [c]) = t' := by
    rw [after_concat, step, hok]
    rfl
  have hnow : (after (before ++ [c])).HasEnds a b e f := by
    rw [hstep]
    exact hasEnds_of_perform hends ha hb hok
  simpa using hnow.after later

theorem exists_grants {calls : List Call} (h : (after calls).perform c = .ok t') :
    (∃ r, c = .router r) ∨ ∃ e f a b, (after calls).ends c = some (e, f) ∧
      Grants (calls ++ [c]) a b e f := by
  rcases ends_of_perform h with hr | ⟨e, f, a, b, he, ha, hb⟩
  · exact .inl hr
  · exact .inr ⟨e, f, a, b, he, calls, c, [], t', rfl, he, ha, hb, h⟩

theorem indexed (t : Topology) : t.Indexed := by
  refine ⟨fun n r => routerId?_eq_some_iff, t.countP_joins_le, fun l hl => (t.links_join l hl).2.2,
    t.link?_comm, t.neighbors_ascending, fun a b => mem_neighbors.trans adjacent_iff,
    fun a b l h => ?_, fun a b h => ?_⟩
  · have hne := ne_of_link? h
    obtain ⟨i, j, rfl, rfl, hl, hi, hj⟩ := interfaces_of_link? h
    refine ⟨i, j, rfl, rfl, hi, hj, ?_⟩
    rcases hl with rfl | rfl
    · simp [Link.endpoint?, Link.opposite?]
    · simp [Link.endpoint?, Link.opposite?, hne.symm]
  · rw [interface?, h]
    rfl

/-- After any calls the names that were accepted have their ids, every link has the interfaces of
the call that made it, every answered call for a link has left one with its ends, and a link is
neither made again nor changed. -/
theorem built_by_calls (calls : List Call) :
    (after calls).Indexed ∧
      (∀ n, (∃ r, (after calls).routerId? n = some r) ↔ Accepts calls n) ∧
      (∀ a b, (after calls).adjacent a b = true → ∃ e f, LinkedBy calls a b e f ∧
        e.node = (after calls).name a ∧ f.node = (after calls).name b ∧
        (after calls).interface? a b = some ⟨a, e.interface, e.address⟩ ∧
        (after calls).interface? b a = some ⟨b, f.interface, f.address⟩) ∧
      (∀ c t', (after calls).perform c = .ok t' → (∃ r, c = .router r) ∨
        ∃ e f a b, (after calls).ends c = some (e, f) ∧ Grants (calls ++ [c]) a b e f) ∧
      (∀ a b e f, Grants calls a b e f → (after calls).HasEnds a b e f) ∧
      (∀ c x, (after calls).perform c = .error x → after (calls ++ [c]) = after calls) ∧
      ∀ c e f a b, (after calls).ends c = some (e, f) →
        (after calls).routerId? e.node = some a → (after calls).routerId? f.node = some b →
        (after calls).adjacent a b = true → (after calls).perform c =
          if (after calls).interface? a b = some ⟨a, e.interface, e.address⟩ ∧
              (after calls).interface? b a = some ⟨b, f.interface, f.address⟩
            then .ok (after calls)
          else .error (.duplicateEdge e.node f.node) := by
  refine ⟨(after calls).indexed, fun n => ?_, fun a b h => ?_, fun c t' => exists_grants,
    fun a b e f => Grants.hasEnds, fun c x h => ?_, fun c e f a b => perform_of_adjacent⟩
  · rw [exists_routerId?_iff]
    exact ⟨accepts_of_mem_names, Accepts.mem_names⟩
  · obtain ⟨l, hl⟩ := Option.isSome_iff_exists.mp h
    obtain ⟨e, f, hlinked, he, hf, hends⟩ := exists_linkedBy hl
    have hl' : (after calls).link? b a = some l := by rw [link?_comm, hl]
    exact ⟨e, f, hlinked, he, hf, interface?_linkOf hl hends, interface?_linkOf hl' hends.symm⟩
  · rw [after_concat, step_of_error h]

end Topology

namespace Network.Pair

open PathPolicy.Topology

def east : Endpoint := ⟨"S", "eth7", linkAddress 4 1⟩

def west : Endpoint := ⟨"A", "eth3", linkAddress 4 2⟩

/-- Two routers with a link. The second call, the fifth and the last one fail. -/
def calls : List Call :=
  [.router ⟨"S", none, []⟩, .router ⟨"S", some 65001, []⟩, .router ⟨"A", none, []⟩, .link east west,
    .link east ⟨"B", "eth0", linkAddress 5 1⟩, .connect "A" "A"]

theorem built_by_calls_pair :
    (∃ e f, LinkedBy calls 1 0 e f ∧
        (after calls).interface? 1 0 = some ⟨1, e.interface, e.address⟩) ∧
      (after calls).HasEnds 0 1 east west ∧
      (after calls).perform (.link west east) = .ok (after calls) ∧
      (after calls).perform (.connect "S" "A") = .error (.duplicateEdge "S" "A") ∧
      after (calls ++ [.connect "S" "A"]) = after calls := by
  obtain ⟨_, _, hmade, _, hgranted, hfailed, hagain⟩ := built_by_calls calls
  obtain ⟨e, f, hlinked, _, _, he, _⟩ := hmade 1 0 (by decide +kernel)
  have hgrants : Grants calls 0 1 east west :=
    ⟨calls.take 3, .link east west, calls.drop 4, after (calls.take 4), rfl, rfl,
      by decide +kernel, by decide +kernel, rfl⟩
  have hsame := hagain (.link west east) west east 1 0 rfl (by decide +kernel) (by decide +kernel)
    (by decide +kernel)
  have hother := hagain (.connect "S" "A") ⟨"S", "eth1", linkAddress 1 1⟩
    ⟨"A", "eth1", linkAddress 1 2⟩ 0 1 (by decide +kernel) (by decide +kernel) (by decide +kernel)
    (by decide +kernel)
  rw [if_pos (by decide +kernel)] at hsame
  rw [if_neg (by decide +kernel)] at hother
  exact ⟨⟨e, f, hlinked, he⟩, hgranted 0 1 east west hgrants, hsame, hother,
    hfailed _ _ hother⟩

end Network.Pair

end PathPolicy
