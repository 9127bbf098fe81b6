import PathPolicy.Network.Diamond
import PathPolicy.Proofs.Naming

/-! The verdict on a path as it is written. The checks are made one after the other, and the error of
the first check that fails names the first defect of the path that this check is about. -/

namespace PathPolicy

section First

variable {α β : Type} {P : α → Prop} {R : α → α → Prop} {xs : List α} {x y : α} {i : Nat}

/-- The element does not have the property, and all elements before it do. -/
def FirstWithout (P : α → Prop) (xs : List α) (x : α) : Prop :=
  ∃ before after, xs = before ++ x :: after ∧ (∀ y ∈ before, P y) ∧ ¬ P x

/-- The element is there already, and all elements before it differ from each other. -/
def FirstAgain (xs : List α) (x : α) : Prop :=
  ∃ before after, xs = before ++ x :: after ∧ before.Nodup ∧ x ∈ before

/-- The step from the place `i` is not in the relation, and all steps before it that change the
element are. -/
structure FirstBreak (R : α → α → Prop) (xs : List α) (i : Nat) (x y : α) : Prop where
  left : xs[i]? = some x
  right : xs[i + 1]? = some y
  changes : x ≠ y
  breaks : ¬ R x y
  before : ∀ j < i, ∀ a b, xs[j]? = some a → xs[j + 1]? = some b → a ≠ b → R a b

theorem FirstWithout.not_forall (h : FirstWithout P xs x) : ¬ ∀ y ∈ xs, P y := by
  obtain ⟨before, after, rfl, -, hx⟩ := h
  exact fun hall => hx (hall x (by simp))

theorem FirstWithout.cons (h : FirstWithout P xs x) (hy : P y) : FirstWithout P (y :: xs) x := by
  obtain ⟨before, after, rfl, hbefore, hx⟩ := h
  exact ⟨y :: before, after, rfl, List.forall_mem_cons.mpr ⟨hy, hbefore⟩, hx⟩

theorem eq_or_prefix_of_append {before after before' after' : List α}
    (h : before ++ x :: after = before' ++ y :: after') :
    x = y ∨ before ++ [x] <+: before' ∨ before' ++ [y] <+: before := by
  rcases List.append_eq_append_iff.mp h with ⟨as, rfl, has⟩ | ⟨as, rfl, has⟩
  · cases as with
    | nil => exact .inl (List.cons.inj has).1
    | cons a as =>
      obtain rfl := (List.cons.inj has).1
      exact .inr (.inl ⟨as, by simp⟩)
  · cases as with
    | nil => exact .inl (List.cons.inj has).1.symm
    | cons a as =>
      obtain rfl := (List.cons.inj has).1
      exact .inr (.inr ⟨as, by simp⟩)

theorem FirstWithout.unique (hx : FirstWithout P xs x) (hy : FirstWithout P xs y) : x = y := by
  obtain ⟨before, after, rfl, hbefore, hx⟩ := hx
  obtain ⟨before', after', he, hbefore', hy⟩ := hy
  rcases eq_or_prefix_of_append he with rfl | hpre | hpre
  · rfl
  · exact absurd (hbefore' x (hpre.subset (by simp))) hx
  · exact absurd (hbefore y (hpre.subset (by simp))) hy

theorem FirstWithout.map {f : α → β} {Q : β → Prop} (hQ : ∀ a ∈ xs, Q (f a) ↔ P a)
    (h : FirstWithout P xs x) : FirstWithout Q (xs.map f) (f x) := by
  obtain ⟨before, after, rfl, hbefore, hx⟩ := h
  refine ⟨before.map f, after.map f, by simp, fun y hy => ?_, fun hq => hx ((hQ x (by simp)).mp hq)⟩
  obtain ⟨a, ha, rfl⟩ := List.mem_map.mp hy
  exact (hQ a (List.mem_append_left _ ha)).mpr (hbefore a ha)

theorem FirstAgain.not_nodup (h : FirstAgain xs x) : ¬ xs.Nodup := by
  obtain ⟨before, after, rfl, -, hx⟩ := h
  exact fun hnd => List.disjoint_of_nodup_append hnd hx List.mem_cons_self

theorem FirstAgain.unique (hx : FirstAgain xs x) (hy : FirstAgain xs y) : x = y := by
  have hfresh : ∀ {pre : List α} {z : α}, z ∈ pre → ¬ (pre ++ [z]).Nodup := fun hz hnd =>
    List.disjoint_of_nodup_append hnd hz List.mem_cons_self
  obtain ⟨before, after, rfl, hnd, hx⟩ := hx
  obtain ⟨before', after', he, hnd', hy⟩ := hy
  rcases eq_or_prefix_of_append he with rfl | hpre | hpre
  · rfl
  · exact absurd (hnd'.sublist hpre.sublist) (hfresh hx)
  · exact absurd (hnd.sublist hpre.sublist) (hfresh hy)

theorem FirstAgain.map {f : α → β} (hf : ∀ a ∈ xs, ∀ b ∈ xs, f a = f b → a = b)
    (h : FirstAgain xs x) : FirstAgain (xs.map f) (f x) := by
  obtain ⟨before, after, rfl, hnd, hx⟩ := h
  refine ⟨before.map f, after.map f, by simp, ?_, List.mem_map_of_mem hx⟩
  exact hnd.map_on fun a ha b hb => hf a (List.mem_append_left _ ha) b (List.mem_append_left _ hb)

theorem FirstBreak.cons (h : FirstBreak R xs i x y) {a : α}
    (ha : ∀ b, xs.head? = some b → a ≠ b → R a b) : FirstBreak R (a :: xs) (i + 1) x y := by
  refine ⟨h.left, h.right, h.changes, h.breaks, fun j hj b c hb hc hne => ?_⟩
  cases j with
  | zero =>
    obtain rfl : a = b := by simpa using hb
    exact ha c (by simpa [List.head?_eq_getElem?] using hc) hne
  | succ j => exact h.before j (by omega) b c hb hc hne

theorem FirstBreak.unique {j : Nat} {a b : α} (h : FirstBreak R xs i x y)
    (h' : FirstBreak R xs j a b) : i = j ∧ x = a ∧ y = b := by
  rcases Nat.lt_trichotomy i j with hlt | rfl | hlt
  · exact absurd (h'.before i hlt x y h.left h.right h.changes) h.breaks
  · exact ⟨rfl, Option.some.inj (h.left.symm.trans h'.left),
      Option.some.inj (h.right.symm.trans h'.right)⟩
  · exact absurd (h.before j hlt a b h'.left h'.right h'.changes) h'.breaks

theorem FirstBreak.not_isChain (h : FirstBreak R xs i x y) :
    ¬ xs.IsChain fun a b => a ≠ b → R a b := by
  intro hchain
  obtain ⟨hi, rfl⟩ := List.getElem?_eq_some_iff.mp h.left
  obtain ⟨hi', rfl⟩ := List.getElem?_eq_some_iff.mp h.right
  exact h.breaks (hchain.getElem i hi' h.changes)

theorem FirstBreak.map {f : α → β} {S : β → β → Prop}
    (hf : ∀ a ∈ xs, ∀ b ∈ xs, f a = f b → a = b) (hS : ∀ a ∈ xs, ∀ b ∈ xs, S (f a) (f b) ↔ R a b)
    (h : FirstBreak R xs i x y) : FirstBreak S (xs.map f) i (f x) (f y) := by
  have hx := List.mem_of_getElem? h.left
  have hy := List.mem_of_getElem? h.right
  refine ⟨by simp [h.left], by simp [h.right], fun he => h.changes (hf x hx y hy he),
    fun hxy => h.breaks ((hS x hx y hy).mp hxy), fun j hj b c hb hc hne => ?_⟩
  rw [List.getElem?_map] at hb hc
  obtain ⟨a, ha, rfl⟩ := Option.map_eq_some_iff.mp hb
  obtain ⟨a', ha', rfl⟩ := Option.map_eq_some_iff.mp hc
  refine (hS a (List.mem_of_getElem? ha) a' (List.mem_of_getElem? ha')).mpr ?_
  exact h.before j hj a a' ha ha' fun he => hne (he ▸ rfl)

theorem head?_destutter'_ne [DecidableEq α] (x : α) (xs : List α) :
    (xs.destutter' (· ≠ ·) x).head? = some x := by
  induction xs with
  | nil => rfl
  | cons y xs ih =>
    by_cases hxy : x = y
    · rwa [List.destutter'_cons_neg _ (by simpa using hxy)]
    · rw [List.destutter'_cons_pos _ hxy]
      rfl

theorem isChain_eraseReps_iff [DecidableEq α] :
    xs.eraseReps.IsChain R ↔ xs.IsChain fun a b => a ≠ b → R a b := by
  rw [eraseReps_eq_destutter]
  cases xs with
  | nil => simp
  | cons x xs =>
    rw [List.destutter_cons']
    induction xs generalizing x with
    | nil => simp
    | cons y xs ih =>
      rw [List.isChain_cons_cons]
      by_cases hxy : x = y
      · subst y
        rw [List.destutter'_cons_neg _ (by simp), ih]
        simp
      · rw [List.destutter'_cons_pos _ hxy, List.isChain_cons, head?_destutter'_ne, ih]
        simp [hxy]

theorem exists_of_firstRepeated? [DecidableEq α] {seen : List α}
    (h : firstRepeated? seen xs = some x) : ∃ before after, xs = before ++ x :: after ∧
      before.Nodup ∧ (∀ y ∈ before, y ∉ seen) ∧ (x ∈ before ∨ x ∈ seen) := by
  induction xs generalizing seen with
  | nil => cases h
  | cons a xs ih =>
    rw [firstRepeated?] at h
    split at h
    · next ha =>
      obtain rfl := Option.some.inj h
      exact ⟨[], xs, rfl, .nil, by simp, .inr ha⟩
    · next ha =>
      obtain ⟨before, after, rfl, hnd, hnew, hx⟩ := ih h
      refine ⟨a :: before, after, rfl, List.nodup_cons.mpr ⟨fun hm => ?_, hnd⟩, ?_, ?_⟩
      · exact hnew a hm List.mem_cons_self
      · exact List.forall_mem_cons.mpr ⟨ha, fun y hy hs => hnew y hy (List.mem_cons_of_mem a hs)⟩
      · rcases hx with hx | hx
        · exact .inl (List.mem_cons_of_mem a hx)
        · rcases List.mem_cons.mp hx with rfl | hx
          · exact .inl List.mem_cons_self
          · exact .inr hx

theorem FirstAgain.of_firstRepeated? [DecidableEq α] (h : firstRepeated? [] xs = some x) :
    FirstAgain xs x := by
  obtain ⟨before, after, he, hnd, -, hx⟩ := exists_of_firstRepeated? h
  exact ⟨before, after, he, hnd, hx.resolve_right List.not_mem_nil⟩

end First

namespace Topology

variable {t : Topology}

def Knows (t : Topology) (name : String) : Prop := ∃ a, t.routerId? name = some a

/-- There is a link between the routers of these names. -/
def Links (t : Topology) (x y : String) : Prop :=
  ∃ a b, t.routerId? x = some a ∧ t.routerId? y = some b ∧ t.adjacent a b = true

/-- The router of this name has an AS number. -/
def Speaks (t : Topology) (x : String) : Prop :=
  ∃ a, t.routerId? x = some a ∧ (t.asn? a).isSome = true

theorem links_name_iff {a b : RouterId} (ha : a < t.size) (hb : b < t.size) :
    t.Links (t.name a) (t.name b) ↔ t.adjacent a b = true := by
  simp [Links, routerId?_name ha, routerId?_name hb]

theorem speaks_name_iff {a : RouterId} (ha : a < t.size) :
    t.Speaks (t.name a) ↔ (t.asn? a).isSome = true := by
  simp [Speaks, routerId?_name ha]

end Topology

namespace Visit

variable {t : Topology} {visits : List Visit} {ids : List RouterId} {k : Nat}

/-- The visits of a path, with the places counted from `k` on. -/
def along (k : Nat) (ids : List RouterId) : List Visit := (ids.zipIdx k).map fun r => ⟨r.1, r.2⟩

theorem map_router_along (k : Nat) (ids : List RouterId) : (along k ids).map (·.router) = ids := by
  rw [along, List.map_map]
  exact List.zipIdx_map_fst k ids

theorem collapse_cons (v : Visit) (rest : List Visit) :
    ∃ w rest', collapse (v :: rest) = w :: rest' ∧ w.router = v.router := by
  induction rest generalizing v with
  | nil => exact ⟨v, [], rfl, rfl⟩
  | cons w rest ih =>
    rw [collapse]
    split
    · next hvw =>
      obtain ⟨w', rest', he, hw'⟩ := ih w
      exact ⟨w', rest', he, hw'.trans hvw.symm⟩
    · exact ⟨v, _, rfl, rfl⟩

theorem map_router_collapse (visits : List Visit) :
    (collapse visits).map (·.router) = (visits.map (·.router)).eraseReps := by
  rw [eraseReps_eq_destutter]
  induction visits with
  | nil => rfl
  | cons v rest ih =>
    cases rest with
    | nil => rfl
    | cons w rest =>
      rw [List.map_cons, List.map_cons, List.destutter_cons_cons]
      rw [List.map_cons, List.destutter_cons'] at ih
      rw [collapse]
      by_cases hvw : v.router = w.router
      · rw [if_pos hvw, if_neg (by simpa using hvw), ih, hvw]
      · rw [if_neg hvw, if_pos hvw, List.map_cons, ih]

/-- A broken hop is named by the place at which its first router is left. -/
theorem exists_break_of_brokenHop? {v w : Visit}
    (h : brokenHop? t (collapse (along k ids)) = some (v, w)) :
    ∃ i, v.place = k + i ∧ FirstBreak (fun a b => t.adjacent a b = true) ids i v.router w.router := by
  induction ids generalizing k with
  | nil => cases h
  | cons a rest ih =>
    cases rest with
    | nil => cases h
    | cons b rest =>
      change brokenHop? t (collapse (⟨a, k⟩ :: along (k + 1) (b :: rest))) = some (v, w) at h
      have hlater : brokenHop? t (collapse (along (k + 1) (b :: rest))) = some (v, w) →
          (a ≠ b → t.adjacent a b = true) → ∃ i, v.place = k + i ∧
            FirstBreak (fun a b => t.adjacent a b = true) (a :: b :: rest) i v.router w.router := by
        intro hrest hab
        obtain ⟨i, hi, hbreak⟩ := ih hrest
        refine ⟨i + 1, by omega, hbreak.cons fun c hc => ?_⟩
        obtain rfl := Option.some.inj hc
        exact hab
      -- The first of two equal routers is dropped, so that their visit has the later place.
      by_cases hab : a = b
      · have hsame : collapse (⟨a, k⟩ :: along (k + 1) (b :: rest)) =
            collapse (along (k + 1) (b :: rest)) := if_pos hab
        exact hlater (hsame ▸ h) fun hne => absurd hab hne
      · have hkept : collapse (⟨a, k⟩ :: along (k + 1) (b :: rest)) =
            ⟨a, k⟩ :: collapse (along (k + 1) (b :: rest)) := if_neg hab
        obtain ⟨w', rest', hw', hrouter⟩ := collapse_cons ⟨b, k + 1⟩ (along (k + 2) rest)
        change collapse (along (k + 1) (b :: rest)) = w' :: rest' at hw'
        change w'.router = b at hrouter
        rw [hkept, hw', brokenHop?] at h
        split at h
        · next hadj => exact hlater (hw' ▸ h) fun _ => hrouter ▸ hadj
        · next hadj =>
          obtain ⟨rfl, rfl⟩ := Prod.mk.inj (Option.some.inj h)
          refine ⟨0, rfl, rfl, by simp [hrouter], by simpa [hrouter] using hab, hadj, ?_⟩
          intro j hj
          omega

end Visit

/-- The checks of a path, in the order in which they are made. -/
inductive PathCheck
  | known
  | ends
  | simple
  | linked
  | speaks
  deriving DecidableEq, Repr

def PathCheck.earlier : PathCheck → List PathCheck
  | known => []
  | ends => [known]
  | simple => [known, ends]
  | linked => [known, ends, simple]
  | speaks => [known, ends, simple, linked]

theorem PathCheck.trichotomy (c c' : PathCheck) :
    c ∈ c'.earlier ∨ c = c' ∨ c' ∈ c.earlier := by
  cases c <;> cases c' <;> decide

namespace Resolver

variable {v : Resolver} {reference : RequirementRef} {r : PathReq} {e e' : PathError}
  {c : PathCheck} {ids : List RouterId}

/-- The names of the routers on a path, where a name that follows itself may count once. -/
def visited (v : Resolver) (path : List String) : List String :=
  if v.allowSelfPaths then path.eraseReps else path

def Passes (v : Resolver) (r : PathReq) : PathCheck → Prop
  | .known => ∀ name ∈ r.path, v.topology.Knows name
  | .ends => r.path.getLast? = some r.destination
  | .simple => (v.visited r.path).Nodup
  | .linked => (v.visited r.path).IsChain v.topology.Links
  | .speaks => r.protocol = .bgp → ∀ name ∈ v.visited r.path, v.topology.Speaks name

/-- The error of a check that fails. A missing link is looked for in the path as written. -/
inductive Defect (v : Resolver) (reference : RequirementRef) (r : PathReq) :
    PathCheck → PathError → Prop
  | known {name : String} (h : FirstWithout v.topology.Knows r.path name) :
    Defect v reference r .known (.unknownNode reference name)
  | ends (h : r.path.getLast? ≠ some r.destination) : Defect v reference r .ends
    (.destinationMismatch reference r.destination (r.path.getLast?.getD ""))
  | simple {name : String} (h : FirstAgain (v.visited r.path) name) :
    Defect v reference r .simple (.cyclicPath reference name)
  | linked {index : Nat} {first second : String}
    (h : FirstBreak v.topology.Links r.path index first second) :
    Defect v reference r .linked (.discontinuousPath reference index first second)
  | speaks {name : String} (hbgp : r.protocol = .bgp)
    (h : FirstWithout v.topology.Speaks (v.visited r.path) name) :
    Defect v reference r .speaks (.notBgpSpeaker reference name)

/-- The error is that of the first check that fails. -/
def Blames (v : Resolver) (reference : RequirementRef) (r : PathReq) (e : PathError) : Prop :=
  ∃ c, v.Defect reference r c e ∧ ∀ c' ∈ c.earlier, v.Passes r c'

theorem Defect.not_passes (h : v.Defect reference r c e) : ¬ v.Passes r c := by
  cases h with
  | known h => exact h.not_forall
  | ends h => exact h
  | simple h => exact h.not_nodup
  | linked h =>
    intro hchain
    refine h.not_isChain ?_
    rw [Passes, visited] at hchain
    split at hchain
    · exact isChain_eraseReps_iff.mp hchain
    · exact hchain.imp fun _ _ hxy _ => hxy
  | speaks hbgp h => exact fun hall => h.not_forall (hall hbgp)

theorem Defect.unique (h : v.Defect reference r c e) (h' : v.Defect reference r c e') : e = e' := by
  cases h with
  | known h =>
    cases h' with
    | known h' => rw [h.unique h']
  | ends h =>
    cases h' with
    | ends h' => rfl
  | simple h =>
    cases h' with
    | simple h' => rw [h.unique h']
  | linked h =>
    cases h' with
    | linked h' =>
      obtain ⟨rfl, rfl, rfl⟩ := h.unique h'
      rfl
  | speaks hbgp h =>
    cases h' with
    | speaks hbgp' h' => rw [h.unique h']

theorem Blames.not_passes (h : v.Blames reference r e) : ¬ ∀ c, v.Passes r c := by
  obtain ⟨c, hdefect, -⟩ := h
  exact fun hall => hdefect.not_passes (hall c)

theorem Blames.unique (h : v.Blames reference r e) (h' : v.Blames reference r e') : e = e' := by
  obtain ⟨c, hdefect, hbefore⟩ := h
  obtain ⟨c', hdefect', hbefore'⟩ := h'
  rcases c.trichotomy c' with hc | rfl | hc
  · exact absurd (hbefore' c hc) hdefect.not_passes
  · exact hdefect.unique hdefect'
  · exact absurd (hbefore c' hc) hdefect'.not_passes

theorem mapM_router_cases (v : Resolver) (reference : RequirementRef) (path : List String) :
    (∃ name, path.mapM (v.router reference) = .error (.unknownNode reference name) ∧
      FirstWithout v.topology.Knows path name) ∨
    ∃ ids, path.mapM (v.router reference) = .ok ids ∧ path = v.topology.names ids ∧
      ∀ a ∈ ids, a < v.topology.size := by
  induction path with
  | nil => exact .inr ⟨[], rfl, rfl, by simp⟩
  | cons name path ih =>
    rw [List.mapM_cons]
    cases hid : v.topology.routerId? name with
    | none =>
      refine .inl ⟨name, ?_, [], path, rfl, by simp, by simp [Topology.Knows, hid]⟩
      rw [router, hid]
      rfl
    | some a =>
      have hrouter : v.router reference name = .ok a := by rw [router, hid]
      obtain ⟨_, hget, hname⟩ := Topology.routerId?_eq_some hid
      rw [hrouter]
      rcases ih with ⟨other, hm, hfirst⟩ | ⟨ids, hm, rfl, hids⟩
      · refine .inl ⟨other, ?_, hfirst.cons ⟨a, hid⟩⟩
        rw [hm]
        rfl
      · refine .inr ⟨a :: ids, ?_, ?_, List.forall_mem_cons.mpr
          ⟨Topology.lt_size_of_routerId? hid, hids⟩⟩
        · rw [hm]
          rfl
        · simp [Topology.names, Topology.name, hget, hname]

def visitsOf (v : Resolver) (ids : List RouterId) : List Visit :=
  if v.allowSelfPaths then Visit.collapse (Visit.along 0 ids) else Visit.along 0 ids

/-- The first router that is no BGP speaker, if it has to be one. -/
def silent? (v : Resolver) (r : PathReq) (path : List RouterId) : Option RouterId :=
  if r.protocol = .bgp then path.find? fun a => (v.topology.asn? a).isNone else none

theorem path_eq {visits : List Visit} (h : v.visits reference r.path = .ok visits) :
    v.path reference r =
      if r.path.getLast? = some r.destination then
        match firstRepeated? [] (visits.map (·.router)), Visit.brokenHop? v.topology visits,
          v.silent? r (visits.map (·.router)) with
        | some a, _, _ => .error (.cyclicPath reference (v.topology.name a))
        | none, some (a, b), _ => .error (.discontinuousPath reference a.place
          (v.topology.name a.router) (v.topology.name b.router))
        | none, none, some a => .error (.notBgpSpeaker reference (v.topology.name a))
        | none, none, none => .ok (visits.map (·.router))
      else .error (.destinationMismatch reference r.destination (r.path.getLast?.getD "")) := by
  change (v.visits reference r.path >>= fun visits => _) = _
  rw [h]
  by_cases hlast : r.path.getLast? = some r.destination
  · cases hrepeated : firstRepeated? [] (visits.map (·.router)) with
    | some a => simp [hlast, hrepeated, bind, Except.bind, throw, throwThe, MonadExceptOf.throw]
    | none =>
      cases hbroken : Visit.brokenHop? v.topology visits with
      | some hop =>
        simp [hlast, hrepeated, hbroken, bind, Except.bind, throw, throwThe, MonadExceptOf.throw]
      | none =>
        by_cases hbgp : r.protocol = .bgp
        · cases hsilent : (visits.map (·.router)).find? fun a => (v.topology.asn? a).isNone with
          | some a =>
            simp [hlast, hrepeated, hbroken, silent?, hbgp, hsilent, bind, Except.bind, throw,
              throwThe, MonadExceptOf.throw]
          | none =>
            simp [hlast, hrepeated, hbroken, silent?, hbgp, hsilent, bind, Except.bind, pure,
              Except.pure]
        · simp [hlast, hrepeated, hbroken, silent?, hbgp, bind, Except.bind, pure, Except.pure]
  · simp [hlast, bind, Except.bind, throw, throwThe, MonadExceptOf.throw]

theorem visitsOf_eq_collapse (hnd : ((v.visitsOf ids).map (·.router)).Nodup) :
    v.visitsOf ids = Visit.collapse (Visit.along 0 ids) := by
  rw [visitsOf] at hnd ⊢
  split
  · rfl
  · next hno =>
    rw [if_neg hno] at hnd
    exact (Visit.collapse_eq_self hnd).symm

theorem isChain_names (h : ids.IsChain fun a b => v.topology.adjacent a b = true) :
    (v.topology.names ids).IsChain v.topology.Links := by
  refine (List.isChain_map _).mpr (h.imp fun a b hab => ?_)
  have hlt := Topology.lt_size_of_adjacent hab
  exact (Topology.links_name_iff hlt.1 hlt.2).mpr hab

section Names

variable (hids : ∀ a ∈ ids, a < v.topology.size)

include hids

theorem name_injOn : ∀ a ∈ ids, ∀ b ∈ ids, v.topology.name a = v.topology.name b → a = b :=
  fun a ha b hb => Topology.name_injective (hids a ha) (hids b hb)

theorem map_routerId?_names : (v.topology.names ids).map v.topology.routerId? = ids.map some := by
  rw [Topology.names, List.map_map]
  exact List.map_congr_left fun a ha => Topology.routerId?_name (hids a ha)

theorem names_eraseReps : v.topology.names ids.eraseReps = (v.topology.names ids).eraseReps := by
  rw [eraseReps_eq_destutter, eraseReps_eq_destutter, Topology.names, Topology.names]
  refine List.map_destutter fun a ha b hb => not_congr ⟨fun he => he ▸ rfl, fun he => ?_⟩
  exact name_injOn hids a ha b hb he

theorem names_visitsOf : v.topology.names ((v.visitsOf ids).map (·.router)) =
    v.visited (v.topology.names ids) := by
  rw [visitsOf, visited]
  split
  · rw [Visit.map_router_collapse, Visit.map_router_along, names_eraseReps hids]
  · rw [Visit.map_router_along]

theorem lt_size_of_mem_visitsOf : ∀ a ∈ (v.visitsOf ids).map (·.router), a < v.topology.size := by
  intro a ha
  refine hids a ?_
  rw [visitsOf] at ha
  split at ha
  · rw [Visit.map_router_collapse, Visit.map_router_along] at ha
    exact mem_eraseReps.mp ha
  · rwa [Visit.map_router_along] at ha

theorem defect_of_firstRepeated? {a : RouterId} (hpath : r.path = v.topology.names ids)
    (h : firstRepeated? [] ((v.visitsOf ids).map (·.router)) = some a) :
    v.Defect reference r .simple (.cyclicPath reference (v.topology.name a)) := by
  refine .simple ?_
  rw [hpath, ← names_visitsOf hids]
  exact (FirstAgain.of_firstRepeated? h).map (name_injOn (lt_size_of_mem_visitsOf hids))

theorem defect_of_brokenHop? {a b : Visit} (hpath : r.path = v.topology.names ids)
    (hnd : ((v.visitsOf ids).map (·.router)).Nodup)
    (h : Visit.brokenHop? v.topology (v.visitsOf ids) = some (a, b)) :
    v.Defect reference r .linked (.discontinuousPath reference a.place (v.topology.name a.router)
      (v.topology.name b.router)) := by
  rw [visitsOf_eq_collapse hnd] at h
  obtain ⟨i, hplace, hbreak⟩ := Visit.exists_break_of_brokenHop? h
  rw [hplace, Nat.zero_add]
  refine .linked ?_
  rw [hpath]
  exact hbreak.map (name_injOn hids) fun x hx y hy =>
    Topology.links_name_iff (hids x hx) (hids y hy)

theorem defect_of_silent? {a : RouterId} (hpath : r.path = v.topology.names ids)
    (h : v.silent? r ((v.visitsOf ids).map (·.router)) = some a) :
    v.Defect reference r .speaks (.notBgpSpeaker reference (v.topology.name a)) := by
  rw [silent?] at h
  split at h
  · next hbgp =>
    refine .speaks hbgp ?_
    rw [hpath, ← names_visitsOf hids]
    obtain ⟨ha, before, after, hsplit, hbefore⟩ := List.find?_eq_some_iff_append.mp h
    have hwithout : FirstWithout (fun a => (v.topology.asn? a).isSome = true)
        ((v.visitsOf ids).map (·.router)) a :=
      ⟨before, after, hsplit, fun x hx => by simpa using hbefore x hx, by simpa using ha⟩
    exact hwithout.map fun x hx => Topology.speaks_name_iff (lt_size_of_mem_visitsOf hids x hx)
  · cases h

theorem passes_of_silent? (hpath : r.path = v.topology.names ids)
    (h : v.silent? r ((v.visitsOf ids).map (·.router)) = none) : v.Passes r .speaks := by
  intro hbgp name hname
  rw [silent?, if_pos hbgp] at h
  rw [hpath, ← names_visitsOf hids] at hname
  obtain ⟨a, ha, rfl⟩ := List.mem_map.mp hname
  refine (Topology.speaks_name_iff (lt_size_of_mem_visitsOf hids a ha)).mpr ?_
  simpa [Option.isSome_iff_ne_none] using List.find?_eq_none.mp h a ha

end Names

theorem path_judged_of_known (hids : ∀ a ∈ ids, a < v.topology.size)
    (hpath : r.path = v.topology.names ids) (hm : r.path.mapM (v.router reference) = .ok ids) :
    (∃ e, v.path reference r = .error e ∧ v.Blames reference r e) ∨
      (v.path reference r = .ok ((v.visitsOf ids).map (·.router)) ∧ ∀ c, v.Passes r c) := by
  have hvisits : v.visits reference r.path = .ok (v.visitsOf ids) := by
    rw [visits, hm]
    rfl
  have hknown : v.Passes r .known := by
    intro name hname
    rw [hpath] at hname
    obtain ⟨a, ha, rfl⟩ := List.mem_map.mp hname
    exact ⟨a, Topology.routerId?_name (hids a ha)⟩
  rw [path_eq hvisits]
  split
  swap
  · next hends => exact .inl ⟨_, rfl, .ends, .ends hends, by simp [PathCheck.earlier, hknown]⟩
  · next hends =>
    have hends : v.Passes r .ends := hends
    cases hrepeated : firstRepeated? [] ((v.visitsOf ids).map (·.router)) with
    | some a =>
      exact .inl ⟨_, rfl, .simple, defect_of_firstRepeated? hids hpath hrepeated,
        by simp [PathCheck.earlier, hknown, hends]⟩
    | none =>
      have hnd := (nodup_of_firstRepeated? hrepeated).1
      have hsimple : v.Passes r .simple := by
        rw [Passes, hpath, ← names_visitsOf hids]
        exact hnd.map_on (name_injOn (lt_size_of_mem_visitsOf hids))
      cases hbroken : Visit.brokenHop? v.topology (v.visitsOf ids) with
      | some hop =>
        exact .inl ⟨_, rfl, .linked, defect_of_brokenHop? hids hpath hnd hbroken,
          by simp [PathCheck.earlier, hknown, hends, hsimple]⟩
      | none =>
        have hlinked : v.Passes r .linked := by
          rw [Passes, hpath, ← names_visitsOf hids]
          exact isChain_names (Visit.isChain_of_brokenHop? hbroken)
        cases hsilent : v.silent? r ((v.visitsOf ids).map (·.router)) with
        | some a =>
          exact .inl ⟨_, rfl, .speaks, defect_of_silent? hids hpath hsilent,
            by simp [PathCheck.earlier, hknown, hends, hsimple, hlinked]⟩
        | none =>
          have hspeaks := passes_of_silent? hids hpath hsilent
          exact .inr ⟨rfl, fun c => by cases c <;> assumption⟩

theorem path_judged (v : Resolver) (reference : RequirementRef) (r : PathReq) :
    (∃ e, v.path reference r = .error e ∧ v.Blames reference r e) ∨
      ∃ ids, v.path reference r = .ok ids ∧ (∀ c, v.Passes r c) ∧
        (v.visited r.path).map v.topology.routerId? = ids.map some := by
  rcases mapM_router_cases v reference r.path with ⟨name, hm, hfirst⟩ | ⟨ids, hm, hpath, hids⟩
  · refine .inl ⟨_, ?_, .known, .known hfirst, by simp [PathCheck.earlier]⟩
    rw [path, visits, hm]
    rfl
  · rcases path_judged_of_known hids hpath hm with h | ⟨hok, hall⟩
    · exact .inl h
    · refine .inr ⟨_, hok, hall, ?_⟩
      rw [hpath, ← names_visitsOf hids, map_routerId?_names (lt_size_of_mem_visitsOf hids)]

/-- A path is refused exactly for the first check that it does not pass, and the error names the
first defect. Otherwise it leads to the routers that are visited, which are a simple path over links
to the destination. -/
theorem path_verdict (v : Resolver) (reference : RequirementRef) (r : PathReq) :
    (∀ e, v.path reference r = .error e ↔ v.Blames reference r e) ∧
      ∀ ids, v.path reference r = .ok ids ↔ (∀ c, v.Passes r c) ∧
        (v.visited r.path).map v.topology.routerId? = ids.map some ∧ v.Found r ids := by
  rcases path_judged v reference r with ⟨e, hpath, hblames⟩ | ⟨ids, hpath, hall, hids⟩
  · refine ⟨fun e' => ⟨fun he => ?_, fun h => ?_⟩, fun ids => ⟨fun hok => ?_, fun h => ?_⟩⟩
    · exact Except.error.inj (hpath.symm.trans he) ▸ hblames
    · rw [hpath, hblames.unique h]
    · cases hpath.symm.trans hok
    · exact absurd h.1 hblames.not_passes
  · refine ⟨fun e => ⟨fun he => ?_, fun h => ?_⟩, fun ids' => ⟨fun hok => ?_, fun h => ?_⟩⟩
    · cases hpath.symm.trans he
    · exact absurd hall h.not_passes
    · obtain rfl := Except.ok.inj (hpath.symm.trans hok)
      exact ⟨hall, hids, path_ok hok⟩
    · have hsome := hids.symm.trans h.2.1
      rw [hpath, List.map_injective_iff.mpr (fun _ _ => Option.some.inj) hsome]

/-- The link that is missing is looked for from the last visit of `S` on. -/
example (reference : RequirementRef) : (Resolver.mk Network.Diamond.topology true).path reference
    ⟨.ospf, "D", ["S", "S", "D"], false⟩ = .error (.discontinuousPath reference 1 "S" "D") := by
  rfl

end Resolver

end PathPolicy
