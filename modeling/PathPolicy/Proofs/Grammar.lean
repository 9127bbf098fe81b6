import Mathlib.Data.List.Basic
import PathPolicy.Requirement.Parser

/-! What the parser accepts. A phrase takes tokens that spell its value and leaves all others, so
the parser accepts exactly the token lists of the grammar. -/

namespace PathPolicy

namespace Phrase

variable {α β : Type} {p item : Phrase α} {S : List Token → α → Prop}

/-- The phrase takes tokens that spell its value, and reads each value that some tokens spell. -/
def Reads (p : Phrase α) (S : List Token → α → Prop) : Prop :=
  ∀ ts a rest, p.run ts = .ok (a, rest) ↔ ∃ taken, ts = taken ++ rest ∧ S (taken.map (·.token)) a

theorem Reads.congr {S' : List Token → α → Prop} (h : p.Reads S) (hS : ∀ ts a, S ts a ↔ S' ts a) :
    p.Reads S' := by
  intro ts a rest
  rw [h]
  simp only [hS]

theorem Reads.ne_nil (h : p.Reads S) {ts : List Token} {a : α} (hs : S ts a) : ts ≠ [] := by
  rintro rfl
  exact absurd (p.shorter ((h [] a []).mpr ⟨[], rfl, hs⟩)) (Nat.lt_irrefl _)

theorem Reads.map (h : p.Reads S) (f : α → β) :
    (p.map f).Reads fun ts b => ∃ a, S ts a ∧ f a = b := by
  intro ts b rest
  change (p.run ts).map (fun r => (f r.1, r.2)) = _ ↔ _
  constructor
  · intro hrun
    cases hp : p.run ts with
    | error e => simp [hp, Except.map] at hrun
    | ok r =>
      obtain ⟨a, mid⟩ := r
      simp only [hp, Except.map, Except.ok.injEq, Prod.mk.injEq] at hrun
      obtain ⟨rfl, rfl⟩ := hrun
      obtain ⟨taken, htaken, hs⟩ := (h ts a mid).mp hp
      exact ⟨taken, htaken, a, hs, rfl⟩
  · rintro ⟨taken, htaken, a, hs, rfl⟩
    rw [(h ts a rest).mpr ⟨taken, htaken, hs⟩]
    rfl

section Token

variable {Q : Token → α → Prop} {f : Located → Except ParseError α} {expected : Expected}
  (hQ : ∀ l a, f l = .ok a ↔ Q l.token a)

include hQ

theorem reads_token : (token expected f).Reads fun ts a => ∃ t, ts = [t] ∧ Q t a := by
  intro ts a rest
  constructor
  · intro hrun
    cases ts with
    | nil => cases hrun
    | cons l ts =>
      change (f l).map (·, ts) = _ at hrun
      cases hf : f l with
      | error e => simp [hf, Except.map] at hrun
      | ok b =>
        simp only [hf, Except.map, Except.ok.injEq, Prod.mk.injEq] at hrun
        obtain ⟨rfl, rfl⟩ := hrun
        exact ⟨[l], rfl, l.token, rfl, (hQ l b).mp hf⟩
  · rintro ⟨taken, rfl, t, htaken, ht⟩
    obtain ⟨l, rfl, rfl⟩ := List.map_eq_singleton_iff.mp htaken
    change (f l).map (·, rest) = _
    rw [(hQ l a).mpr ht]
    rfl

end Token

theorem andThen_run_eq_ok_iff {f : α → Phrase β} {ts rest : List Located} {b : β} :
    (p.andThen f).run ts = .ok (b, rest) ↔
      ∃ a mid, p.run ts = .ok (a, mid) ∧ (f a).run mid = .ok (b, rest) := by
  rw [andThen]
  dsimp only
  split
  · next e hp => simp [hp]
  · next a mid hp => simp [hp]

theorem Reads.andThen {f : α → Phrase β} {T : α → List Token → β → Prop} (h : p.Reads S)
    (hf : ∀ a, (f a).Reads (T a)) :
    (p.andThen f).Reads fun ts b => ∃ xs ys a, ts = xs ++ ys ∧ S xs a ∧ T a ys b := by
  intro ts b rest
  rw [andThen_run_eq_ok_iff]
  constructor
  · rintro ⟨a, mid, hp, hrun⟩
    obtain ⟨xs, rfl, hs⟩ := (h ts a mid).mp hp
    obtain ⟨ys, rfl, ht⟩ := (hf a mid b rest).mp hrun
    exact ⟨xs ++ ys, (List.append_assoc _ _ _).symm, _, _, a, List.map_append, hs, ht⟩
  · rintro ⟨taken, rfl, xs, ys, a, htaken, hs, ht⟩
    obtain ⟨us, vs, rfl, rfl, rfl⟩ := List.map_eq_append_iff.mp htaken
    exact ⟨a, vs ++ rest, (h _ a _).mpr ⟨us, List.append_assoc _ _ _, hs⟩,
      (hf a _ b rest).mpr ⟨vs, rfl, ht⟩⟩

theorem reads_token_andThen {Q : Token → α → Prop} {f : Located → Except ParseError α}
    {expected : Expected} (hQ : ∀ l a, f l = .ok a ↔ Q l.token a) {g : α → Phrase β}
    {T : α → List Token → β → Prop} (hg : ∀ a, (g a).Reads (T a)) :
    ((token expected f).andThen g).Reads fun ts b => ∃ t ys a, ts = t :: ys ∧ Q t a ∧ T a ys b := by
  refine ((reads_token hQ).andThen hg).congr fun ts b => ?_
  constructor
  · rintro ⟨_, ys, a, rfl, ⟨t, rfl, ht⟩, hys⟩
    exact ⟨t, ys, a, rfl, ht, hys⟩
  · rintro ⟨t, ys, a, rfl, ht, hys⟩
    exact ⟨[t], ys, a, rfl, ⟨t, rfl, ht⟩, hys⟩

section Tokens

variable {l : Located} {t : Token} {expected : Expected}

theorem expect_eq_ok_iff {u : Unit} :
    (if l.token = t then Except.ok () else .error (unexpected l expected)) = .ok u ↔
      l.token = t := by
  split <;> simp_all

/-- A token that has to be there, in front of a phrase. -/
theorem Reads.after (h : p.Reads S) (t : Token) (expected : Expected) :
    ((expect t expected).andThen fun _ => p).Reads fun ts a => ∃ ys, ts = t :: ys ∧ S ys a := by
  refine (reads_token_andThen (Q := fun u _ => u = t) (fun l u => expect_eq_ok_iff)
    fun _ => h).congr fun ts a => ?_
  constructor
  · rintro ⟨_, ys, _, rfl, rfl, hs⟩
    exact ⟨ys, rfl, hs⟩
  · rintro ⟨ys, rfl, hs⟩
    exact ⟨t, ys, (), rfl, rfl, hs⟩

end Tokens

/-- The tokens of a list after its opening bracket. A comma may follow the last item. -/
inductive SpellsItems (S : List Token → α → Prop) : List Token → List α → Prop
  | nil : SpellsItems S [.closeBracket] []
  | last {xs : List Token} {a : α} : S xs a → SpellsItems S (xs ++ [.closeBracket]) [a]
  | cons {xs ys : List Token} {a : α} {as : List α} :
      S xs a → SpellsItems S ys as → SpellsItems S (xs ++ .comma :: ys) (a :: as)

section Items

theorem items_of_run {l u : Located} {ls us : List Located} {a : α}
    (hl : l.token ≠ .closeBracket) (hrun : item.run (l :: ls) = .ok (a, u :: us)) :
    items item (l :: ls) =
      if u.token = .comma then (items item us).map fun r => (a :: r.1, r.2)
      else if u.token = .closeBracket then .ok ([a], us)
      else .error (unexpected u .commaOrClose) := by
  rw [items, if_neg hl]
  split
  · next he => simp [hrun] at he
  · next he => simp [hrun] at he
  · next he =>
    rw [hrun] at he
    obtain ⟨rfl, rfl, rfl⟩ : a = _ ∧ u = _ ∧ us = _ := by simpa using he
    rfl

variable (h : item.Reads S) (hfirst : ∀ ts a, S ts a → ts.head? ≠ some .closeBracket)

include h

theorem exists_spellsItems {ts rest : List Located} {as : List α}
    (hrun : items item ts = .ok (as, rest)) :
    ∃ taken, ts = taken ++ rest ∧ SpellsItems S (taken.map (·.token)) as := by
  fun_induction items item ts generalizing as with
  | case1 => cases hrun
  | case2 l ls hl =>
    obtain ⟨rfl, rfl⟩ := Prod.mk.inj (Except.ok.inj hrun)
    refine ⟨[l], rfl, ?_⟩
    rw [List.map_singleton, hl]
    exact .nil
  | case3 => cases hrun
  | case4 => cases hrun
  | case5 l ls hl a u us hitem hu ih =>
    cases hus : items item us with
    | error e => simp [hus, Except.map] at hrun
    | ok r =>
      simp only [hus, Except.map, Except.ok.injEq, Prod.mk.injEq] at hrun
      obtain ⟨rfl, rfl⟩ := hrun
      obtain ⟨ys, rfl, hys⟩ := ih hus
      obtain ⟨xs, hxs, hs⟩ := (h _ _ _).mp hitem
      refine ⟨xs ++ u :: ys, by simp [hxs], ?_⟩
      rw [List.map_append, List.map_cons, hu]
      exact .cons hs hys
  | case6 l ls hl a u us hitem hcomma hu =>
    obtain ⟨rfl, rfl⟩ := Prod.mk.inj (Except.ok.inj hrun)
    obtain ⟨xs, hxs, hs⟩ := (h _ _ _).mp hitem
    refine ⟨xs ++ [u], by simp [hxs], ?_⟩
    rw [List.map_append, List.map_singleton, hu]
    exact .last hs
  | case7 => cases hrun

include hfirst

/-- An item is not empty and does not begin like the end of the list. -/
theorem items_append {taken us : List Located} {u : Located} {a : α}
    (hs : S (taken.map (·.token)) a) :
    items item (taken ++ u :: us) =
      if u.token = .comma then (items item us).map fun r => (a :: r.1, r.2)
      else if u.token = .closeBracket then .ok ([a], us)
      else .error (unexpected u .commaOrClose) := by
  have hrun := (h _ a (u :: us)).mpr ⟨taken, rfl, hs⟩
  cases taken with
  | nil => exact absurd rfl (h.ne_nil hs)
  | cons l ls =>
    refine items_of_run (fun hl => hfirst _ _ hs ?_) hrun
    rw [List.map_cons, List.head?_cons, hl]

theorem items_of_spellsItems {ts : List Token} {as : List α} (hs : SpellsItems S ts as)
    {taken : List Located} (htaken : taken.map (·.token) = ts) (rest : List Located) :
    items item (taken ++ rest) = .ok (as, rest) := by
  induction hs generalizing taken with
  | nil =>
    obtain ⟨l, rfl, hl⟩ := List.map_eq_singleton_iff.mp htaken
    rw [List.singleton_append, items, if_pos hl]
  | last hs =>
    obtain ⟨xs, us, rfl, rfl, hus⟩ := List.map_eq_append_iff.mp htaken
    obtain ⟨u, rfl, hu⟩ := List.map_eq_singleton_iff.mp hus
    rw [List.append_assoc, List.singleton_append, items_append h hfirst hs, if_neg (by simp [hu]),
      if_pos hu]
  | cons hs _ ih =>
    obtain ⟨xs, us, rfl, rfl, hus⟩ := List.map_eq_append_iff.mp htaken
    obtain ⟨u, vs, rfl, hu, hvs⟩ := List.map_eq_cons_iff.mp hus
    rw [List.append_assoc, List.cons_append, items_append h hfirst hs, if_pos hu, ih hvs]
    rfl

theorem reads_list : (list item).Reads fun ts as =>
    ∃ ys, ts = .openBracket :: ys ∧ SpellsItems S ys as := by
  refine Reads.after (fun ts as rest => ⟨exists_spellsItems h, ?_⟩) .openBracket .openBracket
  rintro ⟨taken, rfl, hs⟩
  exact items_of_spellsItems h hfirst hs rfl rest

end Items

/-- The tokens of the arguments, from the opening parenthesis to the closing one. -/
inductive SpellsCall (S : List Token → α → Prop) (protocol : Protocol) (destination : String)
    (as : List α) (exact : Bool) : List Token → Prop
  | call {p d b : Token} {xs : List Token} :
      p.name?.bind Protocol.ofText? = some protocol → d.name? = some destination →
      SpellsItems S xs as → b.name?.bind flag? = some exact →
      SpellsCall S protocol destination as exact (.openParen :: p :: .comma :: d :: .comma ::
        .openBracket :: (xs ++ [.comma, b, .closeParen]))

section Arguments

variable {T : Protocol → List Token → β → Prop} {U : String → List Token → β → Prop}
  {V : Bool → List Token → β → Prop}

theorem reads_protocol_andThen {g : Protocol → Phrase β} (hg : ∀ p, (g p).Reads (T p)) :
    (protocol.andThen g).Reads fun ts b => ∃ t ys p, ts = t :: ys ∧
      t.name?.bind Protocol.ofText? = some p ∧ T p ys b := by
  refine reads_token_andThen (fun l p => ?_) hg
  cases l.token.name? with
  | none => simp
  | some s =>
    rw [Option.bind_some, ← Protocol.parse_eq_ok_iff]
    cases hs : Protocol.parse s <;> simp [hs]

theorem name_eq_ok_iff {l : Located} {expected : Expected} {s : String} :
    (match l.token.name? with
      | some s => Except.ok s
      | none => .error (unexpected l expected)) = .ok s ↔ l.token.name? = some s := by
  cases l.token.name? <;> simp

theorem reads_name_andThen {g : String → Phrase β} (expected : Expected)
    (hg : ∀ s, (g s).Reads (U s)) : ((name expected).andThen g).Reads fun ts b =>
      ∃ t ys s, ts = t :: ys ∧ t.name? = some s ∧ U s ys b :=
  reads_token_andThen (fun _ _ => name_eq_ok_iff) hg

theorem reads_boolean_andThen {g : Bool → Phrase β} (hg : ∀ b, (g b).Reads (V b)) :
    (boolean.andThen g).Reads fun ts b => ∃ t ys e, ts = t :: ys ∧
      t.name?.bind flag? = some e ∧ V e ys b := by
  refine reads_token_andThen (fun l b => ?_) hg
  cases l.token.name? with
  | none => simp
  | some s => cases hs : flag? s <;> simp [hs]

variable (h : item.Reads S) (hfirst : ∀ ts a, S ts a → ts.head? ≠ some .closeBracket)

include h hfirst

theorem reads_arguments (make : Protocol → String → List α → Bool → β) :
    (arguments item make).Reads fun ts v =>
      ∃ p d as b, SpellsCall S p d as b ts ∧ make p d as b = v := by
  have hclose : ∀ v : β, ((expect .closeParen .closeParen).map fun _ => v).Reads
      fun ts w => ts = [.closeParen] ∧ v = w := fun v =>
    ((reads_token (Q := fun t _ => t = .closeParen) fun l u => expect_eq_ok_iff).map _).congr
      (by simp)
  refine Reads.congr (.after (reads_protocol_andThen fun p => .after (reads_name_andThen _ fun d =>
    .after ((reads_list h hfirst).andThen fun as => .after (reads_boolean_andThen fun b =>
      hclose (make p d as b)) _ _) _ _) _ _) _ _) fun ts v => ?_
  constructor
  · rintro ⟨_, rfl, tp, _, p, rfl, hp, _, rfl, td, _, d, rfl, hd, _, rfl, _, _, as, rfl,
      ⟨xs, rfl, hxs⟩, _, rfl, tb, _, b, rfl, hb, rfl, rfl⟩
    exact ⟨p, d, as, b, .call hp hd hxs hb, rfl⟩
  · rintro ⟨p, d, as, b, ⟨hp, hd, hxs, hb⟩, rfl⟩
    exact ⟨_, rfl, _, _, p, rfl, hp, _, rfl, _, _, d, rfl, hd, _, rfl, _, _, as, rfl, ⟨_, rfl, hxs⟩,
      _, rfl, _, _, b, rfl, hb, rfl, rfl⟩

end Arguments

def SpellsName (ts : List Token) (s : String) : Prop := ∃ t, ts = [t] ∧ t.name? = some s

def SpellsPath (ts : List Token) (r : PathReq) : Prop :=
  SpellsCall SpellsName r.protocol r.destination r.path r.exact ts

def SpellsMember (ts : List Token) (r : PathReq) : Prop :=
  ∃ t ys, ts = t :: ys ∧ t.name? = some "PathReq" ∧ SpellsPath ys r

def SpellsSet (ts : List Token) (r : PathSetReq) : Prop :=
  SpellsCall SpellsMember r.protocol r.destination r.members r.exact ts

theorem reads_pathArguments : pathArguments.Reads SpellsPath := by
  have hname : (name .node).Reads SpellsName := reads_token fun _ _ => name_eq_ok_iff
  refine (reads_arguments hname ?_ PathReq.mk).congr fun ts r => ?_
  · rintro _ s ⟨t, rfl, ht⟩ he
    obtain rfl := Option.some.inj he
    cases ht
  · constructor
    · rintro ⟨p, d, as, b, hs, rfl⟩
      exact hs
    · exact fun hs => ⟨_, _, _, _, hs, rfl⟩

theorem reads_pathReq : pathReq.Reads SpellsMember := by
  refine (reads_token_andThen (Q := fun t _ => t.name? = some "PathReq") (fun l u => ?_)
    fun _ => reads_pathArguments).congr fun ts r => ?_
  · split <;> simp_all
  · constructor
    · rintro ⟨t, ys, _, rfl, ht, hs⟩
      exact ⟨t, ys, rfl, ht, hs⟩
    · rintro ⟨t, ys, rfl, ht, hs⟩
      exact ⟨t, ys, (), rfl, ht, hs⟩

theorem reads_setArguments : setArguments.Reads SpellsSet := by
  refine (reads_arguments reads_pathReq ?_ PathSetReq.mk).congr fun ts r => ?_
  · rintro _ r ⟨t, ys, rfl, ht, _⟩ he
    obtain rfl := Option.some.inj he
    cases ht
  · constructor
    · rintro ⟨p, d, as, b, hs, rfl⟩
      exact hs
    · exact fun hs => ⟨_, _, _, _, hs, rfl⟩

def SpellsArguments : Requirement → List Token → Prop
  | .path r, ts => SpellsPath ts r
  | .order r, ts | .ecmp r, ts | .kConnected r, ts => SpellsSet ts r

def SpellsRequirement (ts : List Token) (r : Requirement) : Prop :=
  ∃ ys, ts = .word r.kind.keyword :: ys ∧ SpellsArguments r ys

theorem ofKeyword?_eq_some_iff {s : String} {k : RequirementKind} :
    RequirementKind.ofKeyword? s = some k ↔ s = k.keyword := by
  constructor
  · intro h
    unfold RequirementKind.ofKeyword? at h
    split at h <;> cases h <;> rfl
  · rintro rfl
    cases k <;> rfl

theorem reads_requirement : requirement.Reads SpellsRequirement := by
  refine (reads_token_andThen (Q := fun t k => t = .word k.keyword)
    (T := fun k ts r => r.kind = k ∧ SpellsArguments r ts) (fun l k => ?_) fun k => ?_).congr
      fun ts r => ?_
  · cases l.token with
    | word s =>
      rw [Token.word.injEq, ← ofKeyword?_eq_some_iff]
      cases hs : RequirementKind.ofKeyword? s <;> simp [hs]
    | _ => simp
  · cases k with
    | path =>
      refine (reads_pathArguments.map Requirement.path).congr fun ts r => ?_
      cases r <;> simp [SpellsArguments, Requirement.kind]
    | order =>
      refine (reads_setArguments.map Requirement.order).congr fun ts r => ?_
      cases r <;> simp [SpellsArguments, Requirement.kind]
    | ecmp =>
      refine (reads_setArguments.map Requirement.ecmp).congr fun ts r => ?_
      cases r <;> simp [SpellsArguments, Requirement.kind]
    | kConnected =>
      refine (reads_setArguments.map Requirement.kConnected).congr fun ts r => ?_
      cases r <;> simp [SpellsArguments, Requirement.kind]
  · constructor
    · rintro ⟨_, ys, _, rfl, rfl, rfl, hs⟩
      exact ⟨ys, rfl, hs⟩
    · rintro ⟨ys, rfl, hs⟩
      exact ⟨_, ys, _, rfl, rfl, rfl, hs⟩

end Phrase

namespace Requirement

/-- The tokens of requirements in a row. Commas may stand before and after each of them. -/
inductive SpellsAll : List Token → List Requirement → Prop
  | nil : SpellsAll [] []
  | comma {ts : List Token} {rs : List Requirement} : SpellsAll ts rs → SpellsAll (.comma :: ts) rs
  | cons {xs ys : List Token} {r : Requirement} {rs : List Requirement} :
      Phrase.SpellsRequirement xs r → SpellsAll ys rs → SpellsAll (xs ++ ys) (r :: rs)

/-- The parser accepts exactly the token lists of the grammar. -/
theorem parseTokens_eq_ok_iff {ls : List Located} {rs : List Requirement} :
    parseTokens ls = .ok rs ↔ SpellsAll (ls.map (·.token)) rs := by
  constructor
  · intro hrun
    fun_induction parseTokens ls generalizing rs with
    | case1 =>
      obtain rfl := Except.ok.inj hrun
      exact .nil
    | case2 l ls hl ih =>
      rw [List.map_cons, hl]
      exact .comma (ih hrun)
    | case3 => cases hrun
    | case4 l ls hl r rest hr ih =>
      obtain ⟨taken, htaken, hs⟩ := (Phrase.reads_requirement _ r rest).mp hr
      cases hrest : parseTokens rest with
      | error e => simp [hrest] at hrun
      | ok qs =>
        rw [hrest] at hrun
        obtain rfl := Except.ok.inj hrun
        rw [htaken, List.map_append]
        exact .cons hs (ih hrest)
  · intro hs
    generalize hts : ls.map (·.token) = ts at hs
    induction hs generalizing ls with
    | nil =>
      obtain rfl := List.map_eq_nil_iff.mp hts
      rw [parseTokens]
    | comma _ ih =>
      obtain ⟨l, us, rfl, hl, hus⟩ := List.map_eq_cons_iff.mp hts
      rw [parseTokens, if_pos hl, ih hus]
    | cons hs _ ih =>
      obtain ⟨taken, us, rfl, rfl, hus⟩ := List.map_eq_append_iff.mp hts
      have hr := (Phrase.reads_requirement _ _ us).mpr ⟨taken, rfl, hs⟩
      obtain ⟨ys, hys, _⟩ := hs
      obtain ⟨l, vs, rfl, hl, _⟩ := List.map_eq_cons_iff.mp hys
      rw [List.cons_append] at hr ⊢
      rw [parseTokens, if_neg (by simp [hl])]
      split
      · next he => simp [hr] at he
      · next he =>
        rw [hr] at he
        obtain ⟨rfl, rfl⟩ := Prod.mk.inj (Except.ok.inj he)
        rw [ih hus]
        rfl

/-- A requirement begins with its keyword. -/
theorem SpellsAll.head?_ne_openBracket {ts : List Token} {rs : List Requirement}
    (h : SpellsAll ts rs) : ts.head? ≠ some .openBracket := by
  cases h with
  | nil => simp
  | comma _ => simp
  | cons hs _ =>
    obtain ⟨ys, rfl, _⟩ := hs
    simp

theorem SpellsAll.withoutBrackets_eq_self {ls : List Located} {rs : List Requirement}
    (h : SpellsAll (ls.map (·.token)) rs) : withoutBrackets ls = ls := by
  cases ls with
  | nil => rfl
  | cons l ls =>
    have hl : l.token ≠ .openBracket := fun hl => h.head?_ne_openBracket (by simp [hl])
    rw [withoutBrackets, if_neg (by simp [hl])]

end Requirement

end PathPolicy
