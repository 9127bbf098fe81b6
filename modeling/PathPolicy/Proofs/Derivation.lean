import PathPolicy.Proofs.Grammar
import PathPolicy.Proofs.Resolution

/-! The grammar of the requirement language, rule by rule. The parser accepts exactly the token
lists that the grammar derives, and no token list derives two values. -/

namespace PathPolicy

namespace Grammar

variable {α : Type}

/-- A name may be quoted. -/
inductive Name : List Token → String → Prop
  | bare (s : String) : Name [.word s] s
  | quoted (s : String) : Name [.quoted s] s

/-- Equal up to the case of ASCII letters. -/
def SameLetters (s u : String) : Prop := s.toList.map Char.toLower = u.toList.map Char.toLower

inductive ProtocolName : List Token → Protocol → Prop
  | short {ts : List Token} {s : String} {p : Protocol} :
      Name ts s → SameLetters s p.text → ProtocolName ts p
  | qualified {ts : List Token} {s : String} {p : Protocol} :
      Name ts ("Protocols." ++ s) → SameLetters s p.text → ProtocolName ts p

inductive Flag : List Token → Bool → Prop
  | true {ts : List Token} {s : String} : Name ts s → s = "True" ∨ s = "true" → Flag ts true
  | false {ts : List Token} {s : String} : Name ts s → s = "False" ∨ s = "false" → Flag ts false

/-- At least one item, with a comma between each two. -/
inductive Separated (item : List Token → α → Prop) : List Token → List α → Prop
  | single {xs : List Token} {a : α} : item xs a → Separated item xs [a]
  | cons {xs ys : List Token} {a : α} {as : List α} :
      item xs a → Separated item ys as → Separated item (xs ++ .comma :: ys) (a :: as)

inductive Bracketed (item : List Token → α → Prop) : List Token → List α → Prop
  | empty : Bracketed item [.openBracket, .closeBracket] []
  | closed {xs : List Token} {as : List α} :
      Separated item xs as → Bracketed item (.openBracket :: xs ++ [.closeBracket]) as
  | trailing {xs : List Token} {as : List α} :
      Separated item xs as → Bracketed item (.openBracket :: xs ++ [.comma, .closeBracket]) as

inductive Body (item : List Token → α → Prop) (protocol : Protocol) (destination : String)
    (as : List α) (exact : Bool) : List Token → Prop
  | mk {ps ds xs bs : List Token} : ProtocolName ps protocol → Name ds destination →
      Bracketed item xs as → Flag bs exact → Body item protocol destination as exact
        (.openParen :: ps ++ .comma :: ds ++ .comma :: xs ++ .comma :: bs ++ [.closeParen])

def PathBody (ts : List Token) (r : PathReq) : Prop :=
  Body Name r.protocol r.destination r.path r.exact ts

/-- The keyword of a member is a name like any other. -/
inductive Member : List Token → PathReq → Prop
  | mk {ks xs : List Token} {r : PathReq} :
      Name ks "PathReq" → PathBody xs r → Member (ks ++ xs) r

def SetBody (ts : List Token) (r : PathSetReq) : Prop :=
  Body Member r.protocol r.destination r.members r.exact ts

/-- The keyword of a requirement is not quoted. -/
inductive Call : List Token → Requirement → Prop
  | path {xs : List Token} {r : PathReq} : PathBody xs r → Call (.word "PathReq" :: xs) (.path r)
  | order {xs : List Token} {r : PathSetReq} :
      SetBody xs r → Call (.word "PathOrderReq" :: xs) (.order r)
  | ecmp {xs : List Token} {r : PathSetReq} :
      SetBody xs r → Call (.word "ECMPPathsReq" :: xs) (.ecmp r)
  | kConnected {xs : List Token} {r : PathSetReq} :
      SetBody xs r → Call (.word "KConnectedPathsReq" :: xs) (.kConnected r)

/-- Requirements with any number of commas before, between and after them. -/
inductive Calls : List Token → List Requirement → Prop
  | commas (n : Nat) : Calls (.replicate n .comma) []
  | cons (n : Nat) {xs ys : List Token} {r : Requirement} {rs : List Requirement} :
      Call xs r → Calls ys rs → Calls (.replicate n .comma ++ xs ++ ys) (r :: rs)

/-- One pair of brackets may enclose the whole input. -/
inductive Input : List Token → List Requirement → Prop
  | bare {ts : List Token} {rs : List Requirement} : Calls ts rs → Input ts rs
  | enclosed {ts : List Token} {rs : List Requirement} :
      Calls ts rs → Input (.openBracket :: ts ++ [.closeBracket]) rs

end Grammar

open Grammar

theorem Protocol.ofLowercase?_eq_some_iff {s : String} {p : Protocol} :
    ofLowercase? s = some p ↔ s.toList = p.text.toList.map Char.toLower := by
  constructor
  · intro h
    unfold ofLowercase? at h
    split at h <;> cases h <;> rfl
  · intro h
    rw [← String.ofList_toList (s := s), h]
    cases p <;> rfl

theorem Grammar.SameLetters.length_eq {s u : String} (h : SameLetters s u) :
    s.toList.length = u.toList.length := by
  have hlen := congrArg List.length h
  rwa [List.length_map, List.length_map] at hlen

/-- The prefix is too long to be a part of the name of a protocol. -/
theorem Protocol.ofText?_eq_some_iff {s : String} {p : Protocol} : ofText? s = some p ↔
    SameLetters s p.text ∨ ∃ u, s = "Protocols." ++ u ∧ SameLetters u p.text := by
  rw [ofText?, ofLowercase?_eq_some_iff, String.toList_ofList]
  cases hprefix : "Protocols.".toList.isPrefixOf? s.toList with
  | none =>
    refine ⟨.inl, ?_⟩
    rintro (h | ⟨u, rfl, _⟩)
    · exact h
    · rw [String.toList_append, List.isPrefixOf?_eq_some_iff_append_eq.mpr rfl] at hprefix
      cases hprefix
  | some cs =>
    have hs := List.isPrefixOf?_eq_some_iff_append_eq.mp hprefix
    have hcs : s = "Protocols." ++ String.ofList cs := by
      rw [← String.toList_inj, ← hs, String.toList_append, String.toList_ofList (l := cs)]
    constructor
    · exact fun h => .inr ⟨_, hcs, by rwa [SameLetters, String.toList_ofList]⟩
    · rintro (h | ⟨u, rfl, h⟩)
      · have hlen := h.length_eq
        rw [← hs, List.length_append] at hlen
        cases p <;> simp [Protocol.text] at hlen <;> omega
      · rw [String.toList_append, List.append_cancel_left_eq] at hs
        rw [hs]
        exact h

namespace Phrase

variable {α : Type} {S item : List Token → α → Prop}

theorem spellsName_iff {ts : List Token} {s : String} : SpellsName ts s ↔ Name ts s := by
  constructor
  · rintro ⟨t, rfl, ht⟩
    cases t with
    | word u =>
      obtain rfl := Option.some.inj ht
      exact .bare u
    | quoted u =>
      obtain rfl := Option.some.inj ht
      exact .quoted u
    | _ => cases ht
  · intro h
    cases h with
    | bare => exact ⟨_, rfl, rfl⟩
    | quoted => exact ⟨_, rfl, rfl⟩

/-- What one token stands for by its name. -/
theorem name?_bind_eq_some_iff {f : String → Option α} {t : Token} {a : α} :
    t.name?.bind f = some a ↔ ∃ s, Name [t] s ∧ f s = some a := by
  rw [Option.bind_eq_some_iff]
  refine exists_congr fun s => and_congr_left fun _ => ?_
  rw [← spellsName_iff]
  exact ⟨fun ht => ⟨t, rfl, ht⟩, fun ⟨_, hu, ht⟩ => List.singleton_inj.mp hu ▸ ht⟩

theorem protocolName_iff {ts : List Token} {p : Protocol} :
    ProtocolName ts p ↔ ∃ t, ts = [t] ∧ t.name?.bind Protocol.ofText? = some p := by
  simp only [name?_bind_eq_some_iff, Protocol.ofText?_eq_some_iff]
  constructor
  · rintro (⟨hs, hp⟩ | ⟨hs, hp⟩)
    · obtain ⟨t, rfl, _⟩ := spellsName_iff.mpr hs
      exact ⟨t, rfl, _, hs, .inl hp⟩
    · obtain ⟨t, rfl, _⟩ := spellsName_iff.mpr hs
      exact ⟨t, rfl, _, hs, .inr ⟨_, rfl, hp⟩⟩
  · rintro ⟨t, rfl, s, hs, hp | ⟨u, rfl, hp⟩⟩
    · exact .short hs hp
    · exact .qualified hs hp

theorem flag?_eq_some_iff {s : String} {b : Bool} :
    flag? s = some b ↔ if b then s = "True" ∨ s = "true" else s = "False" ∨ s = "false" := by
  constructor
  · intro h
    unfold flag? at h
    split at h <;> cases h <;> simp
  · cases b <;> rintro (rfl | rfl) <;> rfl

theorem flag_iff {ts : List Token} {b : Bool} :
    Flag ts b ↔ ∃ t, ts = [t] ∧ t.name?.bind flag? = some b := by
  simp only [name?_bind_eq_some_iff, flag?_eq_some_iff]
  constructor
  · rintro (⟨hs, hb⟩ | ⟨hs, hb⟩)
    all_goals
      obtain ⟨t, rfl, _⟩ := spellsName_iff.mpr hs
      exact ⟨t, rfl, _, hs, hb⟩
  · rintro ⟨t, rfl, s, hs, hb⟩
    cases b with
    | true => exact .true hs hb
    | false => exact .false hs hb

section Items

/-- A list may end after its last item or after one more comma. -/
theorem spellsItems_of_separated {xs : List Token} {as : List α} (h : Separated S xs as) :
    SpellsItems S (xs ++ [.closeBracket]) as ∧
      SpellsItems S (xs ++ [.comma, .closeBracket]) as := by
  induction h with
  | single hs => exact ⟨.last hs, .cons hs .nil⟩
  | cons hs _ ih =>
    rw [List.append_assoc, List.append_assoc]
    exact ⟨.cons hs ih.1, .cons hs ih.2⟩

theorem bracketed_of_spellsItems {ys : List Token} {as : List α} (h : SpellsItems S ys as) :
    Bracketed S (.openBracket :: ys) as := by
  induction h with
  | nil => exact .empty
  | last hs => exact .closed (.single hs)
  | @cons xs ys a as hs _ ih =>
    generalize hts : Token.openBracket :: ys = ts at ih
    cases ih with
    | empty =>
      obtain rfl := List.cons_injective hts
      exact .trailing (.single hs)
    | closed hsep =>
      obtain rfl := List.cons_injective hts
      have hclosed := Bracketed.closed (.cons hs hsep)
      rwa [List.cons_append, List.append_assoc] at hclosed
    | trailing hsep =>
      obtain rfl := List.cons_injective hts
      have htrailing := Bracketed.trailing (.cons hs hsep)
      rwa [List.cons_append, List.append_assoc] at htrailing

theorem bracketed_iff {ts : List Token} {as : List α} :
    Bracketed S ts as ↔ ∃ ys, ts = .openBracket :: ys ∧ SpellsItems S ys as := by
  constructor
  · rintro (_ | hsep | hsep)
    · exact ⟨_, rfl, .nil⟩
    · exact ⟨_, rfl, (spellsItems_of_separated hsep).1⟩
    · exact ⟨_, rfl, (spellsItems_of_separated hsep).2⟩
  · rintro ⟨ys, rfl, h⟩
    exact bracketed_of_spellsItems h

end Items

theorem spellsCall_iff {p : Protocol} {d : String} {as : List α} {b : Bool} {ts : List Token} :
    SpellsCall S p d as b ts ↔ Body S p d as b ts := by
  constructor
  · rintro ⟨hp, hd, hxs, hb⟩
    have hbody := Body.mk (protocolName_iff.mpr ⟨_, rfl, hp⟩) (spellsName_iff.mp ⟨_, rfl, hd⟩)
      (bracketed_of_spellsItems hxs) (flag_iff.mpr ⟨_, rfl, hb⟩)
    simpa using hbody
  · rintro ⟨hp, hd, hxs, hb⟩
    obtain ⟨tp, rfl, htp⟩ := protocolName_iff.mp hp
    obtain ⟨td, rfl, htd⟩ := spellsName_iff.mpr hd
    obtain ⟨ys, rfl, hys⟩ := bracketed_iff.mp hxs
    obtain ⟨tb, rfl, htb⟩ := flag_iff.mp hb
    have hcall := SpellsCall.call htp htd hys htb
    simpa using hcall

theorem spellsName_eq : SpellsName = Name := by
  funext ts s
  exact propext spellsName_iff

theorem spellsPath_iff {ts : List Token} {r : PathReq} : SpellsPath ts r ↔ PathBody ts r := by
  rw [SpellsPath, spellsName_eq, spellsCall_iff, PathBody]

theorem spellsMember_iff {ts : List Token} {r : PathReq} : SpellsMember ts r ↔ Member ts r := by
  constructor
  · rintro ⟨t, ys, rfl, ht, hys⟩
    exact .mk (spellsName_iff.mp ⟨t, rfl, ht⟩) (spellsPath_iff.mp hys)
  · rintro ⟨hks, hxs⟩
    obtain ⟨t, rfl, ht⟩ := spellsName_iff.mpr hks
    exact ⟨t, _, rfl, ht, spellsPath_iff.mpr hxs⟩

theorem spellsSet_iff {ts : List Token} {r : PathSetReq} : SpellsSet ts r ↔ SetBody ts r := by
  have heq : SpellsMember = Member := by
    funext ts r
    exact propext spellsMember_iff
  rw [SpellsSet, heq, spellsCall_iff, SetBody]

theorem spellsRequirement_iff {ts : List Token} {r : Requirement} :
    SpellsRequirement ts r ↔ Call ts r := by
  constructor
  · rintro ⟨ys, rfl, hys⟩
    cases r with
    | path r => exact .path (spellsPath_iff.mp hys)
    | order r => exact .order (spellsSet_iff.mp hys)
    | ecmp r => exact .ecmp (spellsSet_iff.mp hys)
    | kConnected r => exact .kConnected (spellsSet_iff.mp hys)
  · rintro (h | h | h | h)
    · exact ⟨_, rfl, spellsPath_iff.mpr h⟩
    · exact ⟨_, rfl, spellsSet_iff.mpr h⟩
    · exact ⟨_, rfl, spellsSet_iff.mpr h⟩
    · exact ⟨_, rfl, spellsSet_iff.mpr h⟩

end Phrase

namespace Requirement

theorem SpellsAll.commas {ts : List Token} {rs : List Requirement} (h : SpellsAll ts rs) (n : Nat) :
    SpellsAll (.replicate n .comma ++ ts) rs := by
  induction n with
  | zero => exact h
  | succ n ih => exact .comma ih

theorem spellsAll_iff {ts : List Token} {rs : List Requirement} :
    SpellsAll ts rs ↔ Calls ts rs := by
  constructor
  · intro h
    induction h with
    | nil => exact .commas 0
    | comma _ ih =>
      cases ih with
      | commas n => exact .commas (n + 1)
      | cons n hxs hys => exact .cons (n + 1) hxs hys
    | cons hs _ ih => exact .cons 0 (Phrase.spellsRequirement_iff.mp hs) ih
  · intro h
    induction h with
    | commas n =>
      have hall := SpellsAll.nil.commas n
      rwa [List.append_nil] at hall
    | cons n hxs _ ih =>
      rw [List.append_assoc]
      exact (SpellsAll.cons (Phrase.spellsRequirement_iff.mpr hxs) ih).commas n

theorem withoutBrackets_of_enclosed {l u : Located} (hl : l.token = .openBracket)
    (hu : u.token = .closeBracket) (us : List Located) :
    withoutBrackets (l :: (us ++ [u])) = us := by
  rw [withoutBrackets, if_pos (by simp [hl, hu]), List.dropLast_concat]

/-- The brackets are found by position. A requirement cannot begin with one, so no input can be
read in both ways. -/
theorem spellsAll_withoutBrackets_iff {ls : List Located} {rs : List Requirement} :
    SpellsAll ((withoutBrackets ls).map (·.token)) rs ↔ Input (ls.map (·.token)) rs := by
  constructor
  · intro h
    cases ls with
    | nil => exact .bare (spellsAll_iff.mp h)
    | cons l ls =>
      rw [withoutBrackets] at h
      split at h
      · next hends =>
        simp only [Bool.and_eq_true, decide_eq_true_eq] at hends
        obtain ⟨hl, hlast⟩ := hends
        obtain ⟨u, hmem, hu⟩ := Option.map_eq_some_iff.mp hlast
        obtain ⟨us, rfl⟩ := List.getLast?_eq_some_iff.mp hmem
        rw [List.dropLast_concat, spellsAll_iff] at h
        have hinput := Input.enclosed h
        rwa [← hl, ← hu, ← List.map_singleton, ← List.map_cons, ← List.map_append] at hinput
      · exact .bare (spellsAll_iff.mp h)
  · intro h
    generalize hts : ls.map (·.token) = ts at h
    cases h with
    | bare h =>
      have hall := spellsAll_iff.mpr h
      rw [← hts] at hall
      rwa [hall.withoutBrackets_eq_self]
    | enclosed h =>
      obtain ⟨l, vs, rfl, hl, hvs⟩ := List.map_eq_cons_iff.mp hts
      obtain ⟨us, ws, rfl, rfl, hws⟩ := List.map_eq_append_iff.mp hvs
      obtain ⟨u, rfl, hu⟩ := List.map_eq_singleton_iff.mp hws
      rw [withoutBrackets_of_enclosed hl hu]
      exact spellsAll_iff.mpr h

/-- The parser accepts exactly the texts whose tokens the grammar derives, with the value derived,
and that value is the only one. -/
theorem parse_eq_ok_iff_derived {s : String} {ls : List Located} (hread : Token.read s = .ok ls) :
    (∀ rs, parse s = .ok rs ↔ Input (ls.map (·.token)) rs) ∧
      ∀ rs rs', Input (ls.map (·.token)) rs → Input (ls.map (·.token)) rs' → rs = rs' := by
  have hparse : ∀ rs, parse s = .ok rs ↔ Input (ls.map (·.token)) rs := by
    intro rs
    rw [parse, hread, ← spellsAll_withoutBrackets_iff, ← parseTokens_eq_ok_iff]
    rfl
  refine ⟨hparse, fun rs rs' h h' => ?_⟩
  exact Except.ok.inj (((hparse rs).mpr h).symm.trans ((hparse rs').mpr h'))

/-- A protocol with its prefix, a quoted keyword, a comma after the last item, and commas on both
sides of the requirement. -/
theorem parse_eq_ok_iff_derived_enclosed : ∃ ls,
    Token.read
      "[,ECMPPathsReq(Protocols.bgp, D, ['PathReq'(bGP, D, ['S', D,], true),], False),,]" = .ok ls ∧
    Input (ls.map (·.token)) [ecmp ⟨.bgp, "D", [⟨.bgp, "D", ["S", "D"], true⟩], false⟩] := by
  obtain ⟨ls, hls⟩ := exists_ok_of_toBool (x := Token.read
    "[,ECMPPathsReq(Protocols.bgp, D, ['PathReq'(bGP, D, ['S', D,], true),], False),,]")
      (by decide +kernel)
  exact ⟨ls, hls, ((parse_eq_ok_iff_derived hls).1 _).mp (by decide +kernel)⟩

end Requirement

end PathPolicy
