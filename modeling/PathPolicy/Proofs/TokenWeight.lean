import PathPolicy.Proofs.Grammar
import PathPolicy.Proofs.Lexing

/-! The weight of tokens. Tokens weigh no more than the text that they are read from, and no less
than the text of the requirements that they spell. They weigh more than the latter if a name is
quoted. -/

namespace PathPolicy

namespace Token

variable {cs : List Char} {t : Token} {ts : List Token}

/-- The characters that count when texts are compared by weight. The gaps in the texts of
requirements weigh nothing. -/
def ink (cs : List Char) : Nat := cs.countP fun c => c ≠ ' ' && c ≠ '\n'

theorem ink_append (cs ds : List Char) : ink (cs ++ ds) = ink cs + ink ds := List.countP_append

theorem ink_cons (c : Char) (cs : List Char) :
    ink (c :: cs) = ink cs + if c ≠ ' ' && c ≠ '\n' then 1 else 0 :=
  List.countP_cons

/-- The quotes count as well. -/
def weight : Token → Nat
  | word s => ink s.toList
  | quoted s => ink s.toList + 2
  | openParen | closeParen | openBracket | closeBracket | comma => 1

def weightOf : List Token → Nat
  | [] => 0
  | t :: ts => weight t + weightOf ts

theorem weightOf_cons (t : Token) (ts : List Token) : weightOf (t :: ts) = weight t + weightOf ts :=
  rfl

theorem weightOf_append (ts us : List Token) : weightOf (ts ++ us) = weightOf ts + weightOf us := by
  induction ts with
  | nil => exact (Nat.zero_add _).symm
  | cons t ts ih => rw [List.cons_append, weightOf_cons, weightOf_cons, ih, Nat.add_assoc]

theorem weightOf_le_of_sublist {ts us : List Token} (h : ts.Sublist us) :
    weightOf ts ≤ weightOf us := by
  induction h with
  | slnil => exact Nat.le_refl _
  | cons t _ ih => exact Nat.le_add_left_of_le ih
  | cons_cons t _ ih => exact Nat.add_le_add_left ih _

theorem Occur.weightOf_le_ink (h : Occur cs ts) : weightOf ts ≤ ink cs := by
  induction h with
  | nil => exact Nat.le_refl _
  | gap gap _ ih =>
    rw [ink_append]
    exact Nat.le_add_left_of_le ih
  | @punctuation c t cs ts ht _ ih =>
    rw [weightOf_cons, ← List.singleton_append, ink_append]
    have hone : weight t = 1 ∧ ink [c] = 1 := by
      unfold punctuation? at ht
      split at ht <;> cases ht <;> decide
    omega
  | @quoted q s cs ts hq _ ih =>
    have hone : ink [q] = 1 := by
      simp only [isQuote, Bool.or_eq_true, decide_eq_true_eq] at hq
      rcases hq with rfl | rfl <;> decide
    have hsplit : q :: s.toList ++ q :: cs = [q] ++ (s.toList ++ ([q] ++ cs)) := rfl
    rw [weightOf_cons, weight, hsplit, ink_append, ink_append, ink_append]
    omega
  | word _ _ ih =>
    rw [weightOf_cons, weight, ink_append]
    omega

end Token

open Phrase Token

def PathReq.names (r : PathReq) : List String := r.destination :: r.path

/-- The names of all routers that occur, those of the members included. -/
def Requirement.names (r : Requirement) : List String :=
  r.destination :: r.members.flatMap (·.names)

def Requirement.Plain (r : Requirement) : Prop := ∀ s ∈ r.names, IsName s

def PathReq.Plain (r : PathReq) : Prop := ∀ s ∈ r.names, IsName s

theorem Requirement.plain_iff {r : Requirement} :
    r.Plain ↔ IsName r.destination ∧ ∀ q ∈ r.members, q.Plain := by
  simp only [Plain, PathReq.Plain, names, List.forall_mem_cons, List.forall_mem_flatMap]

theorem toList_callText (keyword : String) (p : Protocol) (d : String) (items : List String)
    (e : Bool) : (callText keyword p d items e).toList = keyword.toList ++ '(' ::
      (p.text.toList ++ ',' :: ' ' :: (d.toList ++ ',' :: ' ' :: '[' ::
        ((", ".intercalate items).toList ++ ']' :: ',' :: ' ' ::
          ((flagText e).toList ++ [')'])))) := by
  rw [callText]
  dsimp only [toString]
  simp

/-- A line for each requirement. -/
def Requirement.textOfAll (rs : List Requirement) : String := "\n".intercalate (rs.map (·.text))

/-- The tokens weigh at least so much, and no more than that only on a condition. -/
structure Weighs (ts : List Token) (n : Nat) (P : Prop) : Prop where
  le : n ≤ weightOf ts
  of_le : weightOf ts ≤ n → P

theorem Weighs.imp {ts : List Token} {n : Nat} {P Q : Prop} (h : Weighs ts n P) (hPQ : P → Q) :
    Weighs ts n Q :=
  ⟨h.le, fun hle => hPQ (h.of_le hle)⟩

variable {α : Type} {S : List Token → α → Prop} {f : α → String} {P : α → Prop} {t : Token}

theorem ink_le_weight {s : String} (h : t.name? = some s) : ink s.toList ≤ weight t := by
  cases t <;> cases h
  · exact Nat.le_refl _
  · exact Nat.le_add_right _ 2

theorem weighs_name {s : String} {ts : List Token} (hs : SpellsName ts s)
    (hlex : Lexical ts) : Weighs ts (ink s.toList) (IsName s) := by
  obtain ⟨t, rfl, ht⟩ := hs
  have hweight : weightOf [t] = weight t := Nat.add_zero _
  refine ⟨hweight ▸ ink_le_weight ht, fun hle => ?_⟩
  cases t <;> cases ht
  · exact hlex s List.mem_cons_self
  · rw [hweight, weight] at hle
    omega

theorem ink_intercalate (sep s u : String) (us : List String) :
    ink (sep.intercalate (s :: u :: us)).toList =
      ink s.toList + ink sep.toList + ink (sep.intercalate (u :: us)).toList := by
  rw [String.intercalate_cons_cons, String.toList_append, String.toList_append, ink_append,
    ink_append]

theorem ink_map_le (f : Char → Char) (hspace : f ' ' = ' ') (hfeed : f '\n' = '\n')
    (cs : List Char) : ink (cs.map f) ≤ ink cs := by
  rw [ink, ink, List.countP_map]
  refine List.countP_mono_left fun c _ hc => ?_
  simp only [Function.comp_apply, Bool.and_eq_true, decide_eq_true_eq] at hc ⊢
  exact ⟨fun h => hc.1 (by rw [h, hspace]), fun h => hc.2 (by rw [h, hfeed])⟩

theorem ink_text_of_ofText? {s : String} {p : Protocol} (h : Protocol.ofText? s = some p) :
    ink p.text.toList ≤ ink s.toList := by
  have hlower : ∀ u, Protocol.ofLowercase? u = some p → ink p.text.toList = ink u.toList := by
    intro u hu
    unfold Protocol.ofLowercase? at hu
    split at hu <;> cases hu <;> decide +kernel
  have hname : ink (("Protocols.".toList.isPrefixOf? s.toList).getD s.toList) ≤ ink s.toList := by
    cases hpre : "Protocols.".toList.isPrefixOf? s.toList with
    | none => exact Nat.le_refl _
    | some rest =>
      rw [← List.isPrefixOf?_eq_some_iff_append_eq.mp hpre, ink_append]
      exact Nat.le_add_left _ _
  calc ink p.text.toList = _ := hlower _ h
    _ = ink (List.map Char.toLower _) := by rw [String.toList_ofList]
    _ ≤ _ := ink_map_le Char.toLower (by decide) (by decide) _
    _ ≤ ink s.toList := hname

theorem ink_flagText_of_flag? {s : String} {b : Bool} (h : flag? s = some b) :
    ink (flagText b).toList ≤ ink s.toList := by
  unfold flag? at h
  split at h <;> cases h <;> decide +kernel

theorem weighs_items
    (hS : ∀ xs a, S xs a → Lexical xs → Weighs xs (ink (f a).toList) (P a))
    {xs : List Token} {as : List α} (hs : SpellsItems S xs as)
    (hlex : Lexical xs) :
    Weighs xs (ink (", ".intercalate (as.map f)).toList + 1) (∀ a ∈ as, P a) := by
  induction hs with
  | nil => exact ⟨Nat.le_refl _, fun _ a ha => absurd ha List.not_mem_nil⟩
  | @last xs a hs =>
    obtain ⟨hle, hof⟩ := hS xs a hs (hlex.of_subset (List.subset_append_left _ _))
    have hweight : weightOf (xs ++ [.closeBracket]) = weightOf xs + 1 := weightOf_append _ _
    rw [List.map_singleton, String.intercalate_singleton]
    refine ⟨by omega, fun hle' b hb => ?_⟩
    rw [List.mem_singleton.mp hb]
    exact hof (by omega)
  | @cons xs ys a as hs _ ih =>
    obtain ⟨hle, hof⟩ := hS xs a hs (hlex.of_subset (List.subset_append_left _ _))
    obtain ⟨hle', hof'⟩ := ih (hlex.of_subset (by simp))
    have hweight : weightOf (xs ++ .comma :: ys) = weightOf xs + (1 + weightOf ys) := by
      rw [weightOf_append, weightOf_cons, weight]
    cases as with
    | nil =>
      -- the comma after the last item is not part of the text
      have hone : 1 ≤ weightOf ys := Nat.le_trans (Nat.le_add_left _ _) hle'
      rw [List.map_singleton, String.intercalate_singleton]
      exact ⟨by omega, fun hlight => absurd hlight (by omega)⟩
    | cons b bs =>
      have hink := ink_intercalate ", " (f a) (f b) (bs.map f)
      have hcomma : ink ", ".toList = 1 := rfl
      rw [List.map_cons, List.map_cons] at *
      refine ⟨by omega, fun hlight => ?_⟩
      rintro x (_ | ⟨_, hx⟩)
      · exact hof (by omega)
      · exact hof' (by omega) x hx

theorem ink_callText (keyword : String) (p : Protocol) (d : String) (items : List String)
    (e : Bool) : ink (callText keyword p d items e).toList = ink keyword.toList +
      (ink p.text.toList + ink d.toList + (ink (", ".intercalate items).toList + 1) +
        ink (flagText e).toList + 6) := by
  have hnil : ink [] = 0 := rfl
  rw [toList_callText]
  simp [ink_append, ink_cons, hnil]
  omega

theorem weighs_call
    (hS : ∀ xs a, S xs a → Lexical xs → Weighs xs (ink (f a).toList) (P a))
    {p : Protocol} {d : String} {as : List α} {e : Bool} {ts : List Token}
    (hs : SpellsCall S p d as e ts) (hlex : Lexical ts) :
    Weighs ts (ink p.text.toList + ink d.toList + (ink (", ".intercalate (as.map f)).toList + 1) +
      ink (flagText e).toList + 6) (IsName d ∧ ∀ a ∈ as, P a) := by
  obtain @⟨tp, td, te, xs, hp, hd, hxs, he⟩ := hs
  obtain ⟨hle, hof⟩ := weighs_items hS hxs (hlex.of_subset fun t ht => by simp [ht])
  obtain ⟨hdle, hdof⟩ := weighs_name ⟨td, rfl, hd⟩ (hlex.of_subset fun t ht => by simp_all)
  obtain ⟨sp, hsp, hp⟩ := Option.bind_eq_some_iff.mp hp
  obtain ⟨se, hse, he⟩ := Option.bind_eq_some_iff.mp he
  have hple := Nat.le_trans (ink_text_of_ofText? hp) (ink_le_weight hsp)
  have hele := Nat.le_trans (ink_flagText_of_flag? he) (ink_le_weight hse)
  have hweight : weightOf (.openParen :: tp :: .comma :: td :: .comma :: .openBracket ::
      (xs ++ [.comma, te, .closeParen])) =
        weight tp + weightOf [td] + weightOf xs + weight te + 6 := by
    have hnil : weightOf [] = 0 := rfl
    simp only [weightOf_cons, weightOf_append, weight, hnil]
    omega
  refine ⟨by omega, fun hlight => ⟨hdof (by omega), hof (by omega)⟩⟩

theorem weighs_path {ys : List Token} {r : PathReq} (hs : SpellsPath ys r)
    (hlex : Lexical ys) (ht : ink "PathReq".toList ≤ weight t) :
    Weighs (t :: ys) (ink r.text.toList) r.Plain := by
  obtain ⟨hle, hof⟩ := weighs_call (f := id) (P := IsName) (fun _ _ => weighs_name) hs hlex
  have hink := ink_callText "PathReq" r.protocol r.destination r.path r.exact
  rw [List.map_id] at hle hof
  rw [PathReq.text, hink]
  have hweight := weightOf_cons t ys
  refine ⟨by omega, fun hlight s hs => ?_⟩
  obtain ⟨hd, hpath⟩ := hof (by omega)
  rcases List.mem_cons.mp hs with rfl | hs
  · exact hd
  · exact hpath s hs

theorem weighs_member {ts : List Token} {r : PathReq} (hs : SpellsMember ts r)
    (hlex : Lexical ts) : Weighs ts (ink r.text.toList) r.Plain := by
  obtain ⟨t, ys, rfl, ht, hys⟩ := hs
  exact weighs_path hys (hlex.of_subset (List.subset_cons_self _ _)) (ink_le_weight ht)

theorem weighs_set {ys : List Token} {r : PathSetReq} (hs : SpellsSet ys r)
    (hlex : Lexical ys) (k : RequirementKind) :
    Weighs (.word k.keyword :: ys) (ink (callText k.keyword r.protocol r.destination
      (r.members.map PathReq.text) r.exact).toList)
        (IsName r.destination ∧ ∀ q ∈ r.members, q.Plain) := by
  have hmembers : ∀ ts (q : PathReq), SpellsMember ts q → Lexical ts →
      Weighs ts (ink q.text.toList) q.Plain := fun _ _ => weighs_member
  obtain ⟨hle, hof⟩ := weighs_call hmembers hs hlex
  have hweight : weightOf (.word k.keyword :: ys) = ink k.keyword.toList + weightOf ys :=
    weightOf_cons _ _
  rw [ink_callText]
  exact ⟨by omega, fun hlight => hof (by omega)⟩

theorem weighs_requirement {ts : List Token} {r : Requirement} (hs : SpellsRequirement ts r)
    (hlex : Lexical ts) : Weighs ts (ink r.text.toList) r.Plain := by
  obtain ⟨ys, rfl, hys⟩ := hs
  have hlex' := hlex.of_subset (List.subset_cons_self _ _)
  refine Weighs.imp ?_ Requirement.plain_iff.mpr
  cases r with
  | path r =>
    refine (weighs_path hys hlex' (Nat.le_refl _)).imp fun hr => ⟨hr _ List.mem_cons_self, ?_⟩
    exact List.forall_mem_singleton.mpr hr
  | order r | ecmp r | kConnected r => exact weighs_set hys hlex' _

theorem weighs_all {ts : List Token} {rs : List Requirement} (hs : Requirement.SpellsAll ts rs)
    (hlex : Lexical ts) :
    Weighs ts (ink (Requirement.textOfAll rs).toList) (∀ r ∈ rs, r.Plain) := by
  induction hs with
  | nil => exact ⟨Nat.le_refl _, fun _ r hr => absurd hr List.not_mem_nil⟩
  | @comma ts rs _ ih =>
    obtain ⟨hle, _⟩ := ih (hlex.of_subset (List.subset_cons_self _ _))
    have hweight : weightOf (.comma :: ts) = 1 + weightOf ts := weightOf_cons _ _
    exact ⟨by omega, fun hlight => absurd hlight (by omega)⟩
  | @cons xs ys r rs hs _ ih =>
    obtain ⟨hle, hof⟩ := weighs_requirement hs (hlex.of_subset (List.subset_append_left _ _))
    obtain ⟨hle', hof'⟩ := ih (hlex.of_subset (List.subset_append_right _ _))
    have hink : ink (Requirement.textOfAll (r :: rs)).toList =
        ink r.text.toList + ink (Requirement.textOfAll rs).toList := by
      have hfeed : ink "\n".toList = 0 := rfl
      rw [Requirement.textOfAll, Requirement.textOfAll]
      cases rs with
      | nil => rfl
      | cons r' rs =>
        rw [List.map_cons, List.map_cons, ink_intercalate, hfeed, Nat.add_zero]
    have hweight := weightOf_append xs ys
    rw [hink]
    refine ⟨by omega, fun hlight => ?_⟩
    rintro x (_ | ⟨_, hx⟩)
    · exact hof (by omega)
    · exact hof' (by omega) x hx

end PathPolicy
