import PathPolicy.Proofs.TextCoverage
import PathPolicy.Proofs.RequirementText

/-! Every position in an error of the requirement reader is that of a character of the text. The
grammar only ever points at a token that it was given, and each token stands where its spelling
begins. -/

namespace PathPolicy

namespace ParseError

variable {e : ParseError} {ls us : List Located}

def position? : ParseError → Option Position
  | unexpectedToken p _ _ => some p
  | unexpectedEnd _ => none
  | unterminatedString p => some p
  | unknownKind p _ => some p
  | unknownProtocol p _ => some p
  | invalidBool p _ => some p

/-- The error points at one of these tokens, if it points anywhere. -/
def PointsAt (e : ParseError) (ls : List Located) : Prop :=
  ∀ p, e.position? = some p → ∃ l ∈ ls, l.position = p

theorem PointsAt.mono (h : e.PointsAt us) (hsub : us ⊆ ls) : e.PointsAt ls := by
  intro p hp
  obtain ⟨l, hl, hposition⟩ := h p hp
  exact ⟨l, hsub hl, hposition⟩

theorem pointsAt_of_mem {l : Located} (hl : l ∈ ls) (he : e.position? = some l.position) :
    e.PointsAt ls := by
  intro p hp
  rw [he] at hp
  exact ⟨l, hl, Option.some.inj hp⟩

theorem pointsAt_unexpectedEnd (expected : Expected) (ls : List Located) :
    (unexpectedEnd expected).PointsAt ls := by
  intro p hp
  cases hp

end ParseError

theorem error_of_map_eq_error {ε α β : Type} {f : α → β} {x : Except ε α} {e : ε}
    (h : f <$> x = .error e) : x = .error e := by
  cases x with
  | error e' => exact congrArg _ (Except.error.inj h)
  | ok a => cases h

namespace Phrase

variable {α β : Type} {p item : Phrase α} {expected : Expected}

/-- The phrase leaves only tokens that it was given, and its errors point at such tokens. -/
structure Points (p : Phrase α) : Prop where
  subset {ls rest : List Located} {a : α} : p.run ls = .ok (a, rest) → rest ⊆ ls
  pointsAt {ls : List Located} {e : ParseError} : p.run ls = .error e → e.PointsAt ls

theorem points_token {f : Located → Except ParseError α}
    (hf : ∀ l e, f l = .error e → e.position? = some l.position) : (token expected f).Points where
  subset {ls rest a} h := by
    cases ls with
    | nil => cases h
    | cons l ls =>
      obtain ⟨_, _, hrest⟩ := Token.exists_of_map_eq_ok h
      cases hrest
      exact List.subset_cons_self l _
  pointsAt {ls e} h := by
    cases ls with
    | nil =>
      cases h
      exact ParseError.pointsAt_unexpectedEnd _ _
    | cons l ls =>
      exact ParseError.pointsAt_of_mem List.mem_cons_self (hf l e (error_of_map_eq_error h))

theorem Points.andThen {f : α → Phrase β} (hp : p.Points) (hf : ∀ a, (f a).Points) :
    (p.andThen f).Points where
  subset {ls rest b} h := by
    obtain ⟨a, mid, hrun, hrest⟩ := andThen_run_eq_ok_iff.mp h
    exact List.Subset.trans ((hf a).subset hrest) (hp.subset hrun)
  pointsAt {ls e} h := by
    rw [Phrase.andThen] at h
    dsimp only at h
    split at h
    · next e' hrun =>
      cases h
      exact hp.pointsAt hrun
    · next a mid hrun => exact ((hf a).pointsAt h).mono (hp.subset hrun)

theorem Points.map (hp : p.Points) (f : α → β) : (p.map f).Points where
  subset {ls rest b} h := by
    obtain ⟨r, hrun, hrest⟩ := Token.exists_of_map_eq_ok h
    cases hrest
    exact hp.subset hrun
  pointsAt h := hp.pointsAt (error_of_map_eq_error h)

theorem items_subset (hitem : item.Points) {ls rest : List Located} {as : List α}
    (h : items item ls = .ok (as, rest)) : rest ⊆ ls := by
  fun_induction items item ls generalizing as with
  | case1 => cases h
  | case2 l ls _ =>
    cases h
    exact List.subset_cons_self l _
  | case3 => cases h
  | case4 => cases h
  | case5 l ls _ a u us hrun _ ih =>
    obtain ⟨r, hus, hrest⟩ := Token.exists_of_map_eq_ok h
    cases hrest
    have hsub := List.Subset.trans (List.subset_cons_self u us) (hitem.subset hrun)
    exact List.Subset.trans (ih hus) hsub
  | case6 l ls _ a u us hrun =>
    cases h
    exact List.Subset.trans (List.subset_cons_self u _) (hitem.subset hrun)
  | case7 => cases h

theorem items_pointsAt (hitem : item.Points) {ls : List Located} {e : ParseError}
    (h : items item ls = .error e) : e.PointsAt ls := by
  fun_induction items item ls with
  | case1 =>
    cases h
    exact ParseError.pointsAt_unexpectedEnd _ _
  | case2 => cases h
  | case3 l ls _ e' hrun =>
    cases h
    exact hitem.pointsAt hrun
  | case4 =>
    cases h
    exact ParseError.pointsAt_unexpectedEnd _ _
  | case5 l ls _ a u us hrun _ ih =>
    have hsub := List.Subset.trans (List.subset_cons_self u us) (hitem.subset hrun)
    exact (ih (error_of_map_eq_error h)).mono hsub
  | case6 => cases h
  | case7 l ls _ a u us hrun =>
    cases h
    exact ParseError.pointsAt_of_mem (hitem.subset hrun List.mem_cons_self) rfl

theorem points_expect (t : Token) : (expect t expected).Points := by
  apply points_token
  intro l e h
  split at h
  · cases h
  · cases h
    rfl

theorem points_list (hitem : item.Points) : (list item).Points :=
  (points_expect .openBracket).andThen fun _ => ⟨items_subset hitem, items_pointsAt hitem⟩

theorem points_name : (name expected).Points := by
  apply points_token
  intro l e h
  split at h
  · cases h
  · cases h
    rfl

theorem points_protocol : protocol.Points := by
  apply points_token
  intro l e h
  repeat' split at h
  all_goals cases h
  all_goals rfl

theorem points_boolean : boolean.Points := by
  apply points_token
  intro l e h
  repeat' split at h
  all_goals cases h
  all_goals rfl

theorem points_arguments (hitem : item.Points) (make : Protocol → String → List α → Bool → β) :
    (arguments item make).Points := by
  apply (points_expect .openParen).andThen
  intro _
  apply points_protocol.andThen
  intro _
  apply (points_expect .comma).andThen
  intro _
  apply points_name.andThen
  intro _
  apply (points_expect .comma).andThen
  intro _
  apply (points_list hitem).andThen
  intro _
  apply (points_expect .comma).andThen
  intro _
  apply points_boolean.andThen
  intro _
  exact (points_expect .closeParen).map _

theorem points_pathArguments : pathArguments.Points := points_arguments points_name _

theorem points_pathReq : pathReq.Points := by
  apply Points.andThen
  · apply points_token
    intro l e h
    split at h
    · cases h
    · cases h
      rfl
  · exact fun _ => points_pathArguments

theorem points_setArguments : setArguments.Points := points_arguments points_pathReq _

theorem points_requirement : requirement.Points := by
  apply Points.andThen
  · apply points_token
    intro l e h
    repeat' split at h
    all_goals cases h
    all_goals rfl
  · intro k
    cases k with
    | path => exact points_pathArguments.map _
    | order => exact points_setArguments.map _
    | ecmp => exact points_setArguments.map _
    | kConnected => exact points_setArguments.map _

end Phrase

namespace Requirement

theorem parseTokens_pointsAt {ls : List Located} {e : ParseError}
    (h : parseTokens ls = .error e) : e.PointsAt ls := by
  fun_induction parseTokens ls with
  | case1 => cases h
  | case2 l ls _ ih => exact (ih h).mono (List.subset_cons_self l ls)
  | case3 l ls _ e' hrun =>
    cases h
    exact Phrase.points_requirement.pointsAt hrun
  | case4 l ls _ r rest hrun ih =>
    exact (ih (error_of_map_eq_error h)).mono (Phrase.points_requirement.subset hrun)

theorem parse_error_inText {s : String} {e : ParseError} {p : Position}
    (h : parse s = .error e) (hp : e.position? = some p) : p.InText s.toList := by
  rw [parse] at h
  cases hread : Token.read s with
  | error e' =>
    rw [hread] at h
    cases h
    obtain ⟨before, c, rest, ls, hs, _, hstops⟩ := Token.read_eq_error_iff.mp hread
    refine ⟨before, c, rest, hs, ?_⟩
    cases hstops <;> exact (Option.some.inj hp).symm
  | ok ls =>
    rw [hread] at h
    change parseTokens (withoutBrackets ls) = _ at h
    obtain ⟨l, hl, rfl⟩ := parseTokens_pointsAt h p hp
    have hcovers := Token.read_eq_ok_iff.mp hread
    have hmem := (withoutBrackets_sublist ls).subset hl
    simpa using hcovers.inText l hmem

/-- The tokens that are read are those of the division of the text into gaps and spellings. Where
there is none, the error stands at a quote that is never closed or at a character that nothing
begins with. So every position in an error is that of a character of the text. -/
theorem positions_in_text (s : String) :
    (∀ ls, Token.read s = .ok ls ↔ Token.Covers s.toList [] ls) ∧
    (∀ e, Token.read s = .error e ↔ ∃ before c rest ls, s.toList = before ++ c :: rest ∧
      Token.Covers before (c :: rest) ls ∧ Token.Stops before c rest e) ∧
    ∀ e p, parse s = .error e → e.position? = some p → p.InText s.toList :=
  ⟨fun _ => Token.read_eq_ok_iff, fun _ => Token.read_eq_error_iff,
    fun _ _ => parse_error_inText⟩

/-- Lines are counted inside quotes, too. -/
example : parse "PathReq(bgp, 'D\n', # to\n  [A], maybe)" =
    .error (.invalidBool ⟨3, 8⟩ "maybe") := by
  decide +kernel

end Requirement

end PathPolicy
