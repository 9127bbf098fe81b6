import PathPolicy.Proofs.Lexing

/-! How a text is divided into gaps and the spellings of its tokens, and where each token stands.
The division is fixed by the text, and the tokens that are read are those of the division. Where
no division gets any further, the text is refused. -/

namespace PathPolicy

namespace Position

/-- The position that follows these characters, at the front of a text. -/
def behind (cs : List Char) : Position :=
  ⟨1 + cs.count '\n', 1 + (cs.reverse.takeWhile (· ≠ '\n')).length⟩

/-- A character of the text stands there. -/
def InText (p : Position) (cs : List Char) : Prop :=
  ∃ before c rest, cs = before ++ c :: rest ∧ p = behind before

theorem after_behind (cs : List Char) (c : Char) : (behind cs).after c = behind (cs ++ [c]) := by
  by_cases hc : c = '\n'
  · simp [after, behind, hc, Nat.add_assoc]
  · have hcount : (cs ++ [c]).count '\n' = cs.count '\n' := by simp [hc]
    simp [after, behind, hc, hcount, Nat.add_assoc]

theorem afterAll_behind (before cs : List Char) :
    (behind before).afterAll cs = behind (before ++ cs) := by
  induction cs generalizing before with
  | nil => rw [List.append_nil]; rfl
  | cons c cs ih =>
    show ((behind before).after c).afterAll cs = _
    rw [after_behind, ih, List.append_assoc, List.singleton_append]

end Position

namespace Token

variable {before gap rest chars cs : List Char} {c q : Char} {s : String} {t : Token}
  {ls : List Located}

/-- A blank or a comment, which `rest` follows. A comment ends with its line or with the text. -/
inductive IsGap : List Char → List Char → Prop
  | blank {c : Char} {rest : List Char} : Text.isBlank c = true → IsGap [c] rest
  | comment {text rest : List Char} : '\n' ∉ text → IsGap ('#' :: (text ++ ['\n'])) rest
  | lastComment {text : List Char} : '\n' ∉ text → IsGap ('#' :: text) []

/-- The characters spell the token where they stand between `before` and `rest`. A word is as long
as it can be on both sides. -/
inductive IsSpelling (before : List Char) : Token → List Char → List Char → Prop
  | punctuation {c : Char} {t : Token} {rest : List Char} :
      punctuation? c = some t → IsSpelling before t [c] rest
  | quoted {q : Char} {content rest : List Char} : isQuote q = true → q ∉ content →
      IsSpelling before (.quoted (String.ofList content)) (q :: (content ++ [q])) rest
  | word {s : String} {rest : List Char} : IsName s →
      (∀ c ∈ before.getLast?, isNameChar c = false) →
      (∀ c ∈ rest.head?, isNameChar c = false) → IsSpelling before (.word s) s.toList rest

/-- The characters before `rest` are gaps and the spellings of these tokens, in this order. -/
inductive Covers : List Char → List Char → List Located → Prop
  | start (text : List Char) : Covers [] text []
  | gap {before gap rest : List Char} {ls : List Located} : Covers before (gap ++ rest) ls →
      IsGap gap rest → Covers (before ++ gap) rest ls
  | token {before chars rest : List Char} {t : Token} {ls : List Located} :
      Covers before (chars ++ rest) ls → IsSpelling before t chars rest →
      Covers (before ++ chars) rest (ls ++ [⟨t, .behind before⟩])

theorem IsGap.ne_nil (h : IsGap gap rest) : gap ≠ [] := by
  cases h <;> exact List.cons_ne_nil _ _

theorem IsSpelling.ne_nil (h : IsSpelling before t chars rest) : chars ≠ [] := by
  cases h with
  | punctuation => exact List.cons_ne_nil _ _
  | quoted => exact List.cons_ne_nil _ _
  | word hs => exact fun he => hs.1 (String.toList_eq_nil_iff.mp he)

/-- No gap and no spelling begins with `c`: it opens a quoted name that is never closed, or it has
no place in the language. -/
inductive Stops (before : List Char) (c : Char) (rest : List Char) : ParseError → Prop
  | unclosed : isQuote c = true → c ∉ rest →
      Stops before c rest (.unterminatedString (.behind before))
  | foreign : Text.isBlank c = false → c ≠ '#' → isQuote c = false → punctuation? c = none →
      isNameChar c = false →
      Stops before c rest (.unexpectedToken (.behind before) .requirement (String.ofList [c]))

theorem takeWhile_ne_of_notMem (h : c ∉ cs) (rest : List Char) :
    (cs ++ c :: rest).takeWhile (· ≠ c) = cs ∧ (cs ++ c :: rest).dropWhile (· ≠ c) = c :: rest := by
  have hne : ∀ d ∈ cs, decide (d ≠ c) = true :=
    fun d hd => decide_eq_true (ne_of_mem_of_not_mem hd h)
  rw [List.takeWhile_append_of_pos hne, List.dropWhile_append_of_pos hne]
  simp

theorem dropWhile_ne_of_notMem (h : c ∉ cs) : cs.dropWhile (· ≠ c) = [] := by
  rw [List.dropWhile_eq_nil_iff]
  exact fun d hd => decide_eq_true (ne_of_mem_of_not_mem hd h)

theorem isQuote_cases (h : isQuote q = true) :
    Text.isBlank q = false ∧ q ≠ '#' ∧ punctuation? q = none ∧ isNameChar q = false := by
  rw [isQuote, Bool.or_eq_true, decide_eq_true_eq, decide_eq_true_eq] at h
  rcases h with rfl | rfl <;> decide +kernel

theorem not_isNameChar_of_isBlank (h : Text.isBlank c = true) : isNameChar c = false := by
  by_contra hname
  rw [not_isBlank_of_isNameChar (by simpa using hname)] at h
  cases h

/-! One step of the reader takes a whole gap or a whole spelling, or refuses the next character. -/

theorem scan_gap (p : Position) (h : IsGap gap rest) :
    scan p (gap ++ rest) = scan (p.afterAll gap) rest := by
  have hcomment : ∀ cs, scan p ('#' :: cs) =
      scan (p.afterAll ('#' :: cs.takeWhile (· ≠ '\n'))) (cs.dropWhile (· ≠ '\n')) := by
    intro cs
    rw [scan, if_neg (by decide +kernel), if_pos rfl]
  cases h with
  | @blank c rest hblank =>
    rw [List.singleton_append, scan, if_pos hblank]
    rfl
  | @comment text rest htext =>
    obtain ⟨htake, hdrop⟩ := takeWhile_ne_of_notMem htext rest
    rw [List.cons_append, List.append_assoc, List.singleton_append, hcomment, htake, hdrop, scan,
      if_pos (by decide +kernel)]
    simp [Position.afterAll]
  | @lastComment text htext =>
    have htake : text.takeWhile (· ≠ '\n') = text :=
      List.takeWhile_eq_self_iff.mpr fun d hd => decide_eq_true (ne_of_mem_of_not_mem hd htext)
    rw [List.append_nil, hcomment, htake, dropWhile_ne_of_notMem htext]

theorem scan_quoted (p : Position) (hq : isQuote q = true) (hcontent : q ∉ cs) (rest : List Char) :
    scan p (q :: (cs ++ q :: rest)) =
      (⟨quoted (String.ofList cs), p⟩ :: ·) <$> scan (p.afterAll (q :: (cs ++ [q]))) rest := by
  obtain ⟨hblank, hcomment, hpunct, _⟩ := isQuote_cases hq
  obtain ⟨htake, hdrop⟩ := takeWhile_ne_of_notMem hcontent rest
  rw [scan, if_neg (by simp [hblank]), if_neg hcomment, hpunct]
  simp only [hq, if_true]
  split
  · next h =>
    rw [hdrop] at h
    cases h
  · next h =>
    rw [hdrop] at h
    cases h
    rw [htake]
    rfl

theorem scan_unclosed (p : Position) (hq : isQuote q = true) (hrest : q ∉ rest) :
    scan p (q :: rest) = .error (.unterminatedString p) := by
  obtain ⟨hblank, hcomment, hpunct, _⟩ := isQuote_cases hq
  rw [scan, if_neg (by simp [hblank]), if_neg hcomment, hpunct]
  simp only [hq, if_true]
  split
  · rfl
  · next h =>
    rw [dropWhile_ne_of_notMem hrest] at h
    cases h

theorem scan_spelling (p : Position) (h : IsSpelling before t chars rest) :
    scan p (chars ++ rest) = (⟨t, p⟩ :: ·) <$> scan (p.afterAll chars) rest := by
  cases h with
  | punctuation hc => exact scan_punctuation p hc rest
  | quoted hq hcontent =>
    rw [List.cons_append, List.append_assoc, List.singleton_append, scan_quoted p hq hcontent]
  | word hs _ hend => exact scan_word p hs hend

theorem scan_stops {e : ParseError} (h : Stops before c rest e) :
    scan (.behind before) (c :: rest) = .error e := by
  cases h with
  | unclosed hq hrest => exact scan_unclosed _ hq hrest
  | foreign hblank hcomment hq hpunct hname =>
    rw [scan, if_neg (by simp [hblank]), if_neg hcomment, hpunct]
    simp [hq, hname]

/-- What can begin at a place that no word runs across. -/
theorem exists_step (hb : ∀ d ∈ before.getLast?, isNameChar d = true → isNameChar c = false) :
    (∃ gap rest, c :: cs = gap ++ rest ∧ IsGap gap rest) ∨
    (∃ t chars rest, c :: cs = chars ++ rest ∧ IsSpelling before t chars rest) ∨
    ∃ e, Stops before c cs e := by
  by_cases hblank : Text.isBlank c = true
  · exact .inl ⟨[c], cs, rfl, .blank hblank⟩
  by_cases hcomment : c = '#'
  · subst hcomment
    by_cases hend : '\n' ∈ cs
    · obtain ⟨text, rest, rfl, htext⟩ := List.eq_append_cons_of_mem hend
      exact .inl ⟨'#' :: (text ++ ['\n']), rest, by simp, .comment htext⟩
    · exact .inl ⟨'#' :: cs, [], by simp, .lastComment hend⟩
  right
  cases hpunct : punctuation? c with
  | some t => exact .inl ⟨t, [c], cs, rfl, .punctuation hpunct⟩
  | none =>
    by_cases hq : isQuote c = true
    · by_cases hclose : c ∈ cs
      · obtain ⟨content, rest, rfl, hcontent⟩ := List.eq_append_cons_of_mem hclose
        exact .inl ⟨_, c :: (content ++ [c]), rest, by simp, .quoted hq hcontent⟩
      · exact .inr ⟨_, .unclosed hq hclose⟩
    by_cases hname : isNameChar c = true
    · have hs := isName_takeWhile hname cs
      have hleft : ∀ d ∈ before.getLast?, isNameChar d = false := by
        intro d hd
        by_contra hd'
        rw [hb d hd (by simpa using hd')] at hname
        cases hname
      have hright : ∀ d ∈ (cs.dropWhile isNameChar).head?, isNameChar d = false := by
        intro d hd
        have hhead := List.head?_dropWhile_not isNameChar cs
        rw [hd] at hhead
        exact hhead
      have hspelling := IsSpelling.word hs hleft hright
      rw [String.toList_ofList] at hspelling
      exact .inl ⟨_, _, _, by simp, hspelling⟩
    · simp only [Bool.not_eq_true] at hblank hq hname
      exact .inr ⟨_, .foreign hblank hcomment hq hpunct hname⟩

namespace Covers

/-- No word runs on behind the last piece. -/
theorem boundary (h : Covers before (c :: rest) ls) :
    ∀ d ∈ before.getLast?, isNameChar d = true → isNameChar c = false := by
  intro d hd hname
  have hne : ∀ cs x, before = cs ++ [x] → isNameChar x = true := by
    rintro cs x rfl
    rw [List.getLast?_concat, Option.mem_some] at hd
    rwa [hd]
  cases h with
  | start => cases hd
  | gap _ hgap =>
    cases hgap with
    | blank hblank =>
      have hlast := hne _ _ rfl
      rw [not_isNameChar_of_isBlank hblank] at hlast
      cases hlast
    | @comment text _ _ =>
      exact absurd (hne _ '\n' (List.append_assoc _ ('#' :: text) _).symm) (by decide +kernel)
  | token _ hspelling =>
    cases hspelling with
    | punctuation hc =>
      have hlast := hne _ _ rfl
      rw [(punctuation_cases hc).2.2] at hlast
      cases hlast
    | @quoted q content _ hq _ =>
      have hlast := hne _ q (List.append_assoc _ (q :: content) _).symm
      rw [(isQuote_cases hq).2.2.2] at hlast
      cases hlast
    | word _ _ hend => exact hend c rfl

theorem scan_eq (h : Covers before rest ls) :
    scan .start (before ++ rest) = (ls ++ ·) <$> scan (.behind before) rest := by
  induction h with
  | start text => simp [Position.behind, Position.start]
  | @gap before gap rest ls _ hgap ih =>
    rw [List.append_assoc, ih, scan_gap _ hgap, Position.afterAll_behind]
  | @token before chars rest t ls _ hspelling ih =>
    rw [List.append_assoc, ih, scan_spelling _ hspelling, Position.afterAll_behind, Functor.map_map]
    simp

theorem inText (h : Covers before rest ls) :
    ∀ l ∈ ls, l.position.InText (before ++ rest) := by
  induction h with
  | start => simp
  | @gap before gap rest ls _ _ ih => rwa [List.append_assoc]
  | @token before chars rest t ls _ hspelling ih =>
    intro l hl
    rw [List.append_assoc]
    rcases List.mem_append.mp hl with hl | hl
    · exact ih l hl
    · obtain rfl := List.mem_singleton.mp hl
      obtain ⟨c, cs, rfl⟩ := List.exists_cons_of_ne_nil hspelling.ne_nil
      exact ⟨before, c, cs ++ rest, rfl, rfl⟩

theorem exists_next (h : Covers before (c :: cs) ls) :
    (∃ piece rest ls, c :: cs = piece ++ rest ∧ piece ≠ [] ∧ Covers (before ++ piece) rest ls) ∨
    ∃ e, Stops before c cs e := by
  rcases exists_step h.boundary with
    ⟨gap, rest, hsplit, hgap⟩ | ⟨t, chars, rest, hsplit, hspelling⟩ | hstops
  · rw [hsplit] at h
    exact .inl ⟨gap, rest, ls, hsplit, hgap.ne_nil, h.gap hgap⟩
  · rw [hsplit] at h
    exact .inl ⟨chars, rest, _, hsplit, hspelling.ne_nil, h.token hspelling⟩
  · exact .inr hstops

/-- Piece by piece, the rest of the text is covered up to its end or up to a refused character. -/
theorem exists_outcome (h : Covers before rest ls) :
    (∃ ls, Covers (before ++ rest) [] ls) ∨ ∃ before' c rest' ls e,
      before ++ rest = before' ++ c :: rest' ∧ Covers before' (c :: rest') ls ∧
        Stops before' c rest' e := by
  induction hn : rest.length using Nat.strongRecOn generalizing before rest ls with
  | ind n ih =>
    cases rest with
    | nil => exact .inl ⟨ls, by rwa [List.append_nil]⟩
    | cons c cs =>
      rcases h.exists_next with ⟨piece, rest, ls', hsplit, hne, hnext⟩ | ⟨e, hstops⟩
      · have hpos := List.length_pos_iff.mpr hne
        rw [hsplit, List.length_append] at hn
        rw [hsplit, ← List.append_assoc]
        exact ih rest.length (by omega) hnext rfl
      · exact .inr ⟨before, c, cs, ls, e, rfl, h, hstops⟩

theorem read_eq (h : Covers s.toList [] ls) : read s = .ok ls := by
  have hscan := h.scan_eq
  rw [List.append_nil, scan] at hscan
  simpa [read] using hscan

theorem read_eq_error {e : ParseError} (hs : s.toList = before ++ c :: rest)
    (h : Covers before (c :: rest) ls) (hstops : Stops before c rest e) : read s = .error e := by
  rw [read, hs, h.scan_eq, scan_stops hstops]
  rfl

end Covers

theorem read_eq_ok_iff : read s = .ok ls ↔ Covers s.toList [] ls := by
  constructor
  · intro h
    rcases (Covers.start s.toList).exists_outcome with
      ⟨ls', hcovers⟩ | ⟨before, c, rest, ls', e, hs, hcovers, hstops⟩
    · have hread := hcovers.read_eq
      rw [h] at hread
      cases hread
      exact hcovers
    · rw [hcovers.read_eq_error hs hstops] at h
      cases h
  · exact Covers.read_eq

theorem read_eq_error_iff {e : ParseError} : read s = .error e ↔ ∃ before c rest ls,
    s.toList = before ++ c :: rest ∧ Covers before (c :: rest) ls ∧ Stops before c rest e := by
  constructor
  · intro h
    rcases (Covers.start s.toList).exists_outcome with
      ⟨ls, hcovers⟩ | ⟨before, c, rest, ls, e', hs, hcovers, hstops⟩
    · rw [Covers.read_eq hcovers] at h
      cases h
    · have hread := hcovers.read_eq_error hs hstops
      rw [h] at hread
      cases hread
      exact ⟨before, c, rest, ls, hs, hcovers, hstops⟩
  · rintro ⟨before, c, rest, ls, hs, hcovers, hstops⟩
    exact hcovers.read_eq_error hs hstops

end Token

end PathPolicy
