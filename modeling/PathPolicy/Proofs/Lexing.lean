import Mathlib.Data.List.TakeWhile
import PathPolicy.Requirement.Token

/-! The tokens of a text. Names and punctuation are read as they were written, and the tokens that
are read from any text stand in it one after the other. -/

namespace PathPolicy

namespace Text

variable {c : Char}

theorem mem_of_contains {n : Nat} {ranges : CodeRanges} (h : ranges.contains n = true) :
    n ∈ ranges.flatMap fun r => List.range' r.1 (r.2 + 1 - r.1) := by
  induction ranges with
  | nil => cases h
  | cons r ranges ih =>
    simp only [CodeRanges.contains, Bool.and_eq_true, Bool.or_eq_true, decide_eq_true_eq] at h
    rw [List.flatMap_cons, List.mem_append]
    rcases h.2 with hle | hrest
    · exact .inl (List.mem_range'_1.mpr (by omega))
    · exact .inr (ih hrest)

theorem not_isAlphanumeric_of_isBlank (h : isBlank c = true) : isAlphanumeric c = false := by
  have hall : ∀ n ∈ blankRanges.flatMap fun r => List.range' r.1 (r.2 + 1 - r.1),
      alphanumericRanges.contains n = false := by decide +kernel
  exact hall _ (mem_of_contains h)

end Text

namespace Token

variable {c d : Char} {cs : List Char} {s : String} {t : Token} {ts : List Token}

/-- What can stand in a text as a name without quotes. -/
def IsName (s : String) : Prop := s ≠ "" ∧ ∀ c ∈ s.toList, isNameChar c = true

theorem isName_iff : IsName s ↔ (s ≠ "" && s.toList.all isNameChar) = true := by
  rw [IsName, Bool.and_eq_true, decide_eq_true_eq, List.all_eq_true]

instance (s : String) : Decidable (IsName s) := decidable_of_iff _ isName_iff.symm

section NameChar

variable (h : isNameChar c = true)

include h

theorem ne_of_isNameChar (hd : isNameChar d = false) : c ≠ d := by
  rintro rfl
  simp [hd] at h

theorem not_isBlank_of_isNameChar : Text.isBlank c = false := by
  rw [Bool.eq_false_iff]
  intro hblank
  simp only [isNameChar, Text.not_isAlphanumeric_of_isBlank hblank, Bool.false_or, Bool.or_eq_true,
    decide_eq_true_eq] at h
  rcases h with (rfl | rfl) | rfl <;> cases hblank

theorem punctuation?_of_isNameChar : punctuation? c = none := by
  unfold punctuation?
  split
  all_goals first | rfl | exact absurd h (by decide +kernel)

theorem not_isQuote_of_isNameChar : isQuote c = false := by
  simp [isQuote, ne_of_isNameChar h (d := '\'') (by decide +kernel),
    ne_of_isNameChar h (d := '"') (by decide +kernel)]

end NameChar

theorem punctuation_cases (h : punctuation? c = some t) :
    Text.isBlank c = false ∧ c ≠ '#' ∧ isNameChar c = false := by
  unfold punctuation? at h
  split at h <;> cases h <;> decide +kernel

theorem not_isNameChar_of_mem_head? (h : punctuation? c = some t) (cs : List Char) :
    ∀ d ∈ (c :: cs).head?, isNameChar d = false := by
  rintro d hd
  obtain rfl : c = d := Option.some.inj hd
  exact (punctuation_cases h).2.2

theorem scan_punctuation (p : Position) (hc : punctuation? c = some t) (rest : List Char) :
    scan p (c :: rest) = (⟨t, p⟩ :: ·) <$> scan (p.after c) rest := by
  obtain ⟨hblank, hcomment, _⟩ := punctuation_cases hc
  rw [scan, if_neg (by simp [hblank]), if_neg hcomment, hc]

/-- A name ends where no character of a name follows. -/
theorem scan_word (p : Position) (hs : IsName s) (hend : ∀ c ∈ cs.head?, isNameChar c = false) :
    scan p (s.toList ++ cs) = (⟨.word s, p⟩ :: ·) <$> scan (p.afterAll s.toList) cs := by
  have hne : s.toList ≠ [] := fun he => hs.1 (String.toList_eq_nil_iff.mp he)
  obtain ⟨c, rest, hchars⟩ := List.exists_cons_of_ne_nil hne
  have hc : isNameChar c = true := hs.2 c (by simp [hchars])
  have hrest : ∀ d ∈ rest, isNameChar d = true := fun d hd => hs.2 d (by simp [hchars, hd])
  have hstop : cs.takeWhile isNameChar = [] ∧ cs.dropWhile isNameChar = cs := by
    cases cs with
    | nil => exact ⟨rfl, rfl⟩
    | cons d ds => simp [hend d rfl]
  have htake : (rest ++ cs).takeWhile isNameChar = rest := by
    rw [List.takeWhile_append_of_pos hrest, hstop.1, List.append_nil]
  have hdrop : (rest ++ cs).dropWhile isNameChar = cs := by
    rw [List.dropWhile_append_of_pos hrest, hstop.2]
  rw [hchars, List.cons_append, scan, if_neg (by simp [not_isBlank_of_isNameChar hc]),
    if_neg (ne_of_isNameChar hc (by decide +kernel)), punctuation?_of_isNameChar hc]
  simp only [not_isQuote_of_isNameChar hc, hc, htake, hdrop, ← hchars]
  simp

theorem isName_takeWhile (hc : isNameChar c = true) (cs : List Char) :
    IsName (String.ofList (c :: cs.takeWhile isNameChar)) := by
  refine ⟨by simp, fun d hd => ?_⟩
  rw [String.toList_ofList] at hd
  rcases List.mem_cons.mp hd with rfl | hd
  · exact hc
  · exact List.mem_takeWhile_imp hd

/-- The text consists of these tokens, wherever it begins. -/
def Scans (cs : List Char) (ts : List Token) : Prop :=
  ∀ p, ∃ ls, scan p cs = .ok ls ∧ ls.map (·.token) = ts

namespace Scans

theorem nil : Scans [] [] := fun p => ⟨[], by rw [scan], rfl⟩

theorem blank (hc : Text.isBlank c = true) (h : Scans cs ts) : Scans (c :: cs) ts := by
  intro p
  rw [scan, if_pos hc]
  exact h (p.after c)

theorem punctuation (hc : punctuation? c = some t) (h : Scans cs ts) :
    Scans (c :: cs) (t :: ts) := by
  intro p
  obtain ⟨ls, hls, rfl⟩ := h (p.after c)
  refine ⟨⟨t, p⟩ :: ls, ?_, rfl⟩
  rw [scan_punctuation p hc, hls]
  rfl

theorem word (hs : IsName s) (hend : ∀ c ∈ cs.head?, isNameChar c = false) (h : Scans cs ts) :
    Scans (s.toList ++ cs) (.word s :: ts) := by
  intro p
  obtain ⟨ls, hls, rfl⟩ := h (p.afterAll s.toList)
  refine ⟨⟨.word s, p⟩ :: ls, ?_, rfl⟩
  rw [scan_word p hs hend, hls]
  rfl

theorem word_punctuation (hs : IsName s) (hc : punctuation? c = some t) (h : Scans cs ts) :
    Scans (s.toList ++ c :: cs) (.word s :: t :: ts) :=
  .word hs (not_isNameChar_of_mem_head? hc cs) (.punctuation hc h)

end Scans

/-- The tokens stand in the text in this order, possibly with gaps between them. -/
inductive Occur : List Char → List Token → Prop
  | nil : Occur [] []
  | gap (gap : List Char) {cs : List Char} {ts : List Token} : Occur cs ts → Occur (gap ++ cs) ts
  | punctuation {c : Char} {t : Token} {cs : List Char} {ts : List Token} :
      punctuation? c = some t → Occur cs ts → Occur (c :: cs) (t :: ts)
  | quoted {q : Char} {s : String} {cs : List Char} {ts : List Token} :
      isQuote q = true → Occur cs ts → Occur (q :: s.toList ++ q :: cs) (.quoted s :: ts)
  | word {s : String} {cs : List Char} {ts : List Token} :
      IsName s → Occur cs ts → Occur (s.toList ++ cs) (.word s :: ts)

theorem exists_of_map_eq_ok {ε α β : Type} {f : α → β} {x : Except ε α} {y : β}
    (h : f <$> x = .ok y) : ∃ a, x = .ok a ∧ f a = y := by
  cases x with
  | error e => cases h
  | ok a => exact ⟨a, rfl, Except.ok.inj h⟩

theorem occur_of_scan {p : Position} {ls : List Located} (h : scan p cs = .ok ls) :
    Occur cs (ls.map (·.token)) := by
  fun_induction scan p cs generalizing ls with
  | case1 p =>
    obtain rfl := Except.ok.inj h
    exact .nil
  | case2 p c rest hblank ih => exact .gap [c] (ih h)
  | case3 p rest hblank ih =>
    have hsplit := List.takeWhile_append_dropWhile (p := (· ≠ '\n')) (l := rest)
    rw [← hsplit, ← List.cons_append]
    exact .gap _ (ih h)
  | case4 p c rest hblank hcomment t ht ih =>
    obtain ⟨ls, hls, rfl⟩ := exists_of_map_eq_ok h
    exact .punctuation ht (ih hls)
  | case5 => cases h
  | case6 p c rest hblank hcomment hpunct hquote content close after hafter =>
    rename_i ih
    obtain ⟨ls, hls, rfl⟩ := exists_of_map_eq_ok h
    obtain rfl : close = c := by
      have hhead := List.head?_dropWhile_not (· ≠ c) rest
      rw [hafter] at hhead
      simpa using hhead
    have hsplit := List.takeWhile_append_dropWhile (p := (· ≠ close)) (l := rest)
    have hoccur := Occur.quoted (s := String.ofList content) hquote (ih hls)
    rw [String.toList_ofList, List.cons_append, ← hafter, hsplit] at hoccur
    exact hoccur
  | case7 p c rest hblank hcomment hpunct hquote hname content =>
    rename_i ih
    obtain ⟨ls, hls, rfl⟩ := exists_of_map_eq_ok h
    have hsplit := List.takeWhile_append_dropWhile (p := isNameChar) (l := rest)
    have hoccur := Occur.word (isName_takeWhile hname rest) (ih hls)
    rw [String.toList_ofList, List.cons_append, hsplit] at hoccur
    exact hoccur
  | case8 => cases h

/-- All words among the tokens are names. -/
def Lexical (ts : List Token) : Prop := ∀ s, .word s ∈ ts → IsName s

theorem Lexical.of_subset {us : List Token} (h : Lexical ts) (hsub : us ⊆ ts) : Lexical us :=
  fun s hs => h s (hsub hs)

namespace Occur

theorem lexical (h : Occur cs ts) : Lexical ts := by
  intro s hs
  induction h with
  | nil => cases hs
  | gap _ _ ih => exact ih hs
  | punctuation ht _ ih =>
    rcases List.mem_cons.mp hs with rfl | hs
    · unfold punctuation? at ht
      split at ht <;> cases ht
    · exact ih hs
  | quoted _ _ ih => exact ih (by simpa using hs)
  | word hname _ ih =>
    rcases List.mem_cons.mp hs with he | hs
    · exact Token.word.inj he ▸ hname
    · exact ih hs

end Occur

end Token

end PathPolicy
