import Mathlib
import PathPolicy.Config.Statement

/-! Words, numerals and the other pieces that lines are made of. A piece that was written is read back
as it is. -/

namespace PathPolicy

namespace Text

variable {c : Char} {cs ds : List Char} {n limit : Nat}

theorem not_isBlank_of_isDigit (h : c.isDigit = true) : isBlank c = false := by
  have hrange : 48 ≤ c.toNat ∧ c.toNat ≤ 57 := Char.isDigit_iff_toNat.mp h
  simp only [isBlank, blankRanges, CodeRanges.contains, Bool.and_eq_false_iff,
    Bool.or_eq_false_iff, decide_eq_false_iff_not]
  omega

theorem isDecimalDigit_of_isDigit (h : c.isDigit = true) : isDecimalDigit c = true := by
  have hrange : 48 ≤ c.toNat ∧ c.toNat ≤ 57 := Char.isDigit_iff_toNat.mp h
  simp [isDecimalDigit, decimalDigitRanges, CodeRanges.contains, hrange.1, hrange.2]

/-- At least one character, and no blank. -/
structure IsWord (cs : List Char) : Prop where
  ne_nil : cs ≠ []
  not_blank : ∀ c ∈ cs, isBlank c = false

theorem isWord_iff : IsWord cs ↔ (!cs.isEmpty && cs.all (!isBlank ·)) = true := by
  rw [Bool.and_eq_true, Bool.not_eq_true', List.isEmpty_eq_false_iff, List.all_eq_true]
  refine ⟨fun h => ⟨h.ne_nil, fun c hc => by simp [h.not_blank c hc]⟩, fun h => ⟨h.1, fun c hc => ?_⟩⟩
  simpa using h.2 c hc

instance (cs : List Char) : Decidable (IsWord cs) := decidable_of_iff _ isWord_iff.symm

theorem IsWord.append (h : IsWord cs) (hd : IsWord ds) : IsWord (cs ++ ds) :=
  ⟨by simp [h.ne_nil], fun c hc => (List.mem_append.mp hc).elim (h.not_blank c) (hd.not_blank c)⟩

theorem IsWord.ne_of_isBlank (h : IsWord cs) (hc : c ∈ cs) {d : Char} (hd : isBlank d = true) :
    c ≠ d := by
  rintro rfl
  simp [h.not_blank c hc] at hd

theorem IsWord.notMem (h : IsWord cs) {d : Char} (hd : isBlank d = true) : d ∉ cs :=
  fun hm => h.ne_of_isBlank hm hd rfl

theorem trim_eq_self (hfirst : ∀ c ∈ cs.head?, isBlank c = false)
    (hlast : ∀ c ∈ cs.getLast?, isBlank c = false) : trim cs = cs := by
  have hkeep : ∀ ds : List Char, (∀ c ∈ ds.head?, isBlank c = false) → ds.dropWhile isBlank = ds := by
    intro ds hd
    cases ds with
    | nil => rfl
    | cons d ds =>
      have hd : isBlank d = false := hd d rfl
      rw [List.dropWhile_cons_of_neg (by simp [hd])]
  rw [trim, trimStart, hkeep cs hfirst, trimEnd, hkeep cs.reverse, List.reverse_reverse]
  simpa using hlast

theorem trim_cons_of_isBlank (h : isBlank c = true) (cs : List Char) : trim (c :: cs) = trim cs := by
  rw [trim, trim, trimStart, trimStart, List.dropWhile_cons_of_pos h]

theorem IsWord.trim_eq (h : IsWord cs) : trim cs = cs :=
  trim_eq_self (fun c hc => h.not_blank c (List.mem_of_mem_head? hc))
    fun c hc => h.not_blank c (List.mem_of_mem_getLast? hc)

theorem splitFirst_append {sep : Char} (h : sep ∉ cs) (ds : List Char) :
    splitFirst sep (cs ++ sep :: ds) = (cs, some ds) := by
  have hspan : (cs ++ sep :: ds).span (· ≠ sep) = (cs, sep :: ds) := by
    rw [List.span_eq_takeWhile_dropWhile, List.takeWhile_append_of_pos, List.dropWhile_append_of_pos]
    · simp
    · exact fun a ha => by simpa using fun he : a = sep => h (he ▸ ha)
    · exact fun a ha => by simpa using fun he : a = sep => h (he ▸ ha)
  rw [splitFirst, hspan]

theorem fields_append {sep : Char} (h : sep ∉ cs) (ds : List Char) :
    fields sep (cs ++ sep :: ds) = cs :: fields sep ds := by
  induction cs with
  | nil => simp [fields]
  | cons c cs ih =>
    obtain ⟨hc, hcs⟩ := not_or.mp (mt List.mem_cons.mpr h)
    rw [List.cons_append, fields, if_neg (Ne.symm hc), ih hcs]

theorem fields_of_notMem {sep : Char} (h : sep ∉ cs) : fields sep cs = [cs] := by
  induction cs with
  | nil => rfl
  | cons c cs ih =>
    obtain ⟨hc, hcs⟩ := not_or.mp (mt List.mem_cons.mpr h)
    rw [fields, if_neg (Ne.symm hc), ih hcs]

theorem isDigit_toDigits (h : c ∈ Nat.toDigits 10 n) : c.isDigit = true :=
  Nat.isDigit_of_mem_toDigits (by omega) (by omega) h

theorem notMem_toDigits (h : c.isDigit = false) (n : Nat) : c ∉ Nat.toDigits 10 n := by
  intro hc
  simp [isDigit_toDigits hc] at h

theorem isWord_toDigits (n : Nat) : IsWord (Nat.toDigits 10 n) :=
  ⟨Nat.toDigits_ne_nil, fun _ hc => not_isBlank_of_isDigit (isDigit_toDigits hc)⟩

theorem isWord_numerals (hcs : cs = [] ∨ IsWord cs) (hds : IsWord ds) (m n : Nat) :
    IsWord (cs ++ (Nat.toDigits 10 m ++ (ds ++ Nat.toDigits 10 n))) := by
  have hword := (isWord_toDigits m).append (hds.append (isWord_toDigits n))
  rcases hcs with rfl | hcs
  · exact hword
  · exact hcs.append hword

theorem numeral?_toDigits (n : Nat) : numeral? (Nat.toDigits 10 n) = some n := by
  have hdigits : (Nat.toDigits 10 n).all Char.isDigit = true :=
    List.all_eq_true.mpr fun c hc => isDigit_toDigits hc
  rw [numeral?, if_neg (by simp [hdigits])]
  exact congrArg some Nat.ofDigitChars_ten_toDigits

theorem unsigned?_toDigits (h : n < limit) : unsigned? limit (Nat.toDigits 10 n) = some n := by
  have hplus : ∀ rest, Nat.toDigits 10 n ≠ '+' :: rest := by
    intro rest he
    exact notMem_toDigits (c := '+') (by decide) n (by simp [he])
  rw [unsigned?]
  · rw [numeral?_toDigits]
    simp [Option.filter, h]
  · exact hplus

end Text

namespace Statement

variable {cs ds : List Char}

theorem after?_append (s : String) (cs : List Char) : after? s (s.toList ++ cs) = some cs :=
  List.isPrefixOf?_eq_some_iff_append_eq.mpr rfl

theorem before?_append (s : String) (cs : List Char) : before? s (cs ++ s.toList) = some cs :=
  List.isSuffixOf?_eq_some_iff_append_eq.mpr rfl

theorem nonempty?_eq_some (h : cs ≠ []) : nonempty? cs = some cs := by
  rw [nonempty?, if_neg (by simpa using h)]

theorem word?_append (h : Text.IsWord cs) (ds : List Char) :
    word? (cs ++ ' ' :: ds) = some (cs, ' ' :: ds) := by
  have hspan : (cs ++ ' ' :: ds).span (!Text.isBlank ·) = (cs, ' ' :: ds) := by
    have hall : ∀ a ∈ cs, (!Text.isBlank a) = true := fun a ha => by simp [h.not_blank a ha]
    have hspace : Text.isBlank ' ' = true := by decide
    rw [List.span_eq_takeWhile_dropWhile, List.takeWhile_append_of_pos hall,
      List.dropWhile_append_of_pos hall]
    simp [hspace]
  rw [word?, hspan]
  cases cs with
  | nil => exact absurd rfl h.ne_nil
  | cons c cs => rfl

theorem wholeWord?_eq_some (h : Text.IsWord cs) : wholeWord? cs = some cs := by
  have hall : cs.all (!Text.isBlank ·) = true :=
    List.all_eq_true.mpr fun c hc => by simp [h.not_blank c hc]
  rw [wholeWord?, if_pos hall, nonempty?_eq_some h.ne_nil]

theorem digits?_toDigits (n : Nat) : digits? (Nat.toDigits 10 n) = some (Nat.toDigits 10 n) := by
  have hall : (Nat.toDigits 10 n).all Text.isDecimalDigit = true :=
    List.all_eq_true.mpr fun c hc => Text.isDecimalDigit_of_isDigit (Text.isDigit_toDigits hc)
  rw [digits?, if_pos hall, nonempty?_eq_some Nat.toDigits_ne_nil]

theorem splitLastSpace?_append (cs : List Char) (h : ' ' ∉ ds) :
    splitLastSpace? (cs ++ ' ' :: ds) = some (cs, ds) := by
  have hrev : (cs ++ ' ' :: ds).reverse = ds.reverse ++ ' ' :: cs.reverse := by simp
  rw [splitLastSpace?, hrev, Text.splitFirst_append (by simpa using h)]
  simp

end Statement

namespace Community

theorem isWord_text (c : Community) : Text.IsWord c.text.toList := by
  have htext : c.text.toList =
      [] ++ (Nat.toDigits 10 c.asn ++ (":".toList ++ Nat.toDigits 10 c.value)) := by
    unfold text
    dsimp only [toString]
    simp
  rw [htext]
  exact Text.isWord_numerals (.inl rfl) (by decide) c.asn c.value

theorem isWord_listName (c : Community) : Text.IsWord c.listName.toList := by
  have hname : c.listName.toList =
      "CL_".toList ++ (Nat.toDigits 10 c.asn ++ ("_".toList ++ Nat.toDigits 10 c.value)) := by
    unfold listName
    dsimp only [toString]
    simp
  rw [hname]
  exact Text.isWord_numerals (.inr (by decide)) (by decide) c.asn c.value

end Community

end PathPolicy
