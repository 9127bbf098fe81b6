import PathPolicy.Proofs.TokenWeight

/-! Requirements are read back from their texts exactly if their names are plain. Plain names are
words of the language. Conversely, the text of a requirement has no room for the quotes that any
other name needs. -/

namespace PathPolicy

open Phrase Token

section Forward

/-- The text consists of these tokens wherever it stands before other text that does not go on
with a name. -/
def Writes (cs : List Char) (ts : List Token) : Prop :=
  ∀ ds us, (∀ c ∈ ds.head?, isNameChar c = false) → Scans ds us → Scans (cs ++ ds) (ts ++ us)

variable {α : Type} {S : List Token → α → Prop} {f : α → String}

theorem writes_name {s : String} (hs : IsName s) : Writes s.toList [.word s] :=
  fun _ _ hend h => .word hs hend h

theorem scans_space {cs : List Char} {ts : List Token} (h : Scans cs ts) : Scans (' ' :: cs) ts :=
  .blank (by decide +kernel) h

theorem scans_comma {cs : List Char} {ts : List Token} (h : Scans cs ts) :
    Scans (',' :: ' ' :: cs) (.comma :: ts) :=
  .punctuation rfl (scans_space h)

theorem exists_spellsItems_of_writes {as : List α}
    (h : ∀ a ∈ as, ∃ ts, Writes (f a).toList ts ∧ S ts a) :
    ∃ xs, SpellsItems S xs as ∧ ∀ ds us, Scans ds us →
      Scans ((", ".intercalate (as.map f)).toList ++ ']' :: ds) (xs ++ us) := by
  induction as with
  | nil => exact ⟨_, .nil, fun ds us hds => .punctuation rfl hds⟩
  | cons a as ih =>
    obtain ⟨ts, hts, hs⟩ := h a List.mem_cons_self
    cases as with
    | nil =>
      refine ⟨_, .last hs, fun ds us hds => ?_⟩
      rw [List.map_singleton, String.intercalate_singleton, List.append_assoc]
      exact hts _ _ (not_isNameChar_of_mem_head? rfl _) (.punctuation rfl hds)
    | cons b bs =>
      obtain ⟨xs, hxs, hscans⟩ := ih fun a ha => h a (List.mem_cons_of_mem _ ha)
      refine ⟨_, .cons hs hxs, fun ds us hds => ?_⟩
      rw [List.map_cons, List.map_cons, String.intercalate_cons_cons, ← List.map_cons,
        String.toList_append, String.toList_append, List.append_assoc, List.append_assoc,
        List.append_assoc]
      exact hts _ _ (not_isNameChar_of_mem_head? rfl _) (scans_comma (hscans ds us hds))

theorem exists_spellsCall_of_writes {keyword d : String} {as : List α} (hkeyword : IsName keyword)
    (hd : IsName d) (h : ∀ a ∈ as, ∃ ts, Writes (f a).toList ts ∧ S ts a) (p : Protocol)
    (e : Bool) : ∃ ys, SpellsCall S p d as e ys ∧
      Writes (callText keyword p d (as.map f) e).toList (.word keyword :: ys) := by
  obtain ⟨xs, hxs, hscans⟩ := exists_spellsItems_of_writes h
  have hp : IsName p.text := by cases p <;> decide +kernel
  have he : IsName (flagText e) := by cases e <;> decide +kernel
  refine ⟨_, .call (p := .word p.text) (d := .word d) (b := .word (flagText e)) ?_ rfl hxs ?_,
    fun ds us _ hds => ?_⟩
  · cases p <;> decide +kernel
  · cases e <;> rfl
  · rw [toList_callText]
    simp only [List.append_assoc, List.cons_append, List.nil_append]
    have hflag := Scans.word_punctuation (c := ')') he rfl hds
    have hlist := Scans.punctuation (c := '[') rfl (hscans _ _ (scans_comma hflag))
    have hname := Scans.word_punctuation (c := ',') hd rfl (scans_space hlist)
    have hprotocol := Scans.word_punctuation (c := ',') hp rfl (scans_space hname)
    exact .word_punctuation hkeyword rfl hprotocol

theorem exists_spellsPath {r : PathReq} (hr : r.Plain) :
    ∃ ys, SpellsPath ys r ∧ Writes r.text.toList (.word "PathReq" :: ys) := by
  have hpath : ∀ s ∈ r.path, ∃ ts, Writes (id s).toList ts ∧ SpellsName ts s := fun s hs =>
    ⟨_, writes_name (hr s (List.mem_cons_of_mem _ hs)), _, rfl, rfl⟩
  have hkeyword : IsName "PathReq" := by decide +kernel
  have hcall := exists_spellsCall_of_writes hkeyword (hr r.destination List.mem_cons_self) hpath
    r.protocol r.exact
  rwa [List.map_id] at hcall

theorem exists_spellsSet {r : PathSetReq} (hd : IsName r.destination)
    (hr : ∀ q ∈ r.members, q.Plain) (k : RequirementKind) : ∃ ys, SpellsSet ys r ∧
      Writes (callText k.keyword r.protocol r.destination (r.members.map (·.text)) r.exact).toList
        (.word k.keyword :: ys) := by
  have hk : IsName k.keyword := by cases k <;> decide +kernel
  refine exists_spellsCall_of_writes hk hd (fun q hq => ?_) r.protocol r.exact
  obtain ⟨ys, hys, hwrites⟩ := exists_spellsPath (hr q hq)
  exact ⟨_, hwrites, _, ys, rfl, rfl, hys⟩

theorem exists_spellsRequirement {r : Requirement} (hr : r.Plain) :
    ∃ ts, SpellsRequirement ts r ∧ Writes r.text.toList ts := by
  obtain ⟨hd, hmembers⟩ := Requirement.plain_iff.mp hr
  cases r with
  | path r =>
    obtain ⟨ys, hys, hwrites⟩ := exists_spellsPath (hmembers r List.mem_cons_self)
    exact ⟨_, ⟨ys, rfl, hys⟩, hwrites⟩
  | order r | ecmp r | kConnected r =>
    have hset := exists_spellsSet hd hmembers
    exact (hset _).elim fun ys hys => ⟨_, ⟨ys, rfl, hys.1⟩, hys.2⟩

theorem exists_spellsAll {rs : List Requirement} (h : ∀ r ∈ rs, r.Plain) :
    ∃ ts, Requirement.SpellsAll ts rs ∧ Scans (Requirement.textOfAll rs).toList ts := by
  induction rs with
  | nil => exact ⟨[], .nil, .nil⟩
  | cons r rs ih =>
    obtain ⟨ts, hs, hwrites⟩ := exists_spellsRequirement (h r List.mem_cons_self)
    obtain ⟨us, hus, hscans⟩ := ih fun r hr => h r (List.mem_cons_of_mem _ hr)
    refine ⟨ts ++ us, .cons hs hus, ?_⟩
    rw [Requirement.textOfAll] at hscans ⊢
    cases rs with
    | nil =>
      have hend := hwrites [] us (by simp) hscans
      rwa [List.append_nil] at hend
    | cons r' rs =>
      rw [List.map_cons, List.map_cons, String.intercalate_cons_cons, ← List.map_cons,
        String.toList_append, String.toList_append, List.append_assoc]
      exact hwrites _ _ (by simp; decide +kernel) (.blank (by decide +kernel) hscans)

/-- Requirements with plain names are read back, line by line. -/
theorem parse_textOfAll {rs : List Requirement} (h : ∀ r ∈ rs, r.Plain) :
    Requirement.parse (Requirement.textOfAll rs) = .ok rs := by
  obtain ⟨ts, hs, hscans⟩ := exists_spellsAll h
  obtain ⟨ls, hls, rfl⟩ := hscans .start
  have hread : Token.read (Requirement.textOfAll rs) = .ok ls := hls
  rw [Requirement.parse, hread]
  change Requirement.parseTokens (Requirement.withoutBrackets ls) = _
  rw [hs.withoutBrackets_eq_self, Requirement.parseTokens_eq_ok_iff]
  exact hs

end Forward

theorem withoutBrackets_sublist (ls : List Located) :
    (Requirement.withoutBrackets ls).Sublist ls := by
  cases ls with
  | nil => exact .slnil
  | cons l ls =>
    rw [Requirement.withoutBrackets]
    split
    · exact (List.dropLast_sublist ls).cons l
    · exact .refl _

namespace Requirement

theorem parse_textOfAll_iff (rs : List Requirement) :
    parse (textOfAll rs) = .ok rs ↔ ∀ r ∈ rs, r.Plain := by
  refine ⟨fun h => ?_, parse_textOfAll⟩
  rw [parse] at h
  cases hls : Token.read (textOfAll rs) with
  | error e =>
    rw [hls] at h
    cases h
  | ok ls =>
    rw [hls] at h
    have hoccur := occur_of_scan hls
    have hsub := (withoutBrackets_sublist ls).map (·.token)
    obtain ⟨_, hof⟩ := weighs_all (parseTokens_eq_ok_iff.mp h)
      (hoccur.lexical.of_subset hsub.subset)
    exact hof (Nat.le_trans (weightOf_le_of_sublist hsub) hoccur.weightOf_le_ink)

/-- A requirement, and any number of them with each on a line of its own, are read back from their
text if and only if their names are plain. -/
theorem parse_text_iff_plain : (∀ r : Requirement, parse r.text = .ok [r] ↔ r.Plain) ∧
    ∀ rs : List Requirement, parse ("\n".intercalate (rs.map text)) = .ok rs ↔
      ∀ r ∈ rs, r.Plain := by
  refine ⟨fun r => ?_, parse_textOfAll_iff⟩
  have hsingle := parse_textOfAll_iff [r]
  rw [textOfAll, List.map_singleton, String.intercalate_singleton, List.forall_mem_singleton]
    at hsingle
  exact hsingle

/-- Quotes in a name are lost. -/
example : parse (path ⟨.bgp, "'D'", ["S", "'D'"], false⟩).text =
    .ok [path ⟨.bgp, "D", ["S", "D"], false⟩] := by
  decide +kernel

end Requirement

end PathPolicy
