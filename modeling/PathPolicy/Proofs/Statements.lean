import PathPolicy.Config.Reader
import PathPolicy.Proofs.AddressText

/-! What the reader takes a written line for. The names inside of a line may be any texts without line
feeds, so every form is told from the others by the fixed text it begins with, and its arguments are
found by the fixed texts around them. -/

namespace PathPolicy

namespace Text

variable {c : Char} {cs ds : List Char}

theorem withoutReturn_concat (cs : List Char) (c : Char) :
    withoutReturn (cs ++ [c]) = if c = '\r' then cs else cs ++ [c] := by
  by_cases hc : c = '\r'
  · simp [withoutReturn, List.isSuffixOf?, List.isPrefixOf?, hc]
  · simp [withoutReturn, List.isSuffixOf?, List.isPrefixOf?, hc, Ne.symm hc]

theorem withoutReturn_append (h : IsWord ds) (cs : List Char) :
    withoutReturn (cs ++ ds) = cs ++ ds := by
  obtain ⟨front, c, rfl⟩ := (List.eq_nil_or_concat ds).resolve_left h.ne_nil
  have hc : c ≠ '\r' := h.ne_of_isBlank (by simp) (by decide)
  rw [List.concat_eq_append, ← List.append_assoc, withoutReturn_concat, if_neg hc]

theorem trim_cons (h : isBlank c = false) (cs : List Char) : trim (c :: cs) = c :: trimEnd cs := by
  have hstart : trimStart (c :: cs) = c :: cs := List.dropWhile_cons_of_neg (by simp [h])
  rw [trim, hstart, trimEnd, trimEnd, List.reverse_cons, List.dropWhile_append]
  split
  · next hnil => simp [h, List.isEmpty_iff.mp hnil]
  · simp

theorem trim_between (h : isBlank c = false) (hd : IsWord ds) (cs : List Char) :
    trim (c :: (cs ++ ds)) = c :: (cs ++ ds) := by
  refine trim_eq_self (by simp [h]) fun a ha => ?_
  have hlast : (c :: (cs ++ ds)).getLast? = ds.getLast? := by
    rw [← List.cons_append, List.getLast?_append, List.getLast?_eq_some_getLast hd.ne_nil]
    rfl
  exact hd.not_blank a (List.mem_of_mem_getLast? (hlast ▸ ha))

end Text

/-- A line that the reader takes for `statement?`. An indented line does not end a stanza. -/
structure Written (line : String) (indented : Bool) (statement? : Option Statement) : Prop where
  newline_notMem : '\n' ∉ line.toList
  ofLine?_eq : Statement.ofLine? (Text.withoutReturn line.toList) = statement?
  trim_ne_nil : Text.trim (Text.withoutReturn line.toList) ≠ []
  endsStanza_eq : ConfigReader.endsStanza (Text.withoutReturn line.toList) = !indented

namespace Written

variable {line opening : String} {c : Char} {cs ds word : List Char} {statement? : Option Statement}
  (hline : line.toList = opening.toList ++ (cs ++ word)) (hword : Text.IsWord word)

include hline hword

theorem withoutReturn_eq : Text.withoutReturn line.toList = line.toList := by
  rw [hline, ← List.append_assoc, Text.withoutReturn_append hword]

theorem newline_notMem_of_word (hnewline : '\n' ∉ opening.toList ++ cs) : '\n' ∉ line.toList := by
  rw [hline, ← List.append_assoc, List.mem_append]
  exact not_or.mpr ⟨hnewline, hword.notMem (by decide)⟩

variable (hnewline : '\n' ∉ opening.toList ++ cs)
  (h : Statement.ofLine? (opening.toList ++ (cs ++ word)) = statement?)

include hnewline h

theorem of_indented (hopening : opening.toList = ' ' :: c :: ds) (hc : Text.isBlank c = false)
    (hstop : c ≠ '!') : Written line true statement? := by
  have hcons : line.toList = ' ' :: c :: (ds ++ (cs ++ word)) := by rw [hline, hopening]; rfl
  have htrim : Text.trim line.toList = c :: Text.trimEnd (ds ++ (cs ++ word)) := by
    rw [hcons, Text.trim_cons_of_isBlank (by decide), Text.trim_cons hc]
  have hends : ConfigReader.endsStanza line.toList = false := by
    rw [ConfigReader.endsStanza, htrim, hcons]
    simp [hstop]
  refine ⟨newline_notMem_of_word hline hword hnewline, ?_, ?_, ?_⟩ <;>
    rw [withoutReturn_eq hline hword]
  · rw [hline, h]
  · simp [htrim]
  · exact hends

theorem of_unindented (hopening : opening.toList = c :: ds) (hc : Text.isBlank c = false) :
    Written line false statement? := by
  have hcons : line.toList = c :: (ds ++ (cs ++ word)) := by rw [hline, hopening]; rfl
  have hspace : c ≠ ' ' := by
    rintro rfl
    exact absurd hc (by decide)
  have hends : ConfigReader.endsStanza line.toList = true := by
    rw [ConfigReader.endsStanza, hcons]
    simp [hspace]
  refine ⟨newline_notMem_of_word hline hword hnewline, ?_, ?_, ?_⟩ <;>
    rw [withoutReturn_eq hline hword]
  · rw [hline, h]
  · simp [hcons, Text.trim_cons hc]
  · exact hends

end Written

namespace Statement

variable {line rest rest' front last name keyword value seq ip mask argument : List Char}
  {verdict : Verdict}

theorem device?_eq_some (hrest : after? "Configuration of " line = some rest)
    (hname : before? ":" rest = some name) (hne : name ≠ []) : device? line = some (device name) := by
  simp [device?, hrest, hname, nonempty?_eq_some hne]

theorem verdict?_append (name : List Char) (v : Verdict) :
    verdict? (name ++ (' ' :: v.text.toList)) = some (name, v) := by
  cases v with
  | permit =>
    have hpermit : before? " permit" (name ++ (' ' :: Verdict.permit.text.toList)) = some name :=
      before?_append " permit" name
    rw [verdict?, hpermit]
  | deny =>
    have hpermit : before? " permit" (name ++ (' ' :: Verdict.deny.text.toList)) = none := by
      simp [before?, List.isSuffixOf?, Verdict.text, List.isPrefixOf?]
    have hdeny : before? " deny" (name ++ (' ' :: Verdict.deny.text.toList)) = some name :=
      before?_append " deny" name
    rw [verdict?, hpermit, hdeny]

theorem routeMap?_eq_some (hrest : after? "route-map RMap_" line = some rest)
    (hsplit : splitLastSpace? rest = some (front, last)) (hseq : digits? last = some seq)
    (hverdict : verdict? front = some (name, verdict)) (hne : name ≠ []) :
    routeMap? line = some (routeMap name verdict seq) := by
  simp [routeMap?, hrest, hsplit, hseq, hverdict, nonempty?_eq_some hne]

theorem keywordValue?_append (hkeyword : Text.IsWord keyword) (hvalue : value ≠ []) :
    keywordValue? (keyword ++ ' ' :: value) = some (keyword, value) := by
  have hword := word?_append hkeyword value
  have hrest : after? " " (' ' :: value) = some value := after?_append " " value
  simp [keywordValue?, hword, hrest, nonempty?_eq_some hvalue]

theorem prefixListValue?_append (hvalue : value ≠ []) :
    prefixListValue? ("ip address prefix-list ".toList ++ value) =
      some ("ip address prefix-list".toList, value) := by
  have hrest := after?_append "ip address prefix-list " value
  rw [prefixListValue?, hrest]
  change (nonempty? value).bind _ = _
  rw [nonempty?_eq_some hvalue]
  rfl

theorem prefixList?_eq_some (hrest : after? "ip prefix-list " line = some rest)
    (hname : word? rest = some (name, rest')) (hseq : after? " seq " rest' = some front)
    (hword : word? front = some (seq, last)) (hdigits : digits? seq = some seq)
    (hnetwork : after? " permit " last = some value) (hvalue : wholeWord? value = some value) :
    prefixList? line = some (prefixList name value) := by
  simp [prefixList?, hrest, hname, hseq, hword, hdigits, hnetwork, hvalue]

theorem action?_eq_some (hrest : after? " set " line = some rest)
    (hvalue : keywordValue? rest = some (keyword, value)) :
    action? line = some (action keyword value) := by
  simp [action?, hrest, hvalue]

theorem network?_eq_some (hrest : after? " network " line = some rest)
    (hip : word? rest = some (ip, rest')) (hmask : after? " mask " rest' = some mask)
    (hword : wholeWord? mask = some mask) : network? line = some (network ip mask) := by
  simp [network?, hrest, hip, hmask, hword]

theorem findSome?_keyword (k : NeighborKeyword) (argument ip : List Char) :
    NeighborKeyword.all.findSome? (fun keyword =>
      (after? keyword.text (k.text.toList ++ argument)).map fun argument =>
        neighbor ip keyword (Text.trim argument)) = some (neighbor ip k (Text.trim argument)) := by
  cases k <;> simp [NeighborKeyword.all, NeighborKeyword.text, after?, List.isPrefixOf?]

theorem neighbor?_append (hip : Text.IsWord ip) (k : NeighborKeyword) (argument : List Char) :
    neighbor? (" neighbor ".toList ++ (ip ++ ' ' :: (k.text.toList ++ argument))) =
      some (neighbor ip k (Text.trim argument)) := by
  have hword := word?_append hip (k.text.toList ++ argument)
  have hrest : after? " " (' ' :: (k.text.toList ++ argument)) = some (k.text.toList ++ argument) :=
    after?_append " " _
  rw [neighbor?, after?_append]
  simp only [Option.bind_eq_bind, Option.bind_some, hword, hrest]
  exact findSome?_keyword k argument ip

end Statement

end PathPolicy
