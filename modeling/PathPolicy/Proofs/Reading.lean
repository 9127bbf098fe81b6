import PathPolicy.Proofs.PolicyLines
import PathPolicy.Proofs.SilentLines

/-! Reading whole stanzas. A written stanza takes the reader from one state to another wherever it
stands in a text, so that what is read of a device is put together from its stanzas. -/

namespace PathPolicy

namespace ConfigReader

variable {s s' s'' : ConfigReader} {node : String} {lines lines' : List String}
  {cfg : ParsedConfig}

theorem readLines_append (s : ConfigReader) (n : Nat) (as bs : List (List Char)) :
    s.readLines n (as ++ bs) = match s.readLines n as with
      | .error e => .error e
      | .ok s' => s'.readLines (n + as.length) bs := by
  induction as generalizing s n with
  | nil => rfl
  | cons a as ih =>
    rw [List.cons_append, readLines, readLines]
    cases s.readLine n a with
    | error e => rfl
    | ok s' =>
      have hlength : n + 1 + as.length = n + (a :: as).length := by
        rw [List.length_cons]
        omega
      simp only [ih, hlength]

/-- The lines take the reader from `s` to `s'`, whatever their numbers are. -/
structure Reads (s : ConfigReader) (lines : List String) (s' : ConfigReader) : Prop where
  newline_notMem : ∀ l ∈ lines, '\n' ∉ l.toList
  readLines_eq : ∀ n, s.readLines n (lines.map fun l => Text.withoutReturn l.toList) = .ok s'

theorem Reads.nil (s : ConfigReader) : Reads s [] s := ⟨by simp, fun _ => rfl⟩

theorem Reads.append (h : Reads s lines s') (h' : Reads s' lines' s'') :
    Reads s (lines ++ lines') s'' := by
  refine ⟨fun l hl => ?_, fun n => ?_⟩
  · exact (List.mem_append.mp hl).elim (h.newline_notMem l) (h'.newline_notMem l)
  · rw [List.map_append, readLines_append, h.readLines_eq]
    exact h'.readLines_eq _

/-- If the lines of each element take the reader from one state of a family to another, the lines
of a list take it along the fold. -/
theorem Reads.foldl {α β : Type} {S : β → ConfigReader} {f : α → List String} {g : β → α → β}
    {as : List α} (h : ∀ a ∈ as, ∀ b, Reads (S b) (f a) (S (g b a))) (b : β) :
    Reads (S b) (as.flatMap f) (S (as.foldl g b)) := by
  induction as generalizing b with
  | nil => exact Reads.nil (S b)
  | cons a as ih =>
    have hhead := h a (by simp) b
    have htail := ih (fun a' ha' => h a' (by simp [ha'])) (g b a)
    exact hhead.append htail

theorem Reads.foldl_map {α β : Type} {S : β → ConfigReader} {f : α → String} {g : β → α → β}
    {as : List α} (h : ∀ a ∈ as, ∀ b, Reads (S b) [f a] (S (g b a))) (b : β) :
    Reads (S b) (as.map f) (S (as.foldl g b)) := by
  rw [List.map_eq_flatMap]
  exact Reads.foldl h b

/-- The state in which a line is taken in. -/
def entered (s : ConfigReader) (indented : Bool) : ConfigReader :=
  if indented then s else { s with inClause := false, inBgp := false }

@[simp] theorem entered_config (s : ConfigReader) (indented : Bool) :
    (s.entered indented).config = s.config := by
  cases indented <;> rfl

theorem leaveStanza_eq {line : String} {indented : Bool} {statement? : Option Statement}
    (h : Written line indented statement?) (s : ConfigReader) :
    s.leaveStanza (Text.withoutReturn line.toList) = s.entered indented := by
  rw [leaveStanza, h.endsStanza_eq, entered]
  cases indented <;> rfl

theorem reads_of_written {line : String} {indented : Bool} {statement : Statement}
    (h : Written line indented (some statement)) (hnode : s.device = some node)
    (haccept : ∀ n, (s.entered indented).accept n node statement = .ok s') : Reads s [line] s' := by
  have hline : ∀ n, s.readLine n (Text.withoutReturn line.toList) = .ok s' := by
    intro n
    have hvisible : (Text.trim (Text.withoutReturn line.toList)).isEmpty = false := by
      simpa using h.trim_ne_nil
    have hstep := haccept n
    rw [readLine, h.ofLine?_eq, hnode]
    cases statement <;> simpa [hvisible, leaveStanza_eq h, accept, enterDevice] using hstep
  exact ⟨by simpa using h.newline_notMem, fun n => by simp [readLines, hline]⟩

theorem reads_of_silent {line : String} {indented : Bool} (h : Written line indented none)
    (hnode : s.device = some node) : Reads s [line] (s.entered indented) := by
  have hline : ∀ n, s.readLine n (Text.withoutReturn line.toList) = .ok (s.entered indented) := by
    intro n
    have hvisible : (Text.trim (Text.withoutReturn line.toList)).isEmpty = false := by
      simpa using h.trim_ne_nil
    simp [readLine, h.ofLine?_eq, hnode, hvisible, leaveStanza_eq h]
  exact ⟨by simpa using h.newline_notMem, fun n => by simp [readLines, hline]⟩

/-- Between stanzas of the device `node`. -/
def idle (node : String) (cfg : ParsedConfig) : ConfigReader := ⟨cfg, some node, false, false⟩

theorem reads_silent {indented : Bool} {line : String} (h : Written line indented none) :
    Reads (idle node cfg) [line] (idle node cfg) := by
  have hread := reads_of_silent (s := idle node cfg) h rfl
  cases indented <;> exact hread

theorem reads_silent_all (h : ∀ l ∈ lines, ∃ indented, Written l indented none) :
    Reads (idle node cfg) lines (idle node cfg) := by
  induction lines with
  | nil => exact Reads.nil _
  | cons l lines ih =>
    obtain ⟨indented, hl⟩ := h l (by simp)
    exact (reads_silent hl).append (ih fun l' hl' => h l' (by simp [hl']))

theorem reads_stanzaEnd (hnode : s.device = some node) :
    Reads s [stanzaEnd] (idle node s.config) := by
  have hread := reads_of_silent written_stanzaEnd hnode
  rw [entered, hnode] at hread
  exact hread

theorem reads_stanza (hne : lines ≠ []) (h : Reads s lines s') (hnode : s'.device = some node) :
    Reads s (stanza lines) (idle node s'.config) := by
  have hstanza : stanza lines = lines ++ [stanzaEnd] := by
    cases lines with
    | nil => exact absurd rfl hne
    | cons l lines => rfl
  rw [hstanza]
  exact h.append (reads_stanzaEnd hnode)

theorem reads_silent_stanza (h : ∀ l ∈ lines, ∃ indented, Written l indented none) :
    Reads (idle node cfg) (stanza lines) (idle node cfg) := by
  cases lines with
  | nil => exact Reads.nil _
  | cons l lines => exact reads_stanza (by simp) (reads_silent_all h) rfl

end ConfigReader

end PathPolicy
