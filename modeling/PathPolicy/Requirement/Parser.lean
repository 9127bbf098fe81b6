import PathPolicy.Requirement
import PathPolicy.Requirement.Token

/-! The grammar of the requirement language. Requirements follow each other with any number of
commas between them, and one pair of brackets may enclose them all:

    PathReq(protocol, destination, [node, ...], exact)
    PathOrderReq(protocol, destination, [PathReq, ...], exact)
    ECMPPathsReq(protocol, destination, [PathReq, ...], exact)
    KConnectedPathsReq(protocol, destination, [PathReq, ...], exact) -/

namespace PathPolicy

/-- Reads a value from the front of a token list, and takes at least one token. -/
structure Phrase (α : Type) where
  run : List Located → Except ParseError (α × List Located)
  shorter : ∀ {ts a rest}, run ts = .ok (a, rest) → rest.length < ts.length

namespace Phrase

variable {α β : Type}

def unexpected (t : Located) (expected : Expected) : ParseError :=
  .unexpectedToken t.position expected t.token.text

def token (expected : Expected) (f : Located → Except ParseError α) : Phrase α where
  run
    | [] => .error (.unexpectedEnd expected)
    | t :: ts => (f t).map (·, ts)
  shorter {ts a rest} h := by
    cases ts with
    | nil => cases h
    | cons t ts =>
      cases hf : f t <;> simp_all [Except.map]

def andThen (p : Phrase α) (f : α → Phrase β) : Phrase β where
  run ts :=
    match p.run ts with
    | .error e => .error e
    | .ok (a, rest) => (f a).run rest
  shorter {ts b rest} h := by
    split at h
    · cases h
    · next a mid hp => exact Nat.lt_trans ((f a).shorter h) (p.shorter hp)

def map (f : α → β) (p : Phrase α) : Phrase β where
  run ts := (p.run ts).map fun r => (f r.1, r.2)
  shorter {ts b rest} h := by
    cases hp : p.run ts with
    | error e => simp [hp, Except.map] at h
    | ok r =>
      simp only [hp, Except.map, Except.ok.injEq, Prod.mk.injEq] at h
      exact h.2 ▸ p.shorter (a := r.1) hp

def expect (t : Token) (expected : Expected) : Phrase Unit :=
  token expected fun l => if l.token = t then .ok () else .error (unexpected l expected)

def name (expected : Expected) : Phrase String :=
  token expected fun l =>
    match l.token.name? with
    | some s => .ok s
    | none => .error (unexpected l expected)

def protocol : Phrase Protocol :=
  token .protocol fun l =>
    match l.token.name? with
    | some s =>
      match Protocol.parse s with
      | .ok p => .ok p
      | .error _ => .error (.unknownProtocol l.position s)
    | none => .error (unexpected l .protocol)

def flag? : String → Option Bool
  | "True" => some true
  | "true" => some true
  | "False" => some false
  | "false" => some false
  | _ => none

def boolean : Phrase Bool :=
  token .boolean fun l =>
    match l.token.name? with
    | some s =>
      match flag? s with
      | some b => .ok b
      | none => .error (.invalidBool l.position s)
    | none => .error (unexpected l .boolean)

/-- The items up to the closing bracket, separated by commas. The last one may be followed by a
comma. -/
def items (item : Phrase α) (ts : List Located) : Except ParseError (List α × List Located) :=
  match ts with
  | [] => .error (.unexpectedEnd .closeBracket)
  | t :: ts =>
    if t.token = .closeBracket then .ok ([], ts)
    else match _h : item.run (t :: ts) with
      | .error e => .error e
      | .ok (_, []) => .error (.unexpectedEnd .closeBracket)
      | .ok (a, u :: us) =>
        if u.token = .comma then (items item us).map fun r => (a :: r.1, r.2)
        else if u.token = .closeBracket then .ok ([a], us)
        else .error (unexpected u .commaOrClose)
termination_by ts.length
decreasing_by
  have := item.shorter _h
  simp only [List.length_cons] at *; omega

theorem length_lt_of_items (item : Phrase α) {ts rest : List Located} {as : List α}
    (h : items item ts = .ok (as, rest)) : rest.length < ts.length := by
  induction hn : ts.length using Nat.strongRecOn generalizing ts as with
  | ind n ih =>
    subst hn
    unfold items at h
    split at h
    · cases h
    · next t ts =>
      split at h
      · cases h; simp
      · split at h
        · cases h
        · cases h
        · next a u us hrun =>
          have hlt := item.shorter hrun
          simp only [List.length_cons] at hlt ⊢
          split at h
          · cases hr : items item us with
            | error e => simp [hr, Except.map] at h
            | ok r =>
              simp only [hr, Except.map, Except.ok.injEq, Prod.mk.injEq] at h
              have hitems : items item us = .ok (r.1, rest) := by rw [hr, ← h.2]
              have := ih us.length (by simp only [List.length_cons]; omega) hitems rfl
              omega
          · split at h
            · cases h; omega
            · cases h

def list (item : Phrase α) : Phrase (List α) :=
  (expect .openBracket .openBracket).andThen fun _ => ⟨items item, length_lt_of_items item⟩

/-- The arguments of a requirement, whose third one is a list of items. -/
def arguments (item : Phrase α) (make : Protocol → String → List α → Bool → β) : Phrase β :=
  (expect .openParen .openParen).andThen fun _ =>
  protocol.andThen fun p =>
  (expect .comma .comma).andThen fun _ =>
  (name .destination).andThen fun destination =>
  (expect .comma .comma).andThen fun _ =>
  (list item).andThen fun items =>
  (expect .comma .comma).andThen fun _ =>
  boolean.andThen fun exact =>
  (expect .closeParen .closeParen).map fun _ => make p destination items exact

def pathArguments : Phrase PathReq := arguments (name .node) PathReq.mk

/-- The keyword of a member, which may be quoted. -/
def pathKeyword : Phrase Unit :=
  token .pathReq fun l =>
    if l.token.name? = some "PathReq" then .ok () else .error (unexpected l .pathReq)

def pathReq : Phrase PathReq := pathKeyword.andThen fun _ => pathArguments

def setArguments : Phrase PathSetReq := arguments pathReq PathSetReq.mk

def kind : Phrase RequirementKind :=
  token .requirement fun l =>
    match l.token with
    | .word s =>
      match RequirementKind.ofKeyword? s with
      | some k => .ok k
      | none => .error (.unknownKind l.position s)
    | _ => .error (unexpected l .requirement)

def requirement : Phrase Requirement :=
  kind.andThen fun
    | .path => pathArguments.map .path
    | .order => setArguments.map .order
    | .ecmp => setArguments.map .ecmp
    | .kConnected => setArguments.map .kConnected

end Phrase

namespace Requirement

def parseTokens (ts : List Located) : Except ParseError (List Requirement) :=
  match ts with
  | [] => .ok []
  | t :: ts =>
    if t.token = .comma then parseTokens ts
    else match _h : Phrase.requirement.run (t :: ts) with
      | .error e => .error e
      | .ok (r, rest) => (r :: ·) <$> parseTokens rest
termination_by ts.length
decreasing_by
  · simp
  · exact Phrase.requirement.shorter _h

/-- Drops the brackets around the whole input. -/
def withoutBrackets : List Located → List Located
  | [] => []
  | t :: ts =>
    if t.token = .openBracket && ts.getLast?.map (·.token) = some .closeBracket then ts.dropLast
    else t :: ts

def parse (s : String) : Except ParseError (List Requirement) := do
  parseTokens (withoutBrackets (← Token.read s))

end Requirement

end PathPolicy
