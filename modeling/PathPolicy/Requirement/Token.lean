import PathPolicy.Text.Characters

/-! The words, quoted names and punctuation of the requirement language, with their positions.
Blanks and comments, from `#` to the end of the line, stand between them. -/

namespace PathPolicy

/-- Lines and columns count from one; columns count characters. -/
structure Position where
  line : Nat
  column : Nat
  deriving DecidableEq, Repr

namespace Position

def start : Position := ⟨1, 1⟩

def after (p : Position) (c : Char) : Position :=
  if c = '\n' then ⟨p.line + 1, 1⟩ else ⟨p.line, p.column + 1⟩

def afterAll (p : Position) (cs : List Char) : Position := cs.foldl after p

def text (p : Position) : String :=
  let line := p.line
  let column := p.column
  s!"{line}:{column}"

end Position

/-- What the grammar asks for at some place. -/
inductive Expected
  | requirement
  | pathReq
  | protocol
  | destination
  | node
  | boolean
  | openParen
  | closeParen
  | openBracket
  | closeBracket
  | comma
  | commaOrClose
  deriving DecidableEq, Repr

namespace Expected

def text : Expected → String
  | requirement => "a requirement"
  | pathReq => "PathReq"
  | protocol => "a protocol"
  | destination => "a destination"
  | node => "a node"
  | boolean => "a boolean"
  | openParen => "("
  | closeParen => ")"
  | openBracket => "["
  | closeBracket => "]"
  | comma => ","
  | commaOrClose => ", or ]"

end Expected

inductive ParseError
  | unexpectedToken (position : Position) (expected : Expected) (found : String)
  | unexpectedEnd (expected : Expected)
  | unterminatedString (position : Position)
  | unknownKind (position : Position) (name : String)
  | unknownProtocol (position : Position) (name : String)
  | invalidBool (position : Position) (found : String)
  deriving DecidableEq, Repr

namespace ParseError

def message : ParseError → String
  | unexpectedToken position expected found =>
    let place := position.text
    let wanted := expected.text
    s!"Unexpected token at {place}: expected {wanted}, found {found}"
  | unexpectedEnd expected =>
    let wanted := expected.text
    s!"Unexpected end of input: expected {wanted}"
  | unterminatedString position =>
    let place := position.text
    s!"Unterminated string starting at {place}"
  | unknownKind position name =>
    let place := position.text
    s!"Unknown requirement kind at {place}: {name}"
  | unknownProtocol position name =>
    let place := position.text
    s!"Unknown protocol at {place}: {name}"
  | invalidBool position found =>
    let place := position.text
    s!"Invalid boolean at {place}: {found}"

end ParseError

inductive Token
  | word (s : String)
  | quoted (s : String)
  | openParen
  | closeParen
  | openBracket
  | closeBracket
  | comma
  deriving DecidableEq, Repr

structure Located where
  token : Token
  position : Position
  deriving DecidableEq, Repr

namespace Token

def text : Token → String
  | word s => s
  | quoted s => s!"'{s}'"
  | openParen => "("
  | closeParen => ")"
  | openBracket => "["
  | closeBracket => "]"
  | comma => ","

/-- A name is a word or a quoted text. -/
def name? : Token → Option String
  | word s => some s
  | quoted s => some s
  | _ => none

def isNameChar (c : Char) : Bool := Text.isAlphanumeric c || c = '_' || c = '.' || c = '-'

def isQuote (c : Char) : Bool := c = '\'' || c = '"'

def punctuation? : Char → Option Token
  | '(' => some openParen
  | ')' => some closeParen
  | '[' => some openBracket
  | ']' => some closeBracket
  | ',' => some comma
  | _ => none

theorem length_dropWhile_le (p : Char → Bool) (cs : List Char) :
    (cs.dropWhile p).length ≤ cs.length :=
  (List.dropWhile_suffix p).length_le

/-- The tokens of a text that begins at a position. -/
def scan (p : Position) (cs : List Char) : Except ParseError (List Located) :=
  match cs with
  | [] => .ok []
  | c :: rest =>
    if Text.isBlank c then scan (p.after c) rest
    else if c = '#' then
      scan (p.afterAll (c :: rest.takeWhile (· ≠ '\n'))) (rest.dropWhile (· ≠ '\n'))
    else match punctuation? c with
      | some token => (⟨token, p⟩ :: ·) <$> scan (p.after c) rest
      | none =>
        if isQuote c then
          let content := rest.takeWhile (· ≠ c)
          match _h : rest.dropWhile (· ≠ c) with
          | [] => .error (.unterminatedString p)
          | close :: after =>
            (⟨quoted (String.ofList content), p⟩ :: ·) <$>
              scan (p.afterAll (c :: content ++ [close])) after
        else if isNameChar c then
          let content := c :: rest.takeWhile isNameChar
          (⟨word (String.ofList content), p⟩ :: ·) <$>
            scan (p.afterAll content) (rest.dropWhile isNameChar)
        else .error (.unexpectedToken p .requirement (String.ofList [c]))
termination_by cs.length
decreasing_by
  · simp
  · have := length_dropWhile_le (· ≠ '\n') rest
    simp only [List.length_cons]; omega
  · simp
  · have := length_dropWhile_le (· ≠ c) rest
    rw [_h] at this
    simp only [List.length_cons] at *; omega
  · have := length_dropWhile_le isNameChar rest
    simp only [List.length_cons]; omega

def read (s : String) : Except ParseError (List Located) := scan .start s.toList

end Token

end PathPolicy
