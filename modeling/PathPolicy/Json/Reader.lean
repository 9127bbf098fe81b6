import PathPolicy.Json.Token

/-! Reading a JSON text, one token after the other. -/

namespace PathPolicy.Json

/-- A container that is still open, with its contents so far in reverse. -/
inductive Frame
  | elements (done : List Json)
  | members (done : List (Option String × Json))
  | valueOf (key : Option String) (done : List (Option String × Json))

/-- What may come next. -/
inductive Expect
  | value
  | valueOrClose
  | key
  | keyOrClose
  | colon (key : Option String)
  | separator
  | nothing (result : Json)

structure ReadState where
  expect : Expect
  frames : List Frame

namespace ReadState

def start : ReadState := ⟨.value, []⟩

/-- Puts a finished value into the innermost open container. -/
def finish (v : Json) : List Frame → Option ReadState
  | [] => some ⟨.nothing v, []⟩
  | .elements done :: frames => some ⟨.separator, .elements (v :: done) :: frames⟩
  | .valueOf key done :: frames => some ⟨.separator, .members ((key, v) :: done) :: frames⟩
  | .members _ :: _ => none

def value? (frames : List Frame) : Token → Option ReadState
  | .null => finish .null frames
  | .bool b => finish (.bool b) frames
  | .number n => finish (.number n) frames
  | .string s => finish (.string s) frames
  | .openArray => some ⟨.valueOrClose, .elements [] :: frames⟩
  | .openObject => some ⟨.keyOrClose, .members [] :: frames⟩
  | _ => none

def close? : Token → List Frame → Option ReadState
  | .closeArray, .elements done :: frames => finish (.array done.reverse) frames
  | .closeObject, .members done :: frames => finish (.object done.reverse) frames
  | _, _ => none

def step? (s : ReadState) (token : Token) : Option ReadState :=
  match s.expect, token, s.frames with
  | .value, _, frames => value? frames token
  | .valueOrClose, .closeArray, frames => close? .closeArray frames
  | .valueOrClose, _, frames => value? frames token
  | .key, .string k, frames => some ⟨.colon k, frames⟩
  | .keyOrClose, .string k, frames => some ⟨.colon k, frames⟩
  | .keyOrClose, .closeObject, frames => close? .closeObject frames
  | .colon k, .colon, .members done :: frames => some ⟨.value, .valueOf k done :: frames⟩
  | .separator, .comma, .elements done :: frames => some ⟨.value, .elements done :: frames⟩
  | .separator, .comma, .members done :: frames => some ⟨.key, .members done :: frames⟩
  | .separator, _, frames => close? token frames
  | _, _, _ => none

def result? (s : ReadState) : Option Json :=
  match s.expect with
  | .nothing v => some v
  | _ => none

end ReadState

def read? (s : String) : Option Json := do
  let tokens ← Token.read? s.toList
  let state ← tokens.foldlM ReadState.step? ReadState.start
  state.result?

end PathPolicy.Json
