/-! Finite directed graphs, whose nodes and edges are listed in the order of their addition, and
their topological orders. -/

namespace PathPolicy

structure Digraph where
  nodes : List Nat
  edges : List (Nat × Nat)
  deriving DecidableEq, Repr

namespace Digraph

def empty : Digraph := ⟨[], []⟩

def addNode (g : Digraph) (a : Nat) : Digraph :=
  if a ∈ g.nodes then g else { g with nodes := g.nodes ++ [a] }

/-- An edge brings its ends with it, the source first. -/
def addEdge (g : Digraph) (a b : Nat) : Digraph :=
  let g := (g.addNode a).addNode b
  if (a, b) ∈ g.edges then g else { g with edges := g.edges ++ [(a, b)] }

def successors (g : Digraph) (a : Nat) : List Nat :=
  g.edges.filterMap fun e => if e.1 = a then some e.2 else none

def predecessors (g : Digraph) (b : Nat) : List Nat :=
  g.edges.filterMap fun e => if e.2 = b then some e.1 else none

/-- A depth-first search. The nodes on the stack are entered if they are still fresh, and finished
otherwise; the last finished node comes first. A node with an edge to itself ends the search. -/
def search (g : Digraph) (fresh stack finished : List Nat) : Except Nat (List Nat × List Nat) :=
  match stack with
  | [] => .ok (fresh, finished)
  | a :: rest =>
    if a ∈ fresh then
      if a ∈ g.successors a then .error a
      else
        let entered := (g.successors a).filter (· ∈ fresh.erase a)
        search g (fresh.erase a) (entered.reverse ++ a :: rest) finished
    else search g fresh rest (if a ∈ finished then finished else a :: finished)
termination_by (fresh.length, stack.length)
decreasing_by
  · next h _ =>
    have := List.length_pos_of_mem h
    exact Prod.Lex.left _ _ (by rw [List.length_erase_of_mem h]; omega)
  · exact Prod.Lex.right _ (by simp)

def searchFrom (g : Digraph) (s : List Nat × List Nat) (a : Nat) :
    Except Nat (List Nat × List Nat) :=
  if a ∈ s.1 then g.search s.1 [a] s.2 else .ok s

/-- The nodes by the end of their visit, the last one first. -/
def finishingOrder (g : Digraph) : Except Nat (List Nat) :=
  (g.nodes.foldlM g.searchFrom (g.nodes, [])).map (·.2)

/-- The source of an edge against the order. -/
def backward? (g : Digraph) : List Nat → Option Nat
  | [] => none
  | a :: later =>
    match ((g.predecessors a).filter (· ∈ later)).getLast? with
    | some b => some b
    | none => backward? g later

/-- All nodes, each before its successors, or else a node on a cycle. -/
def topologicalOrder (g : Digraph) : Except Nat (List Nat) :=
  match g.finishingOrder with
  | .error a => .error a
  | .ok order =>
    match g.backward? order with
    | some a => .error a
    | none => .ok order

/-- Adds one to the greatest height of the successors; a node without successors has height 0. -/
def heightOver (g : Digraph) (heights : List (Nat × Nat)) (a : Nat) : Nat :=
  match ((g.successors a).filterMap fun b => heights.lookup b).max? with
  | some h => h + 1
  | none => 0

/-- The length of the longest walk from each node, along a topological order. -/
def heights (g : Digraph) (order : List Nat) : List (Nat × Nat) :=
  order.foldr (fun a heights => (a, g.heightOver heights a) :: heights) []

end Digraph

end PathPolicy
