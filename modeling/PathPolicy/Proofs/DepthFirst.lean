import Mathlib.Logic.Relation
import PathPolicy.Proofs.Heights

/-! A depth-first search of a graph meets a successor that it is still visiting only on a cycle. So
it ends with a topological order, or with a node that can be reached from itself. -/

namespace PathPolicy

namespace Digraph

variable {g : Digraph} {fresh stack finished order : List Nat} {a b x : Nat}

/-- There is a walk of at least one edge. -/
def Reaches (g : Digraph) : Nat → Nat → Prop := Relation.TransGen fun a b => (a, b) ∈ g.edges

def Acyclic (g : Digraph) : Prop := ∀ a, ¬ g.Reaches a a

/-- Nodes are listed once, and the ends of edges are nodes. -/
structure WellFormed (g : Digraph) : Prop where
  nodup : g.nodes.Nodup
  ends : ∀ a b, (a, b) ∈ g.edges → a ∈ g.nodes ∧ b ∈ g.nodes

theorem acyclic_of_lt {β : Type} [Preorder β] (height : Nat → β)
    (h : ∀ a b, (a, b) ∈ g.edges → height b < height a) : g.Acyclic := by
  intro a ha
  have hlt : ∀ b, g.Reaches a b → height b < height a := by
    intro b hb
    induction hb with
    | single hab => exact h _ _ hab
    | tail _ hbc ih => exact (h _ _ hbc).trans ih
  exact lt_irrefl _ (hlt a ha)

/-- The part of the stack above the highest copy of a node. -/
def above (stack : List Nat) (x : Nat) : List Nat := stack.takeWhile (· ≠ x)

theorem above_cons_self (a : Nat) (stack : List Nat) : above (a :: stack) a = [] := by
  simp [above]

theorem above_cons_of_ne (h : a ≠ x) (stack : List Nat) :
    above (a :: stack) x = a :: above stack x := by
  simp [above, h]

theorem above_append_of_notMem {new : List Nat} (h : x ∉ new) (stack : List Nat) :
    above (new ++ stack) x = new ++ above stack x := by
  refine List.takeWhile_append_of_pos fun y hy => ?_
  simpa using fun he : y = x => h (he ▸ hy)

/-- The state of a search. A node on the stack that is neither fresh nor finished is still visited:
the search came from there to all that is above it. Its other successors are finished, or lead back
to it. -/
structure Visiting (g : Digraph) (fresh stack finished : List Nat) : Prop where
  nodup : fresh.Nodup
  covers : ∀ x ∈ g.nodes, x ∈ fresh ∨ x ∈ finished ∨ x ∈ stack
  forward : finished.Pairwise fun a b => (b, a) ∈ g.edges → g.Reaches a b
  closed : ∀ a ∈ finished, ∀ b, (a, b) ∈ g.edges → b ∈ finished ∨ g.Reaches b a
  reaches : ∀ x ∈ stack, x ∉ fresh → x ∉ finished → ∀ y ∈ above stack x, g.Reaches x y
  pending : ∀ x ∈ stack, x ∉ fresh → x ∉ finished → ∀ b, (x, b) ∈ g.edges →
    b ∈ finished ∨ b ∈ above stack x ∨ g.Reaches b x

namespace Visiting

/-- A successor of the node on top of the stack that is still visited leads back to the top. -/
theorem successor_cases (h : g.Visiting fresh (a :: stack) finished) (hw : g.WellFormed)
    (he : (a, b) ∈ g.edges) (hab : a ≠ b) : b ∈ fresh ∨ b ∈ finished ∨ g.Reaches b a := by
  rcases h.covers b (hw.ends a b he).2 with hb | hb | hb
  · exact .inl hb
  · exact .inr (.inl hb)
  · by_cases hfresh : b ∈ fresh
    · exact .inl hfresh
    by_cases hfinished : b ∈ finished
    · exact .inr (.inl hfinished)
    have hmem : a ∈ above (a :: stack) b := by
      rw [above_cons_of_ne hab]
      exact List.mem_cons_self
    exact .inr (.inr (h.reaches b hb hfresh hfinished a hmem))

theorem enter (h : g.Visiting fresh (a :: stack) finished) (hw : g.WellFormed)
    (hself : (a, a) ∉ g.edges) {entered : List Nat}
    (hentered : ∀ b, b ∈ entered ↔ (a, b) ∈ g.edges ∧ b ∈ fresh.erase a) :
    g.Visiting (fresh.erase a) (entered ++ a :: stack) finished := by
  have hmem_erase : ∀ {x}, x ≠ a → (x ∈ fresh.erase a ↔ x ∈ fresh) := fun hx =>
    List.mem_erase_of_ne hx
  have ha_entered : a ∉ entered := fun hm =>
    List.Nodup.not_mem_erase h.nodup ((hentered a).mp hm).2
  have habove_self : above (entered ++ a :: stack) a = entered := by
    rw [above_append_of_notMem ha_entered, above_cons_self, List.append_nil]
  -- a node that was visited before is below all entered nodes
  have hold : ∀ x ∈ entered ++ a :: stack, x ∉ fresh.erase a → x ≠ a →
      x ∈ a :: stack ∧ x ∉ fresh ∧
        above (entered ++ a :: stack) x = entered ++ above (a :: stack) x := by
    intro x hx hfresh hne
    have hx_entered : x ∉ entered := fun hm => hfresh ((hentered x).mp hm).2
    exact ⟨(List.mem_append.mp hx).resolve_left hx_entered, fun hf => hfresh ((hmem_erase hne).mpr hf),
      above_append_of_notMem hx_entered _⟩
  refine ⟨h.nodup.erase a, fun x hx => ?_, h.forward, h.closed, fun x hx hfresh hfin y hy => ?_,
    fun x hx hfresh hfin b he => ?_⟩
  · by_cases hxa : x = a
    · exact .inr (.inr (by simp [hxa]))
    · rcases h.covers x hx with hf | hf | hf
      · exact .inl ((hmem_erase hxa).mpr hf)
      · exact .inr (.inl hf)
      · exact .inr (.inr (List.mem_append_right _ hf))
  · by_cases hxa : x = a
    · subst x
      rw [habove_self] at hy
      exact .single ((hentered y).mp hy).1
    · obtain ⟨hx, hfresh, habove⟩ := hold x hx hfresh hxa
      have hto := h.reaches x hx hfresh hfin
      rw [habove] at hy
      rcases List.mem_append.mp hy with hy | hy
      · have hmem : a ∈ above (a :: stack) x := by
          rw [above_cons_of_ne fun hax => hxa hax.symm]
          exact List.mem_cons_self
        exact (hto a hmem).tail ((hentered y).mp hy).1
      · exact hto y hy
  · by_cases hxa : x = a
    · rw [hxa] at he
      rw [hxa, habove_self, hentered]
      have hne : b ≠ a := fun hba => hself (hba ▸ he)
      rcases h.successor_cases hw he hne.symm with hb | hb | hb
      · exact .inr (.inl ⟨he, (hmem_erase hne).mpr hb⟩)
      · exact .inl hb
      · exact .inr (.inr hb)
    · obtain ⟨hx, hfresh, habove⟩ := hold x hx hfresh hxa
      rw [habove]
      exact (h.pending x hx hfresh hfin b he).imp_right (Or.imp_left (List.mem_append_right _))

/-- The top of the stack is dropped once it is finished. -/
theorem pop (h : g.Visiting fresh (a :: stack) finished) (ha : a ∈ finished) :
    g.Visiting fresh stack finished := by
  have habove : ∀ x, x ∉ finished → above (a :: stack) x = a :: above stack x := fun x hx =>
    above_cons_of_ne (fun hax : a = x => hx (hax ▸ ha)) stack
  refine ⟨h.nodup, fun x hx => ?_, h.forward, h.closed, fun x hx hfresh hfin y hy => ?_,
    fun x hx hfresh hfin b he => ?_⟩
  · rcases h.covers x hx with hf | hf | hf
    · exact .inl hf
    · exact .inr (.inl hf)
    · rcases List.mem_cons.mp hf with rfl | hf
      · exact .inr (.inl ha)
      · exact .inr (.inr hf)
  · refine h.reaches x (List.mem_cons_of_mem a hx) hfresh hfin y ?_
    rw [habove x hfin]
    exact List.mem_cons_of_mem a hy
  · rcases h.pending x (List.mem_cons_of_mem a hx) hfresh hfin b he with hb | hb | hb
    · exact .inl hb
    · rw [habove x hfin] at hb
      rcases List.mem_cons.mp hb with rfl | hb
      · exact .inl ha
      · exact .inr (.inl hb)
    · exact .inr (.inr hb)

/-- All successors of the top of the stack that do not lead back to it are finished before the node
itself is. -/
theorem finish (h : g.Visiting fresh (a :: stack) finished) (hfresh : a ∉ fresh)
    (ha : a ∉ finished) : g.Visiting fresh (a :: stack) (a :: finished) := by
  have hsucc : ∀ b, (a, b) ∈ g.edges → b ∈ finished ∨ g.Reaches b a := by
    intro b he
    refine (h.pending a List.mem_cons_self hfresh ha b he).imp_right fun hb => hb.resolve_left ?_
    rw [above_cons_self]
    simp
  refine ⟨h.nodup, fun x hx => ?_, List.pairwise_cons.mpr ⟨fun b hb he => ?_, h.forward⟩,
    fun x hx b he => ?_, fun x hx hf hfin => ?_, fun x hx hf hfin b he => ?_⟩
  · exact (h.covers x hx).imp_right (Or.imp_left (List.mem_cons_of_mem a))
  · exact (h.closed b hb a he).resolve_left ha
  · refine Or.imp_left (List.mem_cons_of_mem a) ?_
    rcases List.mem_cons.mp hx with rfl | hx
    · exact hsucc b he
    · exact h.closed x hx b he
  · exact h.reaches x hx hf fun hm => hfin (List.mem_cons_of_mem a hm)
  · exact (h.pending x hx hf (fun hm => hfin (List.mem_cons_of_mem a hm)) b he).imp_left
      (List.mem_cons_of_mem a)

end Visiting

/-- How a search may end: with nothing left on the stack, or at a node on a cycle. -/
def Ends (g : Digraph) : Except Nat (List Nat × List Nat) → Prop
  | .ok r => g.Visiting r.1 [] r.2
  | .error a => g.Reaches a a

namespace Visiting

theorem search (h : g.Visiting fresh stack finished) (hw : g.WellFormed) :
    g.Ends (g.search fresh stack finished) := by
  induction fresh, stack, finished using search.induct g with
  | case1 fresh finished =>
    rw [Digraph.search]
    exact h
  | case2 fresh finished a rest ha hself =>
    rw [Digraph.search, if_pos ha, if_pos hself]
    exact .single (mem_successors.mp hself)
  | case3 fresh finished a rest ha hself entered ih =>
    rw [Digraph.search, if_pos ha, if_neg hself]
    refine ih (h.enter hw (fun he => hself (mem_successors.mpr he)) fun b => ?_)
    simp [entered, mem_successors]
  | case4 fresh finished a rest ha ih =>
    rw [Digraph.search, if_neg ha]
    refine ih ?_
    split
    · next hfin => exact h.pop hfin
    · next hfin => exact (h.finish ha hfin).pop List.mem_cons_self

theorem searchFrom {s : List Nat × List Nat} (h : g.Visiting s.1 [] s.2) (hw : g.WellFormed)
    (a : Nat) : g.Ends (g.searchFrom s a) := by
  rw [Digraph.searchFrom]
  split
  · next ha =>
    refine Visiting.search ⟨h.nodup, fun x hx => ?_, h.forward, h.closed, ?_, ?_⟩ hw
    · exact (h.covers x hx).imp_right (Or.imp_right (List.mem_cons_of_mem a))
    -- the only node on the stack is still fresh
    · intro x hx hfresh
      exact absurd ((List.mem_singleton.mp hx) ▸ ha) hfresh
    · intro x hx hfresh
      exact absurd ((List.mem_singleton.mp hx) ▸ ha) hfresh
  · exact h

theorem foldlM {s : List Nat × List Nat} (h : g.Visiting s.1 [] s.2) (hw : g.WellFormed)
    (xs : List Nat) : g.Ends (xs.foldlM g.searchFrom s) := by
  induction xs generalizing s with
  | nil => exact h
  | cons x xs ih =>
    have hx := h.searchFrom hw x
    rw [List.foldlM_cons]
    cases hs : g.searchFrom s x with
    | error a =>
      rw [hs] at hx
      exact hx
    | ok s' =>
      rw [hs] at hx
      exact ih hx

end Visiting

theorem reaches_of_backward? (h : order.Pairwise fun a b => (b, a) ∈ g.edges → g.Reaches a b)
    (hb : g.backward? order = some b) : g.Reaches b b := by
  induction order with
  | nil => simp [backward?] at hb
  | cons a later ih =>
    obtain ⟨hfirst, hrest⟩ := List.pairwise_cons.mp h
    rw [backward?] at hb
    split at hb
    · next c hc =>
      obtain rfl := Option.some.inj hb
      obtain ⟨hpred, hlater⟩ := List.mem_filter.mp (List.mem_of_getLast? hc)
      have he := mem_predecessors.mp hpred
      exact .head he (hfirst c (of_decide_eq_true hlater) he)
    · exact ih hrest hb

/-- A graph without a topological order is reported by a node on a cycle. -/
theorem reaches_of_topologicalOrder (hw : g.WellFormed) (h : g.topologicalOrder = .error a) :
    g.Reaches a a := by
  have hstart : g.Visiting g.nodes [] [] :=
    ⟨hw.nodup, fun x hx => .inl hx, .nil, by simp, by simp, by simp⟩
  have hends := Visiting.foldlM (s := (g.nodes, [])) hstart hw g.nodes
  rw [topologicalOrder, finishingOrder] at h
  cases hr : g.nodes.foldlM g.searchFrom (g.nodes, []) with
  | error b =>
    rw [hr] at h hends
    obtain rfl : b = a := Except.error.inj h
    exact hends
  | ok r =>
    rw [hr] at h hends
    simp only [Except.map] at h
    split at h
    · next b hb =>
      obtain rfl : b = a := Except.error.inj h
      exact reaches_of_backward? hends.forward hb
    · cases h

theorem exists_topologicalOrder (hg : g.Acyclic) (hw : g.WellFormed) :
    ∃ order, g.topologicalOrder = .ok order := by
  cases ho : g.topologicalOrder with
  | error a => exact absurd (reaches_of_topologicalOrder hw ho) (hg a)
  | ok order => exact ⟨order, rfl⟩

theorem WellFormed.addNode (hw : g.WellFormed) (a : Nat) : (g.addNode a).WellFormed := by
  refine ⟨?_, fun x y he => ?_⟩
  · rw [Digraph.addNode]
    split
    · exact hw.nodup
    · next ha => exact List.concat_eq_append ▸ hw.nodup.concat ha
  · rw [edges_addNode] at he
    simp only [mem_nodes_addNode]
    exact (hw.ends x y he).imp .inr .inr

theorem WellFormed.addEdge (hw : g.WellFormed) (a b : Nat) : (g.addEdge a b).WellFormed := by
  refine ⟨?_, fun x y he => ?_⟩
  · rw [nodes_addEdge]
    exact ((hw.addNode a).addNode b).nodup
  · simp only [mem_nodes_addEdge]
    rcases mem_edges_addEdge.mp he with he | he
    · obtain ⟨rfl, rfl⟩ := Prod.mk.inj he
      exact ⟨.inl (.inl rfl), .inl (.inr rfl)⟩
    · exact (hw.ends x y he).imp .inr .inr

theorem WellFormed.addEdges (hw : g.WellFormed) (es : List (Nat × Nat)) :
    (g.addEdges es).WellFormed := by
  induction es generalizing g with
  | nil => exact hw
  | cons e es ih => exact ih (hw.addEdge e.1 e.2)

end Digraph

theorem HopRanks.preferred_wellFormed (m : HopRanks) (d : RouterId) : (m.preferred d).WellFormed := by
  have hempty : Digraph.empty.WellFormed := ⟨.nil, by simp [Digraph.empty]⟩
  rw [preferred_eq]
  exact (hempty.addNode d).addEdges _

/-- A requirement has heights if its most preferred hops lead downwards. -/
theorem ResolvedRequirement.exists_heights {req : ResolvedRequirement} {d : RouterId} {β : Type}
    [Preorder β] (height : RouterId → β)
    (h : ∀ a b, (req.ranks.hops a).get? b = some 0 → height b < height a) :
    ∃ heights, req.heights req.ranks d = .ok heights := by
  have hacyclic : (req.ranks.preferred d).Acyclic :=
    Digraph.acyclic_of_lt height fun a b he => h a b (HopRanks.mem_edges_preferred.mp he)
  obtain ⟨order, ho⟩ :=
    Digraph.exists_topologicalOrder hacyclic (HopRanks.preferred_wellFormed req.ranks d)
  rw [ResolvedRequirement.heights, preferredHeights]
  split
  · exact ⟨_, rfl⟩
  · rw [ho]
    exact ⟨_, rfl⟩

end PathPolicy
