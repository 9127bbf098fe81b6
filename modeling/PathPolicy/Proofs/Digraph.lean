import Mathlib.Data.List.Nodup
import Mathlib.Tactic.Common
import PathPolicy.Graph.Digraph

/-! A topological order lists all nodes once, each before its successors, and so the heights over it
fall along every edge. -/

namespace PathPolicy

namespace Digraph

variable {g : Digraph} {a b d : Nat}

theorem mem_successors : b ∈ g.successors a ↔ (a, b) ∈ g.edges := by
  simp [successors]

theorem mem_predecessors : a ∈ g.predecessors b ↔ (a, b) ∈ g.edges := by
  simp [predecessors]

theorem mem_nodes_addNode {x : Nat} : x ∈ (g.addNode a).nodes ↔ x = a ∨ x ∈ g.nodes := by
  by_cases ha : a ∈ g.nodes
  · rw [addNode, if_pos ha]
    exact ⟨.inr, fun h => h.elim (fun he => he ▸ ha) id⟩
  · simp [addNode, ha, or_comm]

theorem edges_addNode (g : Digraph) (a : Nat) : (g.addNode a).edges = g.edges := by
  by_cases ha : a ∈ g.nodes <;> simp [addNode, ha]

theorem mem_edges_addEdge {e : Nat × Nat} :
    e ∈ (g.addEdge a b).edges ↔ e = (a, b) ∨ e ∈ g.edges := by
  by_cases hm : (a, b) ∈ g.edges
  · simp only [addEdge, edges_addNode, hm, if_true]
    exact ⟨.inr, fun h => h.elim (fun he => he ▸ hm) id⟩
  · simp [addEdge, edges_addNode, hm, or_comm]

theorem nodes_addEdge (g : Digraph) (a b : Nat) :
    (g.addEdge a b).nodes = ((g.addNode a).addNode b).nodes := by
  unfold addEdge
  dsimp only
  split <;> rfl

theorem mem_nodes_addEdge {x : Nat} :
    x ∈ (g.addEdge a b).nodes ↔ (x = a ∨ x = b) ∨ x ∈ g.nodes := by
  rw [nodes_addEdge, mem_nodes_addNode, mem_nodes_addNode]
  tauto

def addEdges (g : Digraph) (es : List (Nat × Nat)) : Digraph :=
  es.foldl (fun g e => g.addEdge e.1 e.2) g

theorem mem_edges_addEdges {es : List (Nat × Nat)} {e : Nat × Nat} :
    e ∈ (g.addEdges es).edges ↔ e ∈ es ∨ e ∈ g.edges := by
  induction es generalizing g with
  | nil => simp [addEdges]
  | cons x es ih =>
    change e ∈ ((g.addEdge x.1 x.2).addEdges es).edges ↔ _
    rw [ih, mem_edges_addEdge, List.mem_cons]
    tauto

theorem mem_nodes_addEdges {es : List (Nat × Nat)} {x : Nat} :
    x ∈ (g.addEdges es).nodes ↔ (∃ e ∈ es, x = e.1 ∨ x = e.2) ∨ x ∈ g.nodes := by
  induction es generalizing g with
  | nil => simp [addEdges]
  | cons e es ih =>
    change x ∈ ((g.addEdge e.1 e.2).addEdges es).nodes ↔ _
    rw [ih, mem_nodes_addEdge, List.exists_mem_cons_iff, or_left_comm, ← or_assoc]

/-- What a search leaves: nothing that was fresh or on the stack is lost. -/
structure Searched (fresh stack finished : List Nat) (r : List Nat × List Nat) : Prop where
  nodup : finished.Nodup → r.2.Nodup
  finished_subset : finished ⊆ r.2
  stack_subset : stack ⊆ r.2
  covers : ∀ x ∈ fresh, x ∈ r.1 ∨ x ∈ r.2
  unentered : r.1 ⊆ fresh
  origin : ∀ x ∈ r.2, x ∈ finished ∨ x ∈ fresh ∨ x ∈ stack

theorem search_ok {fresh stack finished : List Nat} {r : List Nat × List Nat}
    (h : g.search fresh stack finished = .ok r) : Searched fresh stack finished r := by
  induction fresh, stack, finished using search.induct g with
  | case1 fresh finished =>
    rw [search] at h
    obtain rfl := Except.ok.inj h
    exact ⟨id, fun _ hx => hx, by simp, fun _ hx => .inl hx, fun _ hx => hx, fun _ hx => .inl hx⟩
  | case2 fresh finished a rest ha hself =>
    rw [search, if_pos ha, if_pos hself] at h
    simp at h
  | case3 fresh finished a rest ha hself entered ih =>
    rw [search, if_pos ha, if_neg hself] at h
    have hi := ih h
    have hentered : ∀ x ∈ entered.reverse, x ∈ fresh := by
      intro x hx
      have hm := (List.mem_filter.mp (List.mem_reverse.mp hx)).2
      exact List.mem_of_mem_erase (of_decide_eq_true hm)
    refine ⟨hi.nodup, hi.finished_subset, ?_, fun x hx => ?_, fun x hx => ?_, fun x hx => ?_⟩
    · exact fun x hx => hi.stack_subset (List.mem_append_right _ hx)
    · by_cases hxa : x = a
      · exact .inr (hi.stack_subset (List.mem_append_right _ (hxa ▸ List.mem_cons_self)))
      · exact hi.covers x ((List.mem_erase_of_ne hxa).mpr hx)
    · exact List.mem_of_mem_erase (hi.unentered hx)
    · rcases hi.origin x hx with hx | hx | hx
      · exact .inl hx
      · exact .inr (.inl (List.mem_of_mem_erase hx))
      · rcases List.mem_append.mp hx with hx | hx
        · exact .inr (.inl (hentered x hx))
        · exact .inr (.inr hx)
  | case4 fresh finished a rest ha ih =>
    rw [search, if_neg ha] at h
    have hi := ih h
    have hkeep : ∀ x ∈ finished, x ∈ if a ∈ finished then finished else a :: finished := by
      intro x hx
      split
      · exact hx
      · exact List.mem_cons_of_mem a hx
    have ha' : a ∈ if a ∈ finished then finished else a :: finished := by
      split
      · assumption
      · exact List.mem_cons_self
    refine ⟨fun hnd => hi.nodup ?_, fun x hx => hi.finished_subset (hkeep x hx), ?_, hi.covers,
      hi.unentered, fun x hx => ?_⟩
    · split
      · exact hnd
      · next hnot => exact List.nodup_cons.mpr ⟨hnot, hnd⟩
    · exact List.cons_subset.mpr ⟨hi.finished_subset ha', hi.stack_subset⟩
    · rcases hi.origin x hx with hx | hx | hx
      · split at hx
        · exact .inl hx
        · rcases List.mem_cons.mp hx with rfl | hx
          · exact .inr (.inr List.mem_cons_self)
          · exact .inl hx
      · exact .inr (.inl hx)
      · exact .inr (.inr (List.mem_cons_of_mem a hx))

/-- The nodes that are not fresh any more are finished. -/
structure Progress (g : Digraph) (s : List Nat × List Nat) : Prop where
  nodup : s.2.Nodup
  fresh_subset : s.1 ⊆ g.nodes
  finished_subset : s.2 ⊆ g.nodes
  covers : ∀ x ∈ g.nodes, x ∈ s.1 ∨ x ∈ s.2

theorem Progress.searchFrom {s r : List Nat × List Nat} (hs : g.Progress s) (ha : a ∈ g.nodes)
    (h : g.searchFrom s a = .ok r) : g.Progress r ∧ s.2 ⊆ r.2 ∧ a ∈ r.2 := by
  rw [Digraph.searchFrom] at h
  split at h
  · have hi := search_ok h
    refine ⟨⟨hi.nodup hs.nodup, fun x hx => hs.fresh_subset (hi.unentered hx), fun x hx => ?_,
      fun x hx => ?_⟩, hi.finished_subset, hi.stack_subset (by simp)⟩
    · rcases hi.origin x hx with hx | hx | hx
      · exact hs.finished_subset hx
      · exact hs.fresh_subset hx
      · exact (List.mem_singleton.mp hx) ▸ ha
    · rcases hs.covers x hx with hx | hx
      · exact hi.covers x hx
      · exact .inr (hi.finished_subset hx)
  · next hnot =>
    obtain rfl := Except.ok.inj h
    exact ⟨hs, fun _ hx => hx, (hs.covers a ha).resolve_left hnot⟩

theorem Progress.foldlM {s r : List Nat × List Nat} {xs : List Nat} (hs : g.Progress s)
    (hxs : xs ⊆ g.nodes) (h : xs.foldlM g.searchFrom s = .ok r) :
    g.Progress r ∧ s.2 ⊆ r.2 ∧ xs ⊆ r.2 := by
  induction xs generalizing s with
  | nil =>
    obtain rfl := Except.ok.inj h
    exact ⟨hs, fun _ hx => hx, by simp⟩
  | cons x xs ih =>
    rw [List.foldlM_cons] at h
    cases hx : g.searchFrom s x with
    | error e => rw [hx] at h; cases h
    | ok s' =>
      rw [hx] at h
      obtain ⟨hs', hsub, hm⟩ := hs.searchFrom (hxs List.mem_cons_self) hx
      obtain ⟨hr, hsub', hxs'⟩ := ih hs' (fun y hy => hxs (List.mem_cons_of_mem x hy)) h
      exact ⟨hr, fun y hy => hsub' (hsub hy), List.cons_subset.mpr ⟨hsub' hm, hxs'⟩⟩

theorem finishingOrder_ok {order : List Nat} (h : g.finishingOrder = .ok order) :
    order.Nodup ∧ ∀ x, x ∈ order ↔ x ∈ g.nodes := by
  rw [finishingOrder] at h
  cases hr : g.nodes.foldlM g.searchFrom (g.nodes, []) with
  | error e => rw [hr] at h; cases h
  | ok r =>
    rw [hr] at h
    obtain rfl := Except.ok.inj h
    have hstart : g.Progress (g.nodes, []) :=
      ⟨.nil, fun _ hx => hx, by simp, fun _ hx => .inl hx⟩
    obtain ⟨hp, _, hall⟩ := hstart.foldlM (fun _ hx => hx) hr
    exact ⟨hp.nodup, fun x => ⟨fun hx => hp.finished_subset hx, fun hx => hall hx⟩⟩

theorem backward?_eq_none_iff {order : List Nat} :
    g.backward? order = none ↔ order.Pairwise fun a b => (b, a) ∉ g.edges := by
  induction order with
  | nil => simp [backward?]
  | cons a later ih =>
    rw [backward?, List.pairwise_cons, ← ih]
    have hnone : ((g.predecessors a).filter (· ∈ later)).getLast? = none ↔
        ∀ b ∈ later, (b, a) ∉ g.edges := by
      rw [List.getLast?_eq_none_iff, List.filter_eq_nil_iff]
      simp only [mem_predecessors, decide_eq_true_eq]
      exact ⟨fun h b hb he => h b he hb, fun h b he hb => h b hb he⟩
    split
    · next b hb => simp [← hnone, hb]
    · next hb => simp [← hnone, hb]

/-- Each node once, and before its successors. -/
structure IsOrder (g : Digraph) (order : List Nat) : Prop where
  nodup : order.Nodup
  mem_iff : ∀ x, x ∈ order ↔ x ∈ g.nodes
  forward : order.Pairwise fun a b => (b, a) ∉ g.edges

theorem topologicalOrder_ok {order : List Nat} (h : g.topologicalOrder = .ok order) :
    g.IsOrder order := by
  rw [topologicalOrder] at h
  cases hf : g.finishingOrder with
  | error a => simp [hf] at h
  | ok found =>
    cases hb : g.backward? found with
    | some a => simp [hf, hb] at h
    | none =>
      simp only [hf, hb, Except.ok.injEq] at h
      subst found
      obtain ⟨hnd, hmem⟩ := finishingOrder_ok hf
      exact ⟨hnd, hmem, backward?_eq_none_iff.mp hb⟩

theorem heights_cons (g : Digraph) (a : Nat) (order : List Nat) :
    g.heights (a :: order) = (a, g.heightOver (g.heights order) a) :: g.heights order := rfl

theorem lookup_heights_cons {x : Nat} {order : List Nat} (h : b ≠ x) :
    (g.heights (x :: order)).lookup b = (g.heights order).lookup b := by
  rw [heights_cons, List.lookup_cons, beq_false_of_ne h]

theorem exists_height {order : List Nat} (ha : a ∈ order) :
    ∃ h, (g.heights order).lookup a = some h := by
  induction order with
  | nil => simp at ha
  | cons x order ih =>
    by_cases hx : a = x
    · subst x
      exact ⟨_, by rw [heights_cons, List.lookup_cons_self]⟩
    · rw [lookup_heights_cons hx]
      exact ih ((List.mem_cons.mp ha).resolve_left hx)

theorem mem_of_height {order : List Nat} {h : Nat} (hh : (g.heights order).lookup a = some h) :
    a ∈ order := by
  induction order with
  | nil => simp [heights] at hh
  | cons x order ih =>
    by_cases hx : a = x
    · exact hx ▸ List.mem_cons_self
    · rw [lookup_heights_cons hx] at hh
      exact List.mem_cons_of_mem x (ih hh)

theorem height_lt_length {order : List Nat} {h : Nat}
    (hh : (g.heights order).lookup a = some h) : h < order.length := by
  induction order generalizing a h with
  | nil => simp [heights] at hh
  | cons x order ih =>
    by_cases hx : a = x
    · subst x
      rw [heights_cons, List.lookup_cons_self, Option.some.injEq, heightOver] at hh
      split at hh
      · next k hk =>
        obtain ⟨b, _, hb⟩ := List.mem_filterMap.mp (List.max?_mem hk)
        have hlt := ih hb
        rw [List.length_cons]
        omega
      · rw [← hh, List.length_cons]
        omega
    · rw [lookup_heights_cons hx] at hh
      exact Nat.lt_succ_of_lt (ih hh)

theorem height_lt_heightOver {heights : List (Nat × Nat)} {h : Nat} (he : (a, b) ∈ g.edges)
    (hb : heights.lookup b = some h) : h < g.heightOver heights a := by
  have hm : h ∈ (g.successors a).filterMap fun b => heights.lookup b :=
    List.mem_filterMap.mpr ⟨b, mem_successors.mpr he, hb⟩
  rw [heightOver]
  split
  · next k hk => exact Nat.lt_succ_of_le ((List.max?_eq_some_iff.mp hk).2 h hm)
  · next hk => simp [List.max?_eq_none_iff.mp hk] at hm

theorem height_eq_zero {order : List Nat} (ha : a ∈ order) (hno : ∀ b, (a, b) ∉ g.edges) :
    (g.heights order).lookup a = some 0 := by
  have hsucc : g.successors a = [] :=
    List.eq_nil_iff_forall_not_mem.mpr fun b hb => hno b (mem_successors.mp hb)
  induction order with
  | nil => simp at ha
  | cons x order ih =>
    by_cases hx : a = x
    · subst x
      rw [heights_cons, List.lookup_cons_self, heightOver, hsucc]
      rfl
    · rw [lookup_heights_cons hx]
      exact ih ((List.mem_cons.mp ha).resolve_left hx)

theorem height_lt_of_edge {order : List Nat} {h h' : Nat} (hnd : order.Nodup)
    (hforward : order.Pairwise fun a b => (b, a) ∉ g.edges) (he : (a, b) ∈ g.edges) (hne : a ≠ b)
    (ha : (g.heights order).lookup a = some h) (hb : (g.heights order).lookup b = some h') :
    h' < h := by
  induction order with
  | nil => simp [heights] at ha
  | cons x order ih =>
    have hx := List.nodup_cons.mp hnd
    have hf := List.pairwise_cons.mp hforward
    by_cases hxa : a = x
    · subst x
      rw [lookup_heights_cons hne.symm] at hb
      rw [heights_cons, List.lookup_cons_self, Option.some.injEq] at ha
      exact ha ▸ height_lt_heightOver he hb
    · rw [lookup_heights_cons hxa] at ha
      by_cases hxb : b = x
      · subst x
        exact absurd he (hf.1 a (mem_of_height ha))
      · rw [lookup_heights_cons hxb] at hb
        exact ih hx.2 hf.2 ha hb

theorem heightOver_congr {hs hs' : List (Nat × Nat)}
    (h : ∀ b, (a, b) ∈ g.edges → hs.lookup b = hs'.lookup b) :
    g.heightOver hs a = g.heightOver hs' a := by
  have hmap : (g.successors a).filterMap (fun b => hs.lookup b) =
      (g.successors a).filterMap fun b => hs'.lookup b :=
    List.filterMap_congr fun b hb => h b (mem_successors.mp hb)
  rw [heightOver, heightOver, hmap]

/-- The heights over the whole order, and not just those over its end, give the height of a node. -/
theorem lookup_heights {order : List Nat} (hnd : order.Nodup)
    (hforward : order.Pairwise fun a b => (b, a) ∉ g.edges) (hself : (a, a) ∉ g.edges)
    (ha : a ∈ order) :
    (g.heights order).lookup a = some (g.heightOver (g.heights order) a) := by
  induction order with
  | nil => simp at ha
  | cons x order ih =>
    obtain ⟨hx, hnd⟩ := List.nodup_cons.mp hnd
    obtain ⟨hxf, hforward⟩ := List.pairwise_cons.mp hforward
    have hlater : ∀ y, (∀ b, (y, b) ∈ g.edges → b ≠ x) →
        g.heightOver (g.heights (x :: order)) y = g.heightOver (g.heights order) y := fun y hy =>
      heightOver_congr fun b hb => lookup_heights_cons (hy b hb)
    by_cases hax : a = x
    · subst x
      rw [hlater a fun b hb hba => hself (hba ▸ hb), heights_cons, List.lookup_cons_self]
    · have ha := (List.mem_cons.mp ha).resolve_left hax
      rw [hlater a fun b hb hbx => hxf a ha (hbx ▸ hb), lookup_heights_cons hax]
      exact ih hnd hforward ha

theorem heightOver_le {hs : List (Nat × Nat)} {k : Nat}
    (h : ∀ b h, (a, b) ∈ g.edges → hs.lookup b = some h → h ≤ k) : g.heightOver hs a ≤ k + 1 := by
  rw [heightOver]
  split
  · next n hn =>
    obtain ⟨b, hb, hget⟩ := List.mem_filterMap.mp (List.max?_mem hn)
    exact Nat.succ_le_succ (h b n (mem_successors.mp hb) hget)
  · exact Nat.zero_le _

end Digraph

end PathPolicy
