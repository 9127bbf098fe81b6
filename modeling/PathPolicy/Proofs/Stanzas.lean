import PathPolicy.Proofs.Reading

/-! What is read of the stanzas of a device: one clause for each written clause, one entry for each
network of a prefix list, and one BGP process with its sessions. -/

namespace PathPolicy

open ConfigReader

theorem foldl_reverse_append {α β : Type} (f : α → List β) (as : List α) (bs : List β) :
    as.foldl (fun bs a => (f a).reverse ++ bs) bs = (as.flatMap f).reverse ++ bs := by
  induction as generalizing bs with
  | nil => rfl
  | cons a as ih => simp [ih]

namespace RouteMapConfig

/-- The neighbor and the direction that the name of a route map of the router stands for. -/
def use? (router : String) (m : RouteMapConfig) : Option (String × Direction) :=
  (Statement.after? "RMap_" m.name.toList).bind (splitRouteMapName? router)

theorem use?_eq_some {router neighbor : String} {d : Direction} {m : RouteMapConfig}
    (h : m.name = routeMapName router neighbor d) : m.use? router = some (neighbor, d) := by
  rw [use?, h, toList_routeMapName, Statement.after?_append]
  exact splitRouteMapName?_routeMapBody router neighbor d

end RouteMapConfig

namespace ClauseConfig

/-- The names of prefix lists are words, and the number fits its type. -/
structure Legible (c : ClauseConfig) : Prop where
  seq_lt : c.seq < Text.limit64
  exists_conditions : ∃ ks : List Condition, c.conditions = ks.map ofCondition ∧
    ∀ k ∈ ks, ∀ l ∈ k.prefixList?, Text.IsWord l.name.toList
  exists_actions : ∃ as : List SetAction, c.actions = as.map ofAction

def parsed (router neighbor : String) (d : Direction) (c : ClauseConfig) : ParsedClause :=
  ⟨router, neighbor, d, c.verdict, c.seq, c.conditions, c.actions⟩

variable {router neighbor name : String} {d : Direction} {c : ClauseConfig} (cfg : ParsedConfig)

/-- Inside of a clause. -/
def inside (router : String) (cfg : ParsedConfig) (k : ParsedClause) : ConfigReader :=
  ⟨{ cfg with clauses := k :: cfg.clauses }, some router, true, false⟩

theorem reads_opening (hname : name = routeMapName router neighbor d) (hrouter : '\n' ∉ router.toList)
    (hneighbor : '\n' ∉ neighbor.toList) (hseq : c.seq < Text.limit64) :
    Reads (idle router cfg) [s!"route-map {name} {c.verdict.text} {c.seq}"]
      (inside router cfg ⟨router, neighbor, d, c.verdict, c.seq, [], []⟩) := by
  have hlist : name.toList = "RMap_".toList ++ routeMapBody router neighbor d := by
    rw [hname, toList_routeMapName]
  have hwritten := written_opening hlist (by simp [routeMapBody])
    (newline_notMem_routeMapBody hrouter hneighbor d) c.verdict c.seq
  refine reads_of_written hwritten rfl fun n => ?_
  have hnumber : number Text.limit64 n (Nat.toDigits 10 c.seq) = .ok c.seq := by
    rw [number, Text.unsigned?_toDigits hseq]
  simp only [accept, splitRouteMapName?_routeMapBody, hnumber]
  rfl

theorem reads_conditions (router : String) {ks : List Condition}
    (h : ∀ k ∈ ks, ∀ l ∈ k.prefixList?, Text.IsWord l.name.toList) (k : ParsedClause) :
    Reads (inside router cfg k) ((ks.map ofCondition).map conditionLine)
      (inside router cfg { k with conditions := k.conditions ++ ks.map ofCondition }) := by
  induction ks generalizing k with
  | nil => simpa using Reads.nil _
  | cons a ks ih =>
    have hline : Reads (inside router cfg k) [conditionLine (ofCondition a)]
        (inside router cfg { k with conditions := k.conditions ++ [ofCondition a] }) := by
      refine reads_of_written (written_conditionLine a (h a (by simp))) rfl fun n => ?_
      simp only [accept, String.ofList_toList]
      rfl
    have hrest := ih (fun a' ha' => h a' (by simp [ha']))
      { k with conditions := k.conditions ++ [ofCondition a] }
    simpa using hline.append hrest

theorem reads_actions (router : String) (as : List SetAction) (k : ParsedClause) :
    Reads (inside router cfg k) ((as.map ofAction).map actionLine)
      (inside router cfg { k with actions := k.actions ++ as.map ofAction }) := by
  induction as generalizing k with
  | nil => simpa using Reads.nil _
  | cons a as ih =>
    have hline : Reads (inside router cfg k) [actionLine (ofAction a)]
        (inside router cfg { k with actions := k.actions ++ [ofAction a] }) := by
      refine reads_of_written (written_actionLine a) rfl fun n => ?_
      simp only [accept, String.ofList_toList]
      rfl
    have hrest := ih { k with actions := k.actions ++ [ofAction a] }
    simpa using hline.append hrest

theorem reads_lines (hname : name = routeMapName router neighbor d) (hrouter : '\n' ∉ router.toList)
    (hneighbor : '\n' ∉ neighbor.toList) (h : c.Legible) :
    Reads (idle router cfg) (c.lines name)
      (idle router { cfg with clauses := c.parsed router neighbor d :: cfg.clauses }) := by
  obtain ⟨ks, hks, hwords⟩ := h.exists_conditions
  obtain ⟨as, has⟩ := h.exists_actions
  have hopening := reads_opening cfg hname hrouter hneighbor h.seq_lt
  have hconditions := reads_conditions cfg router hwords
    ⟨router, neighbor, d, c.verdict, c.seq, [], []⟩
  have hactions := reads_actions cfg router as
    ⟨router, neighbor, d, c.verdict, c.seq, ks.map ofCondition, []⟩
  rw [← hks] at hconditions hactions
  rw [← has] at hactions
  have hstanza := reads_stanza (by simp) ((hopening.append hconditions).append hactions) rfl
  exact hstanza

end ClauseConfig

namespace RouteMapConfig

variable {router neighbor : String} {d : Direction} {m : RouteMapConfig} (cfg : ParsedConfig)

def parsed (router : String) (m : RouteMapConfig) : List ParsedClause :=
  match m.use? router with
  | some (neighbor, d) => m.clauses.map (·.parsed router neighbor d)
  | none => []

theorem parsed_eq (h : m.name = routeMapName router neighbor d) :
    m.parsed router = m.clauses.map (·.parsed router neighbor d) := by
  rw [parsed, use?_eq_some h]

structure Legible (router : String) (m : RouteMapConfig) : Prop where
  exists_use : ∃ neighbor d, m.name = routeMapName router neighbor d ∧ '\n' ∉ neighbor.toList
  clauses : ∀ c ∈ m.clauses, c.Legible

theorem reads_lines (h : m.Legible router) (hrouter : '\n' ∉ router.toList) :
    Reads (idle router cfg) m.lines
      (idle router { cfg with clauses := (m.parsed router).reverse ++ cfg.clauses }) := by
  obtain ⟨neighbor, d, hname, hneighbor⟩ := h.exists_use
  have hclause : ∀ c ∈ m.clauses, ∀ ks, Reads (idle router { cfg with clauses := ks })
      (c.lines m.name) (idle router { cfg with clauses := c.parsed router neighbor d :: ks }) :=
    fun c hc ks => ClauseConfig.reads_lines _ hname hrouter hneighbor (h.clauses c hc)
  have hread := Reads.foldl (S := fun ks => idle router { cfg with clauses := ks }) hclause
    cfg.clauses
  rw [List.foldl_flip_cons_eq_append, ← parsed_eq hname] at hread
  exact hread

theorem reads_flatMap_lines {ms : List RouteMapConfig} (h : ∀ m ∈ ms, m.Legible router)
    (hrouter : '\n' ∉ router.toList) :
    Reads (idle router cfg) (ms.flatMap (·.lines))
      (idle router { cfg with clauses := (ms.flatMap (·.parsed router)).reverse ++ cfg.clauses }) := by
  have hread := Reads.foldl (S := fun ks => idle router { cfg with clauses := ks })
    (g := fun ks m => (m.parsed router).reverse ++ ks)
    (fun m hm ks => reads_lines { cfg with clauses := ks } (h m hm) hrouter) cfg.clauses
  rw [foldl_reverse_append] at hread
  exact hread

end RouteMapConfig

namespace PrefixList

variable (router : String) (cfg : ParsedConfig)

def parsed (router : String) (l : PrefixList) : List ParsedPrefixList :=
  l.networks.map fun network => ⟨router, l.name, network⟩

theorem reads_lines {l : PrefixList} (h : Text.IsWord l.name.toList) :
    Reads (idle router cfg) l.lines
      (idle router { cfg with prefixLists := (l.parsed router).reverse ++ cfg.prefixLists }) := by
  have hline : ∀ a ∈ l.networks.zipIdx, ∀ es, Reads (idle router { cfg with prefixLists := es })
      [s!"ip prefix-list {l.name} seq {(a.2 + 1) * 5} permit {a.1.text}"]
        (idle router { cfg with prefixLists := ⟨router, l.name, a.1⟩ :: es }) := by
    intro a _ es
    refine reads_of_written (written_line h ((a.2 + 1) * 5) a.1) rfl fun n => ?_
    have hnetwork : address n a.1.text.toList = .ok a.1 := by
      rw [address, String.ofList_toList, Address.parse_text]
    simp only [accept, String.ofList_toList, hnetwork]
    rfl
  have hread := Reads.foldl_map (S := fun es => idle router { cfg with prefixLists := es }) hline
    cfg.prefixLists
  have hnetworks : l.networks.zipIdx.map (fun a => (⟨router, l.name, a.1⟩ : ParsedPrefixList)) =
      l.parsed router := by
    have hfst : l.networks.zipIdx.map Prod.fst = l.networks := List.zipIdx_map_fst 0 l.networks
    rw [parsed]
    conv => rhs; rw [← hfst, List.map_map]
    rfl
  rw [List.foldl_flip_cons_eq_append, hnetworks] at hread
  exact hread

theorem reads_stanzaOf {ls : List PrefixList} (h : ∀ l ∈ ls, Text.IsWord l.name.toList) :
    Reads (idle router cfg) (stanzaOf ls) (idle router
      { cfg with prefixLists := (ls.flatMap (·.parsed router)).reverse ++ cfg.prefixLists }) := by
  have hread := Reads.foldl (S := fun es => idle router { cfg with prefixLists := es })
    (g := fun es l => (l.parsed router).reverse ++ es)
    (fun l hl es => reads_lines router { cfg with prefixLists := es } (h l hl)) cfg.prefixLists
  rw [foldl_reverse_append] at hread
  rw [stanzaOf]
  split
  · next hnil => simpa [List.isEmpty_iff.mp hnil] using Reads.nil _
  · exact hread.append (reads_stanzaEnd rfl)

end PrefixList

end PathPolicy
