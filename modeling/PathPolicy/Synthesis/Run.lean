import PathPolicy.Error
import PathPolicy.Policy.Model

/-! Synthesis of all groups of a store, and the merge of their policies into one model. -/

namespace PathPolicy

structure SynthesisOptions where
  /-- The groups are shared out to this many workers. -/
  threads : Nat
  allowSelfPaths : Bool
  /-- The upper half of all communities that are assigned to groups. -/
  communityAsn : Nat
  deriving DecidableEq, Repr

namespace SynthesisOptions

def sequential : SynthesisOptions := ⟨1, false, defaultCommunityAsn⟩

end SynthesisOptions

/-- BGP groups get the values 0, 1, ... in their order, and other groups no community. -/
def assignCommunities (asn : Nat) : Nat → List RequirementGroup → List (Option Community)
  | _, [] => []
  | value, g :: rest =>
    if g.protocol = .bgp then some ⟨asn, value⟩ :: assignCommunities asn (value + 1) rest
    else none :: assignCommunities asn value rest

/-- The elements of a list by worker, with their indices: worker `i` of `n` has those whose index
leaves `i` modulo `n`. -/
def shares {α : Type} (n : Nat) (xs : List α) : List (α × Nat) :=
  (List.range n).flatMap fun i => xs.zipIdx.filter (·.2 % n = i)

/-- A single worker goes through the elements in their order. The results of several ones are
collected worker by worker, up to the first error, and then put into the order of the elements. -/
def shareOut {ε α β : Type} (workers : Nat) (f : α → Except ε β) (xs : List α) :
    Except ε (List β) :=
  if workers ≤ 1 then xs.mapM f
  else do
    let results ← (shares workers xs).mapM fun x => (f x.1).map (·, x.2)
    return (sortBy (compareOn Prod.snd) results).map (·.1)

structure Synthesizer where
  topology : Topology
  options : SynthesisOptions

namespace Synthesizer

def resolver (s : Synthesizer) : Resolver := ⟨s.topology, s.options.allowSelfPaths⟩

/-- The groups of a store with their paths found in the topology. -/
def groups (s : Synthesizer) (store : Store) : Except Error (List RequirementGroup) :=
  (s.resolver.groups store).mapError .path

/-- At least one worker is asked for, but no more than there are groups. -/
def workers (s : Synthesizer) (groups : List RequirementGroup) : Nat :=
  min (max s.options.threads 1) groups.length

def groupPolicies (s : Synthesizer) (groups : List RequirementGroup) :
    Except Error (List GroupPolicy) :=
  let communities := assignCommunities s.options.communityAsn 0 groups
  let synthesizeGroup := fun g : RequirementGroup × Option Community =>
    g.1.synthesize s.topology g.2
  (shareOut (s.workers groups) synthesizeGroup (groups.zip communities)).mapError .synthesis

def mergeBundle (s : Synthesizer) (state : PolicyModel × List Conflict) (b : Bundle) :
    PolicyModel × List Conflict :=
  let (model, conflict) := state.1.merge s.topology b
  (model, state.2 ++ conflict.toList)

/-- The conflicts within a group come before those with earlier groups. -/
def mergeGroup (s : Synthesizer) (state : PolicyModel × List Conflict) (p : GroupPolicy) :
    PolicyModel × List Conflict :=
  p.bundles.foldl s.mergeBundle (state.1, state.2 ++ p.conflicts)

/-- The model of all that could be committed, with the conflicts. -/
def synthesizePartial (s : Synthesizer) (store : Store) :
    Except Error (PolicyModel × List Conflict) := do
  let groups ← s.groups store
  let policies ← s.groupPolicies groups
  let (model, conflicts) := policies.foldl s.mergeGroup (.empty, [])
  return (model.finalize, conflicts)

/-- The model, if there is no conflict. -/
def synthesize (s : Synthesizer) (store : Store) : Except Error PolicyModel := do
  let (model, conflicts) ← s.synthesizePartial store
  if conflicts.isEmpty then return model else throw (.conflicts conflicts)

end Synthesizer

/-- Synthesis with the default options, by one worker. -/
def synthesize (t : Topology) (store : Store) : Except Error PolicyModel :=
  Synthesizer.synthesize ⟨t, .sequential⟩ store

/-- Synthesis with the default options, by several workers. -/
def synthesizeParallel (t : Topology) (store : Store) (threads : Nat) : Except Error PolicyModel :=
  Synthesizer.synthesize ⟨t, { SynthesisOptions.sequential with threads }⟩ store

end PathPolicy
