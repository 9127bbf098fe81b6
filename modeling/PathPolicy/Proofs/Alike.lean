import PathPolicy.Proofs.Commitments

/-! Requirements that differ in their place in the store only. They ask for the same, under other
references. -/

namespace PathPolicy

/-- The same intents, asked by another requirement. -/
def RequirementIntents.rename (o : RequirementRef) (r : RequirementIntents) : RequirementIntents :=
  { r with intents := r.intents.map fun i => { i with origin := o } }

namespace ResolvedRequirement

/-- What a requirement says, apart from its reference. -/
def demand (req : ResolvedRequirement) : RequirementKind × List (List RouterId) :=
  (req.kind, req.paths)

end ResolvedRequirement

/-- The groups have the same demands, in any order and any number of times. -/
structure RequirementGroup.Alike (g g' : RequirementGroup) : Prop where
  protocol : g.protocol = g'.protocol
  destination : g.destination = g'.destination
  demands : ∀ d, d ∈ g.requirements.map (·.demand) ↔ d ∈ g'.requirements.map (·.demand)

variable {t : Topology} {g g' : RequirementGroup} {req req' : ResolvedRequirement}
  {a : RouterId} {o : RequirementRef}

namespace RequirementGroup.Alike

theorem symm (h : g.Alike g') : g'.Alike g :=
  ⟨h.protocol.symm, h.destination.symm, fun d => (h.demands d).symm⟩

theorem exists_demand (h : g.Alike g') (hreq : req ∈ g.requirements) :
    ∃ req' ∈ g'.requirements, req'.demand = req.demand :=
  List.mem_map.mp ((h.demands req.demand).mp (List.mem_map_of_mem hreq))

theorem requirements_ne_nil (h : g.Alike g') (hne : g.requirements ≠ []) :
    g'.requirements ≠ [] := by
  obtain ⟨req, hreq⟩ := List.exists_mem_of_ne_nil _ hne
  obtain ⟨req', hreq', _⟩ := h.exists_demand hreq
  exact List.ne_nil_of_mem hreq'

theorem mem_paths_iff (h : g.Alike g') {p : List RouterId} : p ∈ g.paths ↔ p ∈ g'.paths := by
  have hsub : ∀ {x y : RequirementGroup}, x.Alike y → p ∈ x.paths → p ∈ y.paths := by
    intro x y hxy hp
    obtain ⟨req, hreq, hp⟩ := RequirementGroup.mem_paths.mp hp
    obtain ⟨req', hreq', hd⟩ := hxy.exists_demand hreq
    have hpaths : req'.paths = req.paths := congrArg Prod.snd hd
    exact RequirementGroup.mem_paths.mpr ⟨req', hreq', hpaths ▸ hp⟩
  exact ⟨hsub h, hsub h.symm⟩

theorem direction (h : g.Alike g') : g.direction = g'.direction := by
  rw [RequirementGroup.direction, RequirementGroup.direction, h.protocol]

theorem networks (h : g.Alike g') (t : Topology) : g.networks t = g'.networks t := by
  rw [RequirementGroup.networks, RequirementGroup.networks, h.destination]

end RequirementGroup.Alike

namespace ResolvedRequirement

theorem intentsAt_of_kind (h : req'.kind = req.kind) (t : Topology) (protocol : Protocol)
    (value : RouterId → RouterId → Nat → Nat) (a : RouterId) (hops : OrderedMap RouterId Nat) :
    req'.intentsAt t protocol value a hops =
      (req.intentsAt t protocol value a hops).map fun i => { i with origin := req'.reference } := by
  rw [intentsAt, intentsAt, List.map_map, h]
  rfl

theorem intents_of_demand (h : req'.demand = req.demand) (hg : g.Alike g') (t : Topology) :
    req'.intents t g' = (req.intents t g).map (·.rename req'.reference) := by
  have hkind : req'.kind = req.kind := congrArg Prod.fst h
  have hpaths : req'.paths = req.paths := congrArg Prod.snd h
  have hranks : HopRanks.ofRequirement req' = HopRanks.ofRequirement req := by
    rw [HopRanks.ofRequirement, HopRanks.ofRequirement, hkind, hpaths]
  have hheights : req'.heights (HopRanks.ofRequirement req').dense g'.destination =
      req.heights (HopRanks.ofRequirement req).dense g.destination := by
    rw [heights, heights, hkind, hranks, hg.destination]
  have hmax : req'.maxPaths g' (HopRanks.ofRequirement req').dense =
      req.maxPaths g (HopRanks.ofRequirement req).dense := by
    rw [maxPaths, maxPaths, hkind, hpaths, hranks, hg.protocol, hg.destination]
  rw [intents, intents]
  dsimp only
  rw [hheights]
  cases req.heights (HopRanks.ofRequirement req).dense g.destination with
  | error e => rfl
  | ok heights =>
    refine congrArg Except.ok ?_
    dsimp only [RequirementIntents.rename]
    rw [hmax, hranks, hkind, hg.protocol, List.map_flatMap]
    simp only [intentsAt_of_kind hkind]

theorem asked_of_demand (h : req'.demand = req.demand) (hg : g.Alike g') (t : Topology) :
    req'.asked t g' = (req.asked t g).rename req'.reference := by
  rw [asked, asked, intents_of_demand h hg]
  cases req.intents t g <;> rfl

end ResolvedRequirement

namespace RequirementGroup

/-- The intents of all requirements. -/
def asked (g : RequirementGroup) (t : Topology) : List Intent :=
  g.requirements.flatMap fun req => (req.asked t g).intents

/-- Each requirement can be met on its own: its most preferred hops are free of loops. -/
def Answered (g : RequirementGroup) (t : Topology) : Prop :=
  ∀ req ∈ g.requirements, ∃ r, req.intents t g = .ok r

namespace Alike

theorem exists_asked (h : g.Alike g') {i : Intent} (hi : i ∈ g.asked t) :
    ∃ o, { i with origin := o } ∈ g'.asked t := by
  obtain ⟨req, hreq, hi⟩ := List.mem_flatMap.mp hi
  obtain ⟨req', hreq', hd⟩ := h.exists_demand hreq
  refine ⟨req'.reference, List.mem_flatMap.mpr ⟨req', hreq', ?_⟩⟩
  rw [ResolvedRequirement.asked_of_demand hd h]
  exact List.mem_map_of_mem hi

theorem answered (h : g.Alike g') (hg : g.Answered t) : g'.Answered t := by
  intro req' hreq'
  obtain ⟨req, hreq, hd⟩ := h.symm.exists_demand hreq'
  obtain ⟨r, hr⟩ := hg req hreq
  refine ⟨r.rename req'.reference, ?_⟩
  rw [ResolvedRequirement.intents_of_demand hd.symm h, hr]
  rfl

theorem exists_askedMaxPaths (h : g.Alike g') {k : Nat}
    (hk : (a, k, o) ∈ g.requirements.flatMap fun req => req.askedMaxPaths t g) :
    ∃ o', (a, k, o') ∈ g'.requirements.flatMap fun req => req.askedMaxPaths t g' := by
  obtain ⟨req, hreq, hk⟩ := List.mem_flatMap.mp hk
  obtain ⟨req', hreq', hd⟩ := h.exists_demand hreq
  obtain ⟨m, hm, he⟩ := List.mem_map.mp hk
  refine ⟨req'.reference, List.mem_flatMap.mpr ⟨req', hreq', List.mem_map.mpr ⟨m, ?_, ?_⟩⟩⟩
  · rw [ResolvedRequirement.asked_of_demand hd h]
    exact hm
  · simp_all

end Alike

end RequirementGroup

end PathPolicy
