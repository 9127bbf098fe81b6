import PathPolicy.Main
import PathPolicy.Requirement.Json
import PathPolicy.Requirement.Role
import PathPolicy.Config.Reader
import PathPolicy.Proofs.OrderedMap
import PathPolicy.Proofs.Sorting
import PathPolicy.Proofs.Path
import PathPolicy.Proofs.Topology
import PathPolicy.Proofs.HopRanks
import PathPolicy.Proofs.SimplePath
import PathPolicy.Proofs.Digraph
import PathPolicy.Proofs.Heights
import PathPolicy.Proofs.Intent
import PathPolicy.Proofs.Commitments
import PathPolicy.Proofs.Splices
import PathPolicy.Proofs.GroupPolicy
import PathPolicy.Proofs.Resolution
import PathPolicy.Proofs.Merge
import PathPolicy.Proofs.Bundles
import PathPolicy.Proofs.Workers
import PathPolicy.Proofs.Run
import PathPolicy.Proofs.Force
import PathPolicy.Proofs.Imports
import PathPolicy.Proofs.Admission
import PathPolicy.Proofs.Distance
import PathPolicy.Proofs.OspfFidelity
import PathPolicy.Proofs.Choice
import PathPolicy.Proofs.Rounds
import PathPolicy.Proofs.Offers
import PathPolicy.Proofs.Pinned
import PathPolicy.Proofs.Freshness
import PathPolicy.Proofs.Convergence
import PathPolicy.Proofs.BgpFidelity
import PathPolicy.Proofs.Traffic
import PathPolicy.Proofs.ShortestPath
import PathPolicy.Proofs.OspfTraffic
import PathPolicy.Proofs.MemberTraffic
import PathPolicy.Proofs.OspfRoutes
import PathPolicy.Proofs.DataPlane
import PathPolicy.Proofs.Acceptance
import PathPolicy.Proofs.Scoping
import PathPolicy.Proofs.StaticRoutes
import PathPolicy.Proofs.SharedNetworks
import PathPolicy.Proofs.StaticTraffic
import PathPolicy.Proofs.StaticFidelity
import PathPolicy.Proofs.Atomicity
import PathPolicy.Proofs.Slots
import PathPolicy.Proofs.Consistency
import PathPolicy.Proofs.Blame
import PathPolicy.Proofs.Dropout
import PathPolicy.Proofs.Alike
import PathPolicy.Proofs.Harmony
import PathPolicy.Proofs.Insertion
import PathPolicy.Proofs.Grammar
import PathPolicy.Proofs.Derivation
import PathPolicy.Proofs.Lexing
import PathPolicy.Proofs.TokenWeight
import PathPolicy.Proofs.RequirementText
import PathPolicy.Proofs.AddressText
import PathPolicy.Proofs.ClauseCount
import PathPolicy.Proofs.ConfigText
import PathPolicy.Proofs.Legibility
import PathPolicy.Proofs.ListReferences
import PathPolicy.Proofs.PolicyActions
import PathPolicy.Proofs.Marks
import PathPolicy.Proofs.Accumulation
import PathPolicy.Proofs.Confluence
import PathPolicy.Proofs.Attribution
import PathPolicy.Proofs.DepthFirst
import PathPolicy.Proofs.ForwardingLoops
import PathPolicy.Proofs.MemberOrder
import PathPolicy.Proofs.Naming
import PathPolicy.Proofs.PathVerdict
import PathPolicy.Proofs.SoleRequirement
import PathPolicy.Proofs.ExclusivePaths
import PathPolicy.Proofs.Fan
import PathPolicy.Proofs.OspfCosts
import PathPolicy.Proofs.Preference
import PathPolicy.Proofs.Flattening
import PathPolicy.Proofs.StoreCalls
import PathPolicy.Proofs.TopologyCalls
import PathPolicy.Proofs.GeneratedInterfaces
import PathPolicy.Proofs.PathSearch
import PathPolicy.Proofs.LongestWays
import PathPolicy.Proofs.AddressMasks
import PathPolicy.Proofs.TextCoverage
import PathPolicy.Proofs.ErrorPositions
