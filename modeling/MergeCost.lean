import MergeCost.Index.Call
import MergeCost.Json.RoundTrip
import MergeCost.Scenario.Folder
import MergeCost.Scenario.Override
import MergeCost.Simulation.Outcome
import MergeCost.Simulation.Yields
import MergeCost.Proofs.Cold.Drain
import MergeCost.Proofs.Cold.Packing
import MergeCost.Proofs.Cold.Dealing
import MergeCost.Proofs.Cold.Locate
import MergeCost.Proofs.Cold.Grouping
import MergeCost.Proofs.Cold.Touch
import MergeCost.Proofs.Cold.Tier
import MergeCost.Proofs.Cold.Passes
import MergeCost.Proofs.Cold.Reachable
import MergeCost.Proofs.Cold.Reclaim
import MergeCost.Proofs.Cold.Repacking
import MergeCost.Proofs.Index.Conserves
import MergeCost.Proofs.Index.Routing
import MergeCost.Proofs.Index.Merging
import MergeCost.Proofs.Index.Reachable
import MergeCost.Proofs.Index.Variants
import MergeCost.Proofs.Cost.Spends
import MergeCost.Proofs.Cost.Touch
import MergeCost.Proofs.Cost.Accounts
import MergeCost.Proofs.Cost.Overwrites
import MergeCost.Proofs.Index.Tree
import MergeCost.Proofs.Index.Deeds
import MergeCost.Proofs.Index.History
import MergeCost.Proofs.Index.Counts
import MergeCost.Proofs.Index.Reorganization
import MergeCost.Proofs.Cost.Writes
import MergeCost.Proofs.Index.Refusals
import MergeCost.Proofs.Scenario.Building
import MergeCost.Proofs.Device.Doubles
import MergeCost.Proofs.Device.Wear
import MergeCost.Proofs.Json.Listing
import MergeCost.Proofs.Scenario.Reading
import MergeCost.Proofs.Index.Resets
import MergeCost.Proofs.Cold.Ranking
import MergeCost.Proofs.Cold.Remarks
import MergeCost.Proofs.Cold.Reorganizing
import MergeCost.Proofs.Index.Remarks
import MergeCost.Proofs.Json.Counts
import MergeCost.Proofs.Ledger.Reports
import MergeCost.Proofs.Cold.RoundRobin
import MergeCost.Proofs.Cold.Lookups
import MergeCost.Proofs.Cold.Batches
import MergeCost.Simulation.Transfers
import MergeCost.Proofs.Device.Erasing
import MergeCost.Proofs.Device.Transfers
import MergeCost.Proofs.Cold.Transfers
import MergeCost.Proofs.Cold.Order
import MergeCost.Proofs.Cold.Rewriting
import MergeCost.Proofs.Index.Traversals
import MergeCost.Proofs.Index.Repeats
import MergeCost.Proofs.Rounding
import MergeCost.Proofs.Index.Heights
import MergeCost.Proofs.Index.Batches
import MergeCost.Proofs.Index.Transparency
import MergeCost.Proofs.Cold.Capacities
import MergeCost.Proofs.Text.Counts
import MergeCost.Proofs.Scenario.Overrides
import MergeCost.Proofs.Index.Shares
import MergeCost.Simulation.Composed
import MergeCost.Simulation.Traced
import MergeCost.Proofs.Cold.Composition
import MergeCost.Proofs.Index.Composition
import MergeCost.Proofs.Index.Traces
import MergeCost.Proofs.Ledger.Changes
