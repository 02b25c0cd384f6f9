import Clausal.Files.Disk
import Clausal.Main
import Clausal.Saturation.Closure
import Clausal.Search.Residual
import Clausal.Proofs.Dimacs.Layout
import Clausal.Proofs.Dimacs.RoundTrip
import Clausal.Proofs.Elimination.Projected
import Clausal.Proofs.Elimination.Runs
import Clausal.Proofs.Elimination.Saturated
import Clausal.Proofs.Saturation.Closure
import Clausal.Proofs.Saturation.WorkingSet
import Clausal.Proofs.Saturation.Runs
import Clausal.Proofs.Saturation.Bound
import Clausal.Proofs.Saturation.Order
import Clausal.Proofs.Search.Occurrences
import Clausal.Proofs.Search.Trail
import Clausal.Proofs.Search.Choice
import Clausal.Proofs.Search.Simplified
import Clausal.Proofs.Search.Refinement
import Clausal.Proofs.Search.Decision
import Clausal.Proofs.Search.Reachable
import Clausal.Proofs.Search.Twins
import Clausal.Proofs.Copies
import Clausal.Proofs.Redundancy
import Clausal.Proofs.Renaming
import Clausal.Proofs.Saturation.Renamed
import Clausal.Proofs.Elimination.Renamed
import Clausal.Proofs.Search.Renamed
import Clausal.Proofs.Numbering
import Clausal.Proofs.Search.Accounting
import Clausal.Proofs.Search.Repeated
import Clausal.Proofs.Search.Propagation
import Clausal.Proofs.Search.Restoration
import Clausal.Proofs.Saturation.Repeated
import Clausal.Proofs.Benchmark.Run
import Clausal.Proofs.Literal
import Clausal.Proofs.Resolution
import Clausal.Proofs.Canonical
import Clausal.Proofs.Models
import Clausal.Proofs.Benchmark.Table
import Clausal.Proofs.Random.Formula
