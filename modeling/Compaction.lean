import Compaction.Main
import Compaction.Proofs.Codec.Canonical
import Compaction.Proofs.Codec.Escapes
import Compaction.Proofs.History.Agreement
import Compaction.Proofs.History.Buckets
import Compaction.Proofs.History.Calls
import Compaction.Proofs.History.Conflicts
import Compaction.Proofs.History.Progress
import Compaction.Proofs.History.Retirement
import Compaction.Proofs.History.Threads
import Compaction.Proofs.History.Workshop
import Compaction.Proofs.Job.Atomic
import Compaction.Proofs.Job.Executors
import Compaction.Proofs.Order.Clustering
import Compaction.Proofs.Order.Continuity
import Compaction.Proofs.Order.Dominance
import Compaction.Proofs.Table.Union
import Compaction.Proofs.Spill
import Compaction.Proofs.Table.Replacement
import Compaction.Proofs.History.Faults
import Compaction.Proofs.History.Reordering
import Compaction.Proofs.Filter.Reading
import Compaction.Proofs.History.Resorting
import Compaction.Proofs.Order.Line
import Compaction.Proofs.Order.Scales
import Compaction.Proofs.Filter.Condition
import Compaction.Proofs.Filter.Rearranging
import Compaction.Proofs.History.Planning
import Compaction.Proofs.History.Reports
import Compaction.Proofs.Filter.Shown
import Compaction.Proofs.Table.Placing
import Compaction.Proofs.Order.Deinterleaving
import Compaction.Proofs.Order.Segment
