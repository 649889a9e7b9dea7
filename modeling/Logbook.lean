import Logbook.Mapping.Stock
import Logbook.Mapping.Summary
import Logbook.Proofs.Archive.Reopen
import Logbook.Proofs.Binary64.Exact
import Logbook.Proofs.Binary64.Mixed
import Logbook.Proofs.Catalog.Complete
import Logbook.Proofs.Catalog.Lineage
import Logbook.Proofs.Frame.Derived
import Logbook.Proofs.Frame.Reduced
import Logbook.Proofs.Frame.Regular
import Logbook.Proofs.Frame.Restored
import Logbook.Proofs.Frame.RowLocal
import Logbook.Proofs.Frame.SingleInput
import Logbook.Proofs.Frame.SortedGroups
import Logbook.Proofs.Frame.Table
import Logbook.Proofs.Frame.Ungroup
import Logbook.Proofs.Frame.Varying
import Logbook.Proofs.Json.Number
import Logbook.Proofs.Mapping.Extreme
import Logbook.Proofs.Mapping.Moments
import Logbook.Proofs.Metric.Economy
import Logbook.Proofs.Query.Blanks
import Logbook.Proofs.Query.Boundaries
import Logbook.Proofs.Query.Comparison
import Logbook.Proofs.Query.Connectives
import Logbook.Proofs.Query.Earliest
import Logbook.Proofs.Query.Render
import Logbook.Proofs.Query.Scope
import Logbook.Proofs.Query.Spelling
import Logbook.Proofs.Row.Artifacts
import Logbook.Proofs.Row.Fixed
import Logbook.Proofs.Row.History
import Logbook.Proofs.Row.Kinds
import Logbook.Proofs.Row.Series
import Logbook.Proofs.Run.Flattened
import Logbook.Proofs.Run.Metadata
import Logbook.Proofs.Store.Reload
import Logbook.Proofs.Value.Hash
import Logbook.Proofs.Value.Order
