import ColumnQuery.Exchange.Expr
import ColumnQuery.Expr.Chain
import ColumnQuery.Proofs.BundleDocument
import ColumnQuery.Proofs.EagerLoading
import ColumnQuery.Proofs.ExprDocument
import ColumnQuery.Proofs.IncludeOrder
import ColumnQuery.Proofs.IndexedMatches
import ColumnQuery.Proofs.IntegerArithmetic
import ColumnQuery.Proofs.Laziness
import ColumnQuery.Proofs.MaterializedForms
import ColumnQuery.Proofs.OffsetScan
import ColumnQuery.Proofs.Paging
import ColumnQuery.Proofs.PagingAndReducers
import ColumnQuery.Proofs.ProviderCaches
import ColumnQuery.Proofs.PushdownFaults
import ColumnQuery.Proofs.ReadPositions
import ColumnQuery.Proofs.RecognizedPredicates
import ColumnQuery.Proofs.RecordedReads
import ColumnQuery.Proofs.ResolverIndexes
import ColumnQuery.Proofs.RowPruning
import ColumnQuery.Proofs.TwoLayouts
import ColumnQuery.Proofs.VirtualStrings
import ColumnQuery.Proofs.WellFormedBundles
import ColumnQuery.Proofs.ZeroKeys
import ColumnQuery.Query.Explain
import ColumnQuery.Table.Pack
