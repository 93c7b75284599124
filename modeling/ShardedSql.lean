import ShardedSql.Configuration.Load
import ShardedSql.Execution.Driver
import ShardedSql.Template.Declaration
import ShardedSql.Proofs.Distinct
import ShardedSql.Proofs.Names
import ShardedSql.Proofs.Numerals
import ShardedSql.Proofs.Order
import ShardedSql.Proofs.Success
import ShardedSql.Proofs.Where
import ShardedSql.Proofs.Bindings
import ShardedSql.Proofs.NameMaps
import ShardedSql.Proofs.Targets
import ShardedSql.Proofs.RowTargets
import ShardedSql.Proofs.Insertion
import ShardedSql.Proofs.StoredRows
import ShardedSql.Proofs.Offsets
import ShardedSql.Proofs.Splicing
import ShardedSql.Proofs.Checked
import ShardedSql.Proofs.RowUnits
import ShardedSql.Proofs.RowShares
import ShardedSql.Proofs.Histories
import ShardedSql.Proofs.Engine
import ShardedSql.Proofs.Placed
import ShardedSql.Proofs.Built
import ShardedSql.Proofs.Failures
import ShardedSql.Proofs.KnownUnits
import ShardedSql.Proofs.ReadOnlyUnits
import ShardedSql.Proofs.BroadcastWrites
import ShardedSql.Proofs.TableMappings
import ShardedSql.Proofs.Caching
import ShardedSql.Proofs.DeclaredNodes
import ShardedSql.Proofs.Entries
import ShardedSql.Proofs.QuoteReader
import ShardedSql.Proofs.Lexemes
import ShardedSql.Execution.Interleaving
import ShardedSql.Proofs.Interleavings
import ShardedSql.Proofs.GroupResults
import ShardedSql.Proofs.Parallel
import ShardedSql.Proofs.Processes
import ShardedSql.Proofs.Cancellation
import ShardedSql.Proofs.Preparing
import ShardedSql.Proofs.SessionInvariants
import ShardedSql.Proofs.Budgets
import ShardedSql.Proofs.Renaming
import ShardedSql.Proofs.Contradictions
import ShardedSql.Proofs.GeneratedKeys
import ShardedSql.Proofs.Printing
import ShardedSql.Proofs.Scanning
import ShardedSql.Proofs.Grammar
import ShardedSql.Proofs.Displacement
import ShardedSql.Proofs.Placeholders
import ShardedSql.Proofs.NodeExpressions
import ShardedSql.Proofs.Assembly
import ShardedSql.Proofs.RowLimits
import ShardedSql.Proofs.DeclaredTables
import ShardedSql.Proofs.Declarations
import ShardedSql.Proofs.Validity
import ShardedSql.Proofs.Cuts
import ShardedSql.Proofs.Narrowing
import ShardedSql.Proofs.AlikeConditions
import ShardedSql.Proofs.Rewording
import ShardedSql.Proofs.RouterChains
import ShardedSql.Proofs.Intersections
import ShardedSql.Proofs.TokenLists
import ShardedSql.Proofs.Flattening
import ShardedSql.Proofs.TokenOrder
import ShardedSql.Proofs.ShardRanges
import ShardedSql.Proofs.NumberedTargets
import ShardedSql.Proofs.Places
import ShardedSql.Proofs.Combinations
import ShardedSql.Proofs.WholeRanges
import ShardedSql.Proofs.Pairings
import ShardedSql.Proofs.EvenParts
import ShardedSql.Proofs.Evictions
import ShardedSql.Proofs.Registrations
import ShardedSql.Proofs.ExactArithmetic
import ShardedSql.Proofs.Expansions
import ShardedSql.Proofs.Products
import ShardedSql.Proofs.Openings
import ShardedSql.Proofs.Braces
import ShardedSql.Proofs.CommaLists
import ShardedSql.Proofs.Walks
import ShardedSql.Proofs.Lookahead
import ShardedSql.Proofs.Faults
import ShardedSql.Proofs.Positions
import ShardedSql.Proofs.Requoting
import ShardedSql.Proofs.ReadTurns
import ShardedSql.Proofs.NestingBounds
import ShardedSql.Proofs.ByteTexts
import ShardedSql.Proofs.ByteTokens
import ShardedSql.Proofs.Cursors
import ShardedSql.Proofs.ByteTemplates
import ShardedSql.Proofs.ReportedVariables
