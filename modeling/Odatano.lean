import Odatano.KeyedTable
import Odatano.TableSums
import Odatano.OrderedMap
import Odatano.ChainData
import Odatano.ShelleyAddress
import Odatano.LedgerRows
import Odatano.LedgerApply
import Odatano.LedgerUndo
import Odatano.LedgerSums
import Odatano.LedgerEffect
import Odatano.LedgerMoves
import Odatano.LedgerWrites
import Odatano.LedgerApplySums
import Odatano.LedgerRecount
import Odatano.LedgerAggregates
import Odatano.LedgerRuns
import Odatano.LedgerRollback
import Odatano.TableFamily
import Odatano.CrawlRows
import Odatano.IndexBlock
import Odatano.RollBackBlocks
import Odatano.IndexedChain
import Odatano.SyncState
import Odatano.CrawlerTransactions
import Odatano.CrawledChain
import Odatano.ParentTree
import Odatano.UtxoSetImport
import Odatano.CrawlerLedger
import Odatano.UtxoSetCrawl
import Odatano.IngestSources
import Odatano.IngestOrder
import Odatano.AgentGrants
import Odatano.DailyBudget
import Odatano.GrantRuns
import Odatano.GrantUsage
import Odatano.TokenCache
import Odatano.ConfirmationTracker
import Odatano.WalletJobs
import Odatano.IdempotencyKeys
import Odatano.StoredBlocks
import Odatano.Pagination
import Odatano.TransactionPositions
import Odatano.CrawledConfirmations
import Odatano.RewoundCrawl
import Odatano.WalletLeases
import Odatano.WalletWorkers
import Odatano.CircuitBreaker
import Odatano.PendingSpends
import Odatano.LocalCoverage
import Odatano.SigningRequests
import Odatano.EpochSnapshots
import Odatano.EpochTotals
import Odatano.LocalTotals
import Odatano.InputSelection
import Odatano.ProtectedInputs
import Odatano.RowTransactions
import Odatano.LeaseFences
import Odatano.LeaseTenures
import Odatano.CrawlTakeover
import Odatano.UndisturbedStarts
import Odatano.StoredChain
import Odatano.ChainRows
import Odatano.CollateralChoice
import Odatano.IntersectionPoints
import Odatano.BackendErrors
import Odatano.RoutedCalls
import Odatano.Submissions
import Odatano.DuplicateSubmissions
import Odatano.NextBlocks
import Odatano.ReorgRecovery
import Odatano.CrawledBlockStream
import Odatano.CertificateBackfill
import Odatano.BlockOutputs
import Odatano.LedgerHistory
import Odatano.AddressHistory
import Odatano.TransactionBackfill
import Odatano.TableSlices
import Odatano.BackfillSlices
import Odatano.Binary64Numbers
import Odatano.NumberTexts
import Odatano.JsonValues
import Odatano.MetadataMapping
import Odatano.MetadataLabels
import Odatano.PlutusDataJson
import Odatano.PlutusDataRoundTrip
import Odatano.HexStrings
import Odatano.SortedRanks
import Odatano.IndexPlaceholders
import Odatano.PlaceholderRanks
import Odatano.ResolvedPlaceholders
import Odatano.RequestParsers
import Odatano.ParsedRequests
import Odatano.WellFormedRequests
import Odatano.WellFormedOutputs
import Odatano.GroupedSums
import Odatano.FundingNeed
import Odatano.ForeignInputs
import Odatano.CborItems
import Odatano.CallerDatums
import Odatano.FirstOccurrence
import Odatano.CborOffsets
import Odatano.PatchedDatums
import Odatano.WitnessDatums
import Odatano.TieredPrices
import Odatano.ReferenceScriptFee
import Odatano.DetachedTx
import Odatano.SlidingWindow
import Odatano.RateLimiter
import Odatano.RateWindows
import Odatano.TxSeqKeys
import Odatano.JsonTexts
import Odatano.LosslessJson
import Odatano.ResolvedInputs
import Odatano.MintDerivation
import Odatano.LatestValue
import Odatano.AssetDecimals
import Odatano.ReferenceTrail
import Odatano.ChainDecimals
import Odatano.DatumGrowth
import Odatano.ScriptBuilds
import Odatano.ScriptFees
import Odatano.SharedViews
import Odatano.BuilderParameters
import Odatano.QuotedNumbers
import Odatano.FrameGuard
import Odatano.WalletSignatures
import Odatano.VerifiedSignatures
import Odatano.KeysetPages
import Odatano.CredentialBackfill
import Odatano.BackfillRuns
import Odatano.BackfillGaps
import Odatano.BackfillAgain
import Odatano.ServedTransactions
import Odatano.ServedRows
import Odatano.ServedBlocks
import Odatano.IndexedOutputs
import Odatano.ReplicaBlocks
import Odatano.Replication
import Odatano.LedgerView
import Odatano.StreamedChain
