import OrdinalDB.Lib.Machine
import OrdinalDB.Lib.F32
import OrdinalDB.Lib.Bytes
import OrdinalDB.Lib.SwapRemove
import OrdinalDB.Lib.Branching
import OrdinalDB.Lib.Outcome
import OrdinalDB.Lib.Chunks
import OrdinalDB.Index.OrdinalIndex
import OrdinalDB.Index.IdMapIndex
import OrdinalDB.Index.IdMapRefinement
import OrdinalDB.Sparse.Tokenizer
import OrdinalDB.Sparse.Builder
import OrdinalDB.Sparse.Dictionary
import OrdinalDB.Sparse.Format
import OrdinalDB.Sparse.Reader
import OrdinalDB.Sparse.Layout
import OrdinalDB.Sparse.Scan
import OrdinalDB.Sparse.RoundTrip
import OrdinalDB.Sparse.Validated
import OrdinalDB.Sparse.SelfConsistency
import OrdinalDB.Sparse.Search
import OrdinalDB.Sparse.Untrusted
import OrdinalDB.Sparse.Retrieval
import OrdinalDB.Sparse.Views
import OrdinalDB.Lib.Runs
import OrdinalDB.Sparse.NormalForm
import OrdinalDB.Lock.WriterLock
import OrdinalDB.Lib.Text
import OrdinalDB.Bundle.Directory
import OrdinalDB.Bundle.Recovery
import OrdinalDB.Bundle.Writer
import OrdinalDB.Bundle.CrashSafety
import OrdinalDB.Bundle.Load
import OrdinalDB.Bundle.Readers
import OrdinalDB.Lib.Table
import OrdinalDB.Lib.Json
import OrdinalDB.Store.Disk
import OrdinalDB.Store.Payloads
import OrdinalDB.Store.Tables
import OrdinalDB.Store.Verify
import OrdinalDB.Store.Mutations
import OrdinalDB.Store.Transactions
import OrdinalDB.Store.VerifiedRows
import OrdinalDB.Store.IndexPaths
import OrdinalDB.Store.Snapshots
import OrdinalDB.Store.Edits
import OrdinalDB.Store.Commits
import OrdinalDB.Store.History
import OrdinalDB.Store.Openability
import OrdinalDB.Adapter.IdMap
import OrdinalDB.Lib.Durable
import OrdinalDB.Store.Collector
import OrdinalDB.Store.Generations
import OrdinalDB.Store.Deletions
import OrdinalDB.Store.Ledger
import OrdinalDB.Store.Records
import OrdinalDB.Store.Collection
import OrdinalDB.Store.Reached
import OrdinalDB.Store.Retention
import OrdinalDB.Store.Crashes
import OrdinalDB.Store.Convergence
import OrdinalDB.Adapter.Load
import OrdinalDB.Adapter.Agreement
import OrdinalDB.Store.Slots
import OrdinalDB.Store.Shared
import OrdinalDB.Store.DebrisNames
import OrdinalDB.Store.Debris
import OrdinalDB.Bundle.Separation
import OrdinalDB.Bundle.Faults
import OrdinalDB.Lib.Ranking
import OrdinalDB.Lib.Batches
import OrdinalDB.Hybrid.RankedBatch
import OrdinalDB.Hybrid.Fusion
import OrdinalDB.Ltr.Auxiliaries
import OrdinalDB.Lib.JsonText
import OrdinalDB.Store.PatchFrame
import OrdinalDB.Index.Reached
import OrdinalDB.Artifacts.Contents
import OrdinalDB.Artifacts.Copying
import OrdinalDB.Artifacts.IdFiles
import OrdinalDB.Artifacts.Reopening
import OrdinalDB.Artifacts.LoadPaths
import OrdinalDB.Adapter.Save
import OrdinalDB.Adapter.Memory
import OrdinalDB.Adapter.MemoryRefinement
import OrdinalDB.Adapter.Filters
import OrdinalDB.Adapter.Search
import OrdinalDB.Adapter.Items
import OrdinalDB.Adapter.Haystack
import OrdinalDB.Adapter.Agno
import OrdinalDB.Adapter.PyJson
import OrdinalDB.Adapter.RoundTrip
import OrdinalDB.Adapter.Attempts
import OrdinalDB.Adapter.Retries
import OrdinalDB.Adapter.SaveCrashes
import OrdinalDB.Index.Search
import OrdinalDB.Hybrid.Accepting
import OrdinalDB.Hybrid.Trees
import OrdinalDB.Hybrid.SparseBatch
import OrdinalDB.Hybrid.DenseBatch
import OrdinalDB.Hybrid.IdMapSearch
import OrdinalDB.Hybrid.Features
import OrdinalDB.Hybrid.IdMapBatch
import OrdinalDB.Ltr.VerifiedCache
import OrdinalDB.Lib.Conditions
import OrdinalDB.Adapter.LlamaFilters
import OrdinalDB.Adapter.LlamaIndex
import OrdinalDB.Ltr.WriteCache
import OrdinalDB.Cli.LegacyVerify
import OrdinalDB.Lib.Replacement
import OrdinalDB.Cli.Export
import OrdinalDB.Cli.LtrFeatures
import OrdinalDB.Sparse.AtomicWrite
import OrdinalDB.Sparse.Rewriting
import OrdinalDB.Cli.ImportDirectory
