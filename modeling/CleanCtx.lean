import CleanCtx.Ir.ReplayTransaction
import CleanCtx.Ir.SequenceRefinement
import CleanCtx.Ir.Transport
import CleanCtx.Ir.DeltaAddressing
import CleanCtx.Ir.StringTableDangling
import CleanCtx.Ir.HierarchicalOwners
import CleanCtx.Ir.Inheritance
import CleanCtx.Ir.SymbolTable
import CleanCtx.Workspace.Isolation
import CleanCtx.Workspace.DependencyPaths
import CleanCtx.Edit.Splicing
import CleanCtx.Edit.Recovery
import CleanCtx.Ir.TypeAliasReversal
import CleanCtx.Edit.Resolution
import CleanCtx.Edit.Reporting
import CleanCtx.Edit.LineEndings
import CleanCtx.Diff.Detection
import CleanCtx.Diff.Accounting
import CleanCtx.Proxy.RateBound
import CleanCtx.Proxy.Scrubbing
import CleanCtx.Proxy.Breakpoints
import CleanCtx.Proxy.PipelineFrames
import CleanCtx.Proxy.Ageing
import CleanCtx.Proxy.FilterLoss
import CleanCtx.Cbm.OwnResponse
import CleanCtx.Mcp.ExactlyOnce
import CleanCtx.Mcp.OwnerPaths
import CleanCtx.Mcp.Requests
import CleanCtx.Mcp.DiscoveryCache
import CleanCtx.Mcp.DeltaAgreement
import CleanCtx.Dictionary.Path
import CleanCtx.GitDiff.Counts
import CleanCtx.Compaction.Layouts
import CleanCtx.Sqlite.Store
import CleanCtx.Sqlite.Refinement
import CleanCtx.Sqlite.Purge
import CleanCtx.CompactA3.BodyRoundTrip
import CleanCtx.Sqlite.LoadAnswers
import CleanCtx.Mcp.RefusedDelta
import CleanCtx.MetaUtil.RegionAgreement
import CleanCtx.Compression.Pipeline
import CleanCtx.GitDiff.ChangedFiles
import CleanCtx.GitDiff.ReportedFiles
import CleanCtx.Sqlite.Buffered
import CleanCtx.Sqlite.Buffering
import CleanCtx.Compression.SymbolCompression
import CleanCtx.Ir.ForwardAliases
import CleanCtx.Library.Totals
import CleanCtx.Mcp.SessionStats
import CleanCtx.Mcp.StatsCounters
import CleanCtx.Mcp.StatsTotals
import CleanCtx.Library.Scopes
import CleanCtx.Mcp.Classification
import CleanCtx.Mcp.InheritanceAnswers
import CleanCtx.Cbm.Bridge
import CleanCtx.Cbm.CacheEntries
import CleanCtx.Cbm.CacheKeys
import CleanCtx.Cbm.Freshness
import CleanCtx.Cbm.GraphQueries
import CleanCtx.Mcp.SourceCache
import CleanCtx.Cbm.CallerArity
import CleanCtx.Cbm.CallerSoundness
import CleanCtx.Cbm.CallerVerdicts
import CleanCtx.Compaction.ClassEnds
import CleanCtx.Compaction.ClassParts
import CleanCtx.Ir.Base64
import CleanCtx.Ir.HierarchicalUpgrade
import CleanCtx.Library.GlobBlocks
import CleanCtx.Mcp.Hydration
import CleanCtx.Mcp.HydrationCoverage
import CleanCtx.Proxy.Relay
import CleanCtx.Proxy.RelayFraming
import CleanCtx.Workspace.GlobMatch
import CleanCtx.Ir.PatternSummaries
