import CleanCtx.Library.Totals

/-!
The session statistics (`mcp/session_stats.rs`). Every row of a file carries its domain,
and the totals of the session and of the domains are kept beside the rows: a recording
takes the old values of its row out and puts the new ones in, a merge counts the rows
again. Counts are those of tokens and calls in one session; the percentages and the start
time are left out.
-/
namespace CleanCtx
namespace Stats

def cbmFilter : String := "cbm_filter"
def promptCache : String := "prompt_cache"
def toolFilter : String := "tool_filter"

structure DomainStats where
  domain : String
  totalRawTokens : Nat
  totalCompressedTokens : Nat
  fileCount : Nat
  tokensRemoved : Option Nat
  cacheHits : Option Nat
  cacheMisses : Option Nat
  deriving DecidableEq

structure FileStats where
  filePath : String
  rawTokens : Nat
  compressedTokens : Nat
  version : Nat
  deltaCount : Nat
  fidelity : String
  isAngular : Bool
  strategy : String
  fullCompressedTokens : Option Nat
  domain : String
  deriving DecidableEq

structure SessionStats where
  files : Table String FileStats
  totalRawTokens : Nat
  totalCompressedTokens : Nat
  fullCompressCount : Nat
  deltaCount : Nat
  cbmProxyEvents : Nat
  domainStats : Table String DomainStats

/-- The arguments of a recording. The key is what the canonical identity of the path is at that
moment. -/
structure Compression where
  filePath : String
  canonicalKey : String
  rawTokens : Nat
  compressedTokens : Nat
  fidelity : String
  isAngular : Bool
  strategy : String
  fullCompressedTokens : Option Nat
  domain : String

structure CacheMetrics where
  hits : Nat
  misses : Nat
  tokensSaved : Nat

def DomainStats.start (domain : String) : DomainStats where
  domain
  totalRawTokens := 0
  totalCompressedTokens := 0
  fileCount := 0
  tokensRemoved := if domain = cbmFilter then some 0 else none
  cacheHits := if domain = promptCache then some 0 else none
  cacheMisses := if domain = promptCache then some 0 else none

def FileStats.start (filePath fidelity : String) (isAngular : Bool) (strategy domain : String) :
    FileStats where
  filePath
  rawTokens := 0
  compressedTokens := 0
  version := 0
  deltaCount := 0
  fidelity
  isAngular
  strategy
  fullCompressedTokens := none
  domain

namespace SessionStats

def new : SessionStats where
  files := ∅
  totalRawTokens := 0
  totalCompressedTokens := 0
  fullCompressCount := 0
  deltaCount := 0
  cbmProxyEvents := 0
  domainStats := ∅

/-- `domain_stats.entry(domain).or_insert_with(…)`. -/
def domainEntry (stats : SessionStats) (domain : String) : DomainStats :=
  (stats.domainStats.lookup domain).getD (.start domain)

def recordedPath (stats : SessionStats) (call : Compression) : String :=
  if call.filePath ∈ stats.files then call.filePath else call.canonicalKey

def preserveFullOnDelta (call : Compression) (previous : Option FileStats) : Bool :=
  call.strategy = "delta" && previous.any fun row => row.strategy = "full"

def deductRow (stats : SessionStats) (call : Compression) (existing : FileStats) : SessionStats :=
  { stats with
    totalRawTokens := stats.totalRawTokens - existing.rawTokens
    totalCompressedTokens := stats.totalCompressedTokens - existing.compressedTokens
    fullCompressCount :=
      if call.strategy ≠ existing.strategy ∧ existing.strategy ≠ "delta" then
        stats.fullCompressCount - 1
      else stats.fullCompressCount
    deltaCount :=
      if call.strategy ≠ existing.strategy ∧ existing.strategy = "delta" then stats.deltaCount - 1
      else stats.deltaCount }

def leaveDomain (domains : Table String DomainStats) (existing : FileStats) (domain : String) :
    Table String DomainStats :=
  if existing.domain = domain then domains
  else
    match domains.lookup existing.domain with
    | some row => domains.insert existing.domain
        { row with
          totalRawTokens := row.totalRawTokens - existing.rawTokens
          totalCompressedTokens := row.totalCompressedTokens - existing.compressedTokens
          fileCount := row.fileCount - 1 }
    | none => domains

def recordRow (call : Compression) (preserve : Bool) (row : FileStats) : FileStats :=
  { row with
    rawTokens := if preserve then row.rawTokens else call.rawTokens
    compressedTokens := if preserve then row.compressedTokens else call.compressedTokens
    version := row.version + 1
    fidelity := call.fidelity
    isAngular := call.isAngular
    strategy := call.strategy
    domain := call.domain
    deltaCount := if call.strategy = "delta" then row.deltaCount + 1 else row.deltaCount
    fullCompressedTokens := call.fullCompressedTokens }

/-- What a recording makes of its domain; a file is counted when its row is new. -/
def recordDomain (call : Compression) (preserve : Bool) (version : Nat) (row : DomainStats) :
    DomainStats :=
  { row with
    totalRawTokens :=
      if preserve then row.totalRawTokens else row.totalRawTokens + call.rawTokens
    totalCompressedTokens :=
      if preserve then row.totalCompressedTokens
      else row.totalCompressedTokens + call.compressedTokens
    fileCount := if version = 1 then row.fileCount + 1 else row.fileCount }

def withdraw (stats : SessionStats) (call : Compression) : Option FileStats → SessionStats
  | none => stats
  | some existing =>
      let preserve := preserveFullOnDelta call (some existing)
      let stats := if preserve then stats else stats.deductRow call existing
      { stats with domainStats := leaveDomain stats.domainStats existing call.domain }

def recordCompression (stats : SessionStats) (call : Compression) : SessionStats :=
  let filePath := stats.recordedPath call
  let previous := stats.files.lookup filePath
  let preserve := preserveFullOnDelta call previous
  let stats := stats.withdraw call previous
  let entry := recordRow call preserve
    (previous.getD (.start filePath call.fidelity call.isAngular call.strategy call.domain))
  { stats with
    totalRawTokens := if preserve then stats.totalRawTokens else stats.totalRawTokens + call.rawTokens
    totalCompressedTokens :=
      if preserve then stats.totalCompressedTokens
      else stats.totalCompressedTokens + call.compressedTokens
    fullCompressCount :=
      if call.strategy = "delta" then stats.fullCompressCount else stats.fullCompressCount + 1
    deltaCount := if call.strategy = "delta" then stats.deltaCount + 1 else stats.deltaCount
    files := stats.files.insert filePath entry
    domainStats := stats.domainStats.insert call.domain
      (recordDomain call preserve entry.version (stats.domainEntry call.domain)) }

def cbmPath (tool : String) : String := "cbm://" ++ tool

/-- Calls of one tool add up in its row and in the domain. -/
def recordCbmProxy (stats : SessionStats) (tool : String) (rawTokens compressedTokens : Nat) :
    SessionStats :=
  let filePath := cbmPath tool
  let isNewTool := filePath ∉ stats.files
  let entry := (stats.files.lookup filePath).getD (.start filePath "low" false "full" cbmFilter)
  let domain := stats.domainEntry cbmFilter
  let totalRaw := domain.totalRawTokens + rawTokens
  let totalCompressed := domain.totalCompressedTokens + compressedTokens
  { stats with
    totalRawTokens := stats.totalRawTokens + rawTokens
    totalCompressedTokens := stats.totalCompressedTokens + compressedTokens
    cbmProxyEvents := stats.cbmProxyEvents + 1
    files := stats.files.insert filePath
      { entry with
        rawTokens := entry.rawTokens + rawTokens
        compressedTokens := entry.compressedTokens + compressedTokens
        version := entry.version + 1 }
    domainStats := stats.domainStats.insert cbmFilter
      { domain with
        totalRawTokens := totalRaw
        totalCompressedTokens := totalCompressed
        fileCount := if isNewTool then domain.fileCount + 1 else domain.fileCount
        tokensRemoved := domain.tokensRemoved.map fun _ => totalRaw - totalCompressed } }

def recordCacheHit (stats : SessionStats) (tokensSaved : Nat) : SessionStats :=
  let entry := stats.domainEntry promptCache
  { stats with
    domainStats := stats.domainStats.insert promptCache
      { entry with
        cacheHits := entry.cacheHits.map (· + 1)
        totalRawTokens := entry.totalRawTokens + tokensSaved } }

/-- A filtered output is recorded under its program. -/
def filterCall (program canonicalKey : String) (originalTokens filteredTokens : Nat) :
    Compression where
  filePath := "__proxy__" ++ program
  canonicalKey
  rawTokens := originalTokens
  compressedTokens := filteredTokens
  fidelity := "low"
  isAngular := false
  strategy := "full"
  fullCompressedTokens := none
  domain := toolFilter

def recordToolFilter (stats : SessionStats) (program canonicalKey : String)
    (originalTokens filteredTokens : Nat) : SessionStats :=
  stats.recordCompression (filterCall program canonicalKey originalTokens filteredTokens)

def syncCacheMetrics (stats : SessionStats) (metrics : CacheMetrics) : SessionStats :=
  let entry := stats.domainEntry promptCache
  { stats with
    domainStats := stats.domainStats.insert promptCache
      { entry with
        cacheHits := entry.cacheHits.map (· + metrics.hits)
        cacheMisses := entry.cacheMisses.map (· + metrics.misses)
        totalRawTokens := entry.totalRawTokens + metrics.tokensSaved } }

def joinRows (existing other : FileStats) : FileStats :=
  { existing with
    version := max existing.version other.version
    deltaCount := existing.deltaCount + other.deltaCount }

/-- The row of a domain counted again from the rows of the files, with what it keeps of its old
row. -/
def rebuiltDomain (domains : Table String DomainStats) (raw compressed files : Table String Nat)
    (domain : String) : DomainStats :=
  let stats : DomainStats :=
    { domain
      totalRawTokens := (raw.lookup domain).getD 0
      totalCompressedTokens := (compressed.lookup domain).getD 0
      fileCount := (files.lookup domain).getD 0
      tokensRemoved := none
      cacheHits := none
      cacheMisses := none }
  if domain = promptCache then
    match domains.lookup promptCache with
    | some preserved =>
        { stats with
          cacheHits := preserved.cacheHits
          cacheMisses := preserved.cacheMisses
          tokensRemoved := preserved.tokensRemoved
          totalRawTokens := preserved.totalRawTokens }
    | none => stats
  else if domain = cbmFilter then
    match domains.lookup cbmFilter with
    | some preserved => { stats with tokensRemoved := preserved.tokensRemoved }
    | none => stats
  else stats

def rebuildDomainStats (stats : SessionStats) : SessionStats :=
  let raw := Table.tally FileStats.domain FileStats.rawTokens stats.files.rows
  let compressed := Table.tally FileStats.domain FileStats.compressedTokens stats.files.rows
  let files := Table.tally FileStats.domain (fun _ => 1) stats.files.rows
  { stats with
    domainStats := Table.ofKeys (raw.keys ++ compressed.keys)
      (rebuiltDomain stats.domainStats raw compressed files) }

/-- A row that counts as a full compression; those of the proxy are counted by their events. -/
def isFullRow (row : FileStats) : Bool :=
  row.strategy ≠ "delta" && !"cbm://".toList.isPrefixOf row.filePath.toList

def isDeltaRow (row : FileStats) : Bool := row.strategy = "delta"

def merge (stats other : SessionStats) : SessionStats :=
  let files := stats.files.absorb joinRows other.files
  rebuildDomainStats
    { stats with
      files
      totalRawTokens := total FileStats.rawTokens files.rows
      totalCompressedTokens := total FileStats.compressedTokens files.rows
      fullCompressCount := files.rows.countP isFullRow
      deltaCount := files.rows.countP isDeltaRow
      cbmProxyEvents := stats.cbmProxyEvents + other.cbmProxyEvents }

end SessionStats
end Stats
end CleanCtx
