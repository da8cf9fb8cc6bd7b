import CleanCtx.Mcp.SessionStats

/-!
When the session statistics add up. A recording for a file that has a row keeps the
totals of its domain only if the row stays in the domain and its tokens stay or were none,
and a merge keeps the counters only if each counted event has a row of its own and the
cache hits have a domain to stay in. In a run of such steps all totals agree with the rows.
-/
namespace CleanCtx
namespace Stats

inductive Call
  | compression (call : Compression)
  | cbmProxy (tool : String) (rawTokens compressedTokens : Nat)
  | toolFilter (program canonicalKey : String) (originalTokens filteredTokens : Nat)
  | cacheHit (tokensSaved : Nat)
  | syncCacheMetrics (metrics : CacheMetrics)

def SessionStats.apply (stats : SessionStats) : Call → SessionStats
  | .compression call => stats.recordCompression call
  | .cbmProxy tool rawTokens compressedTokens =>
      stats.recordCbmProxy tool rawTokens compressedTokens
  | .toolFilter program canonicalKey originalTokens filteredTokens =>
      stats.recordToolFilter program canonicalKey originalTokens filteredTokens
  | .cacheHit tokensSaved => stats.recordCacheHit tokensSaved
  | .syncCacheMetrics metrics => stats.syncCacheMetrics metrics

structure Ledger where
  hits : Nat
  misses : Nat
  savedTokens : Nat

namespace Ledger

def empty : Ledger where
  hits := 0
  misses := 0
  savedTokens := 0

def note (ledger : Ledger) : Call → Ledger
  | .cacheHit tokensSaved =>
      { ledger with hits := ledger.hits + 1, savedTokens := ledger.savedTokens + tokensSaved }
  | .syncCacheMetrics metrics =>
      { hits := ledger.hits + metrics.hits
        misses := ledger.misses + metrics.misses
        savedTokens := ledger.savedTokens + metrics.tokensSaved }
  | _ => ledger

def join (ledger other : Ledger) : Ledger where
  hits := ledger.hits + other.hits
  misses := ledger.misses + other.misses
  savedTokens := ledger.savedTokens + other.savedTokens

end Ledger

/-- The statistics reached by calls and by merges with others that were reached so, as far as the
steps are allowed, with what was recorded of the cache. -/
inductive Run (proper : SessionStats → Call → Prop)
    (mergeable : SessionStats → SessionStats → Prop) : Ledger → SessionStats → Prop
  | new : Run proper mergeable .empty .new
  | call {ledger : Ledger} {stats : SessionStats} (run : Run proper mergeable ledger stats)
      (call : Call) (h : proper stats call) :
      Run proper mergeable (ledger.note call) (stats.apply call)
  | merge {ledger ledger' : Ledger} {stats other : SessionStats}
      (run : Run proper mergeable ledger stats) (run' : Run proper mergeable ledger' other)
      (h : mergeable stats other) :
      Run proper mergeable (ledger.join ledger') (stats.merge other)

def inDomain (domain : String) (amount : FileStats → Nat) (row : FileStats) : Nat :=
  if row.domain = domain then amount row else 0

/-- The totals are those of the rows; the cache has what was recorded of it on top. -/
structure AddsUp (ledger : Ledger) (stats : SessionStats) : Prop where
  totalRaw : stats.totalRawTokens = total FileStats.rawTokens stats.files.rows
  totalCompressed :
    stats.totalCompressedTokens = total FileStats.compressedTokens stats.files.rows
  raw : ∀ domain, (stats.domainEntry domain).totalRawTokens =
    total (inDomain domain FileStats.rawTokens) stats.files.rows +
      if domain = promptCache then ledger.savedTokens else 0
  compressed : ∀ domain, (stats.domainEntry domain).totalCompressedTokens =
    total (inDomain domain FileStats.compressedTokens) stats.files.rows
  fileCount : ∀ domain, (stats.domainEntry domain).fileCount =
    total (inDomain domain fun _ => 1) stats.files.rows
  hits : (stats.domainEntry promptCache).cacheHits.getD 0 = ledger.hits
  misses : (stats.domainEntry promptCache).cacheMisses.getD 0 = ledger.misses

structure KeepsCounters (stats other : SessionStats) : Prop where
  full : (stats.merge other).fullCompressCount = stats.fullCompressCount + other.fullCompressCount
  delta : (stats.merge other).deltaCount = stats.deltaCount + other.deltaCount
  cbm : (stats.merge other).cbmProxyEvents = stats.cbmProxyEvents + other.cbmProxyEvents

/-- The file has no row, or one in the domain of the recording whose tokens stay or are none. -/
def ProperRecording (stats : SessionStats) (call : Compression) : Prop :=
  ∀ row ∈ stats.files.lookup (stats.recordedPath call), row.domain = call.domain ∧
    (SessionStats.preserveFullOnDelta call (some row) = true ∨
      row.rawTokens = 0 ∧ row.compressedTokens = 0)

def Proper (stats : SessionStats) : Call → Prop
  | .compression call => ProperRecording stats call
  | .toolFilter program canonicalKey originalTokens filteredTokens =>
      ProperRecording stats
        (SessionStats.filterCall program canonicalKey originalTokens filteredTokens)
  | .cbmProxy tool rawTokens compressedTokens =>
      ∀ row ∈ stats.files.lookup (SessionStats.cbmPath tool),
        row.domain = cbmFilter ∨ rawTokens = 0 ∧ compressedTokens = 0
  | .cacheHit _ => (stats.domainEntry promptCache).cacheHits.isSome = true
  | .syncCacheMetrics metrics =>
      ((stats.domainEntry promptCache).cacheHits.isSome = true ∨ metrics.hits = 0) ∧
        ((stats.domainEntry promptCache).cacheMisses.isSome = true ∨ metrics.misses = 0)

/-- The prompt cache holds something that no row of a file accounts for. -/
def HoldsCache (stats : SessionStats) : Prop :=
  (stats.domainEntry promptCache).totalRawTokens ≠
      total (inDomain promptCache FileStats.rawTokens) stats.files.rows ∨
    (stats.domainEntry promptCache).cacheHits.getD 0 ≠ 0 ∨
    (stats.domainEntry promptCache).cacheMisses.getD 0 ≠ 0

/-- The condition under which a merge keeps the sums and the counters: the events counted on both
sides are as many as the rows that are kept, the other side holds nothing of a cache, and what
this side holds of one stays, with no tokens of new rows beside it. -/
structure Mergeable (stats other : SessionStats) : Prop where
  full : stats.files.rows.countP SessionStats.isFullRow +
      (stats.files.newRows other.files).countP SessionStats.isFullRow =
    stats.fullCompressCount + other.fullCompressCount
  delta : stats.files.rows.countP SessionStats.isDeltaRow +
      (stats.files.newRows other.files).countP SessionStats.isDeltaRow =
    stats.deltaCount + other.deltaCount
  otherPlain : ¬HoldsCache other
  cacheStays : HoldsCache stats →
    ∃ row ∈ stats.files.rows ++ stats.files.newRows other.files, row.domain = promptCache
  noneBeside : promptCache ∈ stats.domainStats → ∀ row ∈ stats.files.newRows other.files,
    row.domain = promptCache → row.rawTokens = 0

section Totals

variable {stats : SessionStats}

structure TotalsAddUp (stats : SessionStats) : Prop where
  raw : stats.totalRawTokens = total FileStats.rawTokens stats.files.rows
  compressed : stats.totalCompressedTokens = total FileStats.compressedTokens stats.files.rows

theorem TotalsAddUp.replaceRow (h : TotalsAddUp stats) {stats' : SessionStats} (path : String)
    (row : FileStats) (hfiles : stats'.files = stats.files.insert path row)
    (hraw : stats'.totalRawTokens + (stats.files.lookup path).elim 0 FileStats.rawTokens =
      row.rawTokens + stats.totalRawTokens)
    (hcompressed : stats'.totalCompressedTokens +
        (stats.files.lookup path).elim 0 FileStats.compressedTokens =
      row.compressedTokens + stats.totalCompressedTokens) : TotalsAddUp stats' := by
  have hinsert := fun amount => Table.total_insert amount stats.files path row
  rw [← hfiles] at hinsert
  refine ⟨?_, ?_⟩
  · have := hinsert FileStats.rawTokens
    have := h.raw
    omega
  · have := hinsert FileStats.compressedTokens
    have := h.compressed
    omega

theorem TotalsAddUp.recordCompression (h : TotalsAddUp stats) (call : Compression) :
    TotalsAddUp (stats.recordCompression call) := by
  refine h.replaceRow (stats.recordedPath call) (SessionStats.recordRow call
    (SessionStats.preserveFullOnDelta call (stats.files.lookup (stats.recordedPath call)))
    ((stats.files.lookup (stats.recordedPath call)).getD (.start (stats.recordedPath call)
      call.fidelity call.isAngular call.strategy call.domain))) ?_ ?_ ?_
  all_goals
    cases hrow : stats.files.lookup (stats.recordedPath call) with
    | none =>
        have hpreserve : SessionStats.preserveFullOnDelta call none = false := by
          rw [SessionStats.preserveFullOnDelta, Option.any_none, Bool.and_false]
        simp only [SessionStats.recordCompression, hrow, SessionStats.withdraw, hpreserve,
          SessionStats.recordRow, Bool.false_eq_true, if_false, Option.elim_none, Option.getD_none]
        try omega
    | some row =>
        have hleRaw : row.rawTokens ≤ total FileStats.rawTokens stats.files.rows :=
          amount_le_total (Table.mem_rows_of_lookup hrow)
        have hleCompressed : row.compressedTokens ≤
            total FileStats.compressedTokens stats.files.rows :=
          amount_le_total (Table.mem_rows_of_lookup hrow)
        have := h.raw
        have := h.compressed
        cases hpreserve : SessionStats.preserveFullOnDelta call (some row) <;>
          simp only [SessionStats.recordCompression, hrow, SessionStats.withdraw, hpreserve,
            SessionStats.deductRow, SessionStats.recordRow, Bool.false_eq_true, if_false, if_true,
            Option.elim_some, Option.getD_some] <;>
          try omega

theorem TotalsAddUp.recordCbmProxy (h : TotalsAddUp stats) (tool : String)
    (rawTokens compressedTokens : Nat) :
    TotalsAddUp (stats.recordCbmProxy tool rawTokens compressedTokens) := by
  refine h.replaceRow (SessionStats.cbmPath tool)
    (let entry := (stats.files.lookup (SessionStats.cbmPath tool)).getD
      (.start (SessionStats.cbmPath tool) "low" false "full" cbmFilter)
    { entry with
      rawTokens := entry.rawTokens + rawTokens
      compressedTokens := entry.compressedTokens + compressedTokens
      version := entry.version + 1 }) rfl ?_ ?_
  all_goals
    cases stats.files.lookup (SessionStats.cbmPath tool) <;>
      simp only [SessionStats.recordCbmProxy, Option.elim_none, Option.elim_some, Option.getD_none,
        Option.getD_some, FileStats.start] <;>
      omega

theorem TotalsAddUp.apply (h : TotalsAddUp stats) (call : Call) : TotalsAddUp (stats.apply call) := by
  cases call with
  | compression call => exact h.recordCompression call
  | toolFilter program canonicalKey originalTokens filteredTokens => exact h.recordCompression _
  | cbmProxy tool rawTokens compressedTokens => exact h.recordCbmProxy tool _ _
  | cacheHit tokensSaved => exact ⟨h.raw, h.compressed⟩
  | syncCacheMetrics metrics => exact ⟨h.raw, h.compressed⟩

end Totals

/-- The sums, and that a row was recorded at least once. -/
structure Consistent (ledger : Ledger) (stats : SessionStats) : Prop
    extends AddsUp ledger stats where
  recorded : ∀ row ∈ stats.files.rows, 1 ≤ row.version

section Steps

variable {ledger : Ledger} {stats : SessionStats}

theorem consistent_new : Consistent .empty .new where
  totalRaw := rfl
  totalCompressed := rfl
  raw _ := (ite_self 0).symm ▸ rfl
  compressed _ := rfl
  fileCount _ := rfl
  hits := rfl
  misses := rfl
  recorded _ h := nomatch h

theorem getD_lookup_insert (domains : Table String DomainStats) (domain other : String)
    (row : DomainStats) :
    ((domains.insert domain row).lookup other).getD (.start other) =
      if other = domain then row else (domains.lookup other).getD (.start other) := by
  by_cases h : other = domain
  · rw [h, AList.lookup_insert, Option.getD_some, if_pos rfl]
  · rw [AList.lookup_insert_ne h, if_neg h]

/-- A step that puts one row in its place: the totals give up what the row was and take what it
is now. -/
theorem Consistent.replaceRow (h : Consistent ledger stats) {stats' : SessionStats} (path : String)
    (row : FileStats) (hfiles : stats'.files = stats.files.insert path row)
    (hversion : 1 ≤ row.version)
    (htotalRaw : stats'.totalRawTokens +
        (stats.files.lookup path).elim 0 FileStats.rawTokens = row.rawTokens + stats.totalRawTokens)
    (htotalCompressed : stats'.totalCompressedTokens +
        (stats.files.lookup path).elim 0 FileStats.compressedTokens =
      row.compressedTokens + stats.totalCompressedTokens)
    (hraw : ∀ domain, (stats'.domainEntry domain).totalRawTokens +
        (stats.files.lookup path).elim 0 (inDomain domain FileStats.rawTokens) =
      inDomain domain FileStats.rawTokens row + (stats.domainEntry domain).totalRawTokens)
    (hcompressed : ∀ domain, (stats'.domainEntry domain).totalCompressedTokens +
        (stats.files.lookup path).elim 0 (inDomain domain FileStats.compressedTokens) =
      inDomain domain FileStats.compressedTokens row +
        (stats.domainEntry domain).totalCompressedTokens)
    (hcount : ∀ domain, (stats'.domainEntry domain).fileCount +
        (stats.files.lookup path).elim 0 (inDomain domain fun _ => 1) =
      inDomain domain (fun _ => 1) row + (stats.domainEntry domain).fileCount)
    (hhits : (stats'.domainEntry promptCache).cacheHits =
      (stats.domainEntry promptCache).cacheHits)
    (hmisses : (stats'.domainEntry promptCache).cacheMisses =
      (stats.domainEntry promptCache).cacheMisses) :
    Consistent ledger stats' := by
  have hinsert := fun amount => Table.total_insert amount stats.files path row
  have htotals := TotalsAddUp.replaceRow ⟨h.totalRaw, h.totalCompressed⟩ path row hfiles htotalRaw
    htotalCompressed
  rw [← hfiles] at hinsert
  refine ⟨⟨htotals.raw, htotals.compressed, fun domain => ?_, fun domain => ?_, fun domain => ?_,
    ?_, ?_⟩, ?_⟩
  · have := hinsert (inDomain domain FileStats.rawTokens)
    have := h.raw domain
    have := hraw domain
    omega
  · have := hinsert (inDomain domain FileStats.compressedTokens)
    have := h.compressed domain
    have := hcompressed domain
    omega
  · have := hinsert (inDomain domain fun _ => 1)
    have := h.fileCount domain
    have := hcount domain
    omega
  · rw [hhits, h.hits]
  · rw [hmisses, h.misses]
  · rw [hfiles]
    intro other hother
    obtain rfl | hother := Table.mem_rows_insert hother
    · exact hversion
    · exact h.recorded other hother

theorem withdraw_preserved {call : Compression} {row : FileStats} (hdomain : row.domain = call.domain)
    (h : SessionStats.preserveFullOnDelta call (some row) = true) :
    stats.withdraw call (some row) = stats := by
  rw [SessionStats.withdraw, h, if_pos rfl, SessionStats.leaveDomain, if_pos hdomain]

theorem withdraw_deducted {call : Compression} {row : FileStats} (hdomain : row.domain = call.domain)
    (h : SessionStats.preserveFullOnDelta call (some row) = false) :
    stats.withdraw call (some row) = stats.deductRow call row := by
  rw [SessionStats.withdraw, h, if_neg Bool.false_ne_true, SessionStats.leaveDomain, if_pos hdomain]

/-- The first recording of a file. -/
theorem Consistent.recordNew (h : Consistent ledger stats) (call : Compression)
    (hnew : stats.files.lookup (stats.recordedPath call) = none) :
    Consistent ledger (stats.recordCompression call) := by
  have hpreserve : SessionStats.preserveFullOnDelta call none = false := by
    rw [SessionStats.preserveFullOnDelta, Option.any_none, Bool.and_false]
  refine h.replaceRow (stats.recordedPath call) (SessionStats.recordRow call false
    (.start (stats.recordedPath call) call.fidelity call.isAngular call.strategy call.domain))
    ?_ (Nat.le_refl 1) ?_ ?_ (fun domain => ?_) (fun domain => ?_) (fun domain => ?_) ?_ ?_
  all_goals
    simp only [SessionStats.recordCompression, hnew, hpreserve, SessionStats.withdraw,
      SessionStats.domainEntry, getD_lookup_insert, Option.elim_none, Option.getD_none,
      SessionStats.recordRow, SessionStats.recordDomain, inDomain, Bool.false_eq_true, if_false]
  case refine_2 | refine_3 => omega
  case refine_7 | refine_8 =>
    by_cases hd : promptCache = call.domain
    · rw [if_pos hd, hd]
    · rw [if_neg hd]
  all_goals
    by_cases hd : domain = call.domain
    · subst hd
      simp [FileStats.start, Nat.add_comm]
    · rw [if_neg hd, if_neg (Ne.symm hd)]
      omega

/-- A delta after a full compression, in the same domain. -/
theorem Consistent.recordPreserved (h : Consistent ledger stats) (call : Compression)
    {row : FileStats} (hrow : stats.files.lookup (stats.recordedPath call) = some row)
    (hdomain : row.domain = call.domain)
    (hpreserve : SessionStats.preserveFullOnDelta call (some row) = true) :
    Consistent ledger (stats.recordCompression call) := by
  have hagain : row.version + 1 ≠ 1 := by
    have := h.recorded row (Table.mem_rows_of_lookup hrow)
    omega
  refine h.replaceRow (stats.recordedPath call) (SessionStats.recordRow call true row)
    ?_ (Nat.le_add_left 1 _) ?_ ?_
    (fun domain => ?_) (fun domain => ?_) (fun domain => ?_) ?_ ?_
  all_goals
    simp only [SessionStats.recordCompression, hrow, hpreserve, withdraw_preserved hdomain hpreserve,
      SessionStats.domainEntry, getD_lookup_insert, Option.elim_some, Option.getD_some,
      SessionStats.recordRow, SessionStats.recordDomain, inDomain, if_true, if_false, hdomain,
      hagain]
  case refine_2 | refine_3 => omega
  case refine_7 | refine_8 =>
    by_cases hd : promptCache = call.domain
    · rw [if_pos hd, hd]
    · rw [if_neg hd]
  all_goals
    by_cases hd : domain = call.domain
    · rw [if_pos hd, hd, Nat.add_comm]
    · rw [if_neg hd, Nat.add_comm]

/-- A further recording in the same domain, for a row without tokens. -/
theorem Consistent.recordEmpty (h : Consistent ledger stats) (call : Compression)
    {row : FileStats} (hrow : stats.files.lookup (stats.recordedPath call) = some row)
    (hdomain : row.domain = call.domain)
    (hpreserve : SessionStats.preserveFullOnDelta call (some row) = false)
    (hraw : row.rawTokens = 0) (hcompressed : row.compressedTokens = 0) :
    Consistent ledger (stats.recordCompression call) := by
  have hagain : row.version + 1 ≠ 1 := by
    have := h.recorded row (Table.mem_rows_of_lookup hrow)
    omega
  refine h.replaceRow (stats.recordedPath call) (SessionStats.recordRow call false row)
    ?_ (Nat.le_add_left 1 _) ?_ ?_
    (fun domain => ?_) (fun domain => ?_) (fun domain => ?_) ?_ ?_
  all_goals
    simp only [SessionStats.recordCompression, hrow, hpreserve, withdraw_deducted hdomain hpreserve,
      SessionStats.deductRow, SessionStats.domainEntry, getD_lookup_insert, Option.elim_some,
      Option.getD_some, SessionStats.recordRow, SessionStats.recordDomain, inDomain,
      Bool.false_eq_true, if_false, hdomain, hraw, hcompressed, hagain]
  case refine_2 | refine_3 => omega
  case refine_7 | refine_8 =>
    by_cases hd : promptCache = call.domain
    · rw [if_pos hd, hd]
    · rw [if_neg hd]
  all_goals
    by_cases hd : domain = call.domain
    · subst hd
      simp [Nat.add_comm]
    · simp only [if_neg hd, if_neg (Ne.symm hd)]
      omega

theorem Consistent.recordCompression (h : Consistent ledger stats) (call : Compression)
    (hproper : ProperRecording stats call) : Consistent ledger (stats.recordCompression call) := by
  cases hrow : stats.files.lookup (stats.recordedPath call) with
  | none => exact h.recordNew call hrow
  | some row =>
      obtain ⟨hdomain, hkeeps⟩ := hproper row hrow
      cases hpreserve : SessionStats.preserveFullOnDelta call (some row) with
      | true => exact h.recordPreserved call hrow hdomain hpreserve
      | false =>
          obtain ⟨hraw, hcompressed⟩ := hkeeps.resolve_left (by simp [hpreserve])
          exact h.recordEmpty call hrow hdomain hpreserve hraw hcompressed

/-- The first call of a proxied tool. -/
theorem Consistent.recordCbmNew (h : Consistent ledger stats) {tool : String}
    {rawTokens compressedTokens : Nat}
    (hnew : stats.files.lookup (SessionStats.cbmPath tool) = none) :
    Consistent ledger (stats.recordCbmProxy tool rawTokens compressedTokens) := by
  have hmem : SessionStats.cbmPath tool ∉ stats.files := AList.lookup_eq_none.mp hnew
  have hcache : promptCache ≠ cbmFilter := by decide
  refine h.replaceRow (SessionStats.cbmPath tool)
    { FileStats.start (SessionStats.cbmPath tool) "low" false "full" cbmFilter with
      rawTokens := 0 + rawTokens
      compressedTokens := 0 + compressedTokens
      version := 0 + 1 }
    ?_ (Nat.le_refl 1) ?_ ?_ (fun domain => ?_) (fun domain => ?_) (fun domain => ?_) ?_ ?_
  all_goals
    simp only [SessionStats.recordCbmProxy, hnew, SessionStats.domainEntry, getD_lookup_insert,
      Option.elim_none, Option.getD_none, inDomain, FileStats.start, hmem, not_false_eq_true,
      if_true, hcache, if_false]
  case refine_2 | refine_3 => omega
  all_goals
    by_cases hd : domain = cbmFilter
    · subst hd
      simp only [if_true]
      omega
    · have hd' : cbmFilter ≠ domain := Ne.symm hd
      simp only [hd, hd', if_false]
      omega

/-- A further call: the row of the tool grows as the domain does. -/
theorem Consistent.recordCbmAgain (h : Consistent ledger stats) {tool : String}
    {rawTokens compressedTokens : Nat} {row : FileStats}
    (hrow : stats.files.lookup (SessionStats.cbmPath tool) = some row)
    (hgrows : row.domain = cbmFilter ∨ rawTokens = 0 ∧ compressedTokens = 0) :
    Consistent ledger (stats.recordCbmProxy tool rawTokens compressedTokens) := by
  have hmem : SessionStats.cbmPath tool ∈ stats.files :=
    AList.lookup_isSome.mp (by rw [hrow]; rfl)
  have hcache : promptCache ≠ cbmFilter := by decide
  refine h.replaceRow (SessionStats.cbmPath tool)
    { row with
      rawTokens := row.rawTokens + rawTokens
      compressedTokens := row.compressedTokens + compressedTokens
      version := row.version + 1 }
    ?_ (Nat.le_add_left 1 _) ?_ ?_ (fun domain => ?_) (fun domain => ?_) (fun domain => ?_) ?_ ?_
  all_goals
    simp only [SessionStats.recordCbmProxy, hrow, SessionStats.domainEntry, getD_lookup_insert,
      Option.elim_some, Option.getD_some, inDomain, hmem, not_true_eq_false, if_false, hcache]
  case refine_2 | refine_3 => omega
  case refine_6 =>
    by_cases hd : domain = cbmFilter
    · subst hd
      rw [if_pos rfl, Nat.add_comm]
    · rw [if_neg hd, Nat.add_comm]
  all_goals
    by_cases hd : domain = cbmFilter
    · subst hd
      simp only [if_true]
      obtain hdomain | ⟨hraw, hcompressed⟩ := hgrows
      · simp only [hdomain, if_true]
        omega
      · simp only [hraw, hcompressed, Nat.add_zero]
        omega
    · have hd' : cbmFilter ≠ domain := Ne.symm hd
      simp only [hd, if_false]
      obtain hdomain | ⟨hraw, hcompressed⟩ := hgrows
      · simp only [hdomain, hd', if_false]
        omega
      · simp only [hraw, hcompressed, Nat.add_zero]
        omega

/-- A step that leaves the rows and notes something of the cache. -/
theorem Consistent.noteCache (h : Consistent ledger stats) {ledger' : Ledger}
    {row : DomainStats} (hraw : row.totalRawTokens + ledger.savedTokens =
      (stats.domainEntry promptCache).totalRawTokens + ledger'.savedTokens)
    (hcompressed : row.totalCompressedTokens =
      (stats.domainEntry promptCache).totalCompressedTokens)
    (hcount : row.fileCount = (stats.domainEntry promptCache).fileCount)
    (hhits : row.cacheHits.getD 0 = ledger'.hits)
    (hmisses : row.cacheMisses.getD 0 = ledger'.misses) :
    Consistent ledger'
      { stats with domainStats := stats.domainStats.insert promptCache row } := by
  have hentry : ∀ domain, SessionStats.domainEntry
      { stats with domainStats := stats.domainStats.insert promptCache row } domain =
        if domain = promptCache then row else stats.domainEntry domain :=
    fun domain => getD_lookup_insert ..
  refine ⟨⟨h.totalRaw, h.totalCompressed, fun domain => ?_, fun domain => ?_, fun domain => ?_, ?_,
    ?_⟩, h.recorded⟩
  · have hsum := h.raw domain
    rw [hentry]
    by_cases hd : domain = promptCache
    · subst hd
      rw [if_pos rfl] at hsum ⊢
      rw [if_pos rfl]
      dsimp only
      omega
    · rw [if_neg hd] at hsum ⊢
      rw [if_neg hd]
      exact hsum
  · rw [hentry]
    by_cases hd : domain = promptCache
    · subst hd
      rw [if_pos rfl, hcompressed]
      exact h.compressed promptCache
    · rw [if_neg hd]
      exact h.compressed domain
  · rw [hentry]
    by_cases hd : domain = promptCache
    · subst hd
      rw [if_pos rfl, hcount]
      exact h.fileCount promptCache
    · rw [if_neg hd]
      exact h.fileCount domain
  · rw [hentry, if_pos rfl, hhits]
  · rw [hentry, if_pos rfl, hmisses]

theorem getD_map_add {counter : Option Nat} {n : Nat} (h : counter.isSome = true ∨ n = 0) :
    (counter.map (· + n)).getD 0 = counter.getD 0 + n := by
  cases counter with
  | some m => rfl
  | none =>
      obtain h | rfl := h
      · cases h
      · rfl

theorem Consistent.recordCacheHit (h : Consistent ledger stats) {tokensSaved : Nat}
    (hsome : (stats.domainEntry promptCache).cacheHits.isSome = true) :
    Consistent (ledger.note (.cacheHit tokensSaved)) (stats.recordCacheHit tokensSaved) := by
  refine h.noteCache ?_ rfl rfl ?_ h.misses
  · simp only [Ledger.note]
    omega
  · exact (getD_map_add (.inl hsome)).trans (congrArg (· + 1) h.hits)

theorem Consistent.syncCacheMetrics (h : Consistent ledger stats) {metrics : CacheMetrics}
    (hhits : (stats.domainEntry promptCache).cacheHits.isSome = true ∨ metrics.hits = 0)
    (hmisses : (stats.domainEntry promptCache).cacheMisses.isSome = true ∨ metrics.misses = 0) :
    Consistent (ledger.note (.syncCacheMetrics metrics)) (stats.syncCacheMetrics metrics) := by
  refine h.noteCache ?_ rfl rfl ?_ ?_
  · simp only [Ledger.note]
    omega
  · exact (getD_map_add hhits).trans (congrArg (· + metrics.hits) h.hits)
  · exact (getD_map_add hmisses).trans (congrArg (· + metrics.misses) h.misses)

theorem Consistent.apply (h : Consistent ledger stats) {call : Call} (hproper : Proper stats call) :
    Consistent (ledger.note call) (stats.apply call) := by
  cases call with
  | compression call => exact h.recordCompression call hproper
  | toolFilter program canonicalKey originalTokens filteredTokens =>
      exact h.recordCompression _ hproper
  | cbmProxy tool rawTokens compressedTokens =>
      cases hrow : stats.files.lookup (SessionStats.cbmPath tool) with
      | none => exact h.recordCbmNew hrow
      | some row => exact h.recordCbmAgain hrow (hproper row hrow)
  | cacheHit tokensSaved => exact h.recordCacheHit hproper
  | syncCacheMetrics metrics => exact h.syncCacheMetrics hproper.1 hproper.2

end Steps

section Merge

variable {ledger ledger' : Ledger} {stats other : SessionStats}

theorem total_inDomain_absorb (stats other : SessionStats) (domain : String)
    {amount : FileStats → Nat} (hjoin : ∀ v w, amount (SessionStats.joinRows v w) = amount v) :
    total (inDomain domain amount) (stats.merge other).files.rows =
      total (inDomain domain amount) stats.files.rows +
        total (inDomain domain amount) (stats.files.newRows other.files) :=
  Table.total_absorb (fun v w => by rw [inDomain, inDomain, hjoin]; rfl) other.files

theorem mem_merged_keys {domain : String} {rows : List FileStats} :
    domain ∈ (Table.tally FileStats.domain FileStats.rawTokens rows).keys ++
        (Table.tally FileStats.domain FileStats.compressedTokens rows).keys ↔
      ∃ row ∈ rows, row.domain = domain := by
  rw [List.mem_append, ← AList.mem_keys, ← AList.mem_keys, Table.mem_tally, Table.mem_tally, or_self]

theorem rows_merge (stats other : SessionStats) :
    (stats.merge other).files.rows =
      Table.rows (stats.files.absorb SessionStats.joinRows other.files) :=
  rfl

def recounted (domains : Table String DomainStats) (rows : List FileStats) (domain : String) :
    DomainStats :=
  SessionStats.rebuiltDomain domains (Table.tally FileStats.domain FileStats.rawTokens rows)
    (Table.tally FileStats.domain FileStats.compressedTokens rows)
    (Table.tally FileStats.domain (fun _ => 1) rows) domain

theorem domainStats_merge (stats other : SessionStats) :
    (stats.merge other).domainStats = Table.ofKeys
      ((Table.tally FileStats.domain FileStats.rawTokens (stats.merge other).files.rows).keys ++
        (Table.tally FileStats.domain FileStats.compressedTokens
          (stats.merge other).files.rows).keys)
      (recounted stats.domainStats (stats.merge other).files.rows) :=
  rfl

/-- A domain that some row has is counted again from the rows. -/
theorem domainEntry_merge {domain : String}
    (h : ∃ row ∈ (stats.merge other).files.rows, row.domain = domain) :
    (stats.merge other).domainEntry domain =
      recounted stats.domainStats (stats.merge other).files.rows domain := by
  rw [SessionStats.domainEntry, domainStats_merge, Table.lookup_ofKeys,
    if_pos (mem_merged_keys.mpr h), Option.getD_some]

/-- Other domains lose what they had. -/
theorem domainEntry_merge_dropped {domain : String}
    (h : ¬∃ row ∈ (stats.merge other).files.rows, row.domain = domain) :
    (stats.merge other).domainEntry domain = .start domain := by
  rw [SessionStats.domainEntry, domainStats_merge, Table.lookup_ofKeys,
    if_neg (mt mem_merged_keys.mp h), Option.getD_none]

section Recounted

variable (domains : Table String DomainStats) (rows : List FileStats) (domain : String)

theorem totalCompressedTokens_recounted : (recounted domains rows domain).totalCompressedTokens =
    total (inDomain domain FileStats.compressedTokens) rows := by
  refine Eq.trans ?_ (Table.getD_lookup_tally FileStats.domain _ _ _)
  rw [recounted, SessionStats.rebuiltDomain]
  split
  · split <;> rfl
  · split
    · split <;> rfl
    · rfl

theorem fileCount_recounted : (recounted domains rows domain).fileCount =
    total (inDomain domain fun _ => 1) rows := by
  refine Eq.trans ?_ (Table.getD_lookup_tally FileStats.domain _ _ _)
  rw [recounted, SessionStats.rebuiltDomain]
  split
  · split <;> rfl
  · split
    · split <;> rfl
    · rfl

theorem totalRawTokens_recounted (h : domain = promptCache → domains.lookup promptCache = none) :
    (recounted domains rows domain).totalRawTokens =
      total (inDomain domain FileStats.rawTokens) rows := by
  refine Eq.trans ?_ (Table.getD_lookup_tally FileStats.domain _ _ _)
  rw [recounted, SessionStats.rebuiltDomain]
  split
  · rename_i hdomain
    rw [h hdomain]
  · split
    · split <;> rfl
    · rfl

end Recounted

/-- The cache row of a merge that has a row for it: this side's, if there is one. -/
theorem recounted_promptCache {domains : Table String DomainStats} (rows : List FileStats)
    {preserved : DomainStats} (h : domains.lookup promptCache = some preserved) :
    (recounted domains rows promptCache).totalRawTokens = preserved.totalRawTokens ∧
      (recounted domains rows promptCache).cacheHits = preserved.cacheHits ∧
      (recounted domains rows promptCache).cacheMisses = preserved.cacheMisses := by
  rw [recounted, SessionStats.rebuiltDomain, if_pos rfl, h]
  exact ⟨rfl, rfl, rfl⟩

theorem recounted_promptCache_none {domains : Table String DomainStats} (rows : List FileStats)
    (h : domains.lookup promptCache = none) :
    (recounted domains rows promptCache).cacheHits = none ∧
      (recounted domains rows promptCache).cacheMisses = none := by
  rw [recounted, SessionStats.rebuiltDomain, if_pos rfl, h]
  exact ⟨rfl, rfl⟩

theorem total_inDomain_dropped {domain : String} {amount : FileStats → Nat}
    {rows : List FileStats} (h : ¬∃ row ∈ rows, row.domain = domain) :
    total (inDomain domain amount) rows = 0 :=
  total_eq_zero fun row hrow => if_neg fun hdomain => h ⟨row, hrow, hdomain⟩

/-- A side that holds nothing of a cache has nothing in the ledger. -/
theorem Consistent.ledger_of_not_holdsCache (h : Consistent ledger stats)
    (hplain : ¬HoldsCache stats) :
    ledger.savedTokens = 0 ∧ ledger.hits = 0 ∧ ledger.misses = 0 := by
  simp only [HoldsCache, not_or, not_not] at hplain
  obtain ⟨hraw, hhits, hmisses⟩ := hplain
  have hsum := h.raw promptCache
  rw [if_pos rfl] at hsum
  exact ⟨by omega, h.hits.symm.trans hhits, h.misses.symm.trans hmisses⟩

/-- The rows of a domain are in the merge if either side has them. -/
theorem exists_row_merge {domain : String}
    (h : ∃ row ∈ stats.files.rows ++ stats.files.newRows other.files, row.domain = domain) :
    ∃ row ∈ (stats.merge other).files.rows, row.domain = domain := by
  by_contra hnone
  obtain ⟨row, hrow, hdomain⟩ := h
  have hcount := @total_inDomain_absorb stats other domain (fun _ => 1) fun _ _ => rfl
  rw [total_inDomain_dropped hnone] at hcount
  have hone : inDomain domain (fun _ => 1) row = 1 := if_pos hdomain
  obtain hrow | hrow := List.mem_append.mp hrow
  · have : inDomain domain (fun _ => 1) row ≤ total (inDomain domain fun _ => 1) _ :=
      amount_le_total hrow
    omega
  · have : inDomain domain (fun _ => 1) row ≤ total (inDomain domain fun _ => 1) _ :=
      amount_le_total hrow
    omega

/-- What this side recorded of the cache stays on top of the rows. -/
theorem Consistent.cache_merge (h : Consistent ledger stats) (hmerge : Mergeable stats other) :
    ((stats.merge other).domainEntry promptCache).totalRawTokens =
        total (inDomain promptCache FileStats.rawTokens) (stats.merge other).files.rows +
          ledger.savedTokens ∧
      ((stats.merge other).domainEntry promptCache).cacheHits.getD 0 = ledger.hits ∧
      ((stats.merge other).domainEntry promptCache).cacheMisses.getD 0 = ledger.misses := by
  have hsum := h.raw promptCache
  rw [if_pos rfl] at hsum
  by_cases hrow : ∃ row ∈ (stats.merge other).files.rows, row.domain = promptCache
  · rw [domainEntry_merge hrow]
    cases hlookup : stats.domainStats.lookup promptCache with
    | none =>
        have hstart : stats.domainEntry promptCache = .start promptCache := by
          rw [SessionStats.domainEntry, hlookup, Option.getD_none]
        obtain ⟨hhits, hmisses⟩ := recounted_promptCache_none
          (stats.merge other).files.rows hlookup
        have hzero : (DomainStats.start promptCache).totalRawTokens = 0 := rfl
        rw [hstart, hzero] at hsum
        rw [totalRawTokens_recounted _ _ _ fun _ => hlookup, hhits, hmisses, ← h.hits, ← h.misses,
          hstart]
        exact ⟨by omega, rfl, rfl⟩
    | some preserved =>
        have hentry : stats.domainEntry promptCache = preserved := by
          rw [SessionStats.domainEntry, hlookup, Option.getD_some]
        have hmem : promptCache ∈ stats.domainStats :=
          AList.lookup_isSome.mp (by rw [hlookup]; rfl)
        have hnew : total (inDomain promptCache FileStats.rawTokens)
            (stats.files.newRows other.files) = 0 := total_eq_zero fun row hrow => by
          by_cases hdomain : row.domain = promptCache
          · exact (if_pos hdomain).trans (hmerge.noneBeside hmem row hrow hdomain)
          · exact if_neg hdomain
        have habsorb := @total_inDomain_absorb stats other promptCache FileStats.rawTokens
          fun _ _ => rfl
        obtain ⟨hraw, hhits, hmisses⟩ := recounted_promptCache
          (stats.merge other).files.rows hlookup
        rw [hentry] at hsum
        rw [hraw, hhits, hmisses, ← h.hits, ← h.misses, hentry]
        exact ⟨by omega, rfl, rfl⟩
  · have hplain : ¬HoldsCache stats := fun hholds =>
      hrow (exists_row_merge (hmerge.cacheStays hholds))
    obtain ⟨hsaved, hhits, hmisses⟩ := h.ledger_of_not_holdsCache hplain
    rw [domainEntry_merge_dropped hrow, total_inDomain_dropped hrow, hsaved, hhits, hmisses]
    exact ⟨rfl, rfl, rfl⟩

theorem Consistent.merge (h : Consistent ledger stats) (h' : Consistent ledger' other)
    (hmerge : Mergeable stats other) : Consistent (ledger.join ledger') (stats.merge other) := by
  obtain ⟨hsaved', hhits', hmisses'⟩ := h'.ledger_of_not_holdsCache hmerge.otherPlain
  obtain ⟨hraw, hhits, hmisses⟩ := h.cache_merge hmerge
  refine ⟨⟨rfl, rfl, fun domain => ?_, fun domain => ?_, fun domain => ?_, ?_, ?_⟩, ?_⟩
  · by_cases hdomain : domain = promptCache
    · subst hdomain
      rw [if_pos rfl, hraw, Ledger.join, hsaved', Nat.add_zero]
    · rw [if_neg hdomain, Nat.add_zero]
      by_cases hrow : ∃ row ∈ (stats.merge other).files.rows, row.domain = domain
      · rw [domainEntry_merge hrow, totalRawTokens_recounted _ _ _ fun h => absurd h hdomain]
      · rw [domainEntry_merge_dropped hrow, total_inDomain_dropped hrow]
        rfl
  · by_cases hrow : ∃ row ∈ (stats.merge other).files.rows, row.domain = domain
    · rw [domainEntry_merge hrow, totalCompressedTokens_recounted]
    · rw [domainEntry_merge_dropped hrow, total_inDomain_dropped hrow]
      rfl
  · by_cases hrow : ∃ row ∈ (stats.merge other).files.rows, row.domain = domain
    · rw [domainEntry_merge hrow, fileCount_recounted]
    · rw [domainEntry_merge_dropped hrow, total_inDomain_dropped hrow]
      rfl
  · rw [hhits, Ledger.join, hhits', Nat.add_zero]
  · rw [hmisses, Ledger.join, hmisses', Nat.add_zero]
  · rw [rows_merge]
    refine Table.forall_mem_absorb (fun row row' hrow => ?_) h.recorded h'.recorded
    exact Nat.le_trans hrow (Nat.le_max_left _ _)

theorem fullCompressCount_merge (stats other : SessionStats) :
    (stats.merge other).fullCompressCount = stats.files.rows.countP SessionStats.isFullRow +
      (stats.files.newRows other.files).countP SessionStats.isFullRow :=
  @Table.countP_absorb _ _ _ SessionStats.joinRows stats.files _ (fun _ _ => rfl) other.files

theorem deltaCount_merge (stats other : SessionStats) :
    (stats.merge other).deltaCount = stats.files.rows.countP SessionStats.isDeltaRow +
      (stats.files.newRows other.files).countP SessionStats.isDeltaRow :=
  @Table.countP_absorb _ _ _ SessionStats.joinRows stats.files _ (fun _ _ => rfl) other.files

theorem Mergeable.keepsCounters (h : Mergeable stats other) : KeepsCounters stats other where
  full := (fullCompressCount_merge stats other).trans h.full
  delta := (deltaCount_merge stats other).trans h.delta
  cbm := rfl

end Merge

/-- The totals of the session agree with the rows in every run. -/
theorem Run.totals {proper : SessionStats → Call → Prop}
    {mergeable : SessionStats → SessionStats → Prop} {ledger : Ledger} {stats : SessionStats}
    (run : Run proper mergeable ledger stats) : TotalsAddUp stats := by
  induction run with
  | new => exact ⟨rfl, rfl⟩
  | call _ call _ ih => exact ih.apply call
  | merge _ _ _ _ _ => exact ⟨rfl, rfl⟩

theorem Run.keepsTotals {ledger : Ledger} {stats : SessionStats}
    (run : Run Proper Mergeable ledger stats) : Consistent ledger stats := by
  induction run with
  | new => exact consistent_new
  | call _ call hproper ih => exact ih.apply hproper
  | merge _ _ hmerge ih ih' => exact ih.merge ih' hmerge

/-- In a run of proper steps the statistics add up in every state, and a merge keeps the counters
of both sides. -/
theorem Run.addsUp {ledger : Ledger} {stats : SessionStats}
    (run : Run Proper Mergeable ledger stats) :
    AddsUp ledger stats ∧ ∀ ledger' other, Run Proper Mergeable ledger' other →
      Mergeable stats other → KeepsCounters stats other :=
  ⟨run.keepsTotals.toAddsUp, fun _ _ _ hmerge => hmerge.keepsCounters⟩

/-- A file that is compressed to some forty of a hundred tokens. -/
def fileCompression (strategy : String) : Compression where
  filePath := "a.ts"
  canonicalKey := "/repo/a.ts"
  rawTokens := 100
  compressedTokens := 40
  fidelity := "low"
  isAngular := false
  strategy
  fullCompressedTokens := none
  domain := "ir_compression"

/-- A full compression and then a delta. -/
theorem Run.addsUp_delta : AddsUp .empty
    ((SessionStats.new.apply (.compression (fileCompression "full"))).apply
      (.compression (fileCompression "delta"))) := by
  have hfirst : Proper .new (.compression (fileCompression "full")) := nofun
  have hsecond : Proper (SessionStats.new.apply (.compression (fileCompression "full")))
      (.compression (fileCompression "delta")) := by
    intro row hrow
    cases hrow
    exact ⟨rfl, .inl rfl⟩
  exact (Run.addsUp ((Run.new.call _ hfirst).call _ hsecond)).1

/-- The second full compression counts the tokens of the file twice in its domain. -/
theorem not_addsUp : ¬∀ ledger stats, Run (fun _ _ => True) (fun _ _ => True) ledger stats →
    AddsUp ledger stats ∧ ∀ ledger' other, Run (fun _ _ => True) (fun _ _ => True) ledger' other →
      KeepsCounters stats other := by
  intro h
  have run : Run (fun _ _ => True) (fun _ _ => True) .empty
      ((SessionStats.new.apply (.compression (fileCompression "full"))).apply
        (.compression (fileCompression "full"))) :=
    (Run.new.call (.compression (fileCompression "full")) trivial).call
      (.compression (fileCompression "full")) trivial
  exact absurd ((h _ _ run).1.raw "ir_compression") (by decide)

end Stats
end CleanCtx
