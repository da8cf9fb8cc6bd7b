import CleanCtx.Mcp.StatsTotals

/-!
The counters of a merge, side by side. In a run that records deltas over rows that count,
no state has more rows than operations counted; a merge of two such keeps the counters
exactly when each counts just its rows and none of these is for a file of both.
-/
namespace CleanCtx
namespace Stats

variable {stats other : SessionStats}

/-- The counters of the operations are the numbers of the rows. -/
structure CountsItsRows (stats : SessionStats) : Prop where
  full : stats.files.rows.countP SessionStats.isFullRow = stats.fullCompressCount
  delta : stats.files.rows.countP SessionStats.isDeltaRow = stats.deltaCount

structure Counted (stats : SessionStats) : Prop where
  full : stats.files.rows.countP SessionStats.isFullRow ≤ stats.fullCompressCount
  delta : stats.files.rows.countP SessionStats.isDeltaRow ≤ stats.deltaCount

/-- A merge keeps the counters when each side counts just its rows, and no file that both have is
among those counted. -/
theorem keepsCounters_iff (h : Counted stats) (h' : Counted other) :
    KeepsCounters stats other ↔ CountsItsRows stats ∧ CountsItsRows other ∧
      ∀ row ∈ stats.files.sharedRows other.files,
        SessionStats.isFullRow row = false ∧ SessionStats.isDeltaRow row = false := by
  have hfull := Table.countP_merged_iff h.full h'.full
  have hdelta := Table.countP_merged_iff h.delta h'.delta
  have hkeeps : KeepsCounters stats other ↔
      stats.files.rows.countP SessionStats.isFullRow +
          (stats.files.newRows other.files).countP SessionStats.isFullRow =
        stats.fullCompressCount + other.fullCompressCount ∧
      stats.files.rows.countP SessionStats.isDeltaRow +
          (stats.files.newRows other.files).countP SessionStats.isDeltaRow =
        stats.deltaCount + other.deltaCount := by
    rw [← fullCompressCount_merge, ← deltaCount_merge]
    exact ⟨fun hkeeps => ⟨hkeeps.full, hkeeps.delta⟩, fun hboth => ⟨hboth.1, hboth.2, rfl⟩⟩
  rw [hkeeps, hfull, hdelta]
  constructor
  · rintro ⟨⟨hown, hother, hshared⟩, hown', hother', hshared'⟩
    exact ⟨⟨hown, hown'⟩, ⟨hother, hother'⟩, fun row hrow => ⟨hshared row hrow, hshared' row hrow⟩⟩
  · rintro ⟨hown, hother, hshared⟩
    exact ⟨⟨hown.full, hother.full, fun row hrow => (hshared row hrow).1⟩,
      hown.delta, hother.delta, fun row hrow => (hshared row hrow).2⟩

/-- A delta is recorded over a row that counts as a full compression or as a delta. -/
def Countable (stats : SessionStats) : Call → Prop
  | .compression call => call.strategy = "delta" →
      ∀ row ∈ stats.files.lookup (stats.recordedPath call),
        row.strategy = "full" ∨ SessionStats.isFullRow row = true ∨
          SessionStats.isDeltaRow row = true
  | _ => True

theorem counted_new : Counted .new where
  full := Nat.le_refl 0
  delta := Nat.le_refl 0

theorem files_recordCompression (stats : SessionStats) (call : Compression) :
    (stats.recordCompression call).files = stats.files.insert (stats.recordedPath call)
      (SessionStats.recordRow call
        (SessionStats.preserveFullOnDelta call (stats.files.lookup (stats.recordedPath call)))
        ((stats.files.lookup (stats.recordedPath call)).getD (.start (stats.recordedPath call)
          call.fidelity call.isAngular call.strategy call.domain))) := by
  have hfiles : ∀ previous, (stats.withdraw call previous).files = stats.files := by
    intro previous
    cases previous with
    | none => rfl
    | some row =>
        simp only [SessionStats.withdraw]
        split <;> rfl
  simp only [SessionStats.recordCompression, hfiles]

/-- The rows that count after a recording, for a count that sees the path and the strategy. -/
theorem countP_recordCompression {p : FileStats → Bool} {q : String → String → Bool}
    (hp : ∀ row, p row = q row.filePath row.strategy) (call : Compression) :
    (stats.recordCompression call).files.rows.countP p +
        ((stats.files.lookup (stats.recordedPath call)).elim 0 fun row => (p row).toNat) =
      (q (((stats.files.lookup (stats.recordedPath call)).map FileStats.filePath).getD
        (stats.recordedPath call)) call.strategy).toNat + stats.files.rows.countP p := by
  rw [files_recordCompression, Table.countP_insert]
  cases stats.files.lookup (stats.recordedPath call) <;> rw [hp] <;> rfl

section Recorded

variable {call : Compression}

theorem fullCompressCount_recordNew
    (hnew : stats.files.lookup (stats.recordedPath call) = none) :
    (stats.recordCompression call).fullCompressCount =
      if call.strategy = "delta" then stats.fullCompressCount
      else stats.fullCompressCount + 1 := by
  simp only [SessionStats.recordCompression, hnew, SessionStats.withdraw]

theorem deltaCount_recordNew (hnew : stats.files.lookup (stats.recordedPath call) = none) :
    (stats.recordCompression call).deltaCount =
      if call.strategy = "delta" then stats.deltaCount + 1 else stats.deltaCount := by
  simp only [SessionStats.recordCompression, hnew, SessionStats.withdraw]

variable {row : FileStats}

theorem fullCompressCount_recordAgain
    (hrow : stats.files.lookup (stats.recordedPath call) = some row) :
    (stats.recordCompression call).fullCompressCount =
      if call.strategy = "delta" then
        if row.strategy = "full" ∨ row.strategy = "delta" then stats.fullCompressCount
        else stats.fullCompressCount - 1
      else if row.strategy = call.strategy ∨ row.strategy = "delta" then
        stats.fullCompressCount + 1
      else stats.fullCompressCount - 1 + 1 := by
  simp only [SessionStats.recordCompression, hrow, SessionStats.withdraw,
    SessionStats.preserveFullOnDelta, SessionStats.deductRow, Option.any_some]
  grind

theorem deltaCount_recordAgain
    (hrow : stats.files.lookup (stats.recordedPath call) = some row) :
    (stats.recordCompression call).deltaCount =
      if call.strategy = "delta" then stats.deltaCount + 1
      else if row.strategy = "delta" then stats.deltaCount - 1
      else stats.deltaCount := by
  simp only [SessionStats.recordCompression, hrow, SessionStats.withdraw,
    SessionStats.preserveFullOnDelta, SessionStats.deductRow, Option.any_some]
  grind

/-- A delta takes off the full rows what its file had there, and is one more of the deltas. -/
theorem rows_recordDelta (hcall : call.strategy = "delta") :
    (stats.recordCompression call).files.rows.countP SessionStats.isFullRow +
        ((stats.files.lookup (stats.recordedPath call)).elim 0
          fun row => (SessionStats.isFullRow row).toNat) =
      stats.files.rows.countP SessionStats.isFullRow ∧
    (stats.recordCompression call).files.rows.countP SessionStats.isDeltaRow +
        ((stats.files.lookup (stats.recordedPath call)).elim 0
          fun row => (SessionStats.isDeltaRow row).toNat) =
      1 + stats.files.rows.countP SessionStats.isDeltaRow := by
  have hfull := @countP_recordCompression stats SessionStats.isFullRow
    (fun path strategy => strategy ≠ "delta" && !"cbm://".toList.isPrefixOf path.toList)
    (fun _ => rfl) call
  have hdelta := @countP_recordCompression stats SessionStats.isDeltaRow
    (fun _ strategy => strategy = "delta") (fun _ => rfl) call
  simp only [hcall, ne_eq, not_true_eq_false, decide_false, Bool.false_and, Bool.toNat_false,
    decide_true, Bool.toNat_true, Nat.zero_add] at hfull hdelta
  exact ⟨hfull, hdelta⟩

/-- What is recorded otherwise takes off the deltas what its file had there. -/
theorem rows_recordOther (hcall : call.strategy ≠ "delta") :
    (stats.recordCompression call).files.rows.countP SessionStats.isFullRow +
        ((stats.files.lookup (stats.recordedPath call)).elim 0
          fun row => (SessionStats.isFullRow row).toNat) =
      (!"cbm://".toList.isPrefixOf (((stats.files.lookup (stats.recordedPath call)).map
        FileStats.filePath).getD (stats.recordedPath call)).toList).toNat +
        stats.files.rows.countP SessionStats.isFullRow ∧
    (stats.recordCompression call).files.rows.countP SessionStats.isDeltaRow +
        ((stats.files.lookup (stats.recordedPath call)).elim 0
          fun row => (SessionStats.isDeltaRow row).toNat) =
      stats.files.rows.countP SessionStats.isDeltaRow := by
  have hfull := @countP_recordCompression stats SessionStats.isFullRow
    (fun path strategy => strategy ≠ "delta" && !"cbm://".toList.isPrefixOf path.toList)
    (fun _ => rfl) call
  have hdelta := @countP_recordCompression stats SessionStats.isDeltaRow
    (fun _ strategy => strategy = "delta") (fun _ => rfl) call
  simp only [hcall, ne_eq, not_false_eq_true, decide_true, Bool.true_and, decide_false,
    Bool.toNat_false, Nat.zero_add] at hfull hdelta
  exact ⟨hfull, hdelta⟩

end Recorded

section Steps

variable {call : Compression}

theorem Counted.recordDelta (h : Counted stats) (hcall : call.strategy = "delta")
    (hcountable : Countable stats (.compression call)) :
    Counted (stats.recordCompression call) := by
  obtain ⟨hfull, hdelta⟩ := @rows_recordDelta stats call hcall
  have hfullRows := h.full
  have hdeltaRows := h.delta
  cases hrow : stats.files.lookup (stats.recordedPath call) with
  | none =>
      rw [hrow, Option.elim_none] at hfull hdelta
      constructor
      · rw [fullCompressCount_recordNew hrow, if_pos hcall]
        omega
      · rw [deltaCount_recordNew hrow, if_pos hcall]
        omega
  | some row =>
      rw [hrow, Option.elim_some] at hfull hdelta
      constructor
      · rw [fullCompressCount_recordAgain hrow, if_pos hcall]
        by_cases hkept : row.strategy = "full" ∨ row.strategy = "delta"
        · rw [if_pos hkept]
          omega
        · -- The count loses one, and so do the rows that count.
          obtain ⟨hnotFull, hnotDelta⟩ := not_or.mp hkept
          have hone : SessionStats.isFullRow row = true :=
            ((hcountable hcall row hrow).resolve_left hnotFull).resolve_right
              (by simp [SessionStats.isDeltaRow, hnotDelta])
          rw [hone, Bool.toNat_true] at hfull
          rw [if_neg hkept]
          omega
      · rw [deltaCount_recordAgain hrow, if_pos hcall]
        omega

theorem Counted.recordOther (h : Counted stats) (hcall : call.strategy ≠ "delta") :
    Counted (stats.recordCompression call) := by
  obtain ⟨hfull, hdelta⟩ := @rows_recordOther stats call hcall
  have hle : ∀ counts : Bool, counts.toNat ≤ 1 := Bool.toNat_le
  have hfullRows := h.full
  have hdeltaRows := h.delta
  cases hrow : stats.files.lookup (stats.recordedPath call) with
  | none =>
      rw [hrow, Option.elim_none] at hfull hdelta
      have := hle (!"cbm://".toList.isPrefixOf (((none : Option FileStats).map
        FileStats.filePath).getD (stats.recordedPath call)).toList)
      constructor
      · rw [fullCompressCount_recordNew hrow, if_neg hcall]
        omega
      · rw [deltaCount_recordNew hrow, if_neg hcall]
        omega
  | some row =>
      rw [hrow, Option.elim_some] at hfull hdelta
      constructor
      · rw [fullCompressCount_recordAgain hrow, if_neg hcall]
        by_cases hrowDelta : row.strategy = "delta"
        · have := hle (!"cbm://".toList.isPrefixOf (((some row).map
            FileStats.filePath).getD (stats.recordedPath call)).toList)
          rw [if_pos (.inr hrowDelta)]
          omega
        · -- The row counts as it did, and so the count is not less than before.
          simp only [Option.map_some, Option.getD_some, SessionStats.isFullRow, ne_eq, hrowDelta,
            not_false_eq_true, decide_true, Bool.true_and] at hfull
          split <;> omega
      · rw [deltaCount_recordAgain hrow, if_neg hcall]
        by_cases hrowDelta : row.strategy = "delta"
        · rw [SessionStats.isDeltaRow, decide_eq_true hrowDelta, Bool.toNat_true] at hdelta
          rw [if_pos hrowDelta]
          omega
        · rw [if_neg hrowDelta]
          omega

end Steps

theorem Counted.recordCompression (h : Counted stats) {call : Compression}
    (hcountable : Countable stats (.compression call)) :
    Counted (stats.recordCompression call) := by
  by_cases hcall : call.strategy = "delta"
  · exact h.recordDelta hcall hcountable
  · exact h.recordOther hcall

/-- A proxy call leaves the rows that count as many as they were. -/
theorem countP_recordCbmProxy {p : FileStats → Bool} {q : String → String → Bool}
    (hp : ∀ row, p row = q row.filePath row.strategy) (tool : String)
    (rawTokens compressedTokens : Nat) (hproxied : q (SessionStats.cbmPath tool) "full" = false) :
    (stats.recordCbmProxy tool rawTokens compressedTokens).files.rows.countP p =
      stats.files.rows.countP p := by
  have hinsert := Table.countP_insert p stats.files (SessionStats.cbmPath tool)
  cases hrow : stats.files.lookup (SessionStats.cbmPath tool) with
  | none =>
      rw [hrow, Option.elim_none] at hinsert
      simp only [SessionStats.recordCbmProxy, hrow, Option.getD_none]
      have hnew := hinsert { FileStats.start (SessionStats.cbmPath tool) "low" false "full"
        cbmFilter with
          rawTokens := 0 + rawTokens
          compressedTokens := 0 + compressedTokens
          version := 0 + 1 }
      rw [hp] at hnew
      simp only [FileStats.start, hproxied, Bool.toNat_false] at hnew ⊢
      omega
  | some row =>
      rw [hrow, Option.elim_some] at hinsert
      simp only [SessionStats.recordCbmProxy, hrow, Option.getD_some]
      have hagain := hinsert { row with
        rawTokens := row.rawTokens + rawTokens
        compressedTokens := row.compressedTokens + compressedTokens
        version := row.version + 1 }
      rw [hp row, hp] at hagain
      exact Nat.add_right_cancel (hagain.trans (Nat.add_comm _ _))

theorem Counted.recordCbmProxy (h : Counted stats) (tool : String)
    (rawTokens compressedTokens : Nat) :
    Counted (stats.recordCbmProxy tool rawTokens compressedTokens) := by
  constructor
  · rw [@countP_recordCbmProxy stats SessionStats.isFullRow
      (fun path strategy => strategy ≠ "delta" && !"cbm://".toList.isPrefixOf path.toList)
      (fun _ => rfl) tool rawTokens compressedTokens (by simp [SessionStats.cbmPath])]
    exact h.full
  · rw [@countP_recordCbmProxy stats SessionStats.isDeltaRow (fun _ strategy => strategy = "delta")
      (fun _ => rfl) tool rawTokens compressedTokens (by decide)]
    exact h.delta

theorem Counted.apply (h : Counted stats) {call : Call} (hcountable : Countable stats call) :
    Counted (stats.apply call) := by
  cases call with
  | compression call => exact h.recordCompression hcountable
  | toolFilter program canonicalKey originalTokens filteredTokens =>
      have hfull : (SessionStats.filterCall program canonicalKey originalTokens
          filteredTokens).strategy ≠ "delta" := (by decide : "full" ≠ "delta")
      exact h.recordCompression fun hdelta => absurd hdelta hfull
  | cbmProxy tool rawTokens compressedTokens => exact h.recordCbmProxy tool _ _
  | cacheHit tokensSaved => exact ⟨h.full, h.delta⟩
  | syncCacheMetrics metrics => exact ⟨h.full, h.delta⟩

/-- In a run that records deltas over rows that count, no state has more rows than it counted. -/
theorem Run.counted {proper : SessionStats → Call → Prop}
    {mergeable : SessionStats → SessionStats → Prop} {ledger : Ledger}
    (hproper : ∀ stats call, proper stats call → Countable stats call)
    (run : Run proper mergeable ledger stats) : Counted stats := by
  induction run with
  | new => exact counted_new
  | call _ call h ih => exact ih.apply (hproper _ call h)
  | merge _ _ _ _ _ => exact ⟨Nat.le_refl _, Nat.le_refl _⟩

/-- What a merge of two such runs has to find for the counters, side by side. -/
theorem Run.keepsCounters_iff {proper : SessionStats → Call → Prop}
    {mergeable : SessionStats → SessionStats → Prop} {ledger ledger' : Ledger}
    {other : SessionStats} (hproper : ∀ stats call, proper stats call → Countable stats call)
    (run : Run proper mergeable ledger stats) (run' : Run proper mergeable ledger' other) :
    KeepsCounters stats other ↔ CountsItsRows stats ∧ CountsItsRows other ∧
      ∀ row ∈ stats.files.sharedRows other.files,
        SessionStats.isFullRow row = false ∧ SessionStats.isDeltaRow row = false :=
  Stats.keepsCounters_iff (run.counted hproper) (run'.counted hproper)

end Stats
end CleanCtx
