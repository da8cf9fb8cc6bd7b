import CleanCtx.MetaUtil.LexicalRegions

/-!
When the index of lexical regions and the scanner agree. Both loops move between four
kinds of regions, and differ only in how many bytes of a comment marker they step over. So
they agree on a source exactly if none of its block comments opens with `/*/`.
-/
namespace CleanCtx
namespace MetaUtil

inductive Region
  | code | lineComment | blockComment | string (quote : UInt8)
  deriving DecidableEq

namespace Region

/-- The region after a byte, and whether the byte after it belongs to it. -/
def next (region : Region) (c : UInt8) (after : Option UInt8) : Region × Bool :=
  match region with
  | lineComment => (if c = newline then code else lineComment, false)
  | blockComment => if c = star ∧ after = some slash then (code, true) else (blockComment, false)
  | string quote =>
      if c = backslash then (string quote, true)
      else (if c = quote then code else string quote, false)
  | code =>
      if c = slash ∧ after = some slash then (lineComment, true)
      else if c = slash ∧ after = some star then (blockComment, true)
      else (if isQuote c then string c else code, false)

def after : List UInt8 → Nat → Region → Region
  | [], _, region | _, 0, region => region
  | [c], _ + 1, region => (region.next c none).1
  | c :: d :: rest, distance + 1, region =>
      let (region, two) := region.next c (some d)
      if two then after rest (distance - 1) region else after (d :: rest) distance region

/-- As the index reads it: a comment marker is one byte. -/
def indexNext (c : UInt8) (after : Option UInt8) : Region × Bool → Region × Bool
  | (region, true) => (region, false)
  | (code, false) => ((code.next c after).1, false)
  | (region, false) => region.next c after

def indexAfter : List UInt8 → Nat → Region × Bool → Region × Bool
  | [], _, state | _, 0, state => state
  | c :: rest, distance + 1, state => indexAfter rest distance (indexNext c rest.head? state)

/-- No block comment opens with a marker whose star could be that of its end as well. -/
def Straight : Region → List UInt8 → Prop
  | _, [] | _, [_] => True
  | region, c :: d :: rest =>
      ¬(region = code ∧ c = slash ∧ d = star ∧ rest.head? = some slash) ∧
        if (region.next c (some d)).2 then Straight (region.next c (some d)).1 rest
        else Straight (region.next c (some d)).1 (d :: rest)

end Region

section Loops

variable {region : Region} {c d : UInt8} {rest : List UInt8}

namespace Region

def toScanner : Region → ScannerState
  | code => ScannerState.initial
  | lineComment => { ScannerState.initial with inLineComment := true }
  | blockComment => { ScannerState.initial with inBlockComment := true }
  | string quote =>
      { ScannerState.initial with inString := some (quote, decide (quote = backtick)) }

def toIndex (region : Region) (skipNext : Bool) (spanStart : Option Nat)
    (spans : List (Nat × Nat)) : IndexState where
  inLineComment := region = lineComment
  inBlockComment := region = blockComment
  inString :=
    match region with
    | string quote => some quote
    | _ => none
  skipNext := skipNext
  spanStart := spanStart
  spans := spans

theorem nonCode_toScanner (region : Region) :
    region.toScanner.nonCode = true ↔ region ≠ code := by
  cases region <;> simp [toScanner, ScannerState.nonCode, ScannerState.initial]

theorem advance_toScanner (region : Region) (c : UInt8) (after : Option UInt8) :
    region.toScanner.advance c after =
      ((region.next c after).1.toScanner, (region.next c after).2) := by
  cases region with
  | code =>
      rw [next, ScannerState.advance]
      simp only [toScanner, ScannerState.initial, Bool.false_eq_true, if_false]
      split_ifs <;> rfl
  | lineComment =>
      rw [next, ScannerState.advance]
      simp only [toScanner, ScannerState.initial, if_true]
      split_ifs <;> rfl
  | blockComment =>
      rw [next, ScannerState.advance]
      simp only [toScanner, ScannerState.initial, Bool.false_eq_true, if_false, if_true]
      split_ifs <;> rfl
  | string quote =>
      rw [next, ScannerState.advance]
      simp only [toScanner, ScannerState.initial, Bool.false_eq_true, if_false,
        Int.lt_irrefl, and_false]
      split_ifs <;> rfl

theorem run_toScanner (bytes : List UInt8) (distance : Nat) (region : Region) :
    region.toScanner.run bytes distance = (after bytes distance region).toScanner := by
  fun_induction after bytes distance region with
  | case1 | case2 => simp [ScannerState.run]
  | case3 c distance region => rw [ScannerState.run, advance_toScanner]
  | case4 c d rest distance region next heq ih =>
      rw [ScannerState.run, advance_toScanner, heq]
      simp only [if_true, ih]
  | case5 c d rest distance region next two heq htwo ih =>
      rw [ScannerState.run, advance_toScanner, heq]
      simp only [htwo, ih]
      rfl

/-- What the index records of a byte, apart from the edges. -/
theorem advance_toIndex (region : Region) (skipNext : Bool) (spanStart : Option Nat)
    (spans : List (Nat × Nat)) (c : UInt8) (after : Option UInt8) :
    (region.toIndex skipNext spanStart spans).advance c after =
      (indexNext c after (region, skipNext)).1.toIndex (indexNext c after (region, skipNext)).2
        spanStart spans := by
  cases skipNext with
  | true => cases region <;> rfl
  | false =>
      cases region with
      | code =>
          rw [indexNext, next, IndexState.advance]
          simp only [toIndex, reduceCtorEq, decide_false, Bool.false_eq_true, if_false]
          split_ifs <;> rfl
      | lineComment =>
          rw [indexNext, next, IndexState.advance]
          simp only [toIndex, decide_true, if_true, Bool.false_eq_true, if_false]
          split_ifs <;> rfl
          simp
      | blockComment =>
          rw [indexNext, next, IndexState.advance]
          simp only [toIndex, reduceCtorEq, decide_false, decide_true, if_true,
            Bool.false_eq_true, if_false]
          split_ifs <;> rfl
          simp
      | string quote =>
          rw [indexNext, next, IndexState.advance]
          simp only [toIndex, reduceCtorEq, decide_false, Bool.false_eq_true, if_false]
          split_ifs <;> rfl
          simp

theorem fst_indexNext (region : Region) (c : UInt8) (after : Option UInt8) :
    (indexNext c after (region, false)).1 = (region.next c after).1 := by
  cases region <;> rfl

theorem indexNext_one {after : Option UInt8} (h : (region.next c after).2 = false) :
    indexNext c after (region, false) = ((region.next c after).1, false) := by
  refine Prod.ext (fst_indexNext region c after) ?_
  cases region with
  | code => rfl
  | lineComment | blockComment | string => exact h

/-- The second byte of a marker changes nothing, unless it is the star of `/*/`. -/
theorem indexNext_two (h : (region.next c (some d)).2 = true)
    (hopen : ¬(region = code ∧ c = slash ∧ d = star ∧ rest.head? = some slash)) :
    indexNext d rest.head? (indexNext c (some d) (region, false)) =
      ((region.next c (some d)).1, false) := by
  cases region with
  | lineComment => cases h
  | code =>
      rw [indexNext]
      rw [next] at h ⊢
      split_ifs at h ⊢ with hline hblock
      · obtain ⟨-, hd⟩ := hline
        obtain rfl := Option.some.inj hd
        rfl
      · obtain ⟨rfl, hd⟩ := hblock
        obtain rfl := Option.some.inj hd
        have hclosed : ¬(star = star ∧ rest.head? = some slash) :=
          fun hboth => hopen ⟨rfl, rfl, rfl, hboth.2⟩
        rw [indexNext, next, if_neg hclosed]
        simp
  | blockComment =>
      have hpair : indexNext c (some d) (blockComment, false) =
          ((blockComment.next c (some d)).1, true) := Prod.ext rfl h
      rw [hpair, indexNext]
  | string quote =>
      have hpair : indexNext c (some d) (string quote, false) =
          (((string quote).next c (some d)).1, true) := Prod.ext rfl h
      rw [hpair, indexNext]

theorem indexAfter_eq {bytes : List UInt8} (h : Straight region bytes) (distance : Nat) :
    (indexAfter bytes distance (region, false)).1 = after bytes distance region := by
  fun_induction after bytes distance region with
  | case1 => rfl
  | case2 bytes region => cases bytes <;> rfl
  | case3 c distance region =>
      rw [indexAfter, indexAfter]
      exact fst_indexNext region c none
  | case4 c d rest distance region region' heq ih =>
      rw [Straight, heq, if_pos rfl] at h
      have htwo : (region.next c (some d)).2 = true := by rw [heq]
      cases distance with
      | zero =>
          have hstays : after rest (0 - 1) region' = region' := by cases rest <;> rfl
          rw [hstays]
          change (indexNext c (some d) (region, false)).1 = region'
          rw [fst_indexNext, heq]
      | succ distance =>
          rw [indexAfter, indexAfter]
          change (indexAfter rest distance
            (indexNext d rest.head? (indexNext c (some d) (region, false)))).1 = _
          rw [indexNext_two htwo h.1, heq]
          exact ih h.2
  | case5 c d rest distance region region' two heq htwo ih =>
      have hone : (region.next c (some d)).2 = false := by
        rw [heq]
        exact Bool.eq_false_iff.mpr htwo
      rw [Straight, heq, if_neg htwo] at h
      rw [indexAfter]
      change (indexAfter (d :: rest) distance (indexNext c (some d) (region, false))).1 = _
      rw [indexNext_one hone, heq]
      exact ih h.2

/-- After `/*/` the index is back in code, and the scanner is not. -/
theorem exists_differ {bytes : List UInt8} (h : ¬Straight region bytes) :
    ∃ distance ≤ bytes.length, (indexAfter bytes distance (region, false)).1 = code ∧
      after bytes distance region ≠ code := by
  fun_induction Straight region bytes with
  | case1 | case2 => exact absurd trivial h
  | case3 region c d rest ihTwo ihOne =>
      by_cases hopen : region = code ∧ c = slash ∧ d = star ∧ rest.head? = some slash
      · obtain ⟨rfl, rfl, rfl, hslash⟩ := hopen
        have hblock : after (slash :: star :: rest) 2 code = blockComment := by
          cases rest <;> rfl
        have hcode : (indexNext star rest.head? (blockComment, false)).1 = code := by
          rw [hslash]
          rfl
        refine ⟨2, by simp, ?_, by rw [hblock]; exact nofun⟩
        change (indexAfter rest 0 (indexNext star rest.head? (blockComment, false))).1 = code
        rw [← hcode]
        cases rest <;> rfl
      · have hrest := not_and.mp h hopen
        cases htwo : (region.next c (some d)).2 with
        | true =>
            rw [htwo, if_pos rfl] at hrest
            obtain ⟨distance, hle, hindex, hscanner⟩ := ihTwo hrest
            refine ⟨distance + 2, by simpa using hle, ?_, ?_⟩
            · change (indexAfter rest distance
                (indexNext d rest.head? (indexNext c (some d) (region, false)))).1 = code
              rw [indexNext_two htwo hopen]
              exact hindex
            · have hpair : region.next c (some d) = ((region.next c (some d)).1, true) :=
                Prod.ext rfl htwo
              rw [after, hpair]
              exact hscanner
        | false =>
            rw [htwo, if_neg Bool.false_ne_true] at hrest
            obtain ⟨distance, hle, hindex, hscanner⟩ := ihOne hrest
            refine ⟨distance + 1, by simpa using hle, ?_, ?_⟩
            · change (indexAfter (d :: rest) distance
                (indexNext c (some d) (region, false))).1 = code
              rw [indexNext_one htwo]
              exact hindex
            · have hpair : region.next c (some d) = ((region.next c (some d)).1, false) :=
                Prod.ext rfl htwo
              rw [after, hpair]
              exact hscanner

end Region

namespace IndexState

def Covers (spanStart : Option Nat) (spans : List (Nat × Nat)) (pos : Nat) : Prop :=
  (∃ span ∈ spans, span.1 ≤ pos ∧ pos < span.2) ∨ ∃ start, spanStart = some start ∧ start ≤ pos

/-- Each span ends before the next one starts. -/
structure Increasing (spans : List (Nat × Nat)) : Prop where
  disjoint : spans.Pairwise fun a b => a.2 ≤ b.1
  proper : ∀ span ∈ spans, span.1 < span.2

/-- What holds of the spans after the bytes before the index. -/
structure Recorded (index : Nat) (region : Region) (spanStart : Option Nat)
    (spans : List (Nat × Nat)) : Prop where
  increasing : Increasing spans
  ended : ∀ span ∈ spans, span.2 ≤ index
  «open» : spanStart.isSome = true ↔ region ≠ .code
  started : ∀ start, spanStart = some start → start ≤ index ∧ ∀ span ∈ spans, span.2 ≤ start

variable {index : Nat} {spanStart : Option Nat} {spans : List (Nat × Nat)} {skipNext : Bool}

theorem nonCode_toIndex (region : Region) :
    (region.toIndex skipNext spanStart spans).nonCode = decide (region ≠ .code) := by
  cases region <;> simp [Region.toIndex, nonCode]

theorem Recorded.covers_iff (h : Recorded index region spanStart spans) :
    Covers spanStart spans index ↔ region ≠ .code := by
  rw [← h.open]
  constructor
  · rintro (⟨span, hspan, -, hlt⟩ | ⟨start, rfl, -⟩)
    · have := h.ended span hspan
      omega
    · rfl
  · intro hsome
    obtain ⟨start, hstart⟩ := Option.isSome_iff_exists.mp hsome
    exact Or.inr ⟨start, hstart, (h.started start hstart).1⟩

theorem Increasing.concat {span : Nat × Nat} (h : Increasing spans) (hspan : span.1 < span.2)
    (hends : ∀ other ∈ spans, other.2 ≤ span.1) : Increasing (spans ++ [span]) where
  disjoint := List.pairwise_append.mpr
    ⟨h.disjoint, List.pairwise_singleton _ _, fun a ha b hb => by
      rw [List.mem_singleton.mp hb]
      exact hends a ha⟩
  proper other hother := by
    rcases List.mem_append.mp hother with hold | hnew
    · exact h.proper other hold
    · rw [List.mem_singleton.mp hnew]
      exact hspan

theorem covers_concat {start finish pos : Nat} (hpos : pos < finish) :
    Covers none (spans ++ [(start, finish)]) pos ↔ Covers (some start) spans pos := by
  simp only [Covers, List.mem_append, List.mem_singleton, or_and_right, exists_or, exists_eq_left,
    Option.some.injEq, exists_eq_left', hpos, and_true, reduceCtorEq, false_and, exists_false,
    or_false]

/-- The edge of a region is recorded, and the earlier positions stay as they were. -/
theorem record_toIndex (h : Recorded index region spanStart spans) (region' : Region)
    (skipNext' : Bool) : ∃ spanStart' spans',
      (region'.toIndex skipNext' spanStart spans).record (decide (region ≠ .code)) index =
        .ok (region'.toIndex skipNext' spanStart' spans') ∧
      Recorded (index + 1) region' spanStart' spans' ∧
      ∀ pos ≤ index, Covers spanStart' spans' pos ↔ Covers spanStart spans pos := by
  have hnon : (region'.toIndex skipNext' spanStart spans).nonCode = decide (region' ≠ .code) :=
    nonCode_toIndex region'
  have hlater : ∀ span ∈ spans, span.2 ≤ index + 1 := fun span hspan =>
    Nat.le_succ_of_le (h.ended span hspan)
  rw [record, hnon]
  by_cases hregion : region = .code
  · have hnone : spanStart = none := by
      rw [← Option.not_isSome_iff_eq_none, h.open]
      exact not_not.mpr hregion
    subst hnone
    by_cases hregion' : region' = .code
    · refine ⟨none, spans, ?_, ⟨h.increasing, hlater, ?_, nofun⟩, fun _ _ => Iff.rfl⟩
      · simp only [hregion, hregion', ne_eq, not_true_eq_false, decide_false, Bool.false_eq_true,
          and_false, if_false]
        rfl
      · simp [hregion']
    · refine ⟨some (index + 1), spans, ?_, ⟨h.increasing, hlater, ?_, ?_⟩, fun pos hpos => ?_⟩
      · simp only [hregion, hregion', ne_eq, not_true_eq_false, decide_false, decide_true,
          Bool.false_eq_true, not_false_eq_true, and_self, if_true]
        rfl
      · simp [hregion']
      · rintro _ ⟨⟩
        exact ⟨Nat.le_refl _, hlater⟩
      · refine or_congr Iff.rfl (iff_of_false ?_ nofun)
        rintro ⟨start, hstart, hle⟩
        cases hstart
        omega
  · obtain ⟨start, rfl⟩ := Option.isSome_iff_exists.mp (h.open.mpr hregion)
    obtain ⟨hle, hends⟩ := h.started start rfl
    by_cases hregion' : region' = .code
    · refine ⟨none, spans ++ [(start, index + 1)], ?_, ⟨?_, ?_, ?_, nofun⟩, fun pos hpos => ?_⟩
      · simp only [hregion, hregion', ne_eq, not_true_eq_false, not_false_eq_true, decide_false,
          decide_true, Bool.false_eq_true, if_false, and_self, if_true]
        rfl
      · exact h.increasing.concat (Nat.lt_succ_of_le hle) hends
      · intro span hspan
        rcases List.mem_append.mp hspan with hold | hnew
        · exact hlater span hold
        · exact Nat.le_of_eq (congrArg Prod.snd (List.mem_singleton.mp hnew))
      · simp [hregion']
      · exact covers_concat (Nat.lt_succ_of_le hpos)
    · refine ⟨some start, spans, ?_, ⟨h.increasing, hlater, ?_, ?_⟩, fun _ _ => Iff.rfl⟩
      · simp only [hregion, hregion', ne_eq, not_false_eq_true, decide_true, not_true_eq_false,
          false_and, and_false, if_false]
        rfl
      · simp [hregion']
      · rintro _ ⟨⟩
        exact ⟨Nat.le_succ_of_le hle, hends⟩

/-- Every position is covered exactly if its region is not code. -/
theorem run_toIndex (bytes : List UInt8) (h : Recorded index region spanStart spans) :
    ∃ region' skipNext' spanStart' spans',
      run index bytes (region.toIndex skipNext spanStart spans) =
        .ok (region'.toIndex skipNext' spanStart' spans') ∧
      Recorded (index + bytes.length) region' spanStart' spans' ∧
      (∀ pos ≤ index, Covers spanStart' spans' pos ↔ Covers spanStart spans pos) ∧
      ∀ distance ≤ bytes.length, Covers spanStart' spans' (index + distance) ↔
        (Region.indexAfter bytes distance (region, skipNext)).1 ≠ .code := by
  induction bytes generalizing index region skipNext spanStart spans with
  | nil =>
      refine ⟨region, skipNext, spanStart, spans, rfl, h, fun _ _ => Iff.rfl, ?_⟩
      intro distance hdistance
      obtain rfl : distance = 0 := Nat.le_zero.mp hdistance
      exact h.covers_iff
  | cons byte rest ih =>
      obtain ⟨spanStart₁, spans₁, hrecord, hrecorded, hcovers⟩ := record_toIndex h
        (Region.indexNext byte rest.head? (region, skipNext)).1
        (Region.indexNext byte rest.head? (region, skipNext)).2
      obtain ⟨region', skipNext', spanStart', spans', hrun, hlast, hearlier, hlater⟩ :=
        ih hrecorded
      refine ⟨region', skipNext', spanStart', spans', ?_, ?_, fun pos hpos => ?_, ?_⟩
      · rw [run, Region.advance_toIndex, nonCode_toIndex, hrecord]
        exact hrun
      · rw [List.length_cons, Nat.add_comm rest.length, ← Nat.add_assoc]
        exact hlast
      · exact (hearlier pos (Nat.le_succ_of_le hpos)).trans (hcovers pos hpos)
      · intro distance hdistance
        cases distance with
        | zero =>
            exact (hearlier index (Nat.le_succ index)).trans
              ((hcovers index (Nat.le_refl index)).trans h.covers_iff)
        | succ distance =>
            have hnext := hlater distance (Nat.le_of_succ_le_succ hdistance)
            rw [Nat.add_right_comm] at hnext
            exact hnext

end IndexState

open IndexState

theorem compareSpan_eq {pos : Nat} {span : Nat × Nat} :
    LexicalRegions.compareSpan pos span = .eq ↔ span.1 ≤ pos ∧ pos < span.2 := by
  rw [LexicalRegions.compareSpan]
  split_ifs <;> simp <;> omega

theorem IndexState.Increasing.ordered {spans : List (Nat × Nat)} (h : Increasing spans) (pos : Nat) :
    BinarySearch.Ordered (LexicalRegions.compareSpan pos) spans := by
  refine h.disjoint.imp_of_mem fun {a b} ha hb hle => ?_
  have hlt := h.proper a ha
  have hlt' := h.proper b hb
  rw [LexicalRegions.compareSpan, LexicalRegions.compareSpan]
  constructor
  · split_ifs <;> simp <;> omega
  · split_ifs <;> simp <;> omega

theorem IndexState.Increasing.contains_iff {spans : List (Nat × Nat)} (h : Increasing spans) (pos : Nat) :
    LexicalRegions.contains { spans } pos = true ↔
      ∃ span ∈ spans, span.1 ≤ pos ∧ pos < span.2 := by
  rw [LexicalRegions.contains, BinarySearch.isSome_search_iff (h.ordered pos)]
  simp only [compareSpan_eq]

/-- The index is built, its spans are in order, and they hold what is not code for it. -/
theorem new_ok (source : String) : ∃ regions, LexicalRegions.new source = .ok regions ∧
    Increasing regions.spans ∧ ∀ pos ≤ (utf8 source).length,
      regions.contains pos = true ↔
        (Region.indexAfter (utf8 source) pos (.code, false)).1 ≠ .code := by
  have hstart : Recorded 0 .code none [] :=
    ⟨⟨List.Pairwise.nil, nofun⟩, nofun, by simp, nofun⟩
  obtain ⟨region', skipNext', spanStart', spans', hrun, hrecorded, -, hcovers⟩ :=
    @run_toIndex _ _ _ _ false (utf8 source) hstart
  rw [Nat.zero_add] at hrecorded
  have hnew : LexicalRegions.new source = .ok
      { spans := (region'.toIndex skipNext' spanStart' spans').finish (utf8 source).length } := by
    rw [LexicalRegions.new]
    change (run 0 (utf8 source) (Region.toIndex .code false none []) >>= _) = _
    rw [hrun]
    rfl
  refine ⟨_, hnew, ?_⟩
  cases spanStart' with
  | none =>
      refine ⟨hrecorded.increasing, fun pos hpos => ?_⟩
      change LexicalRegions.contains { spans := spans' } pos = true ↔ _
      rw [hrecorded.increasing.contains_iff, ← hcovers pos hpos, Nat.zero_add]
      simp [Covers]
  | some start =>
      obtain ⟨hle, hends⟩ := hrecorded.started start rfl
      have hincreasing : Increasing (spans' ++ [(start, (utf8 source).length + 1)]) :=
        hrecorded.increasing.concat (Nat.lt_succ_of_le hle) hends
      refine ⟨hincreasing, fun pos hpos => ?_⟩
      change LexicalRegions.contains
        { spans := spans' ++ [(start, (utf8 source).length + 1)] } pos = true ↔ _
      rw [hincreasing.contains_iff, ← hcovers pos hpos, Nat.zero_add,
        ← covers_concat (Nat.lt_succ_of_le hpos)]
      simp [Covers]

end Loops

theorem isInside_iff (source : String) (pos : Nat) :
    isInsideCommentOrString source pos = true ↔
      Region.after (utf8 source) pos .code ≠ .code := by
  rw [isInsideCommentOrString]
  change ((Region.toScanner .code).run (utf8 source) pos).nonCode = true ↔ _
  rw [Region.run_toScanner, Region.nonCode_toScanner]

/-- The index agrees with the scanner at every position exactly if no block comment of the source
opens with `/*/`; its spans are disjoint and increasing in any case. -/
theorem lexicalRegions_agree_iff (source : String) :
    (∃ regions, LexicalRegions.new source = .ok regions ∧ IndexState.Increasing regions.spans ∧
      ∀ pos ≤ (utf8 source).length,
        regions.contains pos = isInsideCommentOrString source pos) ↔
      Region.Straight .code (utf8 source) := by
  obtain ⟨regions, hnew, hincreasing, hcontains⟩ := new_ok source
  constructor
  · rintro ⟨regions', hnew', -, hagree⟩
    cases hnew.symm.trans hnew'
    by_contra hstraight
    obtain ⟨pos, hpos, hindex, hscanner⟩ := Region.exists_differ hstraight
    have hinside := (isInside_iff source pos).mpr hscanner
    rw [← hagree pos hpos] at hinside
    exact (hcontains pos hpos).mp hinside hindex
  · intro hstraight
    refine ⟨regions, hnew, hincreasing, fun pos hpos => Bool.eq_iff_iff.mpr ?_⟩
    rw [hcontains pos hpos, isInside_iff, Region.indexAfter_eq hstraight]

/-- The scanner is in a comment after `/*/`, where the index is in code again. -/
theorem not_lexicalRegions_agree :
    ¬∃ regions, LexicalRegions.new "/*/" = .ok regions ∧ IndexState.Increasing regions.spans ∧
      ∀ pos ≤ (utf8 "/*/").length,
        regions.contains pos = isInsideCommentOrString "/*/" pos := by
  rintro ⟨regions, hnew, -, hagree⟩
  have hspans : LexicalRegions.new "/*/" = .ok { spans := [(1, 2)] } := by decide +kernel
  cases hspans.symm.trans hnew
  have hlast := hagree 3 (by decide +kernel)
  have hdiffer : LexicalRegions.contains { spans := [(1, 2)] } 3 ≠
      isInsideCommentOrString "/*/" 3 := by decide +kernel
  exact hdiffer hlast

end MetaUtil
end CleanCtx
