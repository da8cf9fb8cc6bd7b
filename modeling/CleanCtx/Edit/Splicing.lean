import CleanCtx.Edit.Apply

/-!
Edit application as a splice. An accepted batch splices its ranges when they are
pairwise disjoint. The overlap check compares neighbours of the request only,
and of two neighbours it misses an insertion that is followed by the range it
lands in; exactly the batches without such a pair are spliced.
-/
namespace CleanCtx
namespace Edit

/-- Two ranges overlap, or an empty one lies strictly inside the other. -/
def Conflicts (a b : PlannedEdit) : Prop := b.start < a.stop ∧ a.start < b.stop

instance (a b : PlannedEdit) : Decidable (Conflicts a b) := inferInstanceAs (Decidable (_ ∧ _))

def replacement (edit : PlannedEdit) : Replacement UInt8 where
  start := edit.start
  stop := edit.stop
  new := utf8 edit.newText

/-- In source order, each range is replaced by its text and everything else is kept. -/
def Splices (source : String) (planned : List PlannedEdit) (newSource : String) : Prop :=
  ∃ ordered : List PlannedEdit, ordered.Perm planned ∧
    InOrder (utf8 source) 0 (ordered.map replacement) ∧
    utf8 newSource = weave (utf8 source) 0 (ordered.map replacement)

/-- What is expected of a batch that is accepted. -/
def SplicesSafely (source : String) (units : UnitTable) (operations : List EditOperation) : Prop :=
  ∀ report, apply source units operations = .ok report → ∃ planned,
    plan source units operations = .ok planned ∧
      planned.Pairwise (fun a b => ¬ Conflicts a b) ∧ Splices source planned report.newSource

/-- No conflict is out of sight of the check: none between operations that are not neighbours,
and none between an insertion and the range that follows it. -/
def Unmissed (planned : List PlannedEdit) : Prop :=
  ∀ i j a b, i < j → planned[i]? = some a → planned[j]? = some b →
    (j ≠ i + 1 ∨ (a.stop ≤ a.start ∧ b.start < b.stop)) → ¬ Conflicts a b

variable {source : String} {units : UnitTable} {operations : List EditOperation}
  {planned : List PlannedEdit} {report : ApplyReport}

theorem validateDisjoint_ok (h : validateDisjoint planned = .ok ()) {i : Nat} {a b : PlannedEdit}
    (ha : planned[i]? = some a) (hb : planned[i + 1]? = some b) : neighboursConflict a b = false := by
  induction planned generalizing i with
  | nil => cases ha
  | cons first rest ih =>
      cases rest with
      | nil => cases hb
      | cons second rest =>
          rw [validateDisjoint] at h
          split at h
          · cases h
          · next hfree =>
            cases i with
            | zero =>
                rw [← Option.some.inj ha, ← Option.some.inj hb]
                exact Bool.eq_false_iff.mpr hfree
            | succ i => exact ih h ha hb

/-- Of neighbours that are well-formed ranges, the check misses an insertion before a range. -/
theorem not_conflicts_of_neighbours {a b : PlannedEdit} (ha : a.start ≤ a.stop)
    (hb : b.start ≤ b.stop) (h : neighboursConflict a b = false)
    (hseen : ¬ (a.stop ≤ a.start ∧ b.start < b.stop)) : ¬ Conflicts a b := by
  rintro ⟨hba, hab⟩
  unfold neighboursConflict at h
  by_cases harange : a.start < a.stop
  · by_cases hbrange : b.start < b.stop
    · simp [harange, hbrange, hba, hab] at h
    · have heq : b.stop = b.start := by omega
      rw [heq] at hab
      simp [harange, hbrange, hba, hab] at h
  · exact hseen ⟨by omega, by omega⟩

theorem pairwise_of_unmissed (hvalid : validateDisjoint planned = .ok ())
    (hranges : ∀ e ∈ planned, e.start ≤ e.stop) (h : Unmissed planned) :
    planned.Pairwise fun a b => ¬ Conflicts a b := by
  refine List.pairwise_iff_getElem.mpr fun i j hi hj hij => ?_
  have ha := List.getElem?_eq_getElem hi
  have hb := List.getElem?_eq_getElem hj
  by_cases hout : j ≠ i + 1 ∨ (planned[i].stop ≤ planned[i].start ∧ planned[j].start < planned[j].stop)
  · exact h i j _ _ hij ha hb hout
  · obtain ⟨hnext, hseen⟩ := not_or.mp hout
    obtain rfl := not_not.mp hnext
    exact not_conflicts_of_neighbours (hranges _ (List.getElem_mem hi))
      (hranges _ (List.getElem_mem hj)) (validateDisjoint_ok hvalid ha hb) hseen

def outcome (edit : PlannedEdit) : EditOutcome where
  kind := edit.kind
  target := edit.target
  startByte := edit.start
  endByte := edit.start + (utf8 edit.newText).length
  byteDelta := ((utf8 edit.newText).length : Int) - (edit.stop - edit.start : Nat)

/-- What the splicing loop does when it succeeds. -/
theorem foldlM_spliceEdit {edits : List PlannedEdit} {out : List UInt8}
    {outcomes : List EditOutcome} {result : List UInt8 × List EditOutcome}
    (h : edits.foldlM spliceEdit (out, outcomes) = .ok result) :
    result = (edits.foldl (fun l e => spliceAt l e.start e.stop (utf8 e.newText)) out,
        outcomes ++ edits.map outcome) ∧
      (∀ e ∈ edits, e.start ≤ e.stop) ∧ ∀ e, edits.head? = some e → e.stop ≤ out.length := by
  induction edits generalizing out outcomes with
  | nil =>
      cases h
      refine ⟨?_, fun e he => absurd he List.not_mem_nil, fun e he => by cases he⟩
      rw [List.map_nil, List.append_nil, List.foldl_nil]
  | cons edit edits ih =>
      rw [List.foldlM_cons, spliceEdit] at h
      split at h
      · cases h
      · next hfits =>
        obtain ⟨hresult, hranges, -⟩ := ih h
        have hrange : edit.start ≤ edit.stop := by omega
        refine ⟨?_, fun e he => ?_, fun e he => ?_⟩
        · rw [hresult, List.map_cons, List.foldl_cons, List.append_assoc]
          rfl
        · rcases List.mem_cons.mp he with rfl | he
          · exact hrange
          · exact hranges e he
        · rw [← Option.some.inj he]
          omega

/-- What is planned for an operation on the unit that it resolves to. -/
theorem planEdit_cases {op : EditOperation} {edit : PlannedEdit}
    (h : planEdit source units op = .ok edit) :
    ∃ unit, units.resolve op.target = .ok unit ∧
      ((∃ target expected text, op = .replaceBody target expected text ∧
          verifyExpected target unit.text expected = .ok () ∧
          edit = ⟨"replace_body", target, unit.startByte, unit.endByte,
            toUnitEol (unitIsCrlf unit.text source) text⟩) ∨
        (∃ target expected span, op = .delete target expected ∧
          verifyExpected target unit.text expected = .ok () ∧
          unit.declarationSpan = some span ∧ edit = ⟨"delete", target, span.1, span.2, ""⟩) ∨
        (∃ anchor text, op = .insertAfter anchor text ∧
          edit = ⟨"insert_after", anchor, unit.endByte, unit.endByte,
            toUnitEol (unitIsCrlf unit.text source) text⟩) ∨
        ∃ anchor text, op = .insertBefore anchor text ∧
          edit = ⟨"insert_before", anchor, unit.startByte, unit.startByte,
            toUnitEol (unitIsCrlf unit.text source) text⟩) := by
  unfold planEdit at h
  cases hresolve : units.resolve op.target with
  | error e =>
      rw [hresolve] at h
      cases h
  | ok unit =>
      refine ⟨unit, rfl, ?_⟩
      rw [hresolve] at h
      cases op with
      | insertAfter anchor text =>
          cases h
          exact .inr (.inr (.inl ⟨anchor, text, rfl, rfl⟩))
      | insertBefore anchor text =>
          cases h
          exact .inr (.inr (.inr ⟨anchor, text, rfl, rfl⟩))
      | replaceBody target expected text =>
          dsimp only [Except.mapError, bind, Except.bind] at h
          cases hverify : verifyExpected target unit.text expected with
          | error e =>
              rw [hverify] at h
              cases h
          | ok _ =>
              rw [hverify] at h
              cases h
              exact .inl ⟨target, expected, text, rfl, hverify, rfl⟩
      | delete target expected =>
          dsimp only [Except.mapError, bind, Except.bind] at h
          cases hverify : verifyExpected target unit.text expected with
          | error e =>
              rw [hverify] at h
              cases h
          | ok _ =>
              rw [hverify] at h
              cases hspan : unit.declarationSpan with
              | none =>
                  simp only [hspan] at h
                  cases h
              | some span =>
                  simp only [hspan] at h
                  cases h
                  exact .inr (.inl ⟨target, expected, span, rfl, hverify, rfl, rfl⟩)

/-- A batch that is accepted, taken apart. -/
theorem apply_ok (hplan : plan source units operations = .ok planned)
    (h : apply source units operations = .ok report) :
    validateDisjoint planned = .ok () ∧ ∃ outcomes,
      (planned.mergeSort spliceOrder).foldlM spliceEdit (utf8 source, []) =
        .ok (utf8 report.newSource, outcomes) ∧ report.operations = outcomes.reverse := by
  unfold apply at h
  rw [hplan] at h
  change (validateDisjoint planned >>= fun _ => splice source planned) = _ at h
  cases hvalid : validateDisjoint planned with
  | error e =>
      rw [hvalid] at h
      cases h
  | ok _ =>
      refine ⟨rfl, ?_⟩
      rw [hvalid] at h
      change splice source planned = _ at h
      unfold splice at h
      cases hfold : (planned.mergeSort spliceOrder).foldlM spliceEdit (utf8 source, []) with
      | error e =>
          rw [hfold] at h
          cases h
      | ok result =>
          rw [hfold] at h
          obtain ⟨out, outcomes⟩ := result
          dsimp only [bind, Except.bind] at h
          cases hutf8 : fromUtf8 out with
          | none =>
              rw [hutf8] at h
              cases h
          | some newSource =>
              rw [hutf8] at h
              cases h
              exact ⟨outcomes, by rw [utf8_of_fromUtf8 hutf8], rfl⟩

theorem spliceOrder_iff (a b : PlannedEdit) : spliceOrder a b = true ↔
    b.start < a.start ∨ (a.start = b.start ∧ b.stop ≤ a.stop) := by
  simp [spliceOrder]

theorem spliceOrder_trans (a b c : PlannedEdit) (hab : spliceOrder a b = true)
    (hbc : spliceOrder b c = true) : spliceOrder a c = true := by
  rw [spliceOrder_iff] at hab hbc ⊢
  omega

theorem spliceOrder_total (a b : PlannedEdit) : (spliceOrder a b || spliceOrder b a) = true := by
  rw [Bool.or_eq_true, spliceOrder_iff, spliceOrder_iff]
  omega

theorem pairwise_spliceOrder (planned : List PlannedEdit) :
    (planned.mergeSort spliceOrder).Pairwise fun a b => spliceOrder a b = true :=
  List.pairwise_mergeSort spliceOrder_trans spliceOrder_total planned

theorem stop_le_start {a b : PlannedEdit} (horder : spliceOrder a b = true)
    (ha : a.start ≤ a.stop) (hfree : ¬ Conflicts a b) : b.stop ≤ a.start := by
  rw [spliceOrder_iff] at horder
  unfold Conflicts at hfree
  omega

/-- Ranges that each end before the ones earlier in the list end within what is spliced. -/
theorem stop_le_length {l : List UInt8} {edits : List PlannedEdit} {e : PlannedEdit}
    (hranges : ∀ e ∈ edits, e.start ≤ e.stop) (hhead : ∀ e, edits.head? = some e → e.stop ≤ l.length)
    (h : edits.Pairwise fun a b => b.stop ≤ a.start) (he : e ∈ edits) : e.stop ≤ l.length := by
  cases edits with
  | nil => cases he
  | cons first rest =>
      have hfirst := hhead first rfl
      rcases List.mem_cons.mp he with rfl | hrest
      · exact hfirst
      · have hbefore := (List.pairwise_cons.mp h).1 e hrest
        have hrange := hranges first List.mem_cons_self
        omega

/-- Ranges that each end before the ones earlier in the list are in order when reversed. -/
theorem inOrder_reverse {l : List UInt8} {edits : List PlannedEdit}
    (hranges : ∀ e ∈ edits, e.start ≤ e.stop) (hhead : ∀ e, edits.head? = some e → e.stop ≤ l.length)
    (h : edits.Pairwise fun a b => b.stop ≤ a.start) :
    InOrder l 0 (edits.reverse.map replacement) := by
  have hgeneral : ∀ (ordered : List PlannedEdit) (position : Nat), position ≤ l.length →
      (∀ e ∈ ordered, position ≤ e.start ∧ e.start ≤ e.stop ∧ e.stop ≤ l.length) →
      (ordered.Pairwise fun a b => a.stop ≤ b.start) →
      InOrder l position (ordered.map replacement) := by
    intro ordered
    induction ordered with
    | nil => exact fun _ hposition _ _ => hposition
    | cons e ordered ih =>
        intro position _ hall hpairwise
        obtain ⟨hstart, hrange, hstop⟩ := hall e List.mem_cons_self
        obtain ⟨hfirst, hrest⟩ := List.pairwise_cons.mp hpairwise
        refine ⟨hstart, hrange, ih e.stop hstop (fun e' he' => ?_) hrest⟩
        exact ⟨hfirst e' he', (hall e' (List.mem_cons_of_mem _ he')).2⟩
  refine hgeneral _ 0 (Nat.zero_le _) (fun e he => ?_) (List.pairwise_reverse.mpr h)
  have hmem := List.mem_reverse.mp he
  exact ⟨Nat.zero_le _, hranges e hmem, stop_le_length hranges hhead h hmem⟩

/-- Ranges without conflicts end, in the order of the splice, before the ones spliced earlier. -/
theorem pairwise_stops (hranges : ∀ e ∈ planned.mergeSort spliceOrder, e.start ≤ e.stop)
    (hfree : planned.Pairwise fun a b => ¬ Conflicts a b) :
    (planned.mergeSort spliceOrder).Pairwise fun a b => b.stop ≤ a.start := by
  have hperm := List.mergeSort_perm planned spliceOrder
  have hfree' : (planned.mergeSort spliceOrder).Pairwise fun a b => ¬ Conflicts a b :=
    (hperm.symm.pairwise_iff fun hab hba => hab ⟨hba.2, hba.1⟩).mp hfree
  refine ((pairwise_spliceOrder planned).and hfree').imp_of_mem fun ha _ hab => ?_
  exact stop_le_start hab.1 (hranges _ ha) hab.2

/-- A batch that is accepted splices its ranges when they are pairwise disjoint. -/
theorem splices_of_pairwise (hplan : plan source units operations = .ok planned)
    (h : apply source units operations = .ok report)
    (hfree : planned.Pairwise fun a b => ¬ Conflicts a b) :
    Splices source planned report.newSource := by
  obtain ⟨-, outcomes, hfold, -⟩ := apply_ok hplan h
  obtain ⟨hresult, hranges, hhead⟩ := foldlM_spliceEdit hfold
  have hperm := List.mergeSort_perm planned spliceOrder
  have hordered := inOrder_reverse hranges hhead (pairwise_stops hranges hfree)
  refine ⟨(planned.mergeSort spliceOrder).reverse, (List.reverse_perm _).trans hperm, hordered, ?_⟩
  have hweave := foldr_spliceAt hordered
  rw [List.take_zero, List.nil_append, List.foldr_map, List.foldr_reverse] at hweave
  exact (congrArg Prod.fst hresult).trans hweave

/-- An accepted batch is spliced safely exactly when no conflict is out of sight of the check. -/
theorem splicesSafely_iff (hplan : plan source units operations = .ok planned)
    (h : apply source units operations = .ok report) :
    SplicesSafely source units operations ↔ Unmissed planned := by
  constructor
  · intro hsafe i j a b hij ha hb _
    obtain ⟨planned', hplan', hfree, -⟩ := hsafe report h
    obtain rfl : planned = planned' := Except.ok.inj (hplan.symm.trans hplan')
    obtain ⟨hi, rfl⟩ := List.getElem?_eq_some_iff.mp ha
    obtain ⟨hj, rfl⟩ := List.getElem?_eq_some_iff.mp hb
    exact List.pairwise_iff_getElem.mp hfree i j hi hj hij
  · intro hunmissed report' h'
    obtain ⟨hvalid, outcomes, hfold, -⟩ := apply_ok hplan h'
    have hranges : ∀ e ∈ planned, e.start ≤ e.stop := fun e he =>
      (foldlM_spliceEdit hfold).2.1 e ((List.mergeSort_perm planned spliceOrder).mem_iff.mpr he)
    have hfree := pairwise_of_unmissed hvalid hranges hunmissed
    exact ⟨planned, hplan, hfree, splices_of_pairwise hplan h' hfree⟩

def nested : UnitTable where
  units := [
    { qualifiedName := "A.outer", methodId := "M1", name := "outer", startByte := 0, endByte := 7,
      text := "\x7ba;\x7bb\x7d\x7d", declarationSpan := none, fingerprint := "A()" },
    { qualifiedName := "A.inner", methodId := "M2", name := "inner", startByte := 3, endByte := 6,
      text := "\x7bb\x7d", declarationSpan := none, fingerprint := "A()" }]
  byQualified := (Finmap.insert "A.outer" 0 ∅).insert "A.inner" 1
  byMethodId := (Finmap.insert "M1" 0 ∅).insert "M2" 1
  qualified_lt {name idx} h := by
    rcases HashMap.lookup_insert_iff.mp h with ⟨-, rfl⟩ | ⟨-, h⟩
    · decide
    · rcases HashMap.lookup_insert_iff.mp h with ⟨-, rfl⟩ | ⟨-, h⟩
      · decide
      · cases h
  methodId_lt {name idx} h := by
    rcases HashMap.lookup_insert_iff.mp h with ⟨-, rfl⟩ | ⟨-, h⟩
    · decide
    · rcases HashMap.lookup_insert_iff.mp h with ⟨-, rfl⟩ | ⟨-, h⟩
      · decide
      · cases h

/-- Text is inserted after the inner unit, then the outer unit is replaced. -/
def swallowed : List EditOperation :=
  [.insertAfter "A.inner" ";c", .replaceBody "A.outer" "\x7ba;\x7bb\x7d\x7d" "\x7bd\x7d"]

def swallowedPlan : List PlannedEdit := [
  { kind := "insert_after", target := "A.inner", start := 6, stop := 6, newText := ";c" },
  { kind := "replace_body", target := "A.outer", start := 0, stop := 7, newText := "\x7bd\x7d" }]

theorem plan_swallowed :
    plan "\x7ba;\x7bb\x7d\x7d" nested swallowed = .ok swallowedPlan := by
  decide +kernel

theorem apply_swallowed : apply "\x7ba;\x7bb\x7d\x7d" nested swallowed = .ok {
    newSource := "\x7bd\x7dc\x7d"
    operations := [
      { kind := "replace_body", target := "A.outer", startByte := 0, endByte := 3,
        byteDelta := -4 },
      { kind := "insert_after", target := "A.inner", startByte := 6, endByte := 8,
        byteDelta := 2 }] } := by
  have hsorted : swallowedPlan.mergeSort spliceOrder = swallowedPlan :=
    List.mergeSort_of_pairwise (by decide)
  unfold apply
  rw [plan_swallowed]
  change (validateDisjoint swallowedPlan >>= fun _ => splice _ swallowedPlan) = _
  unfold splice
  rw [hsorted]
  decide +kernel

/-- The insertion lands inside the range that is replaced, and the batch is accepted. -/
theorem not_splicesSafely_swallowed :
    ¬ SplicesSafely "\x7ba;\x7bb\x7d\x7d" nested swallowed := by
  intro h
  obtain ⟨planned, hplan, hfree, -⟩ := h _ apply_swallowed
  obtain rfl : swallowedPlan = planned := Except.ok.inj (plan_swallowed.symm.trans hplan)
  exact absurd hfree (by decide)

/-- The inner unit is replaced, then text is inserted after the outer unit. -/
def inTurn : List EditOperation :=
  [.replaceBody "A.inner" "\x7bb\x7d" "\x7bd\x7d", .insertAfter "A.outer" "2"]

def inTurnPlan : List PlannedEdit := [
  { kind := "replace_body", target := "A.inner", start := 3, stop := 6, newText := "\x7bd\x7d" },
  { kind := "insert_after", target := "A.outer", start := 7, stop := 7, newText := "2" }]

theorem plan_inTurn : plan "\x7ba;\x7bb\x7d\x7d" nested inTurn = .ok inTurnPlan := by
  decide +kernel

theorem mergeSort_inTurnPlan : inTurnPlan.mergeSort spliceOrder = inTurnPlan.reverse := by
  simp [inTurnPlan, List.mergeSort, spliceOrder]

theorem apply_inTurn : apply "\x7ba;\x7bb\x7d\x7d" nested inTurn = .ok {
    newSource := "\x7ba;\x7bd\x7d\x7d2"
    operations := [
      { kind := "replace_body", target := "A.inner", startByte := 3, endByte := 6,
        byteDelta := 0 },
      { kind := "insert_after", target := "A.outer", startByte := 7, endByte := 8,
        byteDelta := 1 }] } := by
  unfold apply
  rw [plan_inTurn]
  change (validateDisjoint inTurnPlan >>= fun _ => splice _ inTurnPlan) = _
  unfold splice
  rw [mergeSort_inTurnPlan]
  decide +kernel

theorem splicesSafely_inTurn : SplicesSafely "\x7ba;\x7bb\x7d\x7d" nested inTurn := by
  have hfree : inTurnPlan.Pairwise fun a b => ¬ Conflicts a b := by decide
  refine (splicesSafely_iff plan_inTurn apply_inTurn).mpr fun i j a b hij ha hb _ => ?_
  obtain ⟨hi, rfl⟩ := List.getElem?_eq_some_iff.mp ha
  obtain ⟨hj, rfl⟩ := List.getElem?_eq_some_iff.mp hb
  exact List.pairwise_iff_getElem.mp hfree i j hi hj hij

end Edit
end CleanCtx
