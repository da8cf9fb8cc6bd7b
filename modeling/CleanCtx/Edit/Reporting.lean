import Mathlib.Algebra.Ring.Int.Defs
import CleanCtx.Edit.CallerOrder

/-!
The edit report. Its entries are recorded while splicing and reversed: they come
in source order, each with the offset that its operation had in the old source.
The byte deltas always account for the new length.
-/
namespace CleanCtx
namespace Edit

open Traced

/-- `bytes.get(start..stop)`. -/
def slice? {α : Type} (l : List α) (start stop : Nat) : Option (List α) :=
  if start ≤ stop ∧ stop ≤ l.length then some ((l.take stop).drop start) else none

/-- The report describes the file that was produced. -/
structure Describes (source : String) (operations : List EditOperation)
    (planned : List PlannedEdit) (report : ApplyReport) : Prop where
  length : report.operations.length = operations.length
  entries : ∀ i op edit entry, operations[i]? = some op → planned[i]? = some edit →
    report.operations[i]? = some entry → entry.kind = op.kind ∧ entry.target = op.target ∧
      slice? (written source planned) entry.startByte entry.endByte =
        some (mark i (utf8 edit.newText))
  deltas : (report.operations.map (·.byteDelta)).sum =
    ((utf8 report.newSource).length : Int) - (utf8 source).length

/-- What is expected of the report of a request that succeeds. -/
def ReportsRequest (source : String) (units : UnitTable) (operations : List EditOperation) : Prop :=
  ∀ report, apply source units operations = .ok report → ∃ planned,
    plan source units operations = .ok planned ∧
      (written source planned).map (·.2) = utf8 report.newSource ∧
      Describes source operations planned report

def totalDelta (planned : List PlannedEdit) : Int := (planned.map fun e => (outcome e).byteDelta).sum

/-- An operation starts in the new source where it started in the old one. -/
def Unmoved (source : String) (planned : List PlannedEdit) (i : Nat) (edit : PlannedEdit) : Prop :=
  if utf8 edit.newText = [] then (edit.start : Int) ≤ (utf8 source).length + totalDelta planned
  else landsAt planned i edit = some edit.start

/-- The source order of a request has, at every place, an operation of the same kind, target and
text length as the request, and no operation is moved. -/
def InSourceOrder (source : String) (planned : List PlannedEdit) : Prop :=
  ∀ i a b, planned[i]? = some a → (planned.mergeSort spliceOrder).reverse[i]? = some b →
    b.kind = a.kind ∧ b.target = a.target ∧
      (utf8 b.newText).length = (utf8 a.newText).length ∧ Unmoved source planned i a

variable {source : String} {units : UnitTable} {operations : List EditOperation}
  {planned : List PlannedEdit} {report : ApplyReport} {i : Nat} {a b : PlannedEdit}

def startOf (kind : String) (record : UnitRecord) : Nat :=
  if kind = "insert_after" then record.endByte
  else if kind = "delete" then (record.declarationSpan.map (·.1)).getD 0
  else record.startByte

theorem planEdit_ok {op : EditOperation} (h : planEdit source units op = .ok a) :
    a.kind = op.kind ∧ a.target = op.target ∧
      ∃ record, units.resolve a.target = .ok record ∧ a.start = startOf a.kind record := by
  obtain ⟨unit, hresolve, ⟨target, expected, text, rfl, -, rfl⟩ |
    ⟨target, expected, span, rfl, -, hspan, rfl⟩ | ⟨anchor, text, rfl, rfl⟩ |
    ⟨anchor, text, rfl, rfl⟩⟩ := planEdit_cases h
  · exact ⟨rfl, rfl, unit, hresolve, rfl⟩
  · exact ⟨rfl, rfl, unit, hresolve, by simp [startOf, hspan]⟩
  · exact ⟨rfl, rfl, unit, hresolve, rfl⟩
  · exact ⟨rfl, rfl, unit, hresolve, rfl⟩

/-- Operations of one kind on one target start at one place. -/
theorem start_eq_of_plan (hplan : plan source units operations = .ok planned)
    (ha : a ∈ planned) (hb : b ∈ planned) (hkind : b.kind = a.kind) (htarget : b.target = a.target) :
    b.start = a.start := by
  obtain ⟨_, -, hop⟩ := exists_of_plan hplan ha
  obtain ⟨_, -, hop'⟩ := exists_of_plan hplan hb
  obtain ⟨-, -, record, hresolve, hstart⟩ := planEdit_ok hop
  obtain ⟨-, -, record', hresolve', hstart'⟩ := planEdit_ok hop'
  rw [htarget, hresolve, Except.ok.injEq] at hresolve'
  rw [hstart, hstart', hkind, hresolve']

/-- The length of the spliced bytes is accounted for by the deltas. -/
theorem length_foldlM_spliceEdit {edits : List PlannedEdit} {out : List UInt8}
    {outcomes : List EditOutcome} {result : List UInt8 × List EditOutcome}
    (h : edits.foldlM spliceEdit (out, outcomes) = .ok result) :
    (result.1.length : Int) = out.length + totalDelta edits := by
  induction edits generalizing out outcomes with
  | nil =>
      cases h
      simp [totalDelta]
  | cons edit edits ih =>
      rw [List.foldlM_cons, spliceEdit] at h
      split at h
      · cases h
      · next hfits =>
        have hcons : totalDelta (edit :: edits) = (outcome edit).byteDelta + totalDelta edits := rfl
        rw [ih h, hcons, spliceAt, outcome]
        simp only [List.length_append, List.length_take, List.length_drop]
        omega

theorem totalDelta_perm {edits edits' : List PlannedEdit} (h : edits.Perm edits') :
    totalDelta edits = totalDelta edits' :=
  (h.map _).sum_eq

theorem length_newSource (hplan : plan source units operations = .ok planned)
    (h : apply source units operations = .ok report) :
    ((utf8 report.newSource).length : Int) = (utf8 source).length + totalDelta planned := by
  obtain ⟨-, outcomes, hfold, -⟩ := apply_ok hplan h
  rw [length_foldlM_spliceEdit hfold, totalDelta_perm (List.mergeSort_perm planned spliceOrder)]

theorem Spliced.sum_byteDelta (h : Spliced source planned report) :
    (report.operations.map (·.byteDelta)).sum = totalDelta planned := by
  rw [h.outcomes, List.map_reverse, List.sum_reverse, List.map_map,
    ← totalDelta_perm (List.mergeSort_perm planned spliceOrder)]
  rfl

namespace Spliced

/-- A labelled byte is in the text that was written with the label. -/
theorem place_of_label {front back : Traced Nat UInt8} {text : List UInt8} {k : Nat}
    {x : Option Nat × UInt8} (hfront : share i front = 0) (hback : share i back = 0)
    (hk : (front ++ (mark i text ++ back))[k]? = some x) (hx : x.1 = some i) :
    front.length ≤ k ∧ k < front.length + text.length := by
  have hne := share_eq_zero_iff.mp hfront
  have hne' := share_eq_zero_iff.mp hback
  constructor
  · by_contra hlt
    rw [List.getElem?_append_left (Nat.lt_of_not_le hlt)] at hk
    exact hne x (List.mem_of_getElem? hk) hx
  · by_contra hge
    have hlength := length_mark i text
    rw [List.getElem?_append_right (by omega), List.getElem?_append_right (by omega)] at hk
    exact hne' x (List.mem_of_getElem? hk) hx

/-- A range of the new source is the text of an operation exactly when it starts where the text
stands and has its length. -/
theorem slice_written_iff (h : Spliced source planned report) (hi : planned[i]? = some a)
    (start length : Nat) :
    slice? (written source planned) start (start + length) = some (mark i (utf8 a.newText)) ↔
      length = (utf8 a.newText).length ∧
        if utf8 a.newText = [] then start ≤ (written source planned).length
        else landsAt planned i a = some start := by
  constructor
  · intro hslice
    obtain ⟨⟨-, hfits⟩, hrange⟩ := Option.ite_none_right_eq_some.mp hslice
    have hrange := Option.some.inj hrange
    have hlength : length = (utf8 a.newText).length := by
      have := congrArg List.length hrange
      rw [List.length_drop, List.length_take, length_mark] at this
      omega
    refine ⟨hlength, ?_⟩
    split
    · omega
    · next htext =>
      have hpos : 0 < (utf8 a.newText).length := List.length_pos_iff.mpr htext
      cases hlands : landsAt planned i a with
      | none =>
          have hlt := h.share_lt_of_landsAt hi htext hlands
          have hsub : share i _ ≤ share i _ := share_le_of_sublist
            ((List.drop_sublist start _).trans
              (List.take_sublist (start + length) (written source planned)))
          rw [hrange, share_mark_self] at hsub
          omega
      | some q =>
          obtain ⟨front, back, heq, hq, hfront, hback⟩ := h.written_of_landsAt hi hlands
          -- The first and the last byte of the range carry the label.
          have hplace : ∀ k, k < length → q ≤ start + k ∧ start + k < q + length := by
            intro k hk
            have hget : (mark i (utf8 a.newText))[k]? =
                some (some i, (utf8 a.newText).get ⟨k, hlength ▸ hk⟩) := by
              rw [mark, List.getElem?_map, List.getElem?_eq_getElem (hlength ▸ hk), Option.map_some]
              rfl
            rw [← hrange, List.getElem?_drop, List.getElem?_take_of_lt (by omega), heq] at hget
            have := place_of_label hfront hback hget rfl
            omega
          have hfirst := hplace 0 (by omega)
          have hlast := hplace (length - 1) (by omega)
          rw [show q = start by omega]
  · rintro ⟨rfl, hwhere⟩
    split at hwhere
    · next htext =>
      rw [slice?, if_pos ⟨by omega, by rw [htext]; exact hwhere⟩, htext]
      simp
    · next htext =>
      obtain ⟨front, back, heq, rfl, -, -⟩ := h.written_of_landsAt hi hwhere
      have hfits : front.length + (utf8 a.newText).length ≤ (written source planned).length := by
        rw [heq, List.length_append, List.length_append, length_mark]
        omega
      rw [slice?, if_pos ⟨by omega, hfits⟩, heq, List.take_length_add_append,
        List.drop_left, List.take_left' (length_mark _ _)]

/-- The entry of a report at a place is recorded by the operation at that place of the source
order. -/
theorem entry_iff (h : Spliced source planned report) {entry : EditOutcome} :
    report.operations[i]? = some entry ↔ ∃ b,
      (planned.mergeSort spliceOrder).reverse[i]? = some b ∧ entry = outcome b := by
  rw [h.outcomes, ← List.map_reverse, List.getElem?_map, Option.map_eq_some_iff]
  simp only [eq_comm]

theorem length_operations (h : Spliced source planned report) :
    report.operations.length = planned.length := by
  rw [h.outcomes, List.length_reverse, List.length_map, List.length_mergeSort]

theorem describes_iff (hplan : plan source units operations = .ok planned)
    (h : apply source units operations = .ok report) :
    Describes source operations planned report ↔ InSourceOrder source planned := by
  have hspliced := spliced_of_apply hplan h
  have hnew := length_newSource hplan h
  have hwritten : ((written source planned).length : Int) =
      (utf8 source).length + totalDelta planned := by
    rw [← hnew, ← hspliced.bytes, List.length_map]
  have hlengths := length_of_plan hplan
  -- The range of the entry that the operation `b` recorded, against the text of the operation `a`.
  have hrange : ∀ i a b, planned[i]? = some a →
      (planned.mergeSort spliceOrder).reverse[i]? = some b → b.kind = a.kind → b.target = a.target →
      (slice? (written source planned) (outcome b).startByte (outcome b).endByte =
          some (mark i (utf8 a.newText)) ↔
        (utf8 b.newText).length = (utf8 a.newText).length ∧ Unmoved source planned i a) := by
    intro i a b ha hb hkind htarget
    have hmem : b ∈ planned := (List.mergeSort_perm planned spliceOrder).mem_iff.mp
      (List.mem_reverse.mp (List.mem_of_getElem? hb))
    have hstart := start_eq_of_plan hplan (List.mem_of_getElem? ha) hmem hkind htarget
    have hiff := hspliced.slice_written_iff ha b.start (utf8 b.newText).length
    rw [outcome, hiff, hstart, Unmoved]
    refine and_congr_right fun _ => ?_
    split
    · omega
    · rfl
  constructor
  · intro hdescribes i a b ha hb
    obtain ⟨op, hop⟩ : ∃ op, operations[i]? = some op := by
      refine ⟨_, List.getElem?_eq_getElem ?_⟩
      rw [hlengths]
      exact (List.getElem?_eq_some_iff.mp ha).1
    obtain ⟨hkind, htarget, -⟩ := planEdit_ok (planEdit_of_plan hplan hop ha)
    obtain ⟨hentryKind, hentryTarget, hslice⟩ := hdescribes.entries i op a (outcome b) hop ha
      (hspliced.entry_iff.mpr ⟨b, hb, rfl⟩)
    have hkind' : b.kind = a.kind := hentryKind.trans hkind.symm
    have htarget' : b.target = a.target := hentryTarget.trans htarget.symm
    exact ⟨hkind', htarget', (hrange i a b ha hb hkind' htarget').mp hslice⟩
  · intro horder
    refine ⟨hspliced.length_operations.trans hlengths.symm, ?_, ?_⟩
    · intro i op a entry hop ha hentry
      obtain ⟨b, hb, rfl⟩ := hspliced.entry_iff.mp hentry
      obtain ⟨hkind, htarget, -⟩ := planEdit_ok (planEdit_of_plan hplan hop ha)
      obtain ⟨hkind', htarget', hwhere⟩ := horder i a b ha hb
      exact ⟨hkind'.trans hkind, htarget'.trans htarget,
        (hrange i a b ha hb hkind' htarget').mpr hwhere⟩
    · rw [hspliced.sum_byteDelta, hnew]
      omega

end Spliced

/-- The report of a request that succeeds describes the new source exactly when the request is in
source order, up to operations that read the same, and no operation is moved. -/
theorem reportsRequest_iff (hplan : plan source units operations = .ok planned)
    (h : apply source units operations = .ok report) :
    ReportsRequest source units operations ↔ InSourceOrder source planned := by
  rw [← Spliced.describes_iff hplan h]
  constructor
  · intro hreports
    obtain ⟨planned', hplan', -, hdescribes⟩ := hreports report h
    obtain rfl : planned = planned' := Except.ok.inj (hplan.symm.trans hplan')
    exact hdescribes
  · intro hdescribes report' h'
    obtain rfl : report = report' := Except.ok.inj (h.symm.trans h')
    exact ⟨planned, hplan, (spliced_of_apply hplan h).bytes, hdescribes⟩

def around : List EditOperation := [.insertAfter "A.inner" "1", .insertBefore "A.inner" "2"]

def aroundPlan : List PlannedEdit := [
  { kind := "insert_after", target := "A.inner", start := 6, stop := 6, newText := "1" },
  { kind := "insert_before", target := "A.inner", start := 3, stop := 3, newText := "2" }]

theorem plan_around : plan "\x7ba;\x7bb\x7d\x7d" nested around = .ok aroundPlan := by
  decide +kernel

theorem mergeSort_aroundPlan : aroundPlan.mergeSort spliceOrder = aroundPlan :=
  List.mergeSort_of_pairwise (by decide)

theorem apply_around : apply "\x7ba;\x7bb\x7d\x7d" nested around = .ok {
    newSource := "\x7ba;2\x7bb\x7d1\x7d"
    operations := [
      { kind := "insert_before", target := "A.inner", startByte := 3, endByte := 4,
        byteDelta := 1 },
      { kind := "insert_after", target := "A.inner", startByte := 6, endByte := 7,
        byteDelta := 1 }] } := by
  unfold apply
  rw [plan_around]
  change (validateDisjoint aroundPlan >>= fun _ => splice _ aroundPlan) = _
  unfold splice
  rw [mergeSort_aroundPlan]
  decide +kernel

/-- The first entry of the report is about the second operation of the request. -/
theorem not_reportsRequest_around :
    ¬ ReportsRequest "\x7ba;\x7bb\x7d\x7d" nested around := by
  intro h
  obtain ⟨planned, hplan, -, hdescribes⟩ := h _ apply_around
  obtain rfl : aroundPlan = planned := Except.ok.inj (plan_around.symm.trans hplan)
  have hkind := (hdescribes.entries 0 _ _ _ rfl rfl rfl).1
  exact absurd hkind (by decide)

theorem reportsRequest_inTurn : ReportsRequest "\x7ba;\x7bb\x7d\x7d" nested inTurn := by
  have hsequence : spliceSequence inTurnPlan = inTurnPlan.zipIdx.reverse := by
    simp [spliceSequence, inTurnPlan, List.zipIdx, List.mergeSort, List.zipIdxLE, spliceOrder]
  refine (reportsRequest_iff plan_inTurn apply_inTurn).mpr fun i a b ha hb => ?_
  rw [mergeSort_inTurnPlan, List.reverse_reverse] at hb
  obtain rfl := Option.some.inj (ha.symm.trans hb)
  refine ⟨rfl, rfl, rfl, ?_⟩
  have hi : i < 2 := (List.getElem?_eq_some_iff.mp ha).1
  obtain rfl | rfl : i = 0 ∨ i = 1 := by omega
  all_goals
    obtain rfl := Option.some.inj ha
    rw [Unmoved, if_neg (by decide +kernel), landsAt, splicedAfter, hsequence]
    decide +kernel

end Edit
end CleanCtx
