import CleanCtx.Edit.Written

/-!
The order of insertions at one point. The sort of the splice is stable, so
insertions at one point are spliced in the order of the request, each in front
of the ones before it: their texts come out in the reverse order.
-/
namespace CleanCtx
namespace Edit

open Traced

def EditOperation.isInsertion : EditOperation → Bool
  | insertAfter .. | insertBefore .. => true
  | replaceBody .. | delete .. => false

structure SharePoint (operations : List EditOperation) (planned : List PlannedEdit)
    (i j : Nat) (a b : PlannedEdit) : Prop where
  inOrder : i < j
  first : (operations[i]?).any EditOperation.isInsertion = true
  second : (operations[j]?).any EditOperation.isInsertion = true
  firstEdit : planned[i]? = some a
  secondEdit : planned[j]? = some b
  point : a.start = b.start

/-- Of the insertions at one point, the texts are whole and in the order of the request. -/
def InCallerOrder (source : String) (operations : List EditOperation)
    (planned : List PlannedEdit) : Prop :=
  ∀ i j a b, SharePoint operations planned i j a b →
    (written source planned).filter (fun x => x.1 = some i ∨ x.1 = some j) =
      mark i (utf8 a.newText) ++ mark j (utf8 b.newText)

/-- What is expected of a request that succeeds. -/
def KeepsCallerOrder (source : String) (units : UnitTable) (operations : List EditOperation) :
    Prop :=
  ∀ report, apply source units operations = .ok report → ∃ planned,
    plan source units operations = .ok planned ∧
      (written source planned).map (·.2) = utf8 report.newSource ∧
      InCallerOrder source operations planned

/-- No range that is spliced later reaches into the text of an operation. -/
def Undisturbed (planned : List PlannedEdit) (i : Nat) (edit : PlannedEdit) : Prop :=
  utf8 edit.newText ≠ [] → (landsAt planned i edit).isSome = true

/-- Of two insertions at one point at most one has a text, and that one is undisturbed. -/
def OneTextPerPoint (operations : List EditOperation) (planned : List PlannedEdit) : Prop :=
  ∀ i j a b, SharePoint operations planned i j a b →
    (utf8 a.newText = [] ∨ utf8 b.newText = []) ∧ Undisturbed planned i a ∧
      Undisturbed planned j b

variable {source : String} {units : UnitTable} {operations : List EditOperation}
  {planned : List PlannedEdit} {report : ApplyReport} {i j : Nat} {a b : PlannedEdit}

theorem stop_of_isInsertion {op : EditOperation} {edit : PlannedEdit} (hop : op.isInsertion = true)
    (h : planEdit source units op = .ok edit) : edit.stop = edit.start := by
  unfold planEdit at h
  cases hresolve : (units.resolve op.target).mapError EditError.locate with
  | error e =>
      rw [hresolve] at h
      cases h
  | ok record =>
      rw [hresolve] at h
      cases op with
      | insertAfter | insertBefore =>
          cases h
          rfl
      | replaceBody | delete => cases hop

/-- An insertion at a point ends where it starts. -/
theorem stop_of_plan (hplan : plan source units operations = .ok planned)
    (hop : (operations[i]?).any EditOperation.isInsertion = true) (ha : planned[i]? = some a) :
    a.stop = a.start := by
  obtain ⟨op, hget, hinsertion⟩ := (Option.any_eq_true _ _).mp hop
  exact stop_of_isInsertion hinsertion (planEdit_of_plan hplan hget ha)

theorem zipIdxLE_iff {x y : PlannedEdit × Nat} : List.zipIdxLE spliceOrder x y = true ↔
    spliceOrder x.1 y.1 = true ∧ (spliceOrder y.1 x.1 = true → x.2 ≤ y.2) := by
  cases hxy : spliceOrder x.1 y.1 <;> cases hyx : spliceOrder y.1 x.1 <;>
    simp [List.zipIdxLE, hxy, hyx]

/-- In the order of the splice, an earlier insertion at a point comes before a later one, and
whatever is between them is at the point too. -/
theorem spliceSequence_between (hij : i < j) (hi : planned[i]? = some a)
    (hj : planned[j]? = some b) (ha : a.stop = a.start) (hb : b.stop = b.start)
    (hpoint : a.start = b.start) :
    ∃ pre mid post, spliceSequence planned = pre ++ (a, i) :: mid ++ (b, j) :: post ∧
      (∀ entry ∈ mid, entry.1.start = b.start ∧ entry.1.stop = b.start) ∧
      splicedAfter planned j = post.map fun entry => replacement entry.1 := by
  obtain ⟨front, post, hsplit, hafter⟩ := spliceSequence_split hj
  have hsorted := pairwise_spliceSequence planned
  have hmem := mem_spliceSequence.mpr hi
  rw [hsplit] at hsorted hmem
  obtain ⟨hfront, hback, hcross⟩ := List.pairwise_append.mp hsorted
  have hbefore : (a, i) ∈ front := by
    rcases List.mem_append.mp hmem with hfront | hrest
    · exact hfront
    · rcases List.mem_cons.mp hrest with heq | hpost
      · cases heq
        omega
      · have hle := (List.pairwise_cons.mp hback).1 _ hpost
        rw [zipIdxLE_iff, spliceOrder_iff, spliceOrder_iff] at hle
        dsimp only at hle
        omega
  obtain ⟨pre, mid, rfl⟩ := List.append_of_mem hbefore
  refine ⟨pre, mid, post, hsplit, fun entry hentry => ?_, hafter⟩
  have hfirst := (List.pairwise_cons.mp (List.pairwise_append.mp hfront).2.1).1 entry hentry
  have hsecond := hcross entry (List.mem_append_right _ (List.mem_cons_of_mem _ hentry)) (b, j)
    List.mem_cons_self
  rw [zipIdxLE_iff, spliceOrder_iff] at hfirst hsecond
  dsimp only at hfirst hsecond
  omega

namespace Spliced

/-- An insertion stands in front of an earlier one at its point. -/
theorem insertions_reversed (h : Spliced source planned report) (hij : i < j)
    (hi : planned[i]? = some a) (hj : planned[j]? = some b) (ha : a.stop = a.start)
    (hb : b.stop = b.start) (hpoint : a.start = b.start)
    (hlands : (landsAt planned j b).isSome = true) :
    (mark j (utf8 b.newText) ++ mark i (utf8 a.newText)).Sublist (written source planned) := by
  obtain ⟨pre, mid, post, hsplit, hmid, hafter⟩ := spliceSequence_between hij hi hj ha hb hpoint
  obtain ⟨q, hlands⟩ := Option.isSome_iff_exists.mp hlands
  have hsequence : (spliceSequence planned).map labelled =
      (pre.map labelled ++ labelled (a, i) :: mid.map labelled) ++
        labelled (b, j) :: post.map labelled := by
    rw [hsplit, List.map_append, List.map_cons, List.map_append, List.map_cons]
  have hback := h.fromBack
  rw [hsequence] at hback
  rw [written, hsequence]
  refine Traced.insertions_reversed hback ?_ (fun e he => ?_) ?_ (q := q) ?_
  · exact ⟨hpoint, ha.trans hpoint⟩
  · obtain ⟨entry, hentry, rfl⟩ := List.mem_map.mp he
    exact hmid entry hentry
  · exact hb
  · rw [landsAt, hafter] at hlands
    rw [List.map_map]
    exact hlands

theorem label_ne (h : Spliced source planned report) (hi : planned[i]? = some a)
    (htext : utf8 a.newText = []) : ∀ x ∈ written source planned, x.1 ≠ some i := by
  have hle := h.share_le hi
  rw [htext, List.length_nil] at hle
  exact share_eq_zero_iff.mp (Nat.le_zero.mp hle)

/-- The bytes of an undisturbed text are its text. -/
theorem filter_written (h : Spliced source planned report) (hi : planned[i]? = some a)
    (hundisturbed : Undisturbed planned i a) :
    (written source planned).filter (·.1 = some i) = mark i (utf8 a.newText) := by
  by_cases htext : utf8 a.newText = []
  · rw [htext, mark_nil, List.filter_eq_nil_iff]
    exact fun x hx hlabel => h.label_ne hi htext x hx (of_decide_eq_true hlabel)
  · obtain ⟨q, hlands⟩ := Option.isSome_iff_exists.mp (hundisturbed htext)
    obtain ⟨front, back, heq, -, hfront, hback⟩ := h.written_of_landsAt hi hlands
    have hmark : (mark i (utf8 a.newText)).filter (·.1 = some i) = mark i (utf8 a.newText) := by
      refine List.filter_eq_self.mpr fun x hx => ?_
      obtain ⟨_, -, rfl⟩ := List.mem_map.mp hx
      exact decide_eq_true rfl
    have hnone : ∀ l : Traced Nat UInt8, share i l = 0 → l.filter (·.1 = some i) = [] := by
      intro l hl
      rw [List.filter_eq_nil_iff]
      simpa using share_eq_zero_iff.mp hl
    rw [heq, List.filter_append, List.filter_append, hmark, hnone front hfront, hnone back hback,
      List.append_nil, List.nil_append]

/-- A text that is whole is undisturbed. -/
theorem undisturbed_of_share (h : Spliced source planned report) (hi : planned[i]? = some a)
    (hshare : (utf8 a.newText).length ≤ share i (written source planned)) :
    Undisturbed planned i a := by
  intro htext
  cases hlands : landsAt planned i a with
  | some q => rfl
  | none =>
      have hlt := h.share_lt_of_landsAt hi htext hlands
      omega

/-- The order at one point is kept for two insertions exactly when one of the texts is empty and
the other one is undisturbed. -/
theorem filter_written_iff (h : Spliced source planned report) (hij : i < j)
    (hi : planned[i]? = some a) (hj : planned[j]? = some b) (ha : a.stop = a.start)
    (hb : b.stop = b.start) (hpoint : a.start = b.start) :
    (written source planned).filter (fun x => x.1 = some i ∨ x.1 = some j) =
        mark i (utf8 a.newText) ++ mark j (utf8 b.newText) ↔
      (utf8 a.newText = [] ∨ utf8 b.newText = []) ∧ Undisturbed planned i a ∧
        Undisturbed planned j b := by
  constructor
  · intro hfilter
    have hle : ∀ k, share k (mark i (utf8 a.newText) ++ mark j (utf8 b.newText)) ≤
        share k (written source planned) :=
      fun k => hfilter ▸ share_le_of_sublist List.filter_sublist
    have hfirst := hle i
    have hsecond := hle j
    rw [share_append, share_mark_self] at hfirst hsecond
    have hua := h.undisturbed_of_share hi (by omega)
    have hub := h.undisturbed_of_share hj (by omega)
    refine ⟨?_, hua, hub⟩
    by_contra htexts
    obtain ⟨hta, htb⟩ := not_or.mp htexts
    -- Both texts are whole, and the later one stands in front.
    have hreversed := (h.insertions_reversed hij hi hj ha hb hpoint (hub htb)).filter
      fun x => x.1 = some i ∨ x.1 = some j
    have hall : (mark j (utf8 b.newText) ++ mark i (utf8 a.newText)).filter
        (fun x => x.1 = some i ∨ x.1 = some j) =
          mark j (utf8 b.newText) ++ mark i (utf8 a.newText) := by
      refine List.filter_eq_self.mpr fun x hx => ?_
      rcases List.mem_append.mp hx with hx | hx <;> obtain ⟨_, -, rfl⟩ := List.mem_map.mp hx <;> simp
    rw [hall, hfilter] at hreversed
    have heq := hreversed.eq_of_length (by simp only [List.length_append, length_mark]; omega)
    obtain ⟨x, xs, hx⟩ := List.exists_cons_of_ne_nil hta
    obtain ⟨y, ys, hy⟩ := List.exists_cons_of_ne_nil htb
    rw [hx, hy] at heq
    simp only [mark, List.map_cons, List.cons_append, List.cons.injEq, Prod.mk.injEq,
      Option.some.injEq] at heq
    omega
  · rintro ⟨hempty, hua, hub⟩
    rcases hempty with hta | htb
    · have hlabel := h.label_ne hi hta
      rw [hta, mark_nil, List.nil_append, ← h.filter_written hj hub]
      refine List.filter_congr fun x hx => ?_
      simp [hlabel x hx]
    · have hlabel := h.label_ne hj htb
      rw [htb, mark_nil, List.append_nil, ← h.filter_written hi hua]
      refine List.filter_congr fun x hx => ?_
      simp [hlabel x hx]

theorem inCallerOrder_iff (h : Spliced source planned report)
    (hplan : plan source units operations = .ok planned) :
    InCallerOrder source operations planned ↔ OneTextPerPoint operations planned := by
  refine forall₄_congr fun i j a b => forall_congr' fun hshared => ?_
  exact h.filter_written_iff hshared.inOrder hshared.firstEdit hshared.secondEdit
    (stop_of_plan hplan hshared.first hshared.firstEdit)
    (stop_of_plan hplan hshared.second hshared.secondEdit) hshared.point

end Spliced

/-- A request that succeeds keeps the order of its insertions exactly when, of two insertions at
one point, at most one has a text, and no later range reaches into it. -/
theorem keepsCallerOrder_iff (hplan : plan source units operations = .ok planned)
    (h : apply source units operations = .ok report) :
    KeepsCallerOrder source units operations ↔ OneTextPerPoint operations planned := by
  rw [← (spliced_of_apply hplan h).inCallerOrder_iff hplan]
  constructor
  · intro hkeeps
    obtain ⟨planned', hplan', -, horder⟩ := hkeeps report h
    obtain rfl : planned = planned' := Except.ok.inj (hplan.symm.trans hplan')
    exact horder
  · intro horder report' h'
    exact ⟨planned, hplan, (spliced_of_apply hplan h').bytes, horder⟩

def twice : List EditOperation := [.insertAfter "A.inner" "1", .insertAfter "A.inner" "2"]

def twicePlan : List PlannedEdit := [
  { kind := "insert_after", target := "A.inner", start := 6, stop := 6, newText := "1" },
  { kind := "insert_after", target := "A.inner", start := 6, stop := 6, newText := "2" }]

theorem plan_twice : plan "\x7ba;\x7bb\x7d\x7d" nested twice = .ok twicePlan := by
  decide +kernel

theorem apply_twice : apply "\x7ba;\x7bb\x7d\x7d" nested twice = .ok {
    newSource := "\x7ba;\x7bb\x7d21\x7d"
    operations := [
      { kind := "insert_after", target := "A.inner", startByte := 6, endByte := 7,
        byteDelta := 1 },
      { kind := "insert_after", target := "A.inner", startByte := 6, endByte := 7,
        byteDelta := 1 }] } := by
  have hsorted : twicePlan.mergeSort spliceOrder = twicePlan :=
    List.mergeSort_of_pairwise (by decide)
  unfold apply
  rw [plan_twice]
  change (validateDisjoint twicePlan >>= fun _ => splice _ twicePlan) = _
  unfold splice
  rw [hsorted]
  decide +kernel

theorem not_keepsCallerOrder_twice :
    ¬ KeepsCallerOrder "\x7ba;\x7bb\x7d\x7d" nested twice := by
  intro h
  obtain ⟨planned, hplan, -, horder⟩ := h _ apply_twice
  obtain rfl : twicePlan = planned := Except.ok.inj (plan_twice.symm.trans hplan)
  rw [(spliced_of_apply plan_twice apply_twice).inCallerOrder_iff plan_twice] at horder
  have htexts := (horder 0 1 _ _ ⟨by decide, by decide, by decide, rfl, rfl, rfl⟩).1
  revert htexts
  decide +kernel

/-- A text and an empty one are inserted after one unit. -/
def onceFilled : List EditOperation :=
  [.insertAfter "A.inner" "1", .insertAfter "A.inner" ""]

def onceFilledPlan : List PlannedEdit := [
  { kind := "insert_after", target := "A.inner", start := 6, stop := 6, newText := "1" },
  { kind := "insert_after", target := "A.inner", start := 6, stop := 6, newText := "" }]

theorem plan_onceFilled :
    plan "\x7ba;\x7bb\x7d\x7d" nested onceFilled = .ok onceFilledPlan := by
  decide +kernel

theorem apply_onceFilled : apply "\x7ba;\x7bb\x7d\x7d" nested onceFilled = .ok {
    newSource := "\x7ba;\x7bb\x7d1\x7d"
    operations := [
      { kind := "insert_after", target := "A.inner", startByte := 6, endByte := 6,
        byteDelta := 0 },
      { kind := "insert_after", target := "A.inner", startByte := 6, endByte := 7,
        byteDelta := 1 }] } := by
  have hsorted : onceFilledPlan.mergeSort spliceOrder = onceFilledPlan :=
    List.mergeSort_of_pairwise (by decide)
  unfold apply
  rw [plan_onceFilled]
  change (validateDisjoint onceFilledPlan >>= fun _ => splice _ onceFilledPlan) = _
  unfold splice
  rw [hsorted]
  decide +kernel

theorem keepsCallerOrder_onceFilled :
    KeepsCallerOrder "\x7ba;\x7bb\x7d\x7d" nested onceFilled := by
  refine (keepsCallerOrder_iff plan_onceFilled apply_onceFilled).mpr fun i j a b hshared => ?_
  obtain ⟨hij, -, -, ha, hb, -⟩ := hshared
  have hsequence : spliceSequence onceFilledPlan = onceFilledPlan.zipIdx :=
    List.mergeSort_of_pairwise (by decide)
  have hj : j < 2 := (List.getElem?_eq_some_iff.mp hb).1
  obtain ⟨rfl, rfl⟩ : i = 0 ∧ j = 1 := by omega
  obtain rfl := Option.some.inj ha
  obtain rfl := Option.some.inj hb
  refine ⟨.inr (by decide +kernel), fun _ => ?_, fun hne => absurd (by decide +kernel) hne⟩
  rw [landsAt, splicedAfter, hsequence]
  decide +kernel

end Edit
end CleanCtx
