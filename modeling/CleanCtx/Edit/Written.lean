import CleanCtx.Library.Provenance
import CleanCtx.Edit.Splicing

/-!
Which operation wrote which bytes. The planned edits are spliced in the order of
the stable sort, each under its place in the request, so that every byte of the
new source is traced to the operation that wrote it or to the old source.
-/
namespace CleanCtx
namespace Edit

open Traced

def spliceSequence (planned : List PlannedEdit) : List (PlannedEdit × Nat) :=
  planned.zipIdx.mergeSort (List.zipIdxLE spliceOrder)

def labelled (entry : PlannedEdit × Nat) : Replacement UInt8 × Nat :=
  (replacement entry.1, entry.2)

/-- The new source, each byte with the place of the operation that wrote it. -/
def written (source : String) (planned : List PlannedEdit) : Traced Nat UInt8 :=
  ((spliceSequence planned).map labelled).foldl write (Traced.source (utf8 source))

def splicedAfter (planned : List PlannedEdit) (i : Nat) : List (Replacement UInt8) :=
  ((spliceSequence planned).dropWhile fun entry => entry.2 ≠ i).tail.map fun entry =>
    replacement entry.1

/-- Where the text of an operation stands after the ranges that are spliced later; nowhere, when
one of them reaches into it. -/
def landsAt (planned : List PlannedEdit) (i : Nat) (edit : PlannedEdit) : Option Nat :=
  track edit.start (splicedAfter planned i)

variable {source : String} {planned : List PlannedEdit} {i : Nat} {edit : PlannedEdit}

theorem spliceSequence_perm (planned : List PlannedEdit) :
    (spliceSequence planned).Perm planned.zipIdx :=
  List.mergeSort_perm _ _

theorem map_fst_spliceSequence (planned : List PlannedEdit) :
    (spliceSequence planned).map (·.1) = planned.mergeSort spliceOrder :=
  List.mergeSort_zipIdx

theorem mem_spliceSequence : (edit, i) ∈ spliceSequence planned ↔ planned[i]? = some edit := by
  rw [(spliceSequence_perm planned).mem_iff, List.mem_zipIdx_iff_getElem?]

theorem nodup_places (planned : List PlannedEdit) :
    (((spliceSequence planned).map labelled).map (·.2)).Nodup := by
  rw [List.map_map]
  refine ((spliceSequence_perm planned).map _).nodup_iff.mpr ?_
  have hplaces : planned.zipIdx.map ((·.2) ∘ labelled) = List.range' 0 planned.length :=
    List.zipIdx_map_snd ..
  rw [hplaces]
  exact List.nodup_range'

theorem pairwise_spliceSequence (planned : List PlannedEdit) :
    (spliceSequence planned).Pairwise fun a b => List.zipIdxLE spliceOrder a b = true :=
  List.pairwise_mergeSort (List.zipIdxLE_trans spliceOrder_trans)
    (List.zipIdxLE_total spliceOrder_total) _

/-- Where an operation is in the order of the splice. -/
theorem spliceSequence_split (h : planned[i]? = some edit) :
    ∃ pre post, spliceSequence planned = pre ++ (edit, i) :: post ∧
      splicedAfter planned i = post.map fun entry => replacement entry.1 := by
  obtain ⟨pre, post, hsplit⟩ := List.append_of_mem (mem_spliceSequence.mpr h)
  refine ⟨pre, post, hsplit, ?_⟩
  have hnodup := nodup_places planned
  rw [hsplit, List.map_append, List.map_cons] at hnodup
  have hpre : ∀ entry ∈ pre, decide (entry.2 ≠ i) = true := fun entry hentry =>
    decide_eq_true ((ne_of_nodup hnodup).1 (labelled entry) (List.mem_map.mpr ⟨entry, hentry, rfl⟩))
  rw [splicedAfter, hsplit, List.dropWhile_append_of_pos hpre,
    List.dropWhile_cons_of_neg (by simp), List.tail_cons]

/-- What the success of a request says about its splice. -/
structure Spliced (source : String) (planned : List PlannedEdit) (report : ApplyReport) : Prop where
  bytes : (written source planned).map (·.2) = utf8 report.newSource
  fromBack : FromBack (utf8 source).length (((spliceSequence planned).map labelled).map (·.1))
  outcomes : report.operations = ((planned.mergeSort spliceOrder).map outcome).reverse

/-- Ranges in the order of the splice come from the back. -/
theorem fromBack_replacements {edits : List PlannedEdit} {p : Nat}
    (hranges : ∀ e ∈ edits, e.start ≤ e.stop) (hhead : ∀ e, edits.head? = some e → e.start ≤ p)
    (horder : edits.Pairwise fun a b => spliceOrder a b = true) :
    FromBack p (edits.map replacement) := by
  induction edits generalizing p with
  | nil => trivial
  | cons edit edits ih =>
      obtain ⟨hfirst, hrest⟩ := List.pairwise_cons.mp horder
      refine ⟨hhead edit rfl, hranges edit List.mem_cons_self,
        ih (fun e he => hranges e (List.mem_cons_of_mem _ he)) (fun e he => ?_) hrest⟩
      have hbefore := hfirst e (List.mem_of_head? he)
      rw [spliceOrder_iff] at hbefore
      change e.start ≤ edit.start
      omega

theorem map_replacement_spliceSequence (planned : List PlannedEdit) :
    ((spliceSequence planned).map labelled).map (·.1) =
      (planned.mergeSort spliceOrder).map replacement := by
  rw [← map_fst_spliceSequence, List.map_map, List.map_map]
  rfl

theorem spliced_of_apply {units : UnitTable} {operations : List EditOperation}
    {report : ApplyReport} (hplan : plan source units operations = .ok planned)
    (h : apply source units operations = .ok report) : Spliced source planned report := by
  obtain ⟨-, outcomes, hfold, hoperations⟩ := apply_ok hplan h
  obtain ⟨hresult, hranges, hhead⟩ := foldlM_spliceEdit hfold
  obtain ⟨hbytes, houtcomes⟩ := Prod.mk.inj hresult
  constructor
  · rw [written, map_snd_foldl_write, map_snd_source, hbytes, ← map_fst_spliceSequence,
      List.foldl_map, List.foldl_map]
    rfl
  · rw [map_replacement_spliceSequence]
    refine fromBack_replacements hranges (fun e he => ?_) (pairwise_spliceOrder planned)
    exact Nat.le_trans (hranges e (List.mem_of_head? he)) (hhead e he)
  · rw [hoperations, houtcomes, List.nil_append]

/-- The planned edit of an operation, by its place. -/
theorem planEdit_of_plan {units : UnitTable} {operations : List EditOperation}
    (hplan : plan source units operations = .ok planned) {op : EditOperation}
    (hop : operations[i]? = some op) (hedit : planned[i]? = some edit) :
    planEdit source units op = .ok edit := by
  obtain ⟨hi, rfl⟩ := List.getElem?_eq_some_iff.mp hop
  obtain ⟨hi', rfl⟩ := List.getElem?_eq_some_iff.mp hedit
  exact (Lists.mapM_eq_ok_iff.mp hplan).get hi hi'

theorem length_of_plan {units : UnitTable} {operations : List EditOperation}
    (hplan : plan source units operations = .ok planned) : operations.length = planned.length :=
  (Lists.mapM_eq_ok_iff.mp hplan).length_eq

theorem exists_of_plan {units : UnitTable} {operations : List EditOperation}
    (hplan : plan source units operations = .ok planned) (hedit : edit ∈ planned) :
    ∃ op ∈ operations, planEdit source units op = .ok edit := by
  obtain ⟨i, hi⟩ := List.mem_iff_getElem?.mp hedit
  have hlt : i < operations.length := by
    rw [length_of_plan hplan]
    exact (List.getElem?_eq_some_iff.mp hi).1
  have hop := List.getElem?_eq_getElem hlt
  exact ⟨_, List.getElem_mem hlt, planEdit_of_plan hplan hop hi⟩

namespace Spliced

variable {report : ApplyReport}

theorem newSource (h : Spliced source planned report) : utf8 report.newSource =
    ((planned.mergeSort spliceOrder).map replacement).foldl
      (fun l r => spliceAt l r.start r.stop r.new) (utf8 source) := by
  rw [← h.bytes, written, map_snd_foldl_write, map_snd_source, ← map_replacement_spliceSequence,
    List.foldl_map (f := fun edit : Replacement UInt8 × Nat => edit.1)]

theorem share_le (h : Spliced source planned report) (hi : planned[i]? = some edit) :
    share i (written source planned) ≤ (utf8 edit.newText).length := by
  obtain ⟨pre, post, hsplit, -⟩ := spliceSequence_split hi
  have hback := h.fromBack
  have hnodup := nodup_places planned
  rw [hsplit, List.map_append, List.map_cons] at hback hnodup
  rw [written, hsplit, List.map_append, List.map_cons]
  exact Traced.share_le hback hnodup

/-- A text that lands somewhere stands there whole, and nothing else carries its label. -/
theorem written_of_landsAt (h : Spliced source planned report) (hi : planned[i]? = some edit)
    {q : Nat} (hlands : landsAt planned i edit = some q) :
    ∃ front back, written source planned = front ++ (mark i (utf8 edit.newText) ++ back) ∧
      front.length = q ∧ share i front = 0 ∧ share i back = 0 := by
  obtain ⟨pre, post, hsplit, hafter⟩ := spliceSequence_split hi
  have hback := h.fromBack
  have hnodup := nodup_places planned
  rw [landsAt, hafter] at hlands
  rw [hsplit, List.map_append, List.map_cons] at hback hnodup
  have htrack : track (labelled (edit, i)).1.start ((post.map labelled).map (·.1)) = some q := by
    rw [List.map_map]
    exact hlands
  obtain ⟨front, heq, hlength⟩ := written_of_track hback htrack
  have hshare := Traced.share_le hback hnodup
  rw [written, hsplit, List.map_append, List.map_cons, heq]
  rw [heq, share_append, share_append, share_mark_self] at hshare
  refine ⟨front, _, rfl, hlength, ?_, ?_⟩
  · change share i front + _ ≤ _ at hshare
    omega
  · change _ + (_ + share i _) ≤ _ at hshare
    omega

/-- A text that lands nowhere is not whole. -/
theorem share_lt_of_landsAt (h : Spliced source planned report) (hi : planned[i]? = some edit)
    (htext : utf8 edit.newText ≠ []) (hlands : landsAt planned i edit = none) :
    share i (written source planned) < (utf8 edit.newText).length := by
  obtain ⟨pre, post, hsplit, hafter⟩ := spliceSequence_split hi
  have hback := h.fromBack
  have hnodup := nodup_places planned
  rw [landsAt, hafter] at hlands
  rw [hsplit, List.map_append, List.map_cons] at hback hnodup
  have htrack : track (labelled (edit, i)).1.start ((post.map labelled).map (·.1)) = none := by
    rw [List.map_map]
    exact hlands
  rw [written, hsplit, List.map_append, List.map_cons]
  exact share_lt_of_track hback hnodup htext htrack

end Spliced
end Edit
end CleanCtx
