import Mathlib.Data.List.Nodup
import CleanCtx.Library.Splice

/-!
Splices that remember who wrote what. Every element carries the label of the
edit that wrote it, or none. Under edits that come from the back of the list, a
block keeps together as long as each later edit ends before it, and moves by what
that edit adds; an edit that reaches past its position takes its front away.
-/
namespace CleanCtx

variable {α ι : Type}

/-- A list whose elements carry the label of the edit that wrote them. -/
abbrev Traced (ι α : Type) := List (Option ι × α)

/-- Where a block stands after further edits; nowhere, when one of them reaches into it. -/
def track : Nat → List (Replacement α) → Option Nat
  | position, [] => some position
  | position, r :: rest =>
      if r.stop ≤ position then track (position - r.stop + r.start + r.new.length) rest else none

/-- Ranges that come from the back: none begins after the one before it. -/
def FromBack : Nat → List (Replacement α) → Prop
  | _, [] => True
  | position, r :: rest => r.start ≤ position ∧ r.start ≤ r.stop ∧ FromBack r.start rest

theorem FromBack.mono {p q : Nat} (hpq : p ≤ q) {rs : List (Replacement α)}
    (h : FromBack p rs) : FromBack q rs := by
  cases rs with
  | nil => trivial
  | cons r rs => exact ⟨Nat.le_trans h.1 hpq, h.2⟩

namespace Traced

def source (l : List α) : Traced ι α := l.map (Prod.mk none)

def mark (label : ι) (l : List α) : Traced ι α := l.map (Prod.mk (some label))

def write (out : Traced ι α) (edit : Replacement α × ι) : Traced ι α :=
  spliceAt out edit.1.start edit.1.stop (mark edit.2 edit.1.new)

@[simp] theorem mark_nil (label : ι) : mark label ([] : List α) = [] := rfl

@[simp] theorem length_mark (label : ι) (l : List α) : (mark label l).length = l.length :=
  List.length_map _

theorem map_snd_mark (label : ι) (l : List α) : (mark label l).map (·.2) = l := by
  rw [mark, List.map_map]
  exact List.map_id l

theorem map_snd_source (l : List α) : (source l : Traced ι α).map (·.2) = l := by
  rw [source, List.map_map]
  exact List.map_id l

/-- Without the labels, the edits are splices. -/
theorem map_snd_foldl_write (edits : List (Replacement α × ι)) (out : Traced ι α) :
    (edits.foldl write out).map (·.2) =
      edits.foldl (fun l edit => spliceAt l edit.1.start edit.1.stop edit.1.new)
        (out.map (·.2)) := by
  induction edits generalizing out with
  | nil => rfl
  | cons edit edits ih =>
      rw [List.foldl_cons, ih, List.foldl_cons]
      congr 1
      simp only [write, spliceAt, List.map_append, List.map_take, List.map_drop, map_snd_mark]

/-- Whatever carries a label was written by an edit with that label. -/
theorem mem_foldl_write {edits : List (Replacement α × ι)} {out : Traced ι α}
    {x : Option ι × α} (h : x ∈ edits.foldl write out) :
    x ∈ out ∨ ∃ edit ∈ edits, x ∈ mark edit.2 edit.1.new := by
  induction edits generalizing out with
  | nil => exact Or.inl h
  | cons edit edits ih =>
      rcases ih h with hwrite | ⟨later, hmem, hx⟩
      · rw [write, spliceAt, List.mem_append, List.mem_append] at hwrite
        rcases hwrite with (htake | hnew) | hdrop
        · exact Or.inl (List.mem_of_mem_take htake)
        · exact Or.inr ⟨edit, List.mem_cons_self, hnew⟩
        · exact Or.inl (List.mem_of_mem_drop hdrop)
      · exact Or.inr ⟨later, List.mem_cons_of_mem _ hmem, hx⟩

/-- An edit that ends within a front leaves what follows the front alone. -/
theorem write_append {front rest : Traced ι α} {edit : Replacement α × ι}
    (hrange : edit.1.start ≤ edit.1.stop) (hstop : edit.1.stop ≤ front.length) :
    write (front ++ rest) edit = write front edit ++ rest := by
  simp only [write, spliceAt, List.append_assoc]
  rw [List.take_append_of_le_length (Nat.le_trans hrange hstop), List.drop_append_of_le_length hstop]

theorem length_write {front : Traced ι α} {edit : Replacement α × ι}
    (hrange : edit.1.start ≤ edit.1.stop) (hstop : edit.1.stop ≤ front.length) :
    (write front edit).length =
      front.length - edit.1.stop + edit.1.start + edit.1.new.length := by
  simp only [write, spliceAt, List.length_append, List.length_take, List.length_drop, length_mark]
  omega

/-- What follows a front is kept by edits that end before it, and moves with the front. -/
theorem foldl_write_append {edits : List (Replacement α × ι)} {front rest : Traced ι α} {q : Nat}
    (hback : FromBack front.length (edits.map (·.1)))
    (htrack : track front.length (edits.map (·.1)) = some q) :
    edits.foldl write (front ++ rest) = edits.foldl write front ++ rest ∧
      (edits.foldl write front).length = q := by
  induction edits generalizing front with
  | nil => exact ⟨rfl, Option.some.inj htrack⟩
  | cons edit edits ih =>
      rw [List.map_cons, track] at htrack
      split at htrack
      · next hstop =>
        obtain ⟨hstart, hrange, hrest⟩ := hback
        have hlength : (write front edit).length =
            front.length - edit.1.stop + edit.1.start + edit.1.new.length :=
          length_write hrange hstop
        have hstarts : edit.1.start ≤ (write front edit).length := by omega
        rw [← hlength] at htrack
        rw [List.foldl_cons, List.foldl_cons, write_append hrange hstop]
        exact ih (hrest.mono hstarts) htrack
      · cases htrack

variable {pre post : List (Replacement α × ι)} {edit : Replacement α × ι} {l : List α}

/-- Every range begins within what the edits before it have left. -/
theorem start_le_of_fromBack {pre post : List (Replacement α × ι)} {edit : Replacement α × ι}
    {out : Traced ι α} (hback : FromBack out.length ((pre ++ edit :: post).map (·.1))) :
    edit.1.start ≤ (pre.foldl write out).length ∧
      FromBack edit.1.start (post.map (·.1)) ∧ edit.1.start ≤ edit.1.stop := by
  induction pre generalizing out with
  | nil => exact ⟨hback.1, hback.2.2, hback.2.1⟩
  | cons first pre ih =>
      have hlength : first.1.start ≤ (write out first).length := by
        have hstart : first.1.start ≤ out.length := hback.1
        simp only [write, spliceAt, List.length_append, List.length_take]
        omega
      exact ih (hback.2.2.mono hlength)

theorem ne_of_nodup (h : ((pre ++ edit :: post).map (·.2)).Nodup) :
    (∀ e ∈ pre, e.2 ≠ edit.2) ∧ ∀ e ∈ post, e.2 ≠ edit.2 := by
  rw [List.map_append, List.map_cons, List.nodup_middle, List.nodup_cons, ← List.map_append] at h
  have hne : ∀ e ∈ pre ++ post, e.2 ≠ edit.2 := fun e he heq =>
    h.1 (List.mem_map.mpr ⟨e, he, heq⟩)
  exact ⟨fun e he => hne e (List.mem_append_left _ he),
    fun e he => hne e (List.mem_append_right _ he)⟩

/-- The list an edit leaves, taken apart at the edit. -/
theorem foldl_write_split (pre post : List (Replacement α × ι)) (edit : Replacement α × ι)
    (out : Traced ι α) : (pre ++ edit :: post).foldl write out =
      post.foldl write ((pre.foldl write out).take edit.1.start ++
        (mark edit.2 edit.1.new ++ (pre.foldl write out).drop edit.1.stop)) := by
  rw [List.foldl_append, List.foldl_cons, write, spliceAt, List.append_assoc]

/-- A text that no later edit reaches into stands whole where it was moved to. -/
theorem written_of_track (hback : FromBack l.length ((pre ++ edit :: post).map (·.1))) {q : Nat}
    (htrack : track edit.1.start (post.map (·.1)) = some q) :
    ∃ front, (pre ++ edit :: post).foldl write (source l) =
        front ++ (mark edit.2 edit.1.new ++
          (pre.foldl write (source l)).drop edit.1.stop) ∧ front.length = q := by
  rw [← List.length_map (Prod.mk (none : Option ι)), ← source] at hback
  obtain ⟨hstart, hlater, -⟩ := start_le_of_fromBack hback
  have hlength : ((pre.foldl write (source l)).take edit.1.start).length = edit.1.start :=
    List.length_take_of_le hstart
  rw [foldl_write_split]
  obtain ⟨heq, hq⟩ := @foldl_write_append _ _ _ _
    (mark edit.2 edit.1.new ++ (pre.foldl write (source l)).drop edit.1.stop) _
    (hlength.symm ▸ hlater) (hlength.symm ▸ htrack)
  exact ⟨_, heq, hq⟩

/-- Insertions at one point leave what followed the point behind it. -/
theorem sublist_drop_foldl_write {edits : List (Replacement α × ι)} {p : Nat} {out : Traced ι α}
    {block : Traced ι α} (hp : p ≤ out.length)
    (hpoint : ∀ e ∈ edits, e.1.start = p ∧ e.1.stop = p) (hblock : block.Sublist (out.drop p)) :
    block.Sublist ((edits.foldl write out).drop p) := by
  induction edits generalizing out with
  | nil => exact hblock
  | cons edit edits ih =>
      obtain ⟨⟨hstart, hstop⟩, hrest⟩ := List.forall_mem_cons.mp hpoint
      have hwrite : write out edit = out.take p ++ (mark edit.2 edit.1.new ++ out.drop p) := by
        rw [write, spliceAt, hstart, hstop, List.append_assoc]
      have htake : (out.take p).length = p := List.length_take_of_le hp
      refine ih ?_ hrest ?_
      · rw [hwrite, List.length_append]
        omega
      · rw [hwrite, List.drop_left' htake]
        exact hblock.trans (List.sublist_append_right _ _)

/-- Of two insertions at one point, the later one stands in front of the earlier one. -/
theorem insertions_reversed {mid : List (Replacement α × ι)} {first second : Replacement α × ι}
    (hback : FromBack l.length
      (((pre ++ first :: mid) ++ second :: post).map (·.1)))
    (hfirst : first.1.start = second.1.start ∧ first.1.stop = second.1.start)
    (hmid : ∀ e ∈ mid, e.1.start = second.1.start ∧ e.1.stop = second.1.start)
    (hsecond : second.1.stop = second.1.start) {q : Nat}
    (htrack : track second.1.start (post.map (·.1)) = some q) :
    (mark second.2 second.1.new ++ mark first.2 first.1.new).Sublist
      (((pre ++ first :: mid) ++ second :: post).foldl write (source l)) := by
  obtain ⟨front, heq, -⟩ := written_of_track hback htrack
  rw [heq]
  refine (List.Sublist.append_left ?_ _).trans (List.sublist_append_right _ _)
  rw [List.append_assoc, List.cons_append, ← List.length_map (Prod.mk (none : Option ι)),
    ← source] at hback
  obtain ⟨hstart, -, -⟩ := start_le_of_fromBack hback
  have htake := List.length_take_of_le hstart
  rw [List.foldl_append, List.foldl_cons, hsecond]
  refine sublist_drop_foldl_write ?_ hmid ?_
  · rw [write, spliceAt, List.length_append, List.length_append, htake, hfirst.1]
    omega
  · rw [write, spliceAt, List.append_assoc, ← hfirst.1, List.drop_left' htake]
    exact List.sublist_append_left _ _

section

variable [DecidableEq ι]

def share (label : ι) (out : Traced ι α) : Nat := out.countP fun x => x.1 = some label

variable {label : ι} {out : Traced ι α}

theorem share_append (label : ι) (a b : Traced ι α) :
    share label (a ++ b) = share label a + share label b := List.countP_append

theorem share_mark_self (label : ι) (l : List α) : share label (mark label l) = l.length := by
  rw [share, mark, List.countP_map]
  simp [Function.comp_def]

theorem share_mark_of_ne {other : ι} (h : other ≠ label) (l : List α) :
    share label (mark other l) = 0 := by
  rw [share, mark, List.countP_map]
  simp [Function.comp_def, h]

theorem share_eq_zero_iff : share label out = 0 ↔ ∀ x ∈ out, x.1 ≠ some label := by
  simp [share, List.countP_eq_zero]

theorem share_le_of_sublist {a b : Traced ι α} (h : a.Sublist b) : share label a ≤ share label b :=
  h.countP_le

theorem share_write_le {edit : Replacement α × ι} (hrange : edit.1.start ≤ edit.1.stop)
    (hlabel : edit.2 ≠ label) : share label (write out edit) ≤ share label out := by
  rw [write, spliceAt, share_append, share_append, share_mark_of_ne hlabel, Nat.add_zero,
    ← share_append]
  refine share_le_of_sublist ?_
  conv_rhs => rw [← List.take_append_drop edit.1.start out]
  exact (List.Sublist.refl _).append (List.drop_sublist_drop_left out hrange)

/-- Edits with other labels add nothing to a label's share. -/
theorem share_foldl_write_le {edits : List (Replacement α × ι)} {p : Nat}
    (hback : FromBack p (edits.map (·.1))) (hlabels : ∀ edit ∈ edits, edit.2 ≠ label) :
    share label (edits.foldl write out) ≤ share label out := by
  induction edits generalizing out p with
  | nil => exact Nat.le_refl _
  | cons edit edits ih =>
      obtain ⟨hlabel, hrest⟩ := List.forall_mem_cons.mp hlabels
      exact Nat.le_trans (ih hback.2.2 hrest) (share_write_le hback.2.1 hlabel)

/-- An edit that reaches past the front of a labelled block takes some of it away. -/
theorem share_write_lt {front rest : Traced ι α} {a : α} {edit : Replacement α × ι}
    (hstart : edit.1.start ≤ front.length) (hstop : front.length < edit.1.stop)
    (hlabel : edit.2 ≠ label) :
    share label (write (front ++ (some label, a) :: rest) edit) <
      share label (front ++ (some label, a) :: rest) := by
  rw [write, spliceAt, share_append, share_append, share_mark_of_ne hlabel, Nat.add_zero,
    share_append, List.take_append_of_le_length hstart]
  have hfront : share label (front.take edit.1.start) ≤ share label front :=
    share_le_of_sublist (List.take_sublist _ _)
  have hdrop : share label ((front ++ (some label, a) :: rest).drop edit.1.stop) ≤
      share label rest := by
    refine share_le_of_sublist ?_
    have hsplit : edit.1.stop = front.length + (edit.1.stop - front.length - 1 + 1) := by omega
    rw [hsplit, List.drop_length_add_append, List.drop_succ_cons]
    exact List.drop_sublist _ _
  have hhead : share label ((some label, a) :: rest) = share label rest + 1 := by
    simp [share]
  omega

/-- A block that an edit reaches into is never whole again. -/
theorem share_foldl_write_lt {edits : List (Replacement α × ι)} {front rest : Traced ι α} {a : α}
    (hback : FromBack front.length (edits.map (·.1)))
    (htrack : track front.length (edits.map (·.1)) = none)
    (hlabels : ∀ edit ∈ edits, edit.2 ≠ label) :
    share label (edits.foldl write (front ++ (some label, a) :: rest)) <
      share label (front ++ (some label, a) :: rest) := by
  induction edits generalizing front with
  | nil => cases htrack
  | cons edit edits ih =>
      obtain ⟨hstart, hrange, hrest⟩ := hback
      obtain ⟨hlabel, hlabels⟩ := List.forall_mem_cons.mp hlabels
      rw [List.map_cons, track] at htrack
      rw [List.foldl_cons]
      split at htrack
      · next hstop =>
        have hlength : (write front edit).length =
            front.length - edit.1.stop + edit.1.start + edit.1.new.length :=
          length_write hrange hstop
        have hstarts : edit.1.start ≤ (write front edit).length := by omega
        rw [← hlength] at htrack
        have hlater := ih (hrest.mono hstarts) htrack hlabels
        rw [← write_append hrange hstop] at hlater
        exact Nat.lt_of_lt_of_le hlater (share_write_le hrange hlabel)
      · next hstop =>
        exact Nat.lt_of_le_of_lt (share_foldl_write_le hrest hlabels)
          (share_write_lt hstart (Nat.lt_of_not_le hstop) hlabel)

theorem share_before (l : List α) (hnodup : ((pre ++ edit :: post).map (·.2)).Nodup) :
    share edit.2 (pre.foldl write (source l)) = 0 := by
  refine share_eq_zero_iff.mpr fun x hx hlabel => ?_
  rcases mem_foldl_write hx with hsource | ⟨e, he, hmark⟩
  · obtain ⟨a, -, rfl⟩ := List.mem_map.mp hsource
    cases hlabel
  · obtain ⟨a, -, rfl⟩ := List.mem_map.mp hmark
    exact (ne_of_nodup hnodup).1 e he (Option.some.inj hlabel)

theorem share_written (l : List α)
    (hnodup : ((pre ++ edit :: post).map (·.2)).Nodup) :
    share edit.2 ((pre.foldl write (source l)).take edit.1.start ++
      (mark edit.2 edit.1.new ++ (pre.foldl write (source l)).drop edit.1.stop)) =
        edit.1.new.length := by
  have hzero := share_before l hnodup
  have htake : share edit.2 _ ≤ share edit.2 _ := share_le_of_sublist
    (List.take_sublist edit.1.start (pre.foldl write (source l)))
  have hdrop : share edit.2 _ ≤ share edit.2 _ := share_le_of_sublist
    (List.drop_sublist edit.1.stop (pre.foldl write (source l)))
  rw [share_append, share_append, share_mark_self]
  omega

/-- Nothing carries a label but the text that was written with it. -/
theorem share_le (hback : FromBack l.length ((pre ++ edit :: post).map (·.1)))
    (hnodup : ((pre ++ edit :: post).map (·.2)).Nodup) :
    share edit.2 ((pre ++ edit :: post).foldl write (source l)) ≤ edit.1.new.length := by
  rw [foldl_write_split, ← share_written l hnodup]
  rw [← List.length_map (Prod.mk (none : Option ι)), ← source] at hback
  exact share_foldl_write_le (start_le_of_fromBack hback).2.1 (ne_of_nodup hnodup).2

/-- A text that a later edit reaches into is not whole. -/
theorem share_lt_of_track (hback : FromBack l.length ((pre ++ edit :: post).map (·.1)))
    (hnodup : ((pre ++ edit :: post).map (·.2)).Nodup) (hnew : edit.1.new ≠ [])
    (htrack : track edit.1.start (post.map (·.1)) = none) :
    share edit.2 ((pre ++ edit :: post).foldl write (source l)) < edit.1.new.length := by
  have hshare := share_written l hnodup
  rw [foldl_write_split]
  rw [← List.length_map (Prod.mk (none : Option ι)), ← source] at hback
  obtain ⟨hstart, hlater, -⟩ := start_le_of_fromBack hback
  have hlength : ((pre.foldl write (source l)).take edit.1.start).length = edit.1.start :=
    List.length_take_of_le hstart
  obtain ⟨a, rest, hcons⟩ := List.exists_cons_of_ne_nil hnew
  rw [← hshare, hcons, mark, List.map_cons, List.cons_append]
  exact share_foldl_write_lt (hlength.symm ▸ hlater) (hlength.symm ▸ htrack) (ne_of_nodup hnodup).2

end

end Traced
end CleanCtx
