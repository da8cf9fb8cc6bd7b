import Mathlib.Data.List.Basic

/-!
Replacing ranges of a list. Ranges that follow one another may be replaced from
the last one to the first: the result is the list with each range replaced and
everything between them kept.
-/
namespace CleanCtx

variable {α : Type}

/-- Replace the elements from `start` on and before `stop`. -/
def spliceAt (l : List α) (start stop : Nat) (new : List α) : List α :=
  l.take start ++ new ++ l.drop stop

/-- A range and what replaces it. -/
structure Replacement (α : Type) where
  start : Nat
  stop : Nat
  new : List α

/-- The list from a position on with ranges replaced, in the order of the list. -/
def weave (l : List α) : Nat → List (Replacement α) → List α
  | position, [] => l.drop position
  | position, r :: rest =>
      (l.drop position).take (r.start - position) ++ r.new ++ weave l r.stop rest

/-- The ranges follow one another within the list, from a position on. -/
def InOrder (l : List α) : Nat → List (Replacement α) → Prop
  | position, [] => position ≤ l.length
  | position, r :: rest => position ≤ r.start ∧ r.start ≤ r.stop ∧ InOrder l r.stop rest

theorem InOrder.le_length {l : List α} {position : Nat} {rs : List (Replacement α)}
    (h : InOrder l position rs) : position ≤ l.length := by
  induction rs generalizing position with
  | nil => exact h
  | cons r rs ih => exact Nat.le_trans h.1 (Nat.le_trans h.2.1 (ih h.2.2))

/-- Replacing from the last range to the first one. -/
theorem foldr_spliceAt {l : List α} {position : Nat} {rs : List (Replacement α)}
    (h : InOrder l position rs) :
    rs.foldr (fun r l => spliceAt l r.start r.stop r.new) l =
      l.take position ++ weave l position rs := by
  induction rs generalizing position with
  | nil => exact (List.take_append_drop position l).symm
  | cons r rs ih =>
      obtain ⟨hposition, hrange, hrest⟩ := h
      have hlength : (l.take r.stop).length = r.stop :=
        List.length_take_of_le hrest.le_length
      rw [List.foldr_cons, ih hrest, spliceAt, weave]
      have htake : (l.take r.stop ++ weave l r.stop rs).take r.start =
          l.take position ++ (l.drop position).take (r.start - position) := by
        rw [List.take_append_of_le_length (by rw [hlength]; exact hrange), List.take_take,
          Nat.min_eq_left hrange, ← List.take_add, Nat.add_sub_cancel' hposition]
      have hdrop : (l.take r.stop ++ weave l r.stop rs).drop r.stop = weave l r.stop rs :=
        List.drop_left' hlength
      rw [htake, hdrop]
      simp only [List.append_assoc]

end CleanCtx
