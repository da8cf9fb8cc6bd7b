import Mathlib.Data.List.Basic

/-!
Sections of a document that are found by a marker: the first or the last place
where a short list stands in a long one. The marker starts with a line end, so that
only the line ends of the document have to be looked at.
-/
namespace CleanCtx

variable {α : Type} [DecidableEq α]

/-- The first position where the needle stands. -/
def position (needle : List α) : List α → Option Nat
  | [] => if needle.isEmpty then some 0 else none
  | c :: rest =>
      if needle.isPrefixOf (c :: rest) then some 0 else (position needle rest).map (· + 1)

/-- `rsplit_once`: what stands before and after the last place of the needle. -/
def rsplitOnce (needle : List α) : List α → Option (List α × List α)
  | [] => if needle.isEmpty then some ([], []) else none
  | c :: rest =>
      match rsplitOnce needle rest with
      | some (before, after) => some (c :: before, after)
      | none =>
          if needle.isPrefixOf (c :: rest) then some ([], (c :: rest).drop needle.length) else none

variable {lf : α} {needle line rest : List α}

theorem isPrefixOf_cons_eq_false {c : α} (h : c ≠ lf) :
    (lf :: needle).isPrefixOf (c :: rest) = false := by
  rw [List.isPrefixOf_cons_cons, beq_eq_false_iff_ne.mpr h.symm, Bool.false_and]

theorem position_append (h : lf ∉ line) (rest : List α) :
    position (lf :: needle) (line ++ rest) =
      (position (lf :: needle) rest).map (· + line.length) := by
  induction line with
  | nil => exact Option.map_id'.symm
  | cons c line ih =>
      obtain ⟨hc, hline⟩ := not_or.mp (mt List.mem_cons.mpr h)
      rw [List.cons_append, position, isPrefixOf_cons_eq_false (Ne.symm hc),
        if_neg Bool.false_ne_true, ih hline, Option.map_map]
      rfl

end CleanCtx
