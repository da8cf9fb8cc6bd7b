import Mathlib.Data.List.Count
import Mathlib.Data.List.Perm.Basic

/-!
Lists that keep the order of each row. A key splits a list into rows; a
rearrangement that keeps every row is a permutation, and no selection that
reads one row can tell it from the original.
-/
namespace CleanCtx

section Rows

variable {α β κ : Type} [DecidableEq κ] {key : α → κ} {l l' : List α}

/-- Every row of `l` is the row of `l'`, in the same order. -/
def SameRows (key : α → κ) (l l' : List α) : Prop :=
  ∀ k, l.filter (key · = k) = l'.filter (key · = k)

namespace SameRows

theorem symm (h : SameRows key l l') : SameRows key l' l := fun k => (h k).symm

theorem perm [DecidableEq α] (h : SameRows key l l') : l.Perm l' := by
  refine List.perm_iff_count.mpr fun a => ?_
  have hrow := congrArg (List.count a) (h (key a))
  rwa [List.count_filter (by simp), List.count_filter (by simp)] at hrow

theorem filterMap (h : SameRows key l l') {k : κ} {sel : α → Option β}
    (hsel : ∀ a b, sel a = some b → key a = k) : l.filterMap sel = l'.filterMap sel := by
  have hrow : ∀ l : List α, (l.filter (key · = k)).filterMap sel = l.filterMap sel := by
    intro l
    rw [List.filterMap_filter]
    refine List.filterMap_congr fun a _ => ?_
    cases ha : sel a with
    | none => simp
    | some b => simp [hsel a b ha]
  rw [← hrow l, h k, hrow l']

end SameRows

/-- `sel` reads the elements of row `k`, and `emit` writes each of them back. -/
structure IsRow (key : α → κ) (k : κ) (sel : α → Option β) (emit : β → List α) : Prop where
  sound : ∀ a b, sel a = some b → key a = k ∧ emit b = [a]
  complete : ∀ a, key a = k → (sel a).isSome

namespace IsRow

variable {k : κ} {sel : α → Option β} {emit : β → List α}

theorem flatMap_eq (h : IsRow key k sel emit) (l : List α) :
    (l.filterMap sel).flatMap emit = l.filter (key · = k) := by
  induction l with
  | nil => rfl
  | cons a l ih =>
      cases ha : sel a with
      | none =>
          have hkey : key a ≠ k := by
            intro hk
            have := h.complete a hk
            rw [ha] at this
            cases this
          rw [List.filterMap_cons_none ha, ih, List.filter_cons_of_neg (by simpa using hkey)]
      | some b =>
          obtain ⟨hkey, hemit⟩ := h.sound a b ha
          rw [List.filterMap_cons_some ha, List.flatMap_cons, ih, hemit,
            List.filter_cons_of_pos (by simpa using hkey), List.singleton_append]

theorem map_eq {emit : β → α} (h : IsRow key k sel fun b => [emit b]) (l : List α) :
    (l.filterMap sel).map emit = l.filter (key · = k) := by
  rw [List.map_eq_flatMap, h.flatMap_eq]

theorem filterMap_eq (h : IsRow key k sel emit) (hrows : SameRows key l l') :
    l.filterMap sel = l'.filterMap sel :=
  hrows.filterMap fun a b hb => (h.sound a b hb).1

end IsRow

omit [DecidableEq κ] in
/-- A concatenation to which one element contributes. -/
theorem flatMap_only {γ : Type} {f : γ → κ} {xs : List γ} (hnodup : (xs.map f).Nodup)
    {g : γ → List α} {x : γ} (hx : x ∈ xs) (hother : ∀ y ∈ xs, f y ≠ f x → g y = []) :
    xs.flatMap g = g x := by
  induction xs with
  | nil => cases hx
  | cons y ys ih =>
      rw [List.map_cons, List.nodup_cons] at hnodup
      rw [List.flatMap_cons]
      rcases List.mem_cons.mp hx with rfl | hmem
      · have hrest : ys.flatMap g = [] := List.flatMap_eq_nil_iff.mpr fun z hz =>
          hother z (List.mem_cons_of_mem _ hz) fun heq =>
            hnodup.1 (heq ▸ List.mem_map_of_mem hz)
        rw [hrest, List.append_nil]
      · have hy : g y = [] := hother y List.mem_cons_self fun heq =>
          hnodup.1 (heq ▸ List.mem_map_of_mem hmem)
        rw [hy, List.nil_append,
          ih hnodup.2 hmem fun z hz => hother z (List.mem_cons_of_mem _ hz)]

section Nested

variable {ο ι : Type} {owners : List ο} {owner : ο → κ} {members : ο → List ι} {member : ι → Prop}
  [DecidablePred member] {row : List α}

omit [DecidableEq κ] in
/-- A row contributed by the one member, of the one owner, that it belongs to. -/
theorem flatMap_member (howners : (owners.map owner).Nodup) {o : ο} (ho : o ∈ owners)
    {ε : Type} {e : ι} {f : ι → ε} (hmembers : ((members o).map f).Nodup) (he : e ∈ members o)
    (hmember : ∀ x, member x ↔ f x = f e)
    (hunique : ∀ y ∈ owners, ∀ x ∈ members y, member x → owner y = owner o) :
    (owners.flatMap fun y => (members y).flatMap fun x => if member x then row else []) = row := by
  rw [flatMap_only howners ho, flatMap_only hmembers he, if_pos ((hmember e).mpr rfl)]
  · exact fun x _ hne => if_neg fun hx => hne ((hmember x).mp hx)
  · intro y hy hne
    refine List.flatMap_eq_nil_iff.mpr fun x hx => if_neg fun hxm => hne ?_
    exact hunique y hy x hx hxm

omit [DecidableEq κ] in
theorem flatMap_member_nil (hnone : ∀ y ∈ owners, ∀ x ∈ members y, ¬ member x) :
    (owners.flatMap fun y => (members y).flatMap fun x => if member x then row else []) = [] := by
  refine List.flatMap_eq_nil_iff.mpr fun y hy => ?_
  exact List.flatMap_eq_nil_iff.mpr fun x hx => if_neg (hnone y hy x hx)

end Nested

section Heads

variable {γ : Type} {p : α → Bool} {head : γ → α} {body : γ → List α}

omit [DecidableEq κ] in
theorem filter_heads (xs : List γ) (hbody : ∀ x, (body x).filter p = []) :
    (xs.flatMap fun x => head x :: body x).filter p = (xs.map head).filter p := by
  induction xs with
  | nil => rfl
  | cons x xs ih =>
      rw [List.flatMap_cons, List.filter_append, ih, List.filter_cons, hbody, List.map_cons,
        List.filter_cons]
      split <;> rfl

omit [DecidableEq κ] in
theorem filter_bodies (xs : List γ) (hhead : ∀ x, p (head x) = false) :
    (xs.flatMap fun x => head x :: body x).filter p = xs.flatMap fun x => (body x).filter p := by
  rw [List.filter_flatMap]
  refine congrArg (fun g => List.flatMap g xs) (funext fun x => ?_)
  rw [List.filter_cons_of_neg (by rw [hhead]; exact Bool.false_ne_true)]

end Heads

theorem filter_row_of_ne {k k' : κ} (h : k ≠ k') (l : List α) :
    (l.filter (key · = k)).filter (key · = k') = [] := by
  rw [List.filter_filter]
  refine List.filter_eq_nil_iff.mpr fun a _ => ?_
  simp only [Bool.and_eq_true, decide_eq_true_eq, not_and]
  exact fun hk' hk => h (hk.symm.trans hk')

/-- One row of a list that is written out row by row. -/
theorem filter_rows {rows : List κ} (hrows : rows.Nodup) (l : List α) {k : κ}
    (hk : k ∉ rows → l.filter (key · = k) = []) :
    (rows.flatMap fun r => l.filter (key · = r)).filter (key · = k) = l.filter (key · = k) := by
  have hone : ∀ r, r ≠ k → (l.filter (key · = r)).filter (key · = k) = [] :=
    fun r hne => filter_row_of_ne hne l
  rw [List.filter_flatMap]
  by_cases hmem : k ∈ rows
  · rw [flatMap_only (f := id) (by rwa [List.map_id]) hmem fun r _ hne => hone r hne]
    simp
  · rw [hk hmem]
    refine List.flatMap_eq_nil_iff.mpr fun r hr => hone r fun heq => hmem ?_
    rwa [← heq]

end Rows
end CleanCtx
