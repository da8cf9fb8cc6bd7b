import Mathlib.Data.List.Dedup
import Mathlib.Data.List.Destutter

/-!
Names looked up through places, innermost first. A name means what the first place
that knows it says, and it is resolved when that is one thing.
-/
namespace CleanCtx

theorem mem_destutter'_ne {α : Type} [DecidableEq α] {a b : α} {l : List α} :
    a ∈ l.destutter' (· ≠ ·) b ↔ a = b ∨ a ∈ l := by
  induction l generalizing b with
  | nil => simp
  | cons c l ih =>
      rw [List.destutter'_cons]
      split
      · rw [List.mem_cons, ih, List.mem_cons]
      · next h =>
        obtain rfl := not_not.mp h
        rw [ih, List.mem_cons, ← or_assoc, or_self]

theorem mem_destutter_ne {α : Type} [DecidableEq α] {a : α} {l : List α} :
    a ∈ l.destutter (· ≠ ·) ↔ a ∈ l := by
  cases l with
  | nil => rfl
  | cons b l => rw [List.destutter_cons', mem_destutter'_ne, List.mem_cons]

namespace Scopes

variable {κ τ : Type} (found : κ → List τ)

/-- What a name means: all that the first place that knows it says. -/
def visible : List κ → List τ
  | [] => []
  | place :: places =>
    match found place with
    | [] => visible places
    | t :: ts => t :: ts

variable [DecidableEq τ]

/-- The one thing that the first place that knows the name says. -/
def resolve : List κ → Option τ
  | [] => none
  | place :: places =>
    match (found place).dedup with
    | [] => resolve places
    | [t] => some t
    | _ :: _ :: _ => none

theorem dedup_eq_singleton_iff {l : List τ} {t : τ} :
    l.dedup = [t] ↔ l ≠ [] ∧ ∀ u ∈ l, u = t := by
  constructor
  · intro h
    refine ⟨fun hnil => ?_, fun u hu => ?_⟩
    · rw [hnil, List.dedup_nil] at h
      cases h
    · rw [← List.mem_dedup, h] at hu
      exact List.mem_singleton.mp hu
  · rintro ⟨hne, hall⟩
    have hnodup := List.nodup_dedup l
    match hl : l.dedup with
    | [] => exact absurd ((List.dedup_eq_nil l).mp hl) hne
    | [u] =>
        have hu : u ∈ l := List.mem_dedup.mp (by rw [hl]; exact List.mem_singleton_self u)
        rw [hall u hu]
    | u :: v :: rest =>
        have hu : u ∈ l := List.mem_dedup.mp (by rw [hl]; simp)
        have hv : v ∈ l := List.mem_dedup.mp (by rw [hl]; simp)
        rw [hl] at hnodup
        exact absurd (by rw [hall u hu, hall v hv]; simp) (List.nodup_cons.mp hnodup).1

/-- A name is resolved exactly when all it means is one thing. -/
theorem resolve_eq_some_iff {places : List κ} {t : τ} :
    resolve found places = some t ↔
      visible found places ≠ [] ∧ ∀ u ∈ visible found places, u = t := by
  induction places with
  | nil => simp [resolve, visible]
  | cons place places ih =>
      rw [visible, resolve]
      cases hfound : found place with
      | nil => simpa using ih
      | cons u us =>
          rw [← dedup_eq_singleton_iff]
          have hne : (u :: us).dedup ≠ [] := fun h => by
            cases (List.dedup_eq_nil _).mp h
          match hdedup : (u :: us).dedup with
          | [] => exact absurd hdedup hne
          | [v] => simp
          | v :: w :: rest => simp

end Scopes
end CleanCtx
