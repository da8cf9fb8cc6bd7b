import Mathlib.Data.List.Basic

/-!
Checks that decide a condition: a computation succeeds, with a result that
meets the postcondition, where the condition holds, and reports an error where
it does not.
-/
namespace CleanCtx

/-- The check succeeds exactly under the condition `P`. -/
def Decides {ε α : Type} (P : Prop) (post : α → Prop) (check : Except ε α) : Prop :=
  (∃ a, check = .ok a ∧ P ∧ post a) ∨ (∃ e, check = .error e ∧ ¬P)

namespace Decides

variable {ε α β : Type} {P Q : Prop} {post : α → Prop} {check : Except ε α}

theorem isOk_iff (h : Decides P post check) : (∃ a, check = .ok a) ↔ P := by
  rcases h with ⟨a, rfl, hP, -⟩ | ⟨e, rfl, hP⟩
  · exact ⟨fun _ => hP, fun _ => ⟨a, rfl⟩⟩
  · exact ⟨by rintro ⟨_, ⟨⟩⟩, fun h => absurd h hP⟩

theorem run (h : Decides P post check) (hP : P) : ∃ a, check = .ok a ∧ post a := by
  rcases h with ⟨a, ha, _, hpost⟩ | ⟨_, _, hnot⟩
  · exact ⟨a, ha, hpost⟩
  · exact absurd hP hnot

theorem ok {a : α} (hP : P) (hpost : post a) : Decides P post (.ok a : Except ε α) :=
  Or.inl ⟨a, rfl, hP, hpost⟩

theorem error {e : ε} (hP : ¬P) : Decides P post (.error e : Except ε α) :=
  Or.inr ⟨e, rfl, hP⟩

theorem congr (h : Decides P post check) (hPQ : P ↔ Q) : Decides Q post check := by
  rwa [← propext hPQ]

theorem mono (h : Decides P post check) {post' : α → Prop} (hpost : ∀ a, P → post a → post' a) :
    Decides P post' check := by
  rcases h with ⟨a, ha, hP, h⟩ | herror
  · exact Or.inl ⟨a, ha, hP, hpost a hP h⟩
  · exact Or.inr herror

theorem ite {p : Prop} [Decidable p] {a : α} {e : ε} (hpost : p → post a) :
    Decides p post (if p then .ok a else .error e) := by
  by_cases h : p
  · rw [if_pos h]; exact ok h (hpost h)
  · rw [if_neg h]; exact error h

/-- A sequence decides the conjunction; the second check may rely on the first. -/
theorem bind {mid : α → Prop} {post : β → Prop} {f : α → Except ε β}
    (hcheck : Decides P mid check) (hf : ∀ a, P → mid a → Decides Q post (f a)) :
    Decides (P ∧ Q) post (check >>= f) := by
  rcases hcheck with ⟨a, rfl, hP, hmid⟩ | ⟨e, rfl, hP⟩
  · rcases hf a hP hmid with ⟨b, hb, hQ, hpost⟩ | ⟨e, he, hQ⟩
    · exact Or.inl ⟨b, hb, ⟨hP, hQ⟩, hpost⟩
    · exact Or.inr ⟨e, he, fun h => hQ h.2⟩
  · exact Or.inr ⟨e, rfl, fun h => hP h.1⟩

/-- A last step that cannot fail. -/
theorem bind_ok {mid : α → Prop} {post : β → Prop} {f : α → β}
    (hcheck : Decides P mid check) (hf : ∀ a, P → mid a → post (f a)) :
    Decides P post (check >>= fun a => .ok (f a)) := by
  rcases hcheck with ⟨a, rfl, hP, hmid⟩ | ⟨e, rfl, hP⟩
  · exact Or.inl ⟨f a, rfl, hP, hf a hP hmid⟩
  · exact Or.inr ⟨e, rfl, hP⟩

end Decides

end CleanCtx
