import Mathlib.Data.List.Basic

/-!
Binary search by a comparison with the element that is looked for
(`slice::binary_search_by`). The candidates are halved until one is left.
-/
namespace CleanCtx.BinarySearch

variable {α : Type} (cmp : α → Ordering)

/-- The candidate that is left of those from `base` on. -/
def narrow (l : List α) : Nat → Nat → Nat → Nat
  | 0, base, _ => base
  | fuel + 1, base, size =>
      if 1 < size then
        match l[base + size / 2]? with
        | some a =>
            narrow l fuel (if cmp a = .gt then base else base + size / 2) (size - size / 2)
        | none => base
      else base

def search (l : List α) : Option Nat :=
  let base := narrow cmp l l.length 0 l.length
  if (l[base]?).any fun a => cmp a = .eq then some base else none

def Ordered (l : List α) : Prop :=
  l.Pairwise fun a b => (cmp a = .gt → cmp b = .gt) ∧ (cmp b = .lt → cmp a = .lt)

variable {cmp} {l : List α}

/-- The element that is looked for stays among the candidates. -/
theorem narrow_eq (h : Ordered cmp l) {fuel base size position : Nat} {a : α} (hfuel : size ≤ fuel)
    (hlow : base ≤ position) (hhigh : position < base + size) (hsize : base + size ≤ l.length)
    (ha : l[position]? = some a) (heq : cmp a = .eq) :
    ∃ b, l[narrow cmp l fuel base size]? = some b ∧ cmp b = .eq := by
  induction fuel generalizing base size position a with
  | zero => omega
  | succ fuel ih =>
      rw [narrow]
      split
      · next hmany =>
        have hmid : base + size / 2 < l.length := by omega
        rw [List.getElem?_eq_getElem hmid]
        dsimp only
        obtain ⟨hposition, rfl⟩ := List.getElem?_eq_some_iff.mp ha
        have hbefore : position < base + size / 2 → cmp l[base + size / 2] ≠ .lt := by
          intro hlt hless
          have := (List.pairwise_iff_getElem.mp h _ _ hposition hmid hlt).2 hless
          rw [heq] at this
          cases this
        have hafter : base + size / 2 < position → cmp l[base + size / 2] ≠ .gt := by
          intro hlt hgreater
          have := (List.pairwise_iff_getElem.mp h _ _ hmid hposition hlt).1 hgreater
          rw [heq] at this
          cases this
        split
        · next hgreater =>
          have hne : position ≠ base + size / 2 := by
            rintro rfl
            rw [heq] at hgreater
            cases hgreater
          have hle : position < base + size / 2 :=
            Nat.lt_of_le_of_ne (Nat.not_lt.mp fun hlt => hafter hlt hgreater) hne
          exact ih (by omega) hlow (by omega) (by omega) ha heq
        · next hgreater =>
          by_cases hlt : position < base + size / 2
          · have hmiddle : cmp l[base + size / 2] = .eq := by
              cases hcmp : cmp l[base + size / 2] with
              | eq => rfl
              | lt => exact absurd hcmp (hbefore hlt)
              | gt => exact absurd hcmp hgreater
            exact ih (by omega) (Nat.le_refl _) (by omega) (by omega)
              (List.getElem?_eq_getElem hmid) hmiddle
          · exact ih (by omega) (Nat.not_lt.mp hlt) (by omega) (by omega) ha heq
      · next hone =>
        obtain rfl : position = base := by omega
        exact ⟨a, ha, heq⟩

theorem isSome_search_iff (h : Ordered cmp l) :
    (search cmp l).isSome ↔ ∃ a ∈ l, cmp a = .eq := by
  rw [search]
  constructor
  · intro hsome
    split at hsome
    · next hfound =>
      obtain ⟨a, ha, heq⟩ := (Option.any_eq_true _ _).mp hfound
      exact ⟨a, List.mem_of_getElem? ha, of_decide_eq_true heq⟩
    · cases hsome
  · rintro ⟨a, ha, heq⟩
    obtain ⟨position, hposition⟩ := List.mem_iff_getElem?.mp ha
    have hbound := (List.getElem?_eq_some_iff.mp hposition).1
    obtain ⟨b, hb, hbeq⟩ := narrow_eq h (Nat.le_refl l.length) (Nat.zero_le position)
      (by omega) (by omega) hposition heq
    rw [hb]
    simp [hbeq]

end CleanCtx.BinarySearch
