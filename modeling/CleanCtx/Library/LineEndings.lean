import CleanCtx.Library.Provenance

/-!
Line endings of two elements. A list is paired when every first element of an
ending is followed by the second one and every second one follows a first one.
Splices that come from the back keep a list paired exactly when no range ends
inside an ending, or a later range takes what is left of that ending away.
-/
namespace CleanCtx

variable {α : Type}

/-- Every first element of an ending is followed by the second one. -/
def ClosedEndings (cr lf : α) (l : List α) : Prop := ∀ p, l[p]? = some cr → l[p + 1]? = some lf

def Splits (cr lf : α) (l : List α) (p : Nat) : Prop :=
  l[p]? = some lf ∧ ∃ k, p = k + 1 ∧ l[k]? = some cr

/-- A second element that follows no first one. -/
def Stray (cr lf : α) (l : List α) (p : Nat) : Prop := l[p]? = some lf ∧ ¬ Splits cr lf l p

/-- All endings are whole. -/
structure Paired (cr lf : α) (l : List α) : Prop where
  closed : ClosedEndings cr lf l
  strayless : ∀ p, ¬ Stray cr lf l p

variable {cr lf : α} {l a b : List α}

section

variable [DecidableEq α]

instance (cr lf : α) (l : List α) (p : Nat) : Decidable (Splits cr lf l p) :=
  decidable_of_iff (l[p]? = some lf ∧ p ≠ 0 ∧ l[p - 1]? = some cr) <| and_congr_right fun _ => by
    refine ⟨fun ⟨hp, hcr⟩ => ⟨p - 1, by omega, hcr⟩, ?_⟩
    rintro ⟨k, rfl, hcr⟩
    exact ⟨by omega, hcr⟩

instance (cr lf : α) (l : List α) (p : Nat) : Decidable (Stray cr lf l p) :=
  inferInstanceAs (Decidable (_ ∧ _))

instance (cr lf : α) (l : List α) : Decidable (ClosedEndings cr lf l) :=
  decidable_of_iff (∀ p, p < l.length → l[p]? = some cr → l[p + 1]? = some lf)
    ⟨fun h p hp => h p (List.getElem?_eq_some_iff.mp hp).1 hp, fun h p _ hp => h p hp⟩

instance (cr lf : α) (l : List α) : Decidable (Paired cr lf l) :=
  decidable_of_iff (ClosedEndings cr lf l ∧ ∀ p, p < l.length → ¬ Stray cr lf l p)
    ⟨fun h => ⟨h.1, fun p hp => h.2 p (List.getElem?_eq_some_iff.mp hp.1).1 hp⟩,
      fun h => ⟨h.closed, fun p _ => h.strayless p⟩⟩

end

theorem Paired.getElem?_ne_cr (h : Paired cr lf a) {k : Nat} (hk : k + 1 = a.length) :
    a[k]? ≠ some cr := by
  intro hcr
  have hlf := h.closed k hcr
  rw [hk, List.getElem?_length] at hlf
  cases hlf

theorem stray_append (ha : Paired cr lf a) {p : Nat} :
    Stray cr lf (a ++ b) p ↔ ∃ k, p = a.length + k ∧ Stray cr lf b k := by
  have hright : ∀ k, (a ++ b)[a.length + k]? = b[k]? := fun k => by
    rw [List.getElem?_append_right (Nat.le_add_right _ _), Nat.add_sub_cancel_left]
  have hsplits : ∀ k, Splits cr lf (a ++ b) (a.length + k) ↔ Splits cr lf b k := by
    intro k
    unfold Splits
    rw [hright]
    refine and_congr_right fun _ => ?_
    cases k with
    | zero =>
        refine iff_of_false ?_ ?_
        · rintro ⟨k, hk, hcr⟩
          rw [List.getElem?_append_left (by omega)] at hcr
          exact ha.getElem?_ne_cr hk.symm hcr
        · rintro ⟨k, hk, -⟩
          omega
    | succ k =>
        constructor
        · rintro ⟨j, hj, hcr⟩
          obtain rfl : j = a.length + k := by omega
          exact ⟨k, rfl, (hright k).symm.trans hcr⟩
        · rintro ⟨j, hj, hcr⟩
          obtain rfl : j = k := by omega
          exact ⟨a.length + j, rfl, (hright j).trans hcr⟩
  constructor
  · rintro ⟨hlf, hsplit⟩
    by_cases hp : p < a.length
    · rw [List.getElem?_append_left hp] at hlf
      refine absurd ⟨hlf, fun hinner => hsplit ?_⟩ (ha.strayless p)
      obtain ⟨-, k, hk, hcr⟩ := hinner
      exact ⟨by rw [List.getElem?_append_left hp, hlf], k, hk,
        by rw [List.getElem?_append_left (by omega), hcr]⟩
    · obtain ⟨k, rfl⟩ := Nat.exists_eq_add_of_le (Nat.le_of_not_lt hp)
      exact ⟨k, rfl, (hright k).symm.trans hlf, fun h => hsplit ((hsplits k).mpr h)⟩
  · rintro ⟨k, rfl, hlf, hsplit⟩
    exact ⟨(hright k).trans hlf, fun h => hsplit ((hsplits k).mp h)⟩

theorem Paired.closed_append (ha : Paired cr lf a) (hb : ClosedEndings cr lf b) :
    ClosedEndings cr lf (a ++ b) := by
  intro p hp
  by_cases hlt : p < a.length
  · rw [List.getElem?_append_left hlt] at hp
    have hnext := ha.closed p hp
    rw [List.getElem?_append_left (List.getElem?_eq_some_iff.mp hnext).1, hnext]
  · rw [List.getElem?_append_right (by omega)] at hp
    have hnext := hb _ hp
    rw [List.getElem?_append_right (by omega), ← hnext]
    congr 1
    omega

theorem Paired.append (ha : Paired cr lf a) (hb : Paired cr lf b) : Paired cr lf (a ++ b) where
  closed := ha.closed_append hb.closed
  strayless p hp := by
    obtain ⟨k, -, hk⟩ := (stray_append ha).mp hp
    exact hb.strayless k hk

theorem ClosedEndings.drop (h : ClosedEndings cr lf l) (n : Nat) :
    ClosedEndings cr lf (l.drop n) := by
  intro p hp
  rw [List.getElem?_drop] at hp ⊢
  exact h _ hp

/-- What a cut leaves behind it has the strays of the list, and one more if it cuts an ending. -/
theorem stray_drop {n k : Nat} : Stray cr lf (l.drop n) k ↔
    Stray cr lf l (n + k) ∨ (k = 0 ∧ Splits cr lf l n) := by
  unfold Stray Splits
  rw [List.getElem?_drop]
  cases k with
  | zero =>
      simp only [Nat.add_zero, true_and]
      constructor
      · rintro ⟨hlf, -⟩
        by_cases hsplit : ∃ k, n = k + 1 ∧ l[k]? = some cr
        · exact Or.inr ⟨hlf, hsplit⟩
        · exact Or.inl ⟨hlf, fun h => hsplit h.2⟩
      · rintro (⟨hlf, -⟩ | ⟨hlf, -⟩) <;> exact ⟨hlf, fun ⟨_, _, hk, _⟩ => by omega⟩
  | succ k =>
      have hiff : (∃ j, k + 1 = j + 1 ∧ (l.drop n)[j]? = some cr) ↔
          ∃ j, n + (k + 1) = j + 1 ∧ l[j]? = some cr := by
        constructor
        · rintro ⟨j, hj, hcr⟩
          rw [List.getElem?_drop] at hcr
          exact ⟨n + j, by omega, hcr⟩
        · rintro ⟨j, hj, hcr⟩
          refine ⟨k, rfl, ?_⟩
          rw [List.getElem?_drop, ← hcr]
          congr 1
          omega
      rw [hiff]
      simp

theorem Paired.take (h : Paired cr lf l) {p : Nat} (hp : ¬ Splits cr lf l p) :
    Paired cr lf (l.take p) := by
  have hget : ∀ k, k < p → (l.take p)[k]? = l[k]? := fun k hk => List.getElem?_take_of_lt hk
  constructor
  · intro k hk
    have hlt : k < p := by
      have := (List.getElem?_eq_some_iff.mp hk).1
      rw [List.length_take] at this
      omega
    rw [hget k hlt] at hk
    have hnext := h.closed k hk
    by_cases hend : k + 1 < p
    · rw [hget _ hend, hnext]
    · obtain rfl : p = k + 1 := by omega
      exact absurd ⟨hnext, k, rfl, hk⟩ hp
  · rintro k ⟨hk, hsplit⟩
    have hlt : k < p := by
      have := (List.getElem?_eq_some_iff.mp hk).1
      rw [List.length_take] at this
      omega
    rw [hget k hlt] at hk
    refine h.strayless k ⟨hk, fun ⟨_, j, hj, hcr⟩ => hsplit ⟨?_, j, hj, ?_⟩⟩
    · rw [hget k hlt, hk]
    · rw [hget j (by omega), hcr]

theorem Paired.drop (h : Paired cr lf l) {p : Nat} (hp : ¬ Splits cr lf l p) :
    Paired cr lf (l.drop p) where
  closed := h.closed.drop p
  strayless k hk := by
    rcases stray_drop.mp hk with hstray | ⟨-, hsplit⟩
    · exact h.strayless _ hstray
    · exact hp hsplit

theorem Paired.slice (h : Paired cr lf l) {start stop : Nat} (hstart : ¬ Splits cr lf l start)
    (hstop : ¬ Splits cr lf l stop) : Paired cr lf ((l.take stop).drop start) := by
  refine (h.take hstop).drop fun ⟨hlf, k, hk, hcr⟩ => hstart ?_
  have hlt : ∀ {i : Nat} {x : α}, (l.take stop)[i]? = some x → l[i]? = some x := by
    intro i x hi
    have := (List.getElem?_eq_some_iff.mp hi).1
    rw [List.length_take] at this
    rwa [List.getElem?_take_of_lt (by omega)] at hi
  exact ⟨hlt hlf, k, hk, hlt hcr⟩

end CleanCtx
