import Mathlib.Data.Finmap
import CleanCtx.Library.Lists

/-!
Indexes from keys to list positions. An index is exact when it leads from the
keys of a list, and from no other key, to a position that has that key; with
repeated keys any such position will do.
-/
namespace CleanCtx

abbrev HashMap (κ ν : Type) := Finmap fun _ : κ => ν

variable {α κ ν : Type} [DecidableEq κ]

theorem HashMap.lookup_insert_iff {index : HashMap κ ν} {k l : κ} {v w : ν} :
    (Finmap.insert k v index).lookup l = some w ↔
      (l = k ∧ w = v) ∨ (l ≠ k ∧ index.lookup l = some w) := by
  by_cases h : l = k
  · subst h
    simp [eq_comm]
  · simp [h, Finmap.lookup_insert_of_ne]

/-- The entries of a map that satisfy a predicate. -/
def HashMap.retain (m : HashMap κ ν) (p : κ → ν → Bool) : HashMap κ ν where
  entries := m.entries.filter fun e => p e.1 e.2
  nodupKeys := by
    obtain ⟨entries, hnodup⟩ := m
    induction entries using Quotient.inductionOn with
    | h entries => exact List.NodupKeys.sublist List.filter_sublist hnodup

theorem HashMap.lookup_retain (m : HashMap κ ν) (p : κ → ν → Bool) (k : κ) :
    (m.retain p).lookup k = (m.lookup k).filter (p k) := by
  refine Option.ext fun v => ?_
  rw [Option.filter_eq_some_iff, Finmap.lookup_eq_some_iff, Finmap.lookup_eq_some_iff]
  exact Multiset.mem_filter

/-- The index holds the keys of the list, each at a position that has it. -/
structure Indexes (key : α → κ) (index : HashMap κ Nat) (items : List α) : Prop where
  sound : ∀ {k i}, index.lookup k = some i → ∃ a, items[i]? = some a ∧ key a = k
  complete : ∀ {a}, a ∈ items → key a ∈ index

/-- Insert a list's positions, counted from `start`, into an index. -/
def indexFrom (key : α → κ) (start : Nat) (items : List α) (index : HashMap κ Nat) :
    HashMap κ Nat :=
  (items.zipIdx start).foldl (fun index entry => index.insert (key entry.1) entry.2) index

namespace Indexes

variable {key : α → κ} {index : HashMap κ Nat} {items : List α}

theorem lt (h : Indexes key index items) {k : κ} {i : Nat} (hi : index.lookup k = some i) :
    i < items.length := by
  obtain ⟨_, hget, _⟩ := h.sound hi
  exact (List.getElem?_eq_some_iff.mp hget).1

theorem lookup_isSome (h : Indexes key index items) {a : α} (ha : a ∈ items) :
    ∃ i, index.lookup (key a) = some i :=
  Option.isSome_iff_exists.mp (Finmap.lookup_isSome.mpr (h.complete ha))

theorem empty : Indexes key ∅ [] where
  sound h := by simp at h
  complete h := by simp at h

theorem concat (h : Indexes key index items) (a : α) :
    Indexes key (index.insert (key a) items.length) (items ++ [a]) where
  sound := by
    intro k i hi
    by_cases hk : k = key a
    · rw [hk, Finmap.lookup_insert, Option.some.injEq] at hi
      exact ⟨a, by simp [← hi], hk.symm⟩
    · rw [Finmap.lookup_insert_of_ne _ hk] at hi
      obtain ⟨found, hget, hfound⟩ := h.sound hi
      exact ⟨found, by rw [List.getElem?_append_left (h.lt hi), hget], hfound⟩
  complete := by
    intro found hfound
    rw [Finmap.mem_insert]
    rcases List.mem_append.mp hfound with hmem | hlast
    · exact Or.inr (h.complete hmem)
    · exact Or.inl (by rw [List.mem_singleton.mp hlast])

theorem map {β : Type} {key' : β → κ} (h : Indexes key index items) {f : α → β}
    (hkey : ∀ a, key' (f a) = key a) : Indexes key' index (items.map f) where
  sound := by
    intro k i hi
    obtain ⟨a, hget, ha⟩ := h.sound hi
    exact ⟨f a, by rw [List.getElem?_map, hget, Option.map_some], (hkey a).trans ha⟩
  complete := by
    intro b hb
    obtain ⟨a, ha, rfl⟩ := List.mem_map.mp hb
    exact (hkey a).symm ▸ h.complete ha

theorem indexFrom (h : Indexes key index items) (rest : List α) :
    Indexes key (indexFrom key items.length rest index) (items ++ rest) := by
  induction rest generalizing index items with
  | nil => simpa [CleanCtx.indexFrom] using h
  | cons a rest ih =>
      have hrest := ih (h.concat a)
      rw [List.length_append, List.length_singleton, List.append_assoc] at hrest
      exact hrest

/-- Rewriting the one item of a key moves its entry along. -/
theorem set (h : Indexes key index items) {k : κ} {idx : Nat} (hidx : index.lookup k = some idx)
    (hunique : ∀ j a, items[j]? = some a → key a = k → j = idx) (new : α) :
    Indexes key (if k ≠ key new then (index.erase k).insert (key new) idx else index)
      (items.set idx new) := by
  have hlt := h.lt hidx
  have hat : (items.set idx new)[idx]? = some new := by simp [hlt]
  have hother : ∀ {l i}, index.lookup l = some i → l ≠ k →
      ∃ a, (items.set idx new)[i]? = some a ∧ key a = l := by
    intro l i hi hl
    obtain ⟨a, hget, ha⟩ := h.sound hi
    obtain ⟨atIdx, hgetIdx, hkeyIdx⟩ := h.sound hidx
    have hne : idx ≠ i := by
      rintro rfl
      rw [hget, Option.some.injEq] at hgetIdx
      rw [hgetIdx, hkeyIdx] at ha
      exact hl ha.symm
    exact ⟨a, by rw [List.getElem?_set_ne hne, hget], ha⟩
  constructor
  · intro l i hi
    by_cases hnew : k = key new
    · rw [if_neg (not_not.mpr hnew)] at hi
      by_cases hl : l = k
      · rw [hl, hidx, Option.some.injEq] at hi
        exact ⟨new, by rw [← hi, hat], by rw [hl, hnew]⟩
      · exact hother hi hl
    · rw [if_pos hnew] at hi
      by_cases hlNew : l = key new
      · rw [hlNew, Finmap.lookup_insert, Option.some.injEq] at hi
        exact ⟨new, by rw [← hi, hat], hlNew.symm⟩
      · rw [Finmap.lookup_insert_of_ne _ hlNew] at hi
        by_cases hl : l = k
        · rw [hl, Finmap.lookup_erase] at hi
          cases hi
        · rw [Finmap.lookup_erase_ne hl] at hi
          exact hother hi hl
  · intro a hmem
    obtain ⟨j, hj⟩ := List.mem_iff_getElem?.mp hmem
    by_cases hidxj : idx = j
    · rw [← hidxj, hat, Option.some.injEq] at hj
      rw [← hj]
      split
      · exact Finmap.mem_insert.mpr (Or.inl rfl)
      · rename_i hnew
        rw [← not_not.mp hnew]
        exact Finmap.mem_of_lookup_eq_some hidx
    · rw [List.getElem?_set_ne hidxj] at hj
      have hold := h.complete (List.mem_of_getElem? hj)
      split
      · have hk : key a ≠ k := fun hk => hidxj (hunique j a hj hk).symm
        exact Finmap.mem_insert.mpr (Or.inr (Finmap.mem_erase.mpr ⟨hk, hold⟩))
      · exact hold

end Indexes
end CleanCtx
