import CleanCtx.Library.PositionIndex

/-!
Properties of all entries of a map, and what the operations on maps do to them.
-/
namespace CleanCtx

variable {κ ν : Type} [DecidableEq κ]

def Every (P : κ → ν → Prop) (m : HashMap κ ν) : Prop :=
  ∀ k v, m.lookup k = some v → P k v

namespace Every

variable {P Q : κ → ν → Prop} {m : HashMap κ ν}

theorem empty : Every P (∅ : HashMap κ ν) := by
  intro k v h
  rw [Finmap.lookup_empty] at h
  cases h

theorem insert (h : Every P m) {k : κ} {v : ν} (hv : P k v) : Every P (m.insert k v) := by
  intro l w hl
  obtain ⟨rfl, rfl⟩ | ⟨-, hold⟩ := HashMap.lookup_insert_iff.mp hl
  · exact hv
  · exact h l w hold

theorem erase (h : Every P m) (k : κ) : Every P (m.erase k) := by
  intro l w hl
  by_cases heq : l = k
  · rw [heq, Finmap.lookup_erase] at hl
    cases hl
  · rw [Finmap.lookup_erase_ne heq] at hl
    exact h l w hl

theorem retain (h : Every P m) (p : κ → ν → Bool) :
    Every (fun k v => P k v ∧ p k v = true) (m.retain p) := by
  intro k v hk
  rw [HashMap.lookup_retain] at hk
  obtain ⟨hold, hp⟩ := Option.filter_eq_some_iff.mp hk
  exact ⟨h k v hold, hp⟩

theorem mono (h : Every P m) (hPQ : ∀ k v, P k v → Q k v) : Every Q m :=
  fun k v hk => hPQ k v (h k v hk)

end Every
end CleanCtx
