import Mathlib.Data.List.Basic

/-!
Scans that step over what a match has consumed: at each place an attempt takes the elements
up to the next place, or one element passes.
-/
namespace CleanCtx

/-- What a scan does at one place. -/
inductive ScanEvent (α β : Type)
  | taken (result : β) (span : List α)
  | passed (a : α)

namespace ScanEvent

variable {α β : Type}

def span : ScanEvent α β → List α
  | taken _ span => span
  | passed a => [a]

end ScanEvent

namespace Scan

variable {α β : Type} (attempt : List α → Option (β × Nat))

/-- The scan with how many elements are still to be stepped over. -/
def scanFrom : Nat → List α → List (ScanEvent α β)
  | _, [] => []
  | skip + 1, _ :: rest => scanFrom skip rest
  | 0, a :: rest =>
      match attempt (a :: rest) with
      | some (result, consumed) =>
          .taken result ((a :: rest).take consumed) :: scanFrom (consumed - 1) rest
      | none => .passed a :: scanFrom 0 rest

def scan (elements : List α) : List (ScanEvent α β) := scanFrom attempt 0 elements

/-- A match consumes at least one element, and only elements that are there. -/
def Advances : Prop :=
  ∀ elements result consumed, attempt elements = some (result, consumed) →
    0 < consumed ∧ consumed ≤ elements.length

variable {attempt} {elements : List α} {event : ScanEvent α β}

theorem scanFrom_eq (skip : Nat) (elements : List α) :
    scanFrom attempt skip elements = scan attempt (elements.drop skip) := by
  induction elements generalizing skip with
  | nil => cases skip <;> rfl
  | cons a rest ih =>
      cases skip with
      | zero => rfl
      | succ skip => exact ih skip

theorem scan_cons_some {a : α} {rest : List α} {result : β} {consumed : Nat}
    (h : attempt (a :: rest) = some (result, consumed)) (hpos : 0 < consumed) :
    scan attempt (a :: rest) = .taken result ((a :: rest).take consumed) ::
      scan attempt ((a :: rest).drop consumed) := by
  obtain ⟨consumed, rfl⟩ := Nat.exists_eq_succ_of_ne_zero (Nat.pos_iff_ne_zero.mp hpos)
  rw [scan, scanFrom, h]
  dsimp only
  rw [scanFrom_eq]
  rfl

theorem scan_cons_none {a : α} {rest : List α} (h : attempt (a :: rest) = none) :
    scan attempt (a :: rest) = .passed a :: scan attempt rest := by
  rw [scan, scanFrom, h]
  rfl

/-- The rule of the scan: a property of a list and its events holds where it holds of the end, of a
match before what follows, and of a passed element before what follows. -/
theorem scan_induction (hadvances : Advances attempt)
    {motive : List α → List (ScanEvent α β) → Prop} (nil : motive [] [])
    (taken : ∀ result span rest, span ≠ [] →
      attempt (span ++ rest) = some (result, span.length) → motive rest (scan attempt rest) →
      motive (span ++ rest) (.taken result span :: scan attempt rest))
    (passed : ∀ a rest, attempt (a :: rest) = none → motive rest (scan attempt rest) →
      motive (a :: rest) (.passed a :: scan attempt rest))
    (elements : List α) : motive elements (scan attempt elements) := by
  induction hlength : elements.length using Nat.strongRecOn generalizing elements with
  | ind length ih =>
      cases elements with
      | nil => exact nil
      | cons a rest =>
          cases h : attempt (a :: rest) with
          | none =>
              rw [scan_cons_none h]
              exact passed a rest h (ih rest.length (by simp [← hlength]) rest rfl)
          | some found =>
              obtain ⟨result, consumed⟩ := found
              obtain ⟨hpos, hle⟩ := hadvances _ _ _ h
              rw [scan_cons_some h hpos]
              have htake : ((a :: rest).take consumed).length = consumed :=
                List.length_take_of_le hle
              have hsplit := List.take_append_drop consumed (a :: rest)
              have hshort : ((a :: rest).drop consumed).length < length := by
                rw [List.length_drop, hlength]
                omega
              have hmotive := taken result ((a :: rest).take consumed) ((a :: rest).drop consumed)
                (List.ne_nil_of_length_pos (htake.symm ▸ hpos)) (by rw [hsplit, htake, h])
                (ih _ hshort _ rfl)
              rwa [hsplit] at hmotive

end Scan
end CleanCtx
