import Mathlib.Algebra.Ring.Nat
import Mathlib.Data.List.Basic

/-!
Readers over a byte cursor, and what it means that a reader inverts a writer.
`Reads limit m bytes a` holds when `m` takes exactly `bytes` off any input that
starts with them and returns `a`; positions up to `limit` are representable.
-/
namespace CleanCtx

/-- A position in a byte stream and the bytes from there on. -/
structure Cursor where
  pos : Nat
  rest : List UInt8

abbrev Reader (ε α : Type) := StateT Cursor (Except ε) α

namespace Reader

variable {ε α β : Type}

def fail (e : ε) : Reader ε α := fun _ => .error e

/-- A loop of `n` reads; each read is told its position, counted from `i`. -/
def many (item : Nat → Reader ε α) : Nat → Nat → Reader ε (List α)
  | _, 0 => pure []
  | i, n + 1 => do
      let a ← item i
      let as ← many item (i + 1) n
      pure (a :: as)

end Reader

variable {ε α β : Type}

def Reads (limit : Nat) (m : Reader ε α) (bytes : List UInt8) (a : α) : Prop :=
  ∀ pos rest, pos + bytes.length ≤ limit →
    m.run ⟨pos, bytes ++ rest⟩ = .ok (a, ⟨pos + bytes.length, rest⟩)

theorem reads_pure (limit : Nat) (a : α) : Reads limit (pure a : Reader ε α) [] a :=
  fun _ _ _ => rfl

theorem Reads.bind {limit : Nat} {m : Reader ε α} {f : α → Reader ε β} {xs ys : List UInt8}
    {a : α} {b : β} (hm : Reads limit m xs a) (hf : Reads limit (f a) ys b) :
    Reads limit (m >>= f) (xs ++ ys) b := by
  intro pos rest hlimit
  rw [List.length_append] at hlimit
  rw [StateT.run_bind, List.append_assoc, hm pos (ys ++ rest) (by omega)]
  refine (hf (pos + xs.length) rest (by omega)).trans ?_
  rw [List.length_append, Nat.add_assoc]

/-- The last read of a record only builds the result. -/
theorem Reads.map {limit : Nat} {m : Reader ε α} {xs : List UInt8} {a : α}
    (hm : Reads limit m xs a) (f : α → β) :
    Reads limit (do let a ← m; pure (f a)) xs (f a) := by
  have h : Reads limit (do let a ← m; pure (f a)) (xs ++ []) (f a) :=
    hm.bind (reads_pure limit (f a))
  rwa [List.append_nil] at h

/-- A reader may use that its input is representable. -/
theorem Reads.of_limit {limit : Nat} {m : Reader ε α} {bytes : List UInt8} {a : α}
    (h : bytes.length ≤ limit → Reads limit m bytes a) : Reads limit m bytes a :=
  fun pos rest hlimit => h (by omega) pos rest hlimit

theorem Reads.many {limit : Nat} {item : Nat → Reader ε α} {write : α → List UInt8}
    (items : List α) (h : ∀ i, ∀ a ∈ items, Reads limit (item i) (write a) a) (i : Nat) :
    Reads limit (Reader.many item i items.length) (items.flatMap write) items := by
  induction items generalizing i with
  | nil => exact reads_pure limit []
  | cons a items ih =>
      have hrest := ih (fun j b hb => h j b (List.mem_cons_of_mem _ hb)) (i + 1)
      exact (h i a List.mem_cons_self).bind (hrest.map (a :: ·))

theorem length_le_flatMap {write : α → List UInt8} {items : List α}
    (h : ∀ a ∈ items, write a ≠ []) : items.length ≤ (items.flatMap write).length := by
  induction items with
  | nil => simp
  | cons a items ih =>
      have hhead : 0 < (write a).length := List.length_pos_iff.mpr (h a List.mem_cons_self)
      have htail := ih fun b hb => h b (List.mem_cons_of_mem _ hb)
      simp only [List.flatMap_cons, List.length_append, List.length_cons]
      omega

end CleanCtx
