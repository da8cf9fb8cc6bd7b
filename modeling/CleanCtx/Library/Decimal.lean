import Mathlib.Algebra.Ring.Nat
import Mathlib.Data.List.Basic

/-!
Decimal text of 64-bit words: the standard library's `to_string` and
`str::parse`. Parsing takes one optional sign and rejects an empty digit list,
a non-digit and a value outside the word.
-/
namespace CleanCtx.Decimal

/-- `u64::to_string`. -/
def print (n : UInt64) : String := n.toNat.repr

def unsigned : List Char → List Char
  | '+' :: digits => digits
  | digits => digits

/-- `str::parse::<u64>`, which is `parse::<usize>` on a 64-bit target. -/
def parse (text : String) : Option UInt64 :=
  let digits := unsigned text.toList
  if digits = [] ∨ digits.all Char.isDigit = false then none
  else
    let value := Nat.ofDigitChars 10 digits 0
    if value < 2 ^ 64 then some (UInt64.ofNat value) else none

/-- `str::parse::<usize>` for the number of things that are in memory, where a number that does not
fit a word is no different from any other that is too large. -/
def parseCount (text : String) : Option Nat :=
  let digits := unsigned text.toList
  if digits = [] ∨ digits.all Char.isDigit = false then none
  else some (Nat.ofDigitChars 10 digits 0)

theorem unsigned_toDigits (n : Nat) : unsigned (Nat.toDigits 10 n) = Nat.toDigits 10 n := by
  unfold unsigned
  split
  case h_1 digits h =>
    have hd : Char.isDigit '+' = true :=
      Nat.isDigit_of_mem_toDigits (b := 10) (n := n) (by decide) (by decide) (by simp [h])
    exact absurd hd (by decide)
  case h_2 => rfl

@[simp] theorem parse_print (n : UInt64) : parse (print n) = some n := by
  have hall : (Nat.toDigits 10 n.toNat).all Char.isDigit = true := by
    rw [List.all_eq_true]
    intro c hc
    exact Nat.isDigit_of_mem_toDigits (by decide) (by decide) hc
  have hdigits : (print n).toList = Nat.toDigits 10 n.toNat := Nat.toList_repr
  have hsome : ¬ (Nat.toDigits 10 n.toNat = [] ∨
      (Nat.toDigits 10 n.toNat).all Char.isDigit = false) := by
    simp [Nat.toDigits_ne_nil, hall]
  simp only [parse, hdigits, unsigned_toDigits, if_neg hsome, Nat.ofDigitChars_ten_toDigits]
  rw [if_pos n.toNat_lt, UInt64.ofNat_toNat]

theorem isDigit_of_mem_repr {n : Nat} {c : Char} (h : c ∈ n.repr.toList) : c.isDigit = true := by
  rw [Nat.toList_repr] at h
  exact Nat.isDigit_of_mem_toDigits (by decide) (by decide) h

@[simp] theorem parseCount_repr (n : Nat) : parseCount n.repr = some n := by
  have hall : (Nat.toDigits 10 n).all Char.isDigit = true :=
    List.all_eq_true.mpr fun c hc => Nat.isDigit_of_mem_toDigits (by decide) (by decide) hc
  have hsome : ¬(Nat.toDigits 10 n = [] ∨ (Nat.toDigits 10 n).all Char.isDigit = false) := by
    simp [Nat.toDigits_ne_nil, hall]
  simp only [parseCount, Nat.toList_repr, unsigned_toDigits, if_neg hsome,
    Nat.ofDigitChars_ten_toDigits]

end CleanCtx.Decimal
