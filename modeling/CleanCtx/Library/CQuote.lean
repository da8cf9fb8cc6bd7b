import Mathlib.Data.List.Basic

/-!
Names that are printed as C string literals if they have to be. A quoted name has
printable characters only, and it has to be quoted again itself, so that no number of
readings without unquoting leads from a name that needs quotes back to it.
-/
namespace CleanCtx
namespace CQuote

/-- The characters that a name is quoted for: controls, all beyond ASCII, the quote and the
backslash. -/
def special (c : Char) : Bool :=
  c.toNat < 0x20 || 0x7f ≤ c.toNat || c = '"' || c = '\\'

def octal (b : UInt8) : List Char :=
  ['\\', Nat.digitChar (b.toNat / 64 % 8), Nat.digitChar (b.toNat / 8 % 8),
    Nat.digitChar (b.toNat % 8)]

def escape (c : Char) : List Char :=
  if c = '"' ∨ c = '\\' then ['\\', c]
  else if c.toNat = 7 then ['\\', 'a']
  else if c.toNat = 8 then ['\\', 'b']
  else if c.toNat = 9 then ['\\', 't']
  else if c.toNat = 10 then ['\\', 'n']
  else if c.toNat = 11 then ['\\', 'v']
  else if c.toNat = 12 then ['\\', 'f']
  else if c.toNat = 13 then ['\\', 'r']
  else (String.utf8EncodeChar c).flatMap octal

def quoted (name : List Char) : List Char :=
  name.flatMap fun c => if special c then escape c else [c]

def print (name : List Char) : List Char :=
  if name.any special then '"' :: (quoted name ++ ['"']) else name

def Printable (c : Char) : Prop := 0x20 ≤ c.toNat ∧ c.toNat < 0x7f

variable {name : List Char} {c : Char}

theorem printable_of_not_special (h : special c = false) : Printable c := by
  simp only [special, Bool.or_eq_false_iff, decide_eq_false_iff_not] at h
  exact ⟨by omega, by omega⟩

theorem printable_digitChar (n : Nat) : Printable (Nat.digitChar (n % 8)) := by
  have hdigits : ∀ k < 8, 0x20 ≤ (Nat.digitChar k).toNat ∧ (Nat.digitChar k).toNat < 0x7f := by
    decide
  exact hdigits (n % 8) (Nat.mod_lt n (by decide))

theorem printable_octal (b : UInt8) : ∀ c ∈ octal b, Printable c := by
  have hslash : Printable '\\' := by unfold Printable; decide
  simp only [octal, List.forall_mem_cons]
  exact ⟨hslash, printable_digitChar _, printable_digitChar _, printable_digitChar _, nofun⟩

/-- A backslash and a printable character, or one octal code for each byte. -/
theorem escape_cases (c : Char) : (∃ d, Printable d ∧ escape c = ['\\', d]) ∨
    escape c = (String.utf8EncodeChar c).flatMap octal := by
  by_cases hself : c = '"' ∨ c = '\\'
  · refine .inl ⟨c, ?_, if_pos hself⟩
    rcases hself with rfl | rfl <;> exact ⟨by decide, by decide⟩
  unfold escape
  rw [if_neg hself]
  by_cases h7 : c.toNat = 7
  · exact .inl ⟨'a', ⟨by decide, by decide⟩, if_pos h7⟩
  rw [if_neg h7]
  by_cases h8 : c.toNat = 8
  · exact .inl ⟨'b', ⟨by decide, by decide⟩, if_pos h8⟩
  rw [if_neg h8]
  by_cases h9 : c.toNat = 9
  · exact .inl ⟨'t', ⟨by decide, by decide⟩, if_pos h9⟩
  rw [if_neg h9]
  by_cases h10 : c.toNat = 10
  · exact .inl ⟨'n', ⟨by decide, by decide⟩, if_pos h10⟩
  rw [if_neg h10]
  by_cases h11 : c.toNat = 11
  · exact .inl ⟨'v', ⟨by decide, by decide⟩, if_pos h11⟩
  rw [if_neg h11]
  by_cases h12 : c.toNat = 12
  · exact .inl ⟨'f', ⟨by decide, by decide⟩, if_pos h12⟩
  rw [if_neg h12]
  by_cases h13 : c.toNat = 13
  · exact .inl ⟨'r', ⟨by decide, by decide⟩, if_pos h13⟩
  exact .inr (if_neg h13)

theorem printable_escape (c : Char) : ∀ d ∈ escape c, Printable d := by
  intro d hd
  obtain ⟨e, he, heq⟩ | heq := escape_cases c
  · rw [heq, List.mem_cons, List.mem_singleton] at hd
    rcases hd with rfl | rfl
    · unfold Printable
      decide
    · exact he
  · rw [heq] at hd
    obtain ⟨b, -, hb⟩ := List.mem_flatMap.mp hd
    exact printable_octal b d hb

theorem escape_ne_nil (c : Char) : escape c ≠ [] := by
  obtain ⟨d, -, heq⟩ | heq := escape_cases c
  · rw [heq]
    exact List.cons_ne_nil _ _
  · intro h
    have hbytes : String.utf8EncodeChar c ≠ [] := fun hnil => by
      have hlength := String.length_utf8EncodeChar c
      rw [hnil] at hlength
      exact absurd hlength.symm (Nat.ne_of_gt (Char.utf8Size_pos c))
    obtain ⟨b, bytes, hcons⟩ := List.exists_cons_of_ne_nil hbytes
    rw [heq, hcons, List.flatMap_cons] at h
    exact absurd h (List.cons_ne_nil _ _)

theorem print_of_plain (h : name.any special = false) : print name = name :=
  if_neg (by rw [h]; exact Bool.false_ne_true)

theorem print_of_special (h : name.any special = true) :
    print name = '"' :: (quoted name ++ ['"']) := if_pos h

theorem printable_print (name : List Char) : ∀ c ∈ print name, Printable c := by
  intro c hc
  cases h : name.any special with
  | false =>
      rw [print_of_plain h] at hc
      exact printable_of_not_special (Bool.eq_false_iff.mpr (List.any_eq_false.mp h c hc))
  | true =>
      have hquote : Printable '"' := by unfold Printable; decide
      rw [print_of_special h] at hc
      rcases List.mem_cons.mp hc with rfl | hc
      · exact hquote
      rcases List.mem_append.mp hc with hc | hc
      · obtain ⟨d, -, hd⟩ := List.mem_flatMap.mp hc
        split at hd
        · exact printable_escape d c hd
        · next hplain =>
          cases List.mem_singleton.mp hd
          exact printable_of_not_special (Bool.eq_false_iff.mpr hplain)
      · cases List.mem_singleton.mp hc
        exact hquote

theorem length_le_quoted (name : List Char) : name.length ≤ (quoted name).length := by
  induction name with
  | nil => exact Nat.le_refl 0
  | cons c name ih =>
      have hfirst : 1 ≤ (if special c then escape c else [c]).length := by
        split
        · exact List.length_pos_iff.mpr (escape_ne_nil c)
        · exact Nat.le_refl 1
      rw [quoted, List.flatMap_cons, List.length_append, List.length_cons, ← quoted]
      omega

theorem length_lt_print (h : name.any special = true) : name.length < (print name).length := by
  have hle := length_le_quoted name
  rw [print_of_special h, List.length_cons, List.length_append, List.length_singleton]
  omega

/-- What was quoted has to be quoted again. -/
theorem special_print (h : name.any special = true) : (print name).any special = true := by
  rw [print_of_special h]
  rfl

theorem getLast?_print (h : name.any special = true) : (print name).getLast? = some '"' := by
  rw [print_of_special h, ← List.cons_append, List.getLast?_concat]

end CQuote
end CleanCtx
