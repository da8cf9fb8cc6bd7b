import Mathlib.Data.List.Basic

/-!
JSON string literals: how a serializer writes a text, and what a parser accepts.
The parser reads every escape, with both cases of hexadecimal digits and with
surrogate pairs; the serializer uses only some of them.
-/
namespace CleanCtx.JsonText

/-- The text of one character in a literal. -/
def escapeChar (c : Char) : List Char :=
  if c = '"' then ['\\', '"']
  else if c = '\\' then ['\\', '\\']
  else if c = '\x08' then ['\\', 'b']
  else if c = '\t' then ['\\', 't']
  else if c = '\n' then ['\\', 'n']
  else if c = '\x0c' then ['\\', 'f']
  else if c = '\r' then ['\\', 'r']
  else if c.toNat < 0x20 then
    ['\\', 'u', '0', '0', Nat.digitChar (c.toNat / 16), Nat.digitChar (c.toNat % 16)]
  else [c]

/-- `serde_json::to_string` of a text. -/
def literal (text : List Char) : List Char := '"' :: (text.flatMap escapeChar ++ ['"'])

def hexValue (c : Char) : Option Nat :=
  if c.isDigit then some (c.toNat - '0'.toNat)
  else if 'a' ≤ c ∧ c ≤ 'f' then some (c.toNat - 'a'.toNat + 10)
  else if 'A' ≤ c ∧ c ≤ 'F' then some (c.toNat - 'A'.toNat + 10)
  else none

def hex4 (a b c d : Char) : Option Nat := do
  let a ← hexValue a
  let b ← hexValue b
  let c ← hexValue c
  let d ← hexValue d
  pure (((a * 16 + b) * 16 + c) * 16 + d)

def isHighSurrogate (n : Nat) : Bool := 0xD800 ≤ n && n < 0xDC00

def isLowSurrogate (n : Nat) : Bool := 0xDC00 ≤ n && n < 0xE000

/-- The escapes of one character. -/
def plainEscape (c : Char) : Option Char :=
  if c = '"' ∨ c = '\\' ∨ c = '/' then some c
  else if c = 'b' then some '\x08'
  else if c = 'f' then some '\x0c'
  else if c = 'n' then some '\n'
  else if c = 'r' then some '\r'
  else if c = 't' then some '\t'
  else none

def push (c : Char) : Option (List Char × List Char) → Option (List Char × List Char) :=
  Option.map fun (text, rest) => (c :: text, rest)

/-- The text of a literal after its opening quote, and what follows the closing one. -/
def parseFrom : List Char → Option (List Char × List Char)
  | [] => none
  | c :: rest =>
      if c = '"' then some ([], rest)
      else if c = '\\' then
        match rest with
        | [] => none
        | 'u' :: h₁ :: h₂ :: h₃ :: h₄ :: rest =>
            match hex4 h₁ h₂ h₃ h₄ with
            | none => none
            | some n =>
                if isLowSurrogate n then none
                else if isHighSurrogate n then
                  match rest with
                  | '\\' :: 'u' :: l₁ :: l₂ :: l₃ :: l₄ :: rest =>
                      match hex4 l₁ l₂ l₃ l₄ with
                      | none => none
                      | some m =>
                          if isLowSurrogate m then
                            push (Char.ofNat ((n - 0xD800) * 1024 + (m - 0xDC00) + 0x10000))
                              (parseFrom rest)
                          else none
                  | _ => none
                else push (Char.ofNat n) (parseFrom rest)
        | e :: rest =>
            match plainEscape e with
            | none => none
            | some c => push c (parseFrom rest)
      else if c.toNat < 0x20 then none
      else push c (parseFrom rest)

def isSpace (c : Char) : Bool := c = ' ' || c = '\t' || c = '\n' || c = '\r'

/-- `serde_json::from_str::<String>`. -/
def fromStr (column : List Char) : Option (List Char) :=
  match column.dropWhile isSpace with
  | '"' :: rest =>
      match parseFrom rest with
      | some (text, rest) => if rest.all isSpace then some text else none
      | none => none
  | _ => none

/-- The seven characters with an escape of their own, and the others. -/
theorem escapeChar_rec {motive : Char → Prop} (quote : motive '"') (backslash : motive '\\')
    (backspace : motive '\x08') (tab : motive '\t') (lineFeed : motive '\n')
    (formFeed : motive '\x0c') (carriageReturn : motive '\r')
    (other : ∀ c, c ≠ '"' → c ≠ '\\' → escapeChar c = (if c.toNat < 0x20 then
      ['\\', 'u', '0', '0', Nat.digitChar (c.toNat / 16), Nat.digitChar (c.toNat % 16)]
      else [c]) → motive c) (c : Char) : motive c := by
  by_cases hquote : c = '"'
  · exact hquote ▸ quote
  by_cases hbackslash : c = '\\'
  · exact hbackslash ▸ backslash
  by_cases hbackspace : c = '\x08'
  · exact hbackspace ▸ backspace
  by_cases htab : c = '\t'
  · exact htab ▸ tab
  by_cases hlineFeed : c = '\n'
  · exact hlineFeed ▸ lineFeed
  by_cases hformFeed : c = '\x0c'
  · exact hformFeed ▸ formFeed
  by_cases hcarriageReturn : c = '\r'
  · exact hcarriageReturn ▸ carriageReturn
  refine other c hquote hbackslash ?_
  rw [escapeChar, if_neg hquote, if_neg hbackslash, if_neg hbackspace, if_neg htab,
    if_neg hlineFeed, if_neg hformFeed, if_neg hcarriageReturn]

theorem parseFrom_escapeChar (c : Char) (rest : List Char) :
    parseFrom (escapeChar c ++ rest) = push c (parseFrom rest) := by
  cases c using escapeChar_rec with
  | quote | backslash | backspace | tab | lineFeed | formFeed | carriageReturn => rfl
  | other c hquote hslash hother =>
      rw [hother]
      by_cases hlow : c.toNat < 0x20
      · have hhex : ∀ n < 0x20, hex4 '0' '0' (Nat.digitChar (n / 16)) (Nat.digitChar (n % 16)) =
            some n ∧ isLowSurrogate n = false ∧ isHighSurrogate n = false := by decide
        obtain ⟨hvalue, hnotLow, hnotHigh⟩ := hhex c.toNat hlow
        rw [if_pos hlow]
        change parseFrom ('\\' :: 'u' :: '0' :: '0' :: _ :: _ :: rest) = _
        rw [parseFrom]
        simp only [hvalue, hnotLow, hnotHigh, Char.ofNat_toNat]
        rfl
      · rw [if_neg hlow]
        change parseFrom (c :: rest) = _
        rw [parseFrom.eq_def]
        simp only [if_neg hquote, if_neg hslash, if_neg hlow]

theorem parseFrom_literal (text rest : List Char) :
    parseFrom (text.flatMap escapeChar ++ '"' :: rest) = some (text, rest) := by
  induction text with
  | nil => rw [List.flatMap_nil, List.nil_append, parseFrom.eq_def]; rfl
  | cons c text ih =>
      rw [List.flatMap_cons, List.append_assoc, parseFrom_escapeChar, ih]
      rfl

theorem fromStr_literal (text : List Char) : fromStr (literal text) = some text := by
  change (match parseFrom (text.flatMap escapeChar ++ ['"']) with
    | some (text, rest) => if rest.all isSpace then some text else none
    | none => none) = some text
  rw [parseFrom_literal]
  rfl

def Plain (c : Char) : Prop := c ≠ '"' ∧ c ≠ '\\' ∧ 0x20 ≤ c.toNat

instance : DecidablePred Plain := fun _ => inferInstanceAs (Decidable (_ ∧ _))

/-- A backslash and one character, a code of four digits, or the character itself. -/
theorem escapeChar_cases (c : Char) :
    (∃ e, 0x20 ≤ e.toNat ∧ escapeChar c = ['\\', e]) ∨
      (∃ d₁ d₂, Plain d₁ ∧ Plain d₂ ∧ escapeChar c = ['\\', 'u', '0', '0', d₁, d₂]) ∨
      (Plain c ∧ escapeChar c = [c]) := by
  have hdigit : ∀ n < 16, Plain (Nat.digitChar n) := by decide
  cases c using escapeChar_rec with
  | quote | backslash | backspace | tab | lineFeed | formFeed | carriageReturn =>
      exact .inl ⟨_, by decide, rfl⟩
  | other c hquote hslash hother =>
      rw [hother]
      by_cases hlow : c.toNat < 0x20
      · rw [if_pos hlow]
        exact .inr (.inl ⟨_, _, hdigit _ (by omega), hdigit _ (by omega), rfl⟩)
      · rw [if_neg hlow]
        exact .inr (.inr ⟨⟨hquote, hslash, Nat.le_of_not_lt hlow⟩, rfl⟩)

theorem toNat_of_mem_literal {text : List Char} {c : Char} (h : c ∈ literal text) :
    0x20 ≤ c.toNat := by
  have hescape : ∀ d, c ∈ escapeChar d → 0x20 ≤ c.toNat := by
    intro d hd
    obtain ⟨e, he, heq⟩ | ⟨d₁, d₂, h₁, h₂, heq⟩ | ⟨hplain, heq⟩ := escapeChar_cases d
    · rw [heq, List.mem_cons, List.mem_singleton] at hd
      obtain rfl | rfl := hd
      · decide
      · exact he
    · have hall : ∀ x ∈ ['\\', 'u', '0', '0', d₁, d₂], 0x20 ≤ x.toNat := by
        simp only [List.forall_mem_cons]
        exact ⟨by decide, by decide, by decide, by decide, h₁.2.2, h₂.2.2, nofun⟩
      exact hall c (heq ▸ hd)
    · rw [heq] at hd
      rw [List.mem_singleton.mp hd]
      exact hplain.2.2
  obtain rfl | h := List.mem_cons.mp h
  · decide
  · obtain h | h := List.mem_append.mp h
    · obtain ⟨d, -, hd⟩ := List.mem_flatMap.mp h
      exact hescape d hd
    · rw [List.mem_singleton.mp h]
      decide

end CleanCtx.JsonText
