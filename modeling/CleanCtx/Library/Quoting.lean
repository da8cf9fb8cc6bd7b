import Mathlib.Data.List.Basic

/-!
Literals between quotes, in which an escape stands before what is to be taken as it is.
A text in which quotes and escapes are escaped is read back, whatever follows. One in
which only the quotes are escaped is read back exactly if it has no escapes.
-/
namespace CleanCtx

/-- Each occurrence of an element replaced, as `str::replace` does for one character. -/
def replaceEach {α : Type} [DecidableEq α] (old : α) (new text : List α) : List α :=
  text.flatMap fun c => if c = old then new else [c]

namespace Quoting

variable {α : Type} [DecidableEq α] (quote escape : α)

/-- Read what follows an opening quote: the value up to the closing one, and the rest. -/
def readLiteral : List α → Option (List α × List α)
  | [] => none
  | c :: rest =>
      if c = escape then
        match rest with
        | [] => none
        | d :: rest => (readLiteral rest).map fun read => (d :: read.1, read.2)
      else if c = quote then some ([], rest)
      else (readLiteral rest).map fun read => (c :: read.1, read.2)

def escapeQuotes (text : List α) : List α := replaceEach quote [escape, quote] text

def escapeBoth (text : List α) : List α :=
  replaceEach quote [escape, quote] (replaceEach escape [escape, escape] text)

variable {quote escape} {c d : α} {text rest : List α}

theorem replaceEach_cons {old : α} {new : List α} :
    replaceEach old new (c :: text) = (if c = old then new else [c]) ++ replaceEach old new text :=
  List.flatMap_cons

theorem readLiteral_escaped : readLiteral quote escape (escape :: d :: rest) =
    (readLiteral quote escape rest).map fun read => (d :: read.1, read.2) := by
  conv_lhs => unfold readLiteral
  rw [if_pos rfl]

theorem readLiteral_quote (h : quote ≠ escape) :
    readLiteral quote escape (quote :: rest) = some ([], rest) := by
  unfold readLiteral
  rw [if_neg h, if_pos rfl]

theorem readLiteral_plain (hescape : c ≠ escape) (hquote : c ≠ quote) :
    readLiteral quote escape (c :: rest) =
      (readLiteral quote escape rest).map fun read => (c :: read.1, read.2) := by
  conv_lhs => unfold readLiteral
  rw [if_neg hescape, if_neg hquote]

/-- A text with both escaped is read back. -/
theorem readLiteral_escapeBoth (h : quote ≠ escape) (text rest : List α) :
    readLiteral quote escape (escapeBoth quote escape text ++ quote :: rest) =
      some (text, rest) := by
  induction text with
  | nil => exact readLiteral_quote h
  | cons c text ih =>
      rw [escapeBoth] at ih ⊢
      rw [replaceEach_cons]
      by_cases hescape : c = escape
      · rw [if_pos hescape, List.cons_append, List.singleton_append, replaceEach_cons,
          replaceEach_cons, if_neg (Ne.symm h), List.append_assoc, List.append_assoc,
          List.singleton_append, List.singleton_append, readLiteral_escaped, ih, hescape]
        rfl
      · rw [if_neg hescape, List.singleton_append, replaceEach_cons]
        by_cases hquote : c = quote
        · rw [if_pos hquote, List.append_assoc, List.cons_append, List.singleton_append,
            readLiteral_escaped, ih, hquote]
          rfl
        · rw [if_neg hquote, List.append_assoc, List.singleton_append,
            readLiteral_plain hescape hquote, ih]
          rfl

theorem escapeQuotes_cons : escapeQuotes quote escape (c :: text) =
    (if c = quote then [escape, quote] else [c]) ++ escapeQuotes quote escape text :=
  replaceEach_cons

/-- What is read starts with what the first character stands for. -/
theorem head_of_escapeQuotes (hc : c ≠ escape) {value tail : List α}
    (h : readLiteral quote escape (escapeQuotes quote escape (c :: text) ++ rest) =
      some (value, tail)) : ∃ more, value = c :: more ∧
        readLiteral quote escape (escapeQuotes quote escape text ++ rest) = some (more, tail) := by
  rw [escapeQuotes_cons, List.append_assoc] at h
  by_cases hquote : c = quote
  · rw [if_pos hquote, List.cons_append, List.singleton_append, readLiteral_escaped] at h
    obtain ⟨⟨more, tail'⟩, hmore, heq⟩ := Option.map_eq_some_iff.mp h
    obtain ⟨rfl, rfl⟩ := Prod.mk.inj heq
    exact ⟨more, by rw [hquote], hmore⟩
  · rw [if_neg hquote, List.singleton_append, readLiteral_plain hc hquote] at h
    obtain ⟨⟨more, tail'⟩, hmore, heq⟩ := Option.map_eq_some_iff.mp h
    obtain ⟨rfl, rfl⟩ := Prod.mk.inj heq
    exact ⟨more, rfl, hmore⟩

/-- A bare escape takes the character after it: it is not read as an escape before the text, nor
as any more of them. The induction takes two characters at a time, as the reader does. -/
theorem readLiteral_bareEscape_ne (h : quote ≠ escape) (tail : List α) :
    ∀ (text : List α) (n : Nat),
      readLiteral quote escape (escape :: (escapeQuotes quote escape text ++ quote :: rest)) ≠
        some (List.replicate n escape ++ escape :: text, tail)
  | [], n, heq => by
      have hhead : escapeQuotes quote escape [] ++ quote :: rest = quote :: rest := rfl
      rw [hhead, readLiteral_escaped] at heq
      obtain ⟨read, -, hread⟩ := Option.map_eq_some_iff.mp heq
      have hvalue := congrArg (fun r => r.1.head?) hread
      cases n with
      | zero => exact h (Option.some.inj hvalue)
      | succ n => exact h (Option.some.inj hvalue)
  | d :: text, n, heq => by
      rw [escapeQuotes_cons, List.append_assoc] at heq
      have hshift : List.replicate n escape ++ escape :: d :: text =
          escape :: (List.replicate n escape ++ d :: text) := by
        rw [← List.cons_append, ← List.replicate_succ, List.replicate_succ', List.append_assoc,
          List.singleton_append]
      rw [hshift] at heq
      by_cases hquote : d = quote
      · rw [if_pos hquote, List.cons_append, List.singleton_append, readLiteral_escaped,
          readLiteral_quote h] at heq
        have hvalue := congrArg (fun r => r.1.length) (Option.some.inj heq)
        simp at hvalue
      · rw [if_neg hquote, List.singleton_append, readLiteral_escaped] at heq
        obtain ⟨⟨value, tail'⟩, hread, hpair⟩ := Option.map_eq_some_iff.mp heq
        obtain ⟨hd, hvalue⟩ : d = escape ∧ value = List.replicate n escape ++ d :: text :=
          List.cons.inj (Prod.mk.inj hpair).1
        rw [hvalue, hd] at hread
        cases text with
        | nil =>
            have hnil := hread.symm.trans (readLiteral_quote h)
            simp at hnil
        | cons c text =>
            have hgrow : List.replicate n escape ++ escape :: c :: text =
                List.replicate (n + 1) escape ++ c :: text := by
              rw [List.replicate_succ', List.append_assoc, List.singleton_append]
            rw [hgrow] at hread
            by_cases hc : c = escape
            · rw [hc, escapeQuotes_cons, if_neg (Ne.symm h), List.append_assoc,
                List.singleton_append] at hread
              exact readLiteral_bareEscape_ne h tail' text (n + 1) hread
            · obtain ⟨more, hmore, -⟩ := head_of_escapeQuotes hc hread
              exact hc (List.cons.inj hmore).1.symm

/-- A text with its quotes escaped is read back exactly if it has no escapes. -/
theorem readLiteral_escapeQuotes_iff (h : quote ≠ escape) (text rest : List α) :
    readLiteral quote escape (escapeQuotes quote escape text ++ quote :: rest) =
      some (text, rest) ↔ escape ∉ text := by
  induction text with
  | nil => exact iff_of_true (readLiteral_quote h) List.not_mem_nil
  | cons c text ih =>
      rw [List.mem_cons, not_or]
      by_cases hc : c = escape
      · refine iff_of_false (fun heq => ?_) fun hmem => hmem.1 hc.symm
        rw [hc, escapeQuotes_cons, if_neg (Ne.symm h), List.append_assoc,
          List.singleton_append] at heq
        exact readLiteral_bareEscape_ne h rest text 0 heq
      · rw [and_iff_right (Ne.symm hc), ← ih, escapeQuotes_cons, List.append_assoc]
        by_cases hquote : c = quote
        · rw [if_pos hquote, List.cons_append, List.singleton_append, readLiteral_escaped, hquote]
          simp
        · rw [if_neg hquote, List.singleton_append, readLiteral_plain hc hquote]
          simp

end Quoting
end CleanCtx
