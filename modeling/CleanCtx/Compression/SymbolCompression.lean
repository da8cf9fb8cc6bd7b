import CleanCtx.Dictionary.Symbol
import CleanCtx.Edit.Intent

/-!
The symbol pass of the compressor (`compression/symbol_compression.rs`). Tokens are
collected between white space, with the punctuation around them taken off, but they
are replaced as runs of word characters. The table of built-in opcodes alone has more
entries than a footer may have, so no opcode that the pass assigns is ever explained:
the body can be read back exactly if none of its words is assigned one.
-/
namespace CleanCtx

open SymbolDictionary

/-- One round of the loop over the tokens. -/
def registerToken (dict : SymbolDictionary) (token : List Char) : SymbolDictionary :=
  let clean := tokenizeForSymbols token
  let dict := if clean.isEmpty then dict else dict.register clean
  match token with
  | '⊕' :: rest => if rest.isEmpty then dict else dict.register rest
  | _ => dict

def symbolsOf (body : String) : SymbolDictionary :=
  (words body.toList).foldl registerToken SymbolDictionary.new

/-- The text for the output and the legend for its end. -/
def applySymbolCompression (alphabet : Alphabet) (body : String) (fidelity : Edit.Fidelity) :
    String × String :=
  if fidelity ≠ .low then (body, "")
  else ((symbolsOf body).encode alphabet body, (symbolsOf body).formatFooter)

/-- What the output of the pass says about its body: the opcodes in the text are explained by the
built-in table or by the legend, and with their tokens in their places the text is the body. -/
structure Decodable (alphabet : Alphabet) (body : String) (output : String × String) : Prop where
  explained : ∀ opcode, Part.word opcode ∈ partsFrom alphabet.endsOpcode [] output.1.toList →
    opcode.head? = some '$' → (explain output.2 (String.ofList opcode)).isSome = true
  restored : expandOpcodes alphabet output.2 output.1 = body

/-- What one token between white space registers. -/
def submissions (token : List Char) : List (List Char) :=
  (if (tokenizeForSymbols token).isEmpty then [] else [tokenizeForSymbols token]) ++
    match token with
    | '⊕' :: rest => if rest.isEmpty then [] else [rest]
    | _ => []

def registeredNames (body : String) : List String :=
  ((words body.toList).flatMap submissions).map symbolName

/-- Every word of the body is built in, or a single byte, or registered at most once. -/
def NoneAssigned (alphabet : Alphabet) (body : String) : Prop :=
  ∀ word, Part.word word ∈ partsFrom alphabet.endsWord [] body.toList →
    IsBuiltin (String.ofList word) ∨ (String.ofList word).utf8ByteSize ≤ 1 ∨
      (registeredNames body).count (String.ofList word) ≤ 1

theorem registerToken_eq (dict : SymbolDictionary) (token : List Char) :
    registerToken dict token = (submissions token).foldl register dict := by
  unfold registerToken submissions
  rw [List.foldl_append]
  dsimp only
  by_cases hclean : (tokenizeForSymbols token).isEmpty = true
  · rw [if_pos hclean, if_pos hclean, List.foldl_nil]
    split
    · split <;> simp only [List.foldl_cons, List.foldl_nil]
    · rw [List.foldl_nil]
  · rw [if_neg hclean, if_neg hclean, List.foldl_cons, List.foldl_nil]
    split
    · split <;> simp only [List.foldl_cons, List.foldl_nil]
    · rw [List.foldl_nil]

theorem tracks_symbolsOf (body : String) : Tracks (registeredNames body) (symbolsOf body) := by
  have hfold : symbolsOf body =
      ((words body.toList).flatMap submissions).foldl register SymbolDictionary.new := by
    rw [List.foldl_flatMap, symbolsOf]
    exact congrArg (fun step => (words body.toList).foldl step SymbolDictionary.new)
      (funext fun dict => funext fun token => registerToken_eq dict token)
  rw [hfold]
  exact tracks_new.foldl_register _

theorem formatFooter_symbolsOf (body : String) : (symbolsOf body).formatFooter = "" :=
  formatFooter_of_large (tracks_symbolsOf body).large

/-- The encoding loop maps the words of the text. -/
theorem encodeFrom_eq (alphabet : Alphabet) (dict : SymbolDictionary) (word text : List Char) :
    dict.encodeFrom alphabet word text =
      ((partsFrom alphabet.endsWord word text).map (Part.mapWord dict.replacement)).flatMap
        Part.text := by
  have hflush : ∀ word : List Char,
      (((flush word).map Part.word).map (Part.mapWord dict.replacement)).flatMap Part.text =
        if word.isEmpty then [] else dict.replacement word.reverse := by
    intro word
    rw [flush]
    split
    · rfl
    · exact List.append_nil _
  induction text generalizing word with
  | nil => rw [encodeFrom, partsFrom, hflush]
  | cons c rest ih =>
      rw [encodeFrom, partsFrom, Alphabet.endsWord]
      cases alphabet.isWordChar c with
      | true => exact ih (c :: word)
      | false =>
          rw [if_neg Bool.false_ne_true, Bool.not_false, if_pos rfl, List.map_append,
            List.flatMap_append, hflush, ih]
          rfl

section Words

variable {alphabet : Alphabet} {body : String} {word : List Char}

theorem parts_eq (h : '$' ∉ body.toList) :
    partsFrom alphabet.endsOpcode [] body.toList = partsFrom alphabet.endsWord [] body.toList :=
  partsFrom_congr fun c hc => by
    have hsign : c ≠ '$' := fun heq => h (heq ▸ hc)
    simp [Alphabet.endsOpcode, Alphabet.endsWord, hsign]

theorem sign_not_mem_word (h : Part.word word ∈ partsFrom alphabet.endsWord [] body.toList) :
    '$' ∉ word := by
  intro hmem
  have hend := (isWord_of_mem_partsFrom (by simp) h).2 '$' hmem
  rw [Alphabet.endsWord, alphabet.isWordChar_sign] at hend
  cases hend

theorem isWord_replacement (h : Part.word word ∈ partsFrom alphabet.endsWord [] body.toList) :
    IsWord alphabet.endsOpcode ((symbolsOf body).replacement word) := by
  rw [replacement]
  cases hlookup : (symbolsOf body).forward.lookup (String.ofList word) with
  | none =>
      obtain ⟨hne, hword⟩ := isWord_of_mem_partsFrom (by simp) h
      refine ⟨hne, fun c hc => ?_⟩
      have hc := hword c hc
      rw [Alphabet.endsWord] at hc
      rw [Alphabet.endsOpcode, hc, Bool.false_and]
  | some opcode =>
      obtain hprimitive | ⟨id, rfl⟩ := (tracks_symbolsOf body).lookup_cases hlookup
      · exact alphabet.isWord_primitive hprimitive
      · exact alphabet.isWord_assignedOpcode id

theorem partsFrom_encode (h : '$' ∉ body.toList) :
    partsFrom alphabet.endsOpcode [] ((symbolsOf body).encode alphabet body).toList =
      (partsFrom alphabet.endsWord [] body.toList).map
        (Part.mapWord (symbolsOf body).replacement) := by
  rw [encode, String.toList_ofList, encodeFrom_eq, ← parts_eq h]
  exact partsFrom_mapWords fun word hword => isWord_replacement (parts_eq h ▸ hword)

/-- Where no word is assigned an opcode, a word is replaced by its built-in one or kept. -/
theorem replacement_cases (h : NoneAssigned alphabet body)
    (hword : Part.word word ∈ partsFrom alphabet.endsWord [] body.toList) :
    (∃ opcode, (opcode, String.ofList word) ∈ primitiveOpcodes ∧
      (symbolsOf body).replacement word = opcode.toList) ∨
      (symbolsOf body).replacement word = word := by
  by_cases hbuiltin : IsBuiltin (String.ofList word)
  · obtain ⟨opcode, hopcode⟩ := hbuiltin
    refine .inl ⟨opcode, hopcode, ?_⟩
    rw [replacement, (tracks_symbolsOf body).builtin hopcode, Option.map_some, Option.getD_some]
  · refine .inr ?_
    rw [replacement, ((tracks_symbolsOf body).other hbuiltin).unassigned
      ((h word hword).resolve_left hbuiltin), Option.map_none, Option.getD_none]

theorem explain_eq_none (h : '$' ∉ word) : explain "" (String.ofList word) = none :=
  explain_empty_eq_none fun token hmem => by
    obtain ⟨rest, hlist, -⟩ := isAlpha_of_primitive hmem
    rw [String.toList_ofList] at hlist
    exact h (hlist ▸ List.mem_cons_self)

end Words

/-- The body is read back from the output exactly if none of its words is assigned an opcode. -/
theorem decodable_iff (alphabet : Alphabet) (body : String) (h : '$' ∉ body.toList) :
    Decodable alphabet body (applySymbolCompression alphabet body .low) ↔
      NoneAssigned alphabet body := by
  have houtput : applySymbolCompression alphabet body .low =
      ((symbolsOf body).encode alphabet body, "") := by
    rw [applySymbolCompression, if_neg (by decide), formatFooter_symbolsOf]
  rw [houtput]
  constructor
  · intro hdecodable word hword
    by_contra hassigned
    rw [not_or, not_or] at hassigned
    obtain ⟨hbuiltin, hlong, hmany⟩ := hassigned
    obtain ⟨id, hid⟩ := ((tracks_symbolsOf body).other hbuiltin).assigned (by omega) (by omega)
    have hopcode : (symbolsOf body).replacement word = (assignedOpcode id).toList := by
      rw [replacement, hid, Option.map_some, Option.getD_some]
    have hoccurs : Part.word (assignedOpcode id).toList ∈ partsFrom alphabet.endsOpcode []
        ((symbolsOf body).encode alphabet body).toList := by
      rw [partsFrom_encode h, ← hopcode]
      exact List.mem_map_of_mem (f := Part.mapWord (symbolsOf body).replacement) hword
    have hexplained := hdecodable.explained _ hoccurs (by rw [toList_assignedOpcode]; rfl)
    rw [String.ofList_toList, explain_empty_eq_none fun token hmem => assignedOpcode_ne hmem id rfl]
      at hexplained
    cases hexplained
  · intro hnone
    refine ⟨fun opcode hopcode hsign => ?_, ?_⟩
    · rw [partsFrom_encode h] at hopcode
      obtain ⟨part, hpart, heq⟩ := List.mem_map.mp hopcode
      cases part with
      | mark c => cases heq
      | word word =>
          cases heq
          obtain ⟨primitive, hprimitive, hreplacement⟩ | hkept := replacement_cases hnone hpart
          · change (explain "" (String.ofList ((symbolsOf body).replacement word))).isSome = true
            rw [hreplacement, String.ofList_toList, explain_primitive hprimitive, Option.isSome_some]
          · rw [hkept] at hsign
            exact absurd (List.mem_of_head? hsign) (sign_not_mem_word hpart)
    · rw [expandOpcodes, mapWords, partsFrom_encode h, List.map_map, List.flatMap_map]
      have hparts : (partsFrom alphabet.endsWord [] body.toList).flatMap Part.text = body.toList :=
        flatMap_partsFrom
      refine (congrArg String.ofList ?_).trans String.ofList_toList
      refine (List.flatMap_congr fun part hpart => ?_).trans hparts
      cases part with
      | mark c => rfl
      | word word =>
          obtain ⟨primitive, hprimitive, hreplacement⟩ | hkept := replacement_cases hnone hpart
          · simp only [Function.comp_apply, Part.mapWord, Part.text, hreplacement,
              String.ofList_toList, explain_primitive hprimitive, Option.map_some, Option.getD_some,
              String.toList_ofList]
          · simp only [Function.comp_apply, Part.mapWord, Part.text, hkept,
              explain_eq_none (sign_not_mem_word hpart), Option.map_none, Option.getD_none]

def asciiAlphabet : Alphabet := .ofAscii

theorem decodable_iff_class : Decodable asciiAlphabet "class Foo"
    (applySymbolCompression asciiAlphabet "class Foo" .low) := by
  refine (decodable_iff asciiAlphabet "class Foo" (by decide)).mpr fun word hword => ?_
  have hparts : partsFrom asciiAlphabet.endsWord [] "class Foo".toList =
      [.word "class".toList, .mark ' ', .word "Foo".toList] := rfl
  simp only [hparts, List.mem_cons, Part.word.injEq, reduceCtorEq, List.not_mem_nil, or_false,
    false_or] at hword
  obtain rfl | rfl := hword
  · exact .inl ⟨"$c", by decide⟩
  · exact .inr (.inr (by decide))

/-- The second `foo` is assigned an opcode. -/
theorem not_decodable : ¬∀ (alphabet : Alphabet) (body : String), '$' ∉ body.toList →
    Decodable alphabet body (applySymbolCompression alphabet body .low) := by
  intro h
  have hrestored := (h asciiAlphabet "foo foo" (by decide)).restored
  exact absurd hrestored (by decide +kernel)

end CleanCtx
