import CleanCtx.Library.Decimal
import CleanCtx.Library.PositionIndex
import CleanCtx.Library.Text
import CleanCtx.Library.WordScan
import Mathlib.Data.List.AList
import Mathlib.Data.List.DropRight

/-!
The symbol dictionary (`dictionary/symbol.rs`) over the built-in opcode table
(`compression/opcodes.rs`). A token gets an opcode the second time it is registered;
a text is encoded word by word, and what the table says at the end of the text is
read back from the footer.
-/
namespace CleanCtx

/-- The built-in opcodes, each with its token. -/
def primitiveOpcodes : List (String × String) :=
  [("$e", "export"), ("$c", "class"), ("$a", "async"), ("$P", "Promise"), ("$b", "boolean"),
    ("$s", "string"), ("$n", "number"), ("$v", "void"), ("$T", "true"), ("$F", "false"),
    ("$pu", "public"), ("$pv", "private"), ("$pd", "protected"), ("$st", "static"),
    ("$nw", "new"), ("$r", "return"), ("$t", "throw"), ("$E", "Error"), ("$k", "const"),
    ("$l", "let"), ("$i", "if"), ("$fr", "for"), ("$w", "while"), ("$h", "this"),
    ("$x", "extends"), ("$m", "implements"), ("$im", "import"), ("$fm", "from"),
    ("$if", "interface"), ("$ty", "type"), ("$fn", "function"), ("$ctor", "constructor"),
    ("$ud", "undefined"), ("$nl", "null")]

def isPrimitiveOpcode (opcode : String) : Bool :=
  primitiveOpcodes.any fun entry => entry.1 = opcode

/-- `char::is_alphanumeric`: a classification of all characters, among those of ASCII the letters
and digits. -/
structure Alphabet where
  isAlphanumeric : Char → Bool
  ascii : ∀ c : Char, c.toNat < 128 → isAlphanumeric c = c.isAlphanum

namespace Alphabet

def ofAscii : Alphabet where
  isAlphanumeric := Char.isAlphanum
  ascii _ _ := rfl

variable (alphabet : Alphabet)

def isWordChar (c : Char) : Bool := alphabet.isAlphanumeric c || c = '_'

def endsWord (c : Char) : Bool := !alphabet.isWordChar c

/-- An opcode takes in all word characters after its sign. -/
def endsOpcode (c : Char) : Bool := !alphabet.isWordChar c && c ≠ '$'

end Alphabet

def isPunctuation (c : Char) : Bool :=
  ['(', ')', '[', ']', '{', '}', '<', '>', ':', ';', ',', '.'].contains c

/-- A token without the punctuation around it. -/
def tokenizeForSymbols (token : List Char) : List Char :=
  (token.dropWhile isPunctuation).rdropWhile isPunctuation

/-- The source's maps iterate in no particular order; `reverse` keeps the one it was filled in,
latest first. -/
structure SymbolDictionary where
  forward : HashMap String String
  reverse : AList fun _ : String => String
  nextId : Nat
  frequency : HashMap String Nat

namespace SymbolDictionary

def empty : SymbolDictionary where
  forward := ∅
  reverse := ∅
  nextId := 1
  frequency := ∅

def insertPrimitive (dict : SymbolDictionary) (token opcode : String) : SymbolDictionary :=
  { dict with
    forward := dict.forward.insert token opcode
    reverse := dict.reverse.insert opcode token }

def new : SymbolDictionary :=
  primitiveOpcodes.foldl (fun dict entry => dict.insertPrimitive entry.2 entry.1) empty

def assignedOpcode (id : Nat) : String := "$" ++ id.repr

def symbolName (token : List Char) : String := String.ofList (tokenizeForSymbols token)

def register (dict : SymbolDictionary) (token : List Char) : SymbolDictionary :=
  let token := symbolName token
  if token.utf8ByteSize ≤ 1 then dict
  else if token ∈ dict.forward then dict
  else
    let count := (dict.frequency.lookup token).getD 0 + 1
    let frequency := dict.frequency.insert token count
    if 2 ≤ count then
      { forward := dict.forward.insert token (assignedOpcode dict.nextId)
        reverse := dict.reverse.insert (assignedOpcode dict.nextId) token
        nextId := dict.nextId + 1
        frequency }
    else { dict with frequency }

def replacement (dict : SymbolDictionary) (word : List Char) : List Char :=
  ((dict.forward.lookup (String.ofList word)).map String.toList).getD word

/-- The encoding loop, with the characters of the word read so far in reverse. -/
def encodeFrom (alphabet : Alphabet) (dict : SymbolDictionary) (word : List Char) :
    List Char → List Char
  | [] => if word.isEmpty then [] else dict.replacement word.reverse
  | c :: rest =>
      if alphabet.isWordChar c then encodeFrom alphabet dict (c :: word) rest
      else
        (if word.isEmpty then [] else dict.replacement word.reverse) ++
          c :: encodeFrom alphabet dict [] rest

def encode (alphabet : Alphabet) (dict : SymbolDictionary) (text : String) : String :=
  String.ofList (dict.encodeFrom alphabet [] text.toList)

def formatEntry (opcode token : String) : String := "  " ++ opcode ++ " = " ++ token ++ "\n"

def custom (dict : SymbolDictionary) : List (String × String) :=
  (dict.reverse.entries.map fun entry => (entry.1, entry.2)).filter
    fun entry => !isPrimitiveOpcode entry.1

def formatFooter (dict : SymbolDictionary) : String :=
  if dict.reverse.keys.length ≤ 32 then
    if dict.custom.isEmpty then ""
    else
      dict.custom.foldl (fun footer entry => footer ++ formatEntry entry.1 entry.2) "§SYM\n"
  else ""

end SymbolDictionary

/-- A line of a footer. -/
def readEntry (line : List Char) : Option (String × String) :=
  match line with
  | ' ' :: ' ' :: entry =>
      some (String.ofList (entry.takeWhile (· ≠ ' ')),
        String.ofList ((entry.dropWhile (· ≠ ' ')).drop 3))
  | _ => none

def readLegend (footer : String) : List (String × String) :=
  (lines footer.toList).filterMap readEntry

def explain (footer opcode : String) : Option String :=
  (primitiveOpcodes ++ readLegend footer).lookup opcode

def expandOpcodes (alphabet : Alphabet) (footer text : String) : String :=
  String.ofList (mapWords alphabet.endsOpcode
    (fun word => ((explain footer (String.ofList word)).map String.toList).getD word) text.toList)

namespace SymbolDictionary

def IsBuiltin (token : String) : Prop := ∃ opcode, (opcode, token) ∈ primitiveOpcodes

theorem lookup_primitiveOpcodes {opcode token : String} (h : (opcode, token) ∈ primitiveOpcodes) :
    primitiveOpcodes.lookup opcode = some token := by
  have hall : primitiveOpcodes.all (fun entry =>
      primitiveOpcodes.lookup entry.1 = some entry.2) = true := by
    decide +kernel
  exact of_decide_eq_true (List.all_eq_true.mp hall _ h)

theorem isAlpha_of_primitive {opcode token : String} (h : (opcode, token) ∈ primitiveOpcodes) :
    ∃ rest, opcode.toList = '$' :: rest ∧ rest ≠ [] ∧ ∀ c ∈ rest, c.isAlpha = true := by
  have hall : primitiveOpcodes.all (fun entry => entry.1.toList.head? = some '$' &&
      entry.1.toList.tail ≠ [] && entry.1.toList.tail.all Char.isAlpha) = true := by
    decide +kernel
  have hentry := List.all_eq_true.mp hall _ h
  simp only [Bool.and_eq_true, decide_eq_true_eq] at hentry
  obtain ⟨⟨hhead, hne⟩, halpha⟩ := hentry
  exact ⟨opcode.toList.tail, (List.cons_head?_tail hhead).symm, hne, List.all_eq_true.mp halpha⟩

theorem toList_assignedOpcode (id : Nat) : (assignedOpcode id).toList = '$' :: id.repr.toList := by
  rw [assignedOpcode, String.toList_append]
  rfl

theorem assignedOpcode_ne {opcode token : String} (h : (opcode, token) ∈ primitiveOpcodes) (id : Nat) :
    assignedOpcode id ≠ opcode := by
  intro heq
  obtain ⟨rest, hlist, hne, halpha⟩ := isAlpha_of_primitive h
  rw [← heq, toList_assignedOpcode, List.cons.injEq] at hlist
  obtain ⟨c, hc⟩ := List.exists_mem_of_ne_nil rest hne
  have hdigit := Decimal.isDigit_of_mem_repr (hlist.2 ▸ hc)
  have hletter := toNat_of_isAlpha (halpha c hc)
  have hlast : c.toNat ≤ 57 := (Char.isDigit_iff_toNat.mp hdigit).2
  omega

/-- What a dictionary knows about a token that was registered so many times. -/
structure Knows (dict : SymbolDictionary) (token : String) (count : Nat) : Prop where
  unassigned : token.utf8ByteSize ≤ 1 ∨ count ≤ 1 → dict.forward.lookup token = none
  counted : 1 < token.utf8ByteSize → count ≤ 1 → (dict.frequency.lookup token).getD 0 = count
  assigned : 1 < token.utf8ByteSize → 2 ≤ count →
    ∃ id, dict.forward.lookup token = some (assignedOpcode id)

/-- What a dictionary knows after a list of names was registered. -/
structure Tracks (names : List String) (dict : SymbolDictionary) : Prop where
  builtin : ∀ {opcode token}, (opcode, token) ∈ primitiveOpcodes →
    dict.forward.lookup token = some opcode
  other : ∀ {token}, ¬IsBuiltin token → Knows dict token (names.count token)
  large : 32 < dict.reverse.keys.length

theorem tracks_new : Tracks [] SymbolDictionary.new where
  builtin h := by
    have hall : primitiveOpcodes.all (fun entry =>
        SymbolDictionary.new.forward.lookup entry.2 = some entry.1) = true := by
      decide +kernel
    exact of_decide_eq_true (List.all_eq_true.mp hall _ h)
  other := by
    intro token hnot
    have hkeys : ∀ (entries : List (String × String)) (dict : SymbolDictionary),
        token ∉ entries.map Prod.snd → dict.forward.lookup token = none →
          (entries.foldl (fun dict entry => dict.insertPrimitive entry.2 entry.1) dict).forward.lookup
            token = none := by
      intro entries
      induction entries with
      | nil => exact fun _ _ h => h
      | cons entry entries ih =>
          intro dict hmem hnone
          rw [List.map_cons, List.mem_cons, not_or] at hmem
          exact ih _ hmem.2 ((Finmap.lookup_insert_of_ne _ hmem.1).trans hnone)
    refine ⟨fun _ => hkeys primitiveOpcodes empty (fun hmem => hnot ?_) (Finmap.lookup_empty _),
      fun _ _ => rfl, fun _ h => absurd h (by simp)⟩
    obtain ⟨entry, hentry, rfl⟩ := List.mem_map.mp hmem
    exact ⟨entry.1, hentry⟩
  large := by decide

theorem length_keys_insert_ge (table : AList fun _ : String => String) (opcode token : String) :
    table.keys.length ≤ (table.insert opcode token).keys.length := by
  have herase := List.le_length_erase (a := opcode) (l := table.keys)
  rw [AList.keys_insert, List.length_cons]
  omega

theorem Knows.count {dict : SymbolDictionary} {token : String} {count : Nat}
    (h : Knows dict token count) (hmem : token ∈ dict.forward) :
    1 < token.utf8ByteSize ∧ 2 ≤ count := by
  by_contra hnot
  exact Finmap.lookup_eq_none.mp (h.unassigned (by omega)) hmem

/-- An assigned opcode stays. -/
theorem Knows.again {dict : SymbolDictionary} {token : String} {count : Nat}
    (h : Knows dict token count) (hskip : token.utf8ByteSize ≤ 1 ∨ token ∈ dict.forward) :
    Knows dict token (count + 1) := by
  obtain hshort | hmem := hskip
  · exact ⟨fun _ => h.unassigned (.inl hshort), fun hlong => by omega, fun hlong => by omega⟩
  · obtain ⟨hlong, hmany⟩ := h.count hmem
    exact ⟨fun hfew => by omega, fun _ hfew => by omega, fun _ _ => h.assigned hlong hmany⟩

theorem Knows.congr {dict dict' : SymbolDictionary} {token : String} {count : Nat}
    (h : Knows dict token count) (hforward : dict'.forward.lookup token = dict.forward.lookup token)
    (hfrequency : dict'.frequency.lookup token = dict.frequency.lookup token) :
    Knows dict' token count where
  unassigned := hforward ▸ h.unassigned
  counted := hfrequency ▸ h.counted
  assigned := hforward ▸ h.assigned

theorem count_concat (names : List String) (name token : String) :
    (names ++ [name]).count token = names.count token + if name = token then 1 else 0 := by
  rw [List.count_append, List.count_singleton]
  simp

/-- A registration adds to what is known about its name, and keeps what is known about others. -/
theorem Tracks.concat {names : List String} {dict dict' : SymbolDictionary} {name : String}
    (h : Tracks names dict)
    (hbuiltin : ∀ {opcode token}, (opcode, token) ∈ primitiveOpcodes →
      dict'.forward.lookup token = dict.forward.lookup token)
    (hname : ¬IsBuiltin name → Knows dict' name (names.count name + 1))
    (hforward : ∀ {token}, token ≠ name → dict'.forward.lookup token = dict.forward.lookup token)
    (hfrequency : ∀ {token}, token ≠ name →
      dict'.frequency.lookup token = dict.frequency.lookup token)
    (hlarge : dict.reverse.keys.length ≤ dict'.reverse.keys.length) :
    Tracks (names ++ [name]) dict' where
  builtin hopcode := (hbuiltin hopcode).trans (h.builtin hopcode)
  large := h.large.trans_le hlarge
  other {token} hnot := by
    rw [count_concat]
    by_cases heq : name = token
    · subst heq
      rw [if_pos rfl]
      exact hname hnot
    · rw [if_neg heq]
      exact (h.other hnot).congr (hforward (Ne.symm heq)) (hfrequency (Ne.symm heq))

theorem Tracks.register {names : List String} {dict : SymbolDictionary} (h : Tracks names dict)
    (token : List Char) :
    Tracks (names ++ [symbolName token]) (dict.register token) := by
  rw [SymbolDictionary.register]
  generalize symbolName token = name
  have hskip : name.utf8ByteSize ≤ 1 ∨ name ∈ dict.forward → Tracks (names ++ [name]) dict :=
    fun hskip => h.concat (fun _ => rfl) (fun hnot => (h.other hnot).again hskip) (fun _ => rfl)
      (fun _ => rfl) (Nat.le_refl _)
  dsimp only
  split
  case isTrue hshort => exact hskip (.inl hshort)
  split
  case isTrue hmem => exact hskip (.inr hmem)
  case isFalse hlong hmem =>
  have hnew : ¬IsBuiltin name := fun ⟨opcode, hopcode⟩ =>
    hmem (Finmap.mem_iff.mpr ⟨opcode, h.builtin hopcode⟩)
  have hother : ∀ {opcode token}, (opcode, token) ∈ primitiveOpcodes → token ≠ name :=
    fun hopcode heq => hnew ⟨_, heq ▸ hopcode⟩
  have hfirst : names.count name ≤ 1 := by
    by_contra hmany
    obtain ⟨id, hid⟩ := (h.other hnew).assigned (by omega) (by omega)
    exact hmem (Finmap.mem_iff.mpr ⟨_, hid⟩)
  have hcounted := (h.other hnew).counted (by omega) hfirst
  split
  case isTrue hsecond =>
    refine h.concat (fun hopcode => Finmap.lookup_insert_of_ne _ (hother hopcode)) (fun _ => ?_)
      (Finmap.lookup_insert_of_ne _) (Finmap.lookup_insert_of_ne _) (length_keys_insert_ge _ _ _)
    exact ⟨fun hfew => by omega, fun _ hfew => by omega,
      fun _ _ => ⟨dict.nextId, Finmap.lookup_insert _⟩⟩
  case isFalse hnotSecond =>
    refine h.concat (fun _ => rfl) (fun _ => ?_) (fun _ => rfl) (Finmap.lookup_insert_of_ne _)
      (Nat.le_refl _)
    refine ⟨fun _ => Finmap.lookup_eq_none.mpr hmem, fun _ _ => ?_, fun _ hmany => by omega⟩
    refine (congrArg (Option.getD · 0) (Finmap.lookup_insert _)).trans ?_
    rw [Option.getD_some, hcounted]

/-- The registrations in order, by induction on their list. -/
theorem Tracks.foldl_register {names : List String} {dict : SymbolDictionary}
    (h : Tracks names dict) (tokens : List (List Char)) :
    Tracks (names ++ tokens.map symbolName) (tokens.foldl SymbolDictionary.register dict) := by
  induction tokens generalizing names dict with
  | nil => exact (List.append_nil names).symm ▸ h
  | cons token tokens ih =>
      have hrest := ih (h.register token)
      rwa [List.append_assoc, List.singleton_append] at hrest

theorem formatFooter_of_large {dict : SymbolDictionary} (h : 32 < dict.reverse.keys.length) :
    dict.formatFooter = "" :=
  if_neg (by omega)

/-- An entry of the table that can be read back: no white space where it would end the opcode or
the line. -/
def Legible (entry : String × String) : Prop :=
  (∀ c ∈ entry.1.toList, isWhiteSpace c = false) ∧ ∀ c ∈ entry.2.toList, isWhiteSpace c = false

def entryLine (entry : String × String) : List Char :=
  [' ', ' '] ++ entry.1.toList ++ [' ', '=', ' '] ++ entry.2.toList

theorem toList_formatEntry (opcode token : String) :
    (formatEntry opcode token).toList = entryLine (opcode, token) ++ ['\n'] := by
  simp only [formatEntry, String.toList_append, entryLine]
  rfl

theorem toList_foldl_formatEntry (entries : List (String × String)) (footer : String) :
    (entries.foldl (fun footer entry => footer ++ formatEntry entry.1 entry.2) footer).toList =
      footer.toList ++ (entries.map entryLine).flatMap (· ++ ['\n']) := by
  induction entries generalizing footer with
  | nil => exact (List.append_nil _).symm
  | cons entry entries ih =>
      rw [List.foldl_cons, ih, String.toList_append, toList_formatEntry, List.append_assoc]
      rfl

theorem not_mem_entryLine {entry : String × String} (h : Legible entry) {c : Char}
    (hc : isWhiteSpace c = true) (hspace : c ≠ ' ') : c ∉ entryLine entry := by
  have hopcode : c ∉ entry.1.toList := fun hmem => by simp [h.1 c hmem] at hc
  have htoken : c ∉ entry.2.toList := fun hmem => by simp [h.2 c hmem] at hc
  have hequals : c ≠ '=' := by
    rintro rfl
    exact absurd hc (by decide)
  simp [entryLine, hopcode, htoken, hspace, hequals]

theorem readEntry_entryLine {entry : String × String} (h : Legible entry) :
    readEntry (entryLine entry) = some entry := by
  have hopcode : ∀ c ∈ entry.1.toList, (c ≠ ' ' : Bool) = true := fun c hc => by
    have := h.1 c hc
    by_contra hspace
    obtain rfl : c = ' ' := by simpa using hspace
    exact absurd this (by decide)
  have hline : entryLine entry =
      ' ' :: ' ' :: (entry.1.toList ++ ' ' :: '=' :: ' ' :: entry.2.toList) := by
    simp [entryLine]
  rw [hline, readEntry, List.takeWhile_append_of_pos hopcode, List.dropWhile_append_of_pos hopcode]
  simp

/-- A footer that is shown explains the entries it was written from. -/
theorem readLegend_formatFooter {dict : SymbolDictionary} (hsmall : dict.reverse.keys.length ≤ 32)
    (hlegible : ∀ entry ∈ dict.custom, Legible entry) :
    readLegend dict.formatFooter = dict.custom := by
  rw [formatFooter, if_pos hsmall]
  split
  case isTrue hempty =>
    rw [List.isEmpty_iff.mp hempty]
    rfl
  case isFalse =>
    have hlines : ∀ {c : Char}, isWhiteSpace c = true → c ≠ ' ' →
        ∀ line ∈ "§SYM".toList :: dict.custom.map entryLine, c ∉ line := by
      intro c hc hspace line hline
      obtain rfl | hline := List.mem_cons.mp hline
      · intro hmem
        have hall : "§SYM".toList.all (!isWhiteSpace ·) = true := by decide +kernel
        exact absurd hc (by simpa using List.all_eq_true.mp hall c hmem)
      · obtain ⟨entry, hentry, rfl⟩ := List.mem_map.mp hline
        exact not_mem_entryLine (hlegible entry hentry) hc hspace
    have htext : "§SYM\n".toList ++ (dict.custom.map entryLine).flatMap (· ++ ['\n']) =
        ("§SYM".toList :: dict.custom.map entryLine).flatMap (· ++ ['\n']) := rfl
    rw [readLegend, toList_foldl_formatEntry, htext,
      lines_ended (hlines (by decide) (by decide)) (hlines (by decide) (by decide)),
      List.filterMap_cons, List.filterMap_map]
    refine (List.filterMap_congr fun entry hentry => ?_).trans List.filterMap_some
    exact readEntry_entryLine (hlegible entry hentry)

theorem explain_primitive {footer opcode token : String} (h : (opcode, token) ∈ primitiveOpcodes) :
    explain footer opcode = some token := by
  rw [explain, List.lookup_append, lookup_primitiveOpcodes h, Option.some_or]

/-- Without a legend, only the built-in opcodes are explained. -/
theorem explain_empty_eq_none {opcode : String}
    (h : ∀ token, (opcode, token) ∉ primitiveOpcodes) : explain "" opcode = none := by
  have hlegend : readLegend "" = [] := rfl
  rw [explain, hlegend, List.append_nil, List.lookup_eq_none_iff]
  rintro ⟨other, token⟩ hmem
  have hne : opcode ≠ other := fun heq => h token (heq ▸ hmem)
  simpa using hne

/-- What a dictionary knows a token by. -/
theorem Tracks.lookup_cases {names : List String} {dict : SymbolDictionary} (h : Tracks names dict)
    {token opcode : String} (hlookup : dict.forward.lookup token = some opcode) :
    (opcode, token) ∈ primitiveOpcodes ∨ ∃ id, opcode = assignedOpcode id := by
  by_cases hbuiltin : IsBuiltin token
  · obtain ⟨other, hother⟩ := hbuiltin
    cases hlookup.symm.trans (h.builtin hother)
    exact .inl hother
  · obtain ⟨hlong, hmany⟩ := (h.other hbuiltin).count (Finmap.mem_iff.mpr ⟨opcode, hlookup⟩)
    obtain ⟨id, hid⟩ := (h.other hbuiltin).assigned hlong hmany
    exact .inr ⟨id, Option.some.inj (hlookup.symm.trans hid)⟩

end SymbolDictionary

namespace Alphabet

variable (alphabet : Alphabet)

theorem isWordChar_sign : alphabet.isWordChar '$' = false := by
  rw [isWordChar, alphabet.ascii '$' (by decide)]
  decide

theorem not_endsOpcode {c : Char} (h : c.isAlphanum = true) : alphabet.endsOpcode c = false := by
  have hascii : c.toNat < 128 := by
    have hrange := toNat_of_isAlphanum h
    omega
  simp [endsOpcode, isWordChar, alphabet.ascii c hascii, h]

theorem isWord_signed {rest : List Char} (h : ∀ c ∈ rest, c.isAlphanum = true) :
    IsWord alphabet.endsOpcode ('$' :: rest) := by
  refine ⟨List.cons_ne_nil _ _, List.forall_mem_cons.mpr ⟨?_, fun c hc => ?_⟩⟩
  · simp [endsOpcode]
  · exact alphabet.not_endsOpcode (h c hc)

theorem isWord_primitive {opcode token : String} (h : (opcode, token) ∈ primitiveOpcodes) :
    IsWord alphabet.endsOpcode opcode.toList := by
  obtain ⟨rest, hlist, -, halpha⟩ := SymbolDictionary.isAlpha_of_primitive h
  rw [hlist]
  exact alphabet.isWord_signed fun c hc => by simp [Char.isAlphanum, halpha c hc]

theorem isWord_assignedOpcode (id : Nat) :
    IsWord alphabet.endsOpcode (SymbolDictionary.assignedOpcode id).toList := by
  rw [SymbolDictionary.toList_assignedOpcode]
  exact alphabet.isWord_signed fun c hc => by
    simp [Char.isAlphanum, Decimal.isDigit_of_mem_repr hc]

end Alphabet

end CleanCtx
