import CleanCtx.Library.Lists
import CleanCtx.Ir.StringTable
import CleanCtx.Ir.TupleOperands
import Mathlib.Data.List.Forall2

/-!
What the string-table decoder makes of malformed documents. The transmitted table
is interned, so a repeated string moves every later one forward, and an index past
the interned table reads as the empty string. A document keeps its references
exactly where every index stays in the table and those that count stand before its
first repeat.
-/
namespace CleanCtx
namespace StringTable

/-- The parts of a string-table wire of the right shape. -/
structure Document where
  fileId : String
  version : UInt64
  strings : List String
  rows : List (List Nat)
  deriving DecidableEq

def indexRow (tupleVal : Value) : Option (List Nat) := do
  (← tupleVal.asArray).mapM fun v => v.asU64.map UInt64.toNat

def document (value : Value) : Option Document := do
  let fileId ← (← value.get "file").asStr
  let version ← (← value.get "v").asU64
  let strings ← (← (← value.get "t").asArray).mapM Value.asStr
  let rows ← (← (← value.get "ir").asArray).mapM indexRow
  some { fileId, version, strings, rows }

section Interning

variable {strings : List String} {i : Nat}

theorem internAll_strings (self : StringTable) (ss : List String) :
    (self.internAll ss).strings = self.strings ++ (ss.removeAll self.strings).eraseDups := by
  induction ss generalizing self with
  | nil => simp [internAll, List.removeAll]
  | cons s ss ih =>
      change ((self.intern s).2.internAll ss).strings = _
      rw [ih, intern_strings]
      by_cases hs : s ∈ self.strings
      · simp [List.removeAll, hs]
      · have hkept : (s :: ss).removeAll self.strings = s :: ss.removeAll self.strings := by
          simp [List.removeAll, hs]
        rw [if_neg hs, hkept, List.eraseDups_cons, List.append_assoc, List.singleton_append]
        refine congrArg (fun rest => self.strings ++ s :: List.eraseDups rest) ?_
        rw [List.removeAll, List.removeAll, List.filter_filter]
        refine List.filter_congr fun x _ => ?_
        by_cases hx : x = s <;> simp [hx]

theorem strings_internAll_new (strings : List String) :
    (new.internAll strings).strings = strings.eraseDups := by
  rw [internAll_strings]
  simp [new, List.removeAll]

theorem nodup_eraseDups (strings : List String) : strings.eraseDups.Nodup :=
  strings_internAll_new strings ▸ (new.internAll strings).nodup

theorem eraseDups_of_nodup (h : strings.Nodup) : strings.eraseDups = strings := by
  rw [← strings_internAll_new]
  exact internAll_nodup new strings h

theorem length_eraseDups_lt (h : ¬ strings.Nodup) : strings.eraseDups.length < strings.length := by
  have hsub : strings.eraseDups.Subperm strings :=
    (nodup_eraseDups strings).subperm fun s hs => List.mem_eraseDups.mp hs
  refine lt_of_le_of_ne hsub.length_le fun hlength => h ?_
  exact (hsub.perm_of_length_le hlength.ge).nodup_iff.mp (nodup_eraseDups strings)

/-- The string at a position of the transmitted table is the one that is read there: no string up
to it repeats an earlier one, or it is empty and the table has no more different strings. -/
def Keeps (strings : List String) (i : Nat) : Prop :=
  (strings.take (i + 1)).Nodup ∨ strings[i]? = some "" ∧ strings.eraseDups.length ≤ i

instance (strings : List String) (i : Nat) : Decidable (Keeps strings i) :=
  inferInstanceAs (Decidable (_ ∨ _))

/-- The interned table agrees with the transmitted one up to the first repeat. -/
theorem getElem?_eraseDups_iff (hi : i < strings.length) :
    strings.eraseDups[i]? = strings[i]? ↔ (strings.take (i + 1)).Nodup := by
  have hsplit : strings.eraseDups =
      (strings.take (i + 1)).eraseDups ++
        ((strings.drop (i + 1)).removeAll (strings.take (i + 1))).eraseDups := by
    rw [← List.eraseDups_append, List.take_append_drop]
  have hlength : (strings.take (i + 1)).length = i + 1 := by
    rw [List.length_take]
    omega
  constructor
  · intro h
    by_contra hrepeat
    -- A repeat leaves fewer strings, and what follows them is none of the first ones.
    have hlt := length_eraseDups_lt hrepeat
    rw [hsplit, List.getElem?_append_right (by omega), List.getElem?_eq_getElem hi] at h
    have hnew := List.mem_eraseDups.mp (List.mem_of_getElem? h)
    rw [List.removeAll, List.mem_filter] at hnew
    have hold : strings[i] ∈ strings.take (i + 1) :=
      List.mem_take_iff_getElem.mpr ⟨i, by omega, rfl⟩
    simp [hold] at hnew
  · intro h
    rw [hsplit, eraseDups_of_nodup h, List.getElem?_append_left (by omega),
      List.getElem?_take_of_lt (Nat.lt_succ_self i)]

theorem getD_eraseDups_iff (hi : i < strings.length) :
    (strings.eraseDups[i]?).getD "" = (strings[i]?).getD "" ↔ Keeps strings i := by
  rw [Keeps, ← getElem?_eraseDups_iff hi, List.getElem?_eq_getElem hi, Option.getD_some]
  cases hread : strings.eraseDups[i]? with
  | none =>
      have hpast := List.getElem?_eq_none_iff.mp hread
      rw [Option.getD_none, eq_comm (b := strings[i])]
      simp [hpast]
  | some s =>
      have hlt := (List.getElem?_eq_some_iff.mp hread).1
      simp [hlt]

end Interning

namespace Document

/-- The string that an index means: the one at its position of the transmitted table. -/
def writtenString (doc : Document) (i : Nat) : String := (doc.strings[i]?).getD ""

/-- The string that an index is read as: repeats are gone, and nothing is the empty string. -/
def readString (doc : Document) (i : Nat) : String := (doc.strings.eraseDups[i]?).getD ""

def written (doc : Document) (row : List Nat) : Tuple := row.map doc.writtenString

def readAs (doc : Document) (row : List Nat) : Tuple := row.map doc.readString

def InRange (doc : Document) (row : List Nat) : Prop := ∀ i ∈ row, i < doc.strings.length

instance (doc : Document) (row : List Nat) : Decidable (doc.InRange row) :=
  inferInstanceAs (Decidable (∀ i ∈ row, i < doc.strings.length))

def Legible (doc : Document) (row : List Nat) : Prop :=
  ∃ opcode operands, doc.readAs row = DeltaOpcode.wireName opcode :: operands ∧
    opcode.Legible operands

/-- The index of the opcode, and those of the operands that it reads, point to strings that the
table keeps; in the place of a number, another spelling of the number does as well. -/
structure Undisturbed (doc : Document) (row : List Nat) (opcode : DeltaOpcode) : Prop where
  head : ∀ i ∈ row.head?, Keeps doc.strings i
  operands : ∀ k, opcode.Reads k → ∀ i ∈ row[k + 1]?, Keeps doc.strings i ∨
    opcode.Numeric k ∧
      Decimal.parse (doc.readString i) = Decimal.parse (doc.writtenString i)

variable {doc : Document} {row : List Nat}

theorem legible_iff : doc.Legible row ↔ (tupleToOp (doc.readAs row)).isSome := by
  cases htuple : doc.readAs row with
  | nil => simp [Legible, htuple, tupleToOp]
  | cons head operands =>
      rw [tupleToOp, Legible, htuple]
      cases hopcode : DeltaOpcode.fromWire head with
      | none =>
          refine iff_of_false ?_ (by simp)
          rintro ⟨opcode, operands, heq, -⟩
          cases heq
          rw [DeltaOpcode.fromWire_wireName] at hopcode
          cases hopcode
      | some opcode =>
          rw [DeltaOpcode.operandsToOp_isSome_iff]
          constructor
          · rintro ⟨found, operands, heq, hlegible⟩
            cases heq
            rw [DeltaOpcode.fromWire_wireName] at hopcode
            cases hopcode
            exact hlegible
          · exact fun h =>
              ⟨opcode, operands, by rw [DeltaOpcode.eq_wireName_of_fromWire hopcode], h⟩

/-- A legible row in range means the operation it is read as exactly when it is undisturbed. -/
theorem undisturbed_iff (hrange : doc.InRange row) {opcode : DeltaOpcode} {operands : List String}
    (hread : doc.readAs row = opcode.wireName :: operands) (hlegible : opcode.Legible operands) :
    tupleToOp (doc.written row) = tupleToOp (doc.readAs row) ↔ doc.Undisturbed row opcode := by
  cases row with
  | nil => cases hread
  | cons first rest =>
      obtain ⟨hfirst, hrest⟩ := List.cons.inj hread
      change doc.readString first = _ at hfirst
      change rest.map doc.readString = _ at hrest
      subst hrest
      have hkeeps : ∀ i ∈ first :: rest,
          (doc.readString i = doc.writtenString i ↔ Keeps doc.strings i) := fun i hi =>
        getD_eraseDups_iff (hrange i hi)
      have hat : ∀ k i, rest[k]? = some i → i ∈ first :: rest := fun k i hk =>
        List.mem_cons_of_mem _ (List.mem_of_getElem? hk)
      have hsame : ∀ k, opcode.Reads k → ∀ i, rest[k]? = some i →
          (opcode.SameOperand k (doc.readString i) (doc.writtenString i) ↔
            Keeps doc.strings i ∨ opcode.Numeric k ∧
              Decimal.parse (doc.readString i) = Decimal.parse (doc.writtenString i)) :=
        fun k _ i hk => by rw [DeltaOpcode.SameOperand, hkeeps i (hat k i hk)]
      obtain ⟨op, hop⟩ := Option.isSome_iff_exists.mp
        (DeltaOpcode.operandsToOp_isSome_iff.mpr hlegible)
      have hreads : tupleToOp (doc.readAs (first :: rest)) = some op := by
        rw [hread, tupleToOp, DeltaOpcode.fromWire_wireName]
        exact hop
      have hwritten : doc.written (first :: rest) =
          doc.writtenString first :: rest.map doc.writtenString := rfl
      rw [hreads, hwritten, tupleToOp]
      constructor
      · intro h
        cases hopcode : DeltaOpcode.fromWire (doc.writtenString first) with
        | none =>
            rw [hopcode] at h
            cases h
        | some found =>
            rw [hopcode] at h
            have hfound : found = opcode := (DeltaOpcode.opcode_of_operandsToOp h).symm.trans
              (DeltaOpcode.opcode_of_operandsToOp hop)
            subst hfound
            refine ⟨?_, fun k hk i hi => (hsame k hk i hi).mp ?_⟩
            · rintro i ⟨⟩
              rw [← hkeeps first List.mem_cons_self, hfirst,
                DeltaOpcode.eq_wireName_of_fromWire hopcode]
            · have hi' : rest[k]? = some i := hi
              exact DeltaOpcode.sameOperand_of_eq hop h hk
                (by rw [List.getElem?_map, hi']; rfl) (by rw [List.getElem?_map, hi']; rfl)
      · intro h
        have hhead : doc.writtenString first = opcode.wireName := by
          rw [← (hkeeps first List.mem_cons_self).mpr (h.head first rfl), hfirst]
        rw [hhead, DeltaOpcode.fromWire_wireName]
        dsimp only
        rw [← hop]
        refine (DeltaOpcode.operandsToOp_congr (by simp) fun k s s' hk hs hs' => ?_).symm
        rw [List.getElem?_map] at hs hs'
        obtain ⟨i, hi, rfl⟩ := Option.map_eq_some_iff.mp hs
        rw [hi] at hs'
        cases hs'
        exact (hsame k hk i hi).mpr (h.operands k hk i hi)

end Document

theorem wireTupleToOp_eq (table : StringTable) (tupleVal : Value) :
    wireTupleToOp table tupleVal = (indexRow tupleVal).bind fun row => decodeOp row table := by
  rw [wireTupleToOp, indexRow]
  cases tupleVal.asArray <;> rfl

/-- The decoder reads the rows of a document through the interned table. -/
theorem wireToIr_eq (value : Value) :
    wireToIr value = (document value).bind fun doc =>
      (doc.rows.mapM fun row => tupleToOp (doc.readAs row)).map fun instructions =>
        { fileId := doc.fileId, instructions, version := doc.version } := by
  have hrows : ∀ strings items, List.mapM (wireTupleToOp (new.internAll strings)) items =
      (List.mapM indexRow items).bind fun rows => rows.mapM fun row =>
        tupleToOp (row.map fun i => (strings.eraseDups[i]?).getD "") := by
    intro strings items
    rw [← Lists.mapM_bind_option]
    refine congrArg (List.mapM · items) (funext fun tupleVal => ?_)
    rw [wireTupleToOp_eq]
    simp only [decodeOp, lookup, strings_internAll_new]
  simp only [wireToIr, document, fromJson, hrows, Option.bind_eq_bind, Option.bind_assoc,
    Option.bind_some, Option.map_eq_bind]
  rfl

/-- An accepted document refers only to positions of its own table, and every operation is the
one that the strings at these positions spell. -/
def RejectsDangling (value : Value) : Prop :=
  ∀ ir, wireToIr value = some ir → ∃ doc, document value = some doc ∧
    List.Forall₂ (fun row op => doc.InRange row ∧ tupleToOp (doc.written row) = some op)
      doc.rows ir.instructions

/-- A decoded document keeps its references exactly if every row means what it is read as. -/
theorem rejectsDangling_iff_rows (value : Value) :
    RejectsDangling value ↔ ∀ doc, document value = some doc →
      (∀ row ∈ doc.rows, doc.Legible row) → ∀ row ∈ doc.rows, doc.InRange row ∧
        tupleToOp (doc.written row) = tupleToOp (doc.readAs row) := by
  constructor
  · intro h doc hdoc hlegible row hrow
    obtain ⟨ops, hops⟩ := Lists.exists_mapM fun row hrow =>
      Document.legible_iff.mp (hlegible row hrow)
    have hdecode : wireToIr value = some ⟨doc.fileId, ops, doc.version⟩ := by
      rw [wireToIr_eq, hdoc, Option.bind_some, hops]
      rfl
    obtain ⟨doc', hdoc', hplaced⟩ := h _ hdecode
    cases hdoc.symm.trans hdoc'
    obtain ⟨hrange, hwritten⟩ := (List.forall₂_and_left _ _).mp hplaced
    exact ⟨hrange row hrow,
      (Lists.eq_of_mapM_eq_some (Lists.mapM_eq_some_iff.mp hops) hwritten row hrow).symm⟩
  · intro h ir hir
    rw [wireToIr_eq] at hir
    obtain ⟨doc, hdoc, hir⟩ := Option.bind_eq_some_iff.mp hir
    obtain ⟨ops, hops, rfl⟩ := Option.map_eq_some_iff.mp hir
    have hread := Lists.mapM_eq_some_iff.mp hops
    have hlegible : ∀ row ∈ doc.rows, doc.Legible row := by
      intro row hrow
      obtain ⟨op, -, hop⟩ := Lists.exists_right_of_forall₂ hread row hrow
      exact Document.legible_iff.mpr (Option.isSome_iff_exists.mpr ⟨op, hop⟩)
    refine ⟨doc, hdoc, ((List.forall₂_and_left _ _).mpr ⟨h doc hdoc hlegible, hread⟩).imp ?_⟩
    exact fun row op hboth => ⟨hboth.1.1, hboth.1.2.trans hboth.2⟩

/-- The decoder rejects dangling references exactly in documents with an illegible row, and in
those whose indices stay in range and, where they count, in front of what repeats disturb. -/
theorem rejectsDangling_iff (value : Value) :
    RejectsDangling value ↔ ∀ doc, document value = some doc →
      (∀ row ∈ doc.rows, doc.Legible row) →
      ∀ row ∈ doc.rows, doc.InRange row ∧
        ∀ opcode, (doc.readAs row).head? = some (DeltaOpcode.wireName opcode) →
          doc.Undisturbed row opcode := by
  rw [rejectsDangling_iff_rows]
  refine forall₂_congr fun doc _ => forall_congr' fun hlegible => forall₂_congr fun row hrow =>
    and_congr_right fun hrange => ?_
  obtain ⟨opcode, operands, hread, hoperands⟩ := hlegible row hrow
  rw [Document.undisturbed_iff hrange hread hoperands, hread, List.head?_cons]
  refine ⟨fun h found hfound => ?_, fun h => h opcode rfl⟩
  cases DeltaOpcode.wireName_injective (Option.some.inj hfound)
  exact h

/-- Without repeats in the table, only the range of the indices is left to check. -/
theorem rejectsDangling_iff_of_nodup {value : Value} {doc : Document}
    (hdoc : document value = some doc) (hnodup : doc.strings.Nodup) :
    RejectsDangling value ↔
      ((∀ row ∈ doc.rows, doc.Legible row) → ∀ row ∈ doc.rows, doc.InRange row) := by
  have hsame : ∀ row, doc.written row = doc.readAs row := fun row =>
    List.map_congr_left fun i _ => by
      rw [Document.writtenString, Document.readString, eraseDups_of_nodup hnodup]
  rw [rejectsDangling_iff_rows]
  constructor
  · exact fun h hlegible row hrow => (h doc hdoc hlegible row hrow).1
  · intro h doc' hdoc' hlegible row hrow
    cases hdoc.symm.trans hdoc'
    exact ⟨h hlegible row hrow, by rw [hsame]⟩

/-- An index past the table yields a class without a name. -/
theorem not_rejectsDangling_outOfRange :
    ¬RejectsDangling (.object [("file", .string "α1"), ("v", .ofU64 1),
      ("encoding", .string "string_table"), ("t", .ofStrings ["DEF_C", "C1"]),
      ("ir", .array [.array [.ofU64 0, .ofU64 1, .ofU64 7]])]) := by
  intro h
  obtain ⟨doc, hdoc, hplaced⟩ := h ⟨"α1", [.defClass "C1" ""], 1⟩ rfl
  cases hdoc
  have hrange := (List.forall₂_cons.mp hplaced).1.1 7 (by simp)
  exact absurd hrange (by decide)

end StringTable
end CleanCtx
