import CleanCtx.Library.Fallible
import CleanCtx.Library.PositionIndex
import CleanCtx.Ir.Wire

/-!
The string table and its JSON wire (`ir/string_table.rs`). A table carries the
proof that its index is exact and that no string is stored twice.
-/
namespace CleanCtx

/-- Strings in index order, and the index from strings back to positions. -/
structure StringTable where
  strings : List String
  indices : HashMap String Nat
  indexed : Indexes id indices strings
  nodup : strings.Nodup

namespace StringTable

def new : StringTable where
  strings := []
  indices := ∅
  indexed := Indexes.empty
  nodup := List.nodup_nil

theorem not_mem_strings (self : StringTable) {s : String} (h : self.indices.lookup s = none) :
    s ∉ self.strings := by
  intro hmem
  exact Finmap.lookup_eq_none.mp h (self.indexed.complete hmem)

/-- Intern a string: its index, and the table that holds it. -/
def intern (self : StringTable) (s : String) : Nat × StringTable :=
  match h : self.indices.lookup s with
  | some idx => (idx, self)
  | none =>
      (self.strings.length, {
        strings := self.strings ++ [s]
        indices := self.indices.insert s self.strings.length
        indexed := self.indexed.concat s
        nodup := List.nodup_append.mpr ⟨self.nodup, List.nodup_singleton s, by
          intro a ha b hb hab
          rw [List.mem_singleton.mp hb] at hab
          exact self.not_mem_strings h (hab ▸ ha)⟩ })

def internAll (self : StringTable) (ss : List String) : StringTable :=
  ss.foldl (fun table s => (table.intern s).2) self

def fromInstructions (instructions : List CoreOp) : StringTable :=
  instructions.foldl (fun table op => table.internAll (opToTuple op)) new

def lookup (self : StringTable) (idx : Nat) : Option String := self.strings[idx]?

def toJson (self : StringTable) : Value := .ofStrings self.strings

def fromJson (value : Value) : Option StringTable := do
  let arr ← value.asArray
  let ss ← arr.mapM Value.asStr
  some (new.internAll ss)

def encodeOp (op : CoreOp) (table : StringTable) : Rust (List Nat) :=
  (opToTuple op).mapM fun s =>
    expect "StringTable missing string — use from_instructions first" (table.indices.lookup s)

/-- Decode an operation; an index outside the table reads as the empty string. -/
def decodeOp (indices : List Nat) (table : StringTable) : Option CoreOp :=
  tupleToOp (indices.map fun idx => (table.lookup idx).getD "")

/-- `json!` of a list of `usize`. -/
def indicesToJson (indices : List Nat) : Value :=
  .array (indices.map fun i => .ofU64 (UInt64.ofNat i))

/-- Serialize a compiled IR to the string-table wire format. -/
def irToWire (ir : CompiledIR) : Rust Value := do
  let table := fromInstructions ir.instructions
  let irEncoded ← ir.instructions.mapM fun op => encodeOp op table
  pure (.object [("file", .string ir.fileId), ("v", .ofU64 ir.version),
    ("encoding", .string "string_table"), ("t", table.toJson),
    ("ir", .array (irEncoded.map indicesToJson))])

/-- One element of the `ir` array of a string-table wire. -/
def wireTupleToOp (table : StringTable) (tupleVal : Value) : Option CoreOp := do
  let indices ← (← tupleVal.asArray).mapM fun v => v.asU64.map UInt64.toNat
  decodeOp indices table

/-- Deserialize a compiled IR from the string-table wire format. -/
def wireToIr (value : Value) : Option CompiledIR := do
  let fileId ← (← value.get "file").asStr
  let version ← (← value.get "v").asU64
  let table ← fromJson (← value.get "t")
  let irArray ← (← value.get "ir").asArray
  let instructions ← irArray.mapM (wireTupleToOp table)
  some { fileId, instructions, version }

theorem intern_strings (self : StringTable) (s : String) :
    (self.intern s).2.strings = if s ∈ self.strings then self.strings else self.strings ++ [s] := by
  unfold intern
  split
  case h_1 idx h =>
    obtain ⟨a, hget, ha⟩ := self.indexed.sound h
    have hmem : s ∈ self.strings := by
      rw [← ha]
      exact List.mem_of_getElem? hget
    rw [if_pos hmem]
  case h_2 h => rw [if_neg (self.not_mem_strings h)]

theorem subset_intern (self : StringTable) (s : String) :
    self.strings ⊆ (self.intern s).2.strings := by
  intro a ha
  rw [intern_strings]
  split
  · exact ha
  · exact List.mem_append_left _ ha

theorem mem_intern (self : StringTable) (s : String) : s ∈ (self.intern s).2.strings := by
  rw [intern_strings]
  split
  · assumption
  · simp

theorem mem_internAll (self : StringTable) (ss : List String) {s : String}
    (h : s ∈ self.strings ∨ s ∈ ss) : s ∈ (self.internAll ss).strings := by
  induction ss generalizing self with
  | nil => simpa [internAll] using h
  | cons a ss ih =>
      refine ih (self.intern a).2 ?_
      rcases h with h | h
      · exact Or.inl (subset_intern self a h)
      · rcases List.mem_cons.mp h with rfl | h
        · exact Or.inl (mem_intern self s)
        · exact Or.inr h

theorem mem_fold_internAll (self : StringTable) (instructions : List CoreOp) {s : String}
    (h : s ∈ self.strings ∨ ∃ op ∈ instructions, s ∈ opToTuple op) :
    s ∈ (instructions.foldl (fun table op => table.internAll (opToTuple op)) self).strings := by
  induction instructions generalizing self with
  | nil => simpa using h
  | cons op ops ih =>
      refine ih (self.internAll (opToTuple op)) ?_
      rcases h with h | ⟨found, hmem, hs⟩
      · exact Or.inl (mem_internAll self _ (Or.inl h))
      · rcases List.mem_cons.mp hmem with rfl | hmem
        · exact Or.inl (mem_internAll self _ (Or.inr hs))
        · exact Or.inr ⟨found, hmem, hs⟩

/-- The table of a stream holds every string of its tuples. -/
theorem mem_fromInstructions {instructions : List CoreOp} {op : CoreOp}
    (hop : op ∈ instructions) {s : String} (hs : s ∈ opToTuple op) :
    s ∈ (fromInstructions instructions).strings :=
  mem_fold_internAll new instructions (Or.inr ⟨op, hop, hs⟩)

theorem internAll_nodup (self : StringTable) (ss : List String)
    (h : (self.strings ++ ss).Nodup) : (self.internAll ss).strings = self.strings ++ ss := by
  induction ss generalizing self with
  | nil => simp [internAll]
  | cons s ss ih =>
      have hnew : s ∉ self.strings := fun hmem =>
        (List.nodup_append.mp h).2.2 s hmem s List.mem_cons_self rfl
      have hstrings : (self.intern s).2.strings = self.strings ++ [s] := by
        rw [intern_strings, if_neg hnew]
      have hrest := ih (self.intern s).2 (by rw [hstrings]; simpa using h)
      rw [hstrings, List.append_assoc] at hrest
      exact hrest

theorem fromJson_toJson (self : StringTable) :
    ∃ table, fromJson self.toJson = some table ∧ table.strings = self.strings := by
  refine ⟨new.internAll self.strings, ?_, internAll_nodup new self.strings self.nodup⟩
  have hread : (self.strings.map Value.string).mapM Value.asStr = some self.strings := by
    induction self.strings with
    | nil => rfl
    | cons s ss ih => simp [ih]
  simp [fromJson, toJson, hread]

/-- The indices of strings a table holds lead back to them, in any table with the same strings. -/
theorem mapM_lookup_ok {table table' : StringTable} (hsame : table'.strings = table.strings)
    (message : String) {ss : List String} (h : ∀ s ∈ ss, s ∈ table.strings) :
    ∃ indices, (ss.mapM fun s => expect message (table.indices.lookup s)) = .ok indices ∧
      (∀ i ∈ indices, i < table.strings.length) ∧
      (indices.map fun idx => (table'.lookup idx).getD "") = ss := by
  induction ss with
  | nil => exact ⟨[], rfl, by simp, rfl⟩
  | cons s ss ih =>
      obtain ⟨idx, hidx⟩ := table.indexed.lookup_isSome (h s List.mem_cons_self)
      obtain ⟨a, hget, ha⟩ := table.indexed.sound hidx
      obtain ⟨indices, hrun, hlt, hmap⟩ := ih fun t ht => h t (List.mem_cons_of_mem _ ht)
      simp only [id_eq] at hidx ha
      refine ⟨idx :: indices, ?_, ?_, ?_⟩
      · rw [List.mapM_cons, hidx, expect_some, Rust.ok_bind, hrun]
        rfl
      · intro i hi
        rcases List.mem_cons.mp hi with rfl | hi
        · exact table.indexed.lt hidx
        · exact hlt i hi
      · rw [List.map_cons, hmap, lookup, hsame, hget, ha, Option.getD_some]

/-- Encoding through a table that holds the tuple, and decoding through one with the
same strings, is the tuple decoder. -/
theorem decodeOp_encodeOp {table table' : StringTable} {op : CoreOp}
    (hmem : ∀ s ∈ opToTuple op, s ∈ table.strings) (hsame : table'.strings = table.strings) :
    ∃ indices, encodeOp op table = .ok indices ∧ (∀ i ∈ indices, i < table.strings.length) ∧
      decodeOp indices table' = tupleToOp (opToTuple op) := by
  obtain ⟨indices, hrun, hlt, hmap⟩ := mapM_lookup_ok hsame
    "StringTable missing string — use from_instructions first" hmem
  exact ⟨indices, hrun, hlt, by rw [decodeOp, hmap]⟩

theorem mapM_asU64 {indices : List Nat} (h : ∀ i ∈ indices, i < 2 ^ 64) :
    (indices.map fun i => Value.ofU64 (UInt64.ofNat i)).mapM
      (fun v => v.asU64.map UInt64.toNat) = some indices := by
  induction indices with
  | nil => rfl
  | cons i indices ih =>
      have hi : (UInt64.ofNat i).toNat = i := by
        rw [UInt64.toNat_ofNat', Nat.mod_eq_of_lt (h i List.mem_cons_self)]
      rw [List.map_cons, List.mapM_cons, Value.asU64_ofU64, Option.map_some, hi,
        ih fun j hj => h j (List.mem_cons_of_mem _ hj)]
      rfl

end StringTable
end CleanCtx
