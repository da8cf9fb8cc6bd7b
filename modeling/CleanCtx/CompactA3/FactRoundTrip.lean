import CleanCtx.CompactA3.Document

/-!
Facts of the compact codec, written and read back. A text that is written as it is may open
a quote and leave it open, and the columns after it are then not found. Such a row is refused;
no row is read as another one.
-/
namespace CleanCtx
namespace CompactA3

section Columns

def columnOf : Option String → String
  | none => "-"
  | some text => quotedText text

theorem optionalQuoted_eq (value : Option String) (field : String) :
    optionalQuoted value field = .ok (columnOf value) := by
  cases value with
  | none => rfl
  | some text => rfl

variable {text : String} {value : Option String} {c : Char}

theorem toList_quotedText_of_not_bare (h : ¬isBare text) :
    (quotedText text).toList = JsonText.literal text.toList := by
  rw [quotedText, if_neg h, String.toList_ofList]

theorem isBare_iff : isBare text = true ↔
    text.toList ≠ [] ∧ text ≠ "-" ∧ text.toList.head? ≠ some '"' ∧
      ∀ c ∈ text.toList, reserved c = false := by
  simp [isBare, and_assoc]

theorem not_reserved_literal (hc : c ∈ JsonText.literal text.toList) : c ≠ '\r' ∧ c ≠ '\n' := by
  have hlow := JsonText.toNat_of_mem_literal hc
  constructor
  · rintro rfl
    exact absurd hlow (by decide)
  · rintro rfl
    exact absurd hlow (by decide)

theorem not_reserved_iff : reserved c = false ↔ c ≠ '|' ∧ c ≠ '\r' ∧ c ≠ '\n' := by
  simp [reserved, and_assoc]

theorem lineEnd_not_mem_columnOf (hc : c ∈ (columnOf value).toList) : c ≠ '\r' ∧ c ≠ '\n' := by
  cases value with
  | none =>
      rw [columnOf, show "-".toList = ['-'] from rfl, List.mem_singleton] at hc
      subst hc
      decide
  | some text =>
      rw [columnOf] at hc
      by_cases hbare : isBare text
      · rw [quotedText, if_pos hbare] at hc
        exact (not_reserved_iff.mp ((isBare_iff.mp hbare).2.2.2 c hc)).2
      · rw [toList_quotedText_of_not_bare hbare] at hc
        exact not_reserved_literal hc

theorem bare_of_isBare (h : isBare text) : Columns.Bare text.toList where
  nonempty := (isBare_iff.mp h).1
  head := (isBare_iff.mp h).2.2.1
  plain hsep := (not_reserved_iff.mp ((isBare_iff.mp h).2.2.2 _ hsep)).1 rfl

/-- A text that is written as it is closes every quote that it opens. -/
def Readable (text : String) : Prop :=
  isBare text = true → Columns.quotingAfter text.toList = .outside

instance : DecidablePred Readable := fun _ => inferInstanceAs (Decidable (_ → _))

theorem whole_columnOf_iff :
    Columns.Whole (columnOf value).toList ↔ ∀ text, value = some text → Readable text := by
  cases value with
  | none => exact iff_of_true (by decide) nofun
  | some text =>
      simp only [Option.some.injEq, forall_eq', columnOf, Readable]
      by_cases hbare : isBare text
      · rw [quotedText, if_pos hbare, Columns.whole_iff_of_plain (bare_of_isBare hbare).plain]
        exact ⟨fun hclosed _ => hclosed, fun hread => hread hbare⟩
      · rw [toList_quotedText_of_not_bare hbare]
        exact iff_of_true (Columns.whole_literal _) fun h => absurd h hbare

theorem whole_or_bare (value : Option String) :
    Columns.Whole (columnOf value).toList ∨ Columns.Bare (columnOf value).toList := by
  cases value with
  | none => exact .inl (by decide)
  | some text =>
      rw [columnOf]
      by_cases hbare : isBare text
      · rw [quotedText, if_pos hbare]
        exact .inr (bare_of_isBare hbare)
      · rw [toList_quotedText_of_not_bare hbare]
        exact .inl (Columns.whole_literal _)

theorem factString_columnOf (value : Option String) : factString (columnOf value) = .ok value := by
  cases value with
  | none => rfl
  | some text =>
      rw [columnOf]
      by_cases hbare : isBare text
      · obtain ⟨hne, hdash, hhead, hplain⟩ := isBare_iff.mp hbare
        rw [quotedText, if_pos hbare, factString, if_neg hdash, if_neg hhead, if_neg]
        rw [Bool.or_eq_true, List.any_eq_true, List.isEmpty_iff, not_or, not_exists]
        exact ⟨hne, fun c hc => Bool.false_ne_true ((hplain c hc.1).symm.trans hc.2)⟩
      · have hlist := toList_quotedText_of_not_bare hbare
        have hdash : quotedText text ≠ "-" := by
          intro h
          rw [h] at hlist
          have hhead : some '-' = some '"' := congrArg List.head? hlist
          exact absurd hhead (by decide)
        have hhead : (JsonText.literal text.toList).head? = some '"' := rfl
        rw [factString, if_neg hdash, hlist, if_pos hhead, JsonText.fromStr_literal]
        dsimp only
        rw [String.ofList_toList]

theorem clean_of_factString {column : String} (h : factString column = .ok value) :
    Columns.Clean column.toList := by
  rw [factString] at h
  split at h
  · next hdash =>
    rw [hdash]
    exact .inr (by decide)
  · split at h
    · next hquote => exact .inl hquote
    · split at h
      · cases h
      · next hplain =>
        refine .inr fun hsep => hplain ?_
        rw [Bool.or_eq_true, List.any_eq_true]
        exact .inr ⟨_, hsep, rfl⟩

end Columns

section Rows

abbrev Fact := Import ⊕ TypeAlias

def factTag : Fact → String
  | .inl _ => "$"
  | .inr _ => "T"

def factValues : Fact → List (Option String)
  | .inl entry => [entry.aliasName, entry.modulePath, entry.namedExport]
  | .inr entry => [entry.aliasName, entry.originalType]

def factRow (fact : Fact) : Row := factTag fact :: (factValues fact).map columnOf

/-- The entry behind those that were read before it, under the next number. -/
def Facts.add (facts : Facts) : Fact → Facts
  | .inl entry => { facts with
      imports := facts.imports ++ [{ entry with occurrence := facts.imports.length }] }
  | .inr entry => { facts with
      typeAliases := facts.typeAliases ++ [{ entry with occurrence := facts.typeAliases.length }] }

theorem importRow_eq (entry : Import) : importRow entry = .ok (factRow (.inl entry)) := by
  simp only [importRow, optionalQuoted_eq]
  rfl

theorem typeAliasRow_eq (entry : TypeAlias) : typeAliasRow entry = .ok (factRow (.inr entry)) := by
  simp only [typeAliasRow, optionalQuoted_eq]
  rfl

variable {fact : Fact} {facts facts' : Facts} {line : List Char}

theorem whole_factTag (fact : Fact) : Columns.Whole (factTag fact).toList := by
  cases fact with
  | inl entry => exact (by decide : Columns.Whole "$".toList)
  | inr entry => exact (by decide : Columns.Whole "T".toList)

theorem lineOf_factRow (fact : Fact) : lineOf (factRow fact) =
    Columns.join ((factTag fact).toList :: (factValues fact).map fun value =>
      (columnOf value).toList) := by
  rw [lineOf, factRow, List.map_cons, List.map_map]
  rfl

theorem split_lineOf (hwhole : ∀ value ∈ factValues fact, Columns.Whole (columnOf value).toList) :
    splitColumns (lineOf (factRow fact)) = .ok (factRow fact) := by
  have hsplit : Columns.split (lineOf (factRow fact)) = some ((factRow fact).map String.toList) := by
    rw [lineOf]
    refine Columns.split_join (List.cons_ne_nil _ _) ?_
    rw [factRow, List.map_cons, List.forall_mem_cons, List.map_map]
    refine ⟨whole_factTag fact, fun column hcolumn => ?_⟩
    obtain ⟨value, hvalue, rfl⟩ := List.mem_map.mp hcolumn
    exact hwhole value hvalue
  rw [splitColumns, hsplit]
  dsimp only
  rw [List.map_map, show String.ofList ∘ String.toList = id from funext fun s => String.ofList_toList, List.map_id]

theorem decodeFact_add (hwhole : ∀ value ∈ factValues fact, Columns.Whole (columnOf value).toList) :
    decodeFact facts (lineOf (factRow fact)) = .ok (facts.add fact) := by
  rw [decodeFact, split_lineOf hwhole]
  cases fact with
  | inl entry =>
      simp only [factRow, factTag, factValues, List.map_cons, List.map_nil, bind, Except.bind,
        factString_columnOf]
      rfl
  | inr entry =>
      simp only [factRow, factTag, factValues, List.map_cons, List.map_nil, bind, Except.bind,
        factString_columnOf]
      rfl

theorem bind_eq_ok {ε α β : Type} {m : Except ε α} {f : α → Except ε β} {b : β} :
    m >>= f = .ok b ↔ ∃ a, m = .ok a ∧ f a = .ok b := by
  cases m with
  | error e => exact iff_of_false nofun nofun
  | ok a => exact ⟨fun h => ⟨a, rfl, h⟩, fun ⟨_, ha, h⟩ => Except.ok.inj ha ▸ h⟩

theorem clean_of_decodeFact (h : decodeFact facts line = .ok facts') :
    ∃ columns, Columns.split line = some columns ∧ ∀ column ∈ columns, Columns.Clean column := by
  obtain ⟨row, hrow, h⟩ := bind_eq_ok.mp h
  rw [splitColumns] at hrow
  cases hsplit : Columns.split line with
  | none =>
      rw [hsplit] at hrow
      cases hrow
  | some columns =>
      rw [hsplit] at hrow
      cases hrow
      refine ⟨columns, rfl, ?_⟩
      have hall : ∀ column ∈ columns.map String.ofList, Columns.Clean column.toList := by
        split at h
        · next _ read heq =>
          rw [heq, List.forall_mem_cons]
          refine ⟨.inr (by decide), ?_⟩
          split at h
          · obtain ⟨_, hfirst, h⟩ := bind_eq_ok.mp h
            obtain ⟨_, hsecond, h⟩ := bind_eq_ok.mp h
            obtain ⟨_, hthird, -⟩ := bind_eq_ok.mp h
            simp only [List.forall_mem_cons]
            exact ⟨clean_of_factString hfirst, clean_of_factString hsecond,
              clean_of_factString hthird, nofun⟩
          · cases h
        · next _ read heq =>
          rw [heq, List.forall_mem_cons]
          refine ⟨.inr (by decide), ?_⟩
          split at h
          · obtain ⟨_, hfirst, h⟩ := bind_eq_ok.mp h
            obtain ⟨_, hsecond, -⟩ := bind_eq_ok.mp h
            simp only [List.forall_mem_cons]
            exact ⟨clean_of_factString hfirst, clean_of_factString hsecond, nofun⟩
          · cases h
        · cases h
      intro column hcolumn
      have hclean := hall _ (List.mem_map_of_mem hcolumn)
      rwa [String.toList_ofList] at hclean

/-- A written row is read as what it was written for, or refused. -/
theorem decodeFact_factRow : decodeFact facts (lineOf (factRow fact)) = .ok facts' ↔
    facts' = facts.add fact ∧ ∀ text, some text ∈ factValues fact → Readable text := by
  have hreadable : (∀ value ∈ factValues fact, Columns.Whole (columnOf value).toList) ↔
      ∀ text, some text ∈ factValues fact → Readable text := by
    simp only [whole_columnOf_iff]
    exact ⟨fun h text htext => h _ htext text rfl, fun h _ hvalue text htext => h text (htext ▸ hvalue)⟩
  rw [← hreadable]
  constructor
  · intro h
    obtain ⟨columns, hsplit, hclean⟩ := clean_of_decodeFact h
    have hwhole : ∀ value ∈ factValues fact, Columns.Whole (columnOf value).toList := by
      rw [lineOf_factRow] at hsplit
      have hall := Columns.whole_of_split ?_ hsplit hclean
      · exact fun value hvalue =>
          hall _ (List.mem_cons_of_mem _ (List.mem_map.mpr ⟨value, hvalue, rfl⟩))
      · rw [List.forall_mem_cons]
        refine ⟨.inl (whole_factTag fact), fun column hcolumn => ?_⟩
        obtain ⟨value, -, rfl⟩ := List.mem_map.mp hcolumn
        exact whole_or_bare value
    rw [decodeFact_add hwhole] at h
    exact ⟨(Except.ok.inj h).symm, hwhole⟩
  · rintro ⟨rfl, hwhole⟩
    exact decodeFact_add hwhole

end Rows

section Sections

variable {fact : Fact}

theorem mem_of_mem_join {columns : List (List Char)} {c : Char} (hc : c ∈ Columns.join columns) :
    c = '|' ∨ ∃ column ∈ columns, c ∈ column := by
  induction columns with
  | nil => cases hc
  | cons column columns ih =>
      cases columns with
      | nil =>
          rw [Columns.join, List.intercalate_singleton] at hc
          exact .inr ⟨column, List.mem_singleton_self _, hc⟩
      | cons next columns =>
          rw [Columns.join, List.intercalate_cons_cons, List.append_assoc, List.mem_append,
            List.singleton_append, List.mem_cons] at hc
          obtain hc | hc | hc := hc
          · exact .inr ⟨column, List.mem_cons_self, hc⟩
          · exact .inl hc
          · obtain hsep | ⟨found, hfound, hc⟩ := ih hc
            · exact .inl hsep
            · exact .inr ⟨found, List.mem_cons_of_mem _ hfound, hc⟩

theorem lineEnd_not_mem_lineOf {c : Char} (hc : c ∈ lineOf (factRow fact)) :
    c ≠ '\r' ∧ c ≠ '\n' := by
  rw [lineOf_factRow] at hc
  obtain rfl | ⟨column, hcolumn, hc⟩ := mem_of_mem_join hc
  · decide
  · obtain rfl | hcolumn := List.mem_cons.mp hcolumn
    · cases fact with
      | inl entry =>
          rw [factTag, show "$".toList = ['$'] from rfl, List.mem_singleton] at hc
          subst hc
          decide
      | inr entry =>
          rw [factTag, show "T".toList = ['T'] from rfl, List.mem_singleton] at hc
          subst hc
          decide
    · obtain ⟨value, -, rfl⟩ := List.mem_map.mp hcolumn
      exact lineEnd_not_mem_columnOf hc

theorem lines_textOf (entries : List Fact) :
    lines (textOf (entries.map factRow)) = entries.map (lineOf <| factRow ·) := by
  induction entries with
  | nil => rfl
  | cons fact entries ih =>
      rw [textOf] at ih
      rw [textOf, List.map_cons, List.flatMap_cons, List.append_assoc, List.singleton_append,
        lines_cons (fun h => (lineEnd_not_mem_lineOf h).2 rfl)
          (fun h => (lineEnd_not_mem_lineOf h).1 rfl), ih, List.map_cons]

/-- The rows of some entries are read one after the other. -/
theorem foldlM_decodeFact (entries : List Fact) (facts facts' : Facts) :
    (entries.map (lineOf <| factRow ·)).foldlM decodeFact facts = .ok facts' ↔
      facts' = entries.foldl Facts.add facts ∧
        ∀ fact ∈ entries, ∀ text, some text ∈ factValues fact → Readable text := by
  induction entries generalizing facts with
  | nil => exact ⟨fun h => ⟨(Except.ok.inj h).symm, nofun⟩, fun h => congrArg _ h.1.symm⟩
  | cons fact entries ih =>
      rw [List.map_cons, List.foldlM_cons, bind_eq_ok, List.foldl_cons, List.forall_mem_cons]
      constructor
      · rintro ⟨read, hread, hrest⟩
        obtain ⟨rfl, hfact⟩ := decodeFact_factRow.mp hread
        obtain ⟨heq, hentries⟩ := (ih _).mp hrest
        exact ⟨heq, hfact, hentries⟩
      · rintro ⟨heq, hfact, hentries⟩
        exact ⟨_, decodeFact_factRow.mpr ⟨rfl, hfact⟩, (ih _).mpr ⟨heq, hentries⟩⟩

def factsOf (normalized : Context) : Facts :=
  { imports := normalized.imports.mapIdx fun i entry => { entry with occurrence := i }
    typeAliases := normalized.typeAliases.mapIdx fun i entry => { entry with occurrence := i } }

def factEntries (normalized : Context) : List Fact :=
  normalized.imports.map .inl ++ normalized.typeAliases.map .inr

theorem factRows_eq (normalized : Context) :
    factRows normalized = .ok ((factEntries normalized).map factRow) := by
  have hmap : ∀ {α : Type} (f : α → Except String Row) (g : α → Fact)
      (_ : ∀ a, f a = .ok (factRow (g a))) (l : List α),
      l.mapM f = .ok ((l.map g).map factRow) := by
    intro α f g h l
    induction l with
    | nil => rfl
    | cons a l ih =>
        rw [List.mapM_cons, h, ih]
        rfl
  rw [factRows, hmap _ _ importRow_eq, hmap _ _ typeAliasRow_eq, factEntries, List.map_append]
  rfl

theorem foldl_add_imports (imports : List Import) (facts : Facts) :
    (imports.map Sum.inl).foldl Facts.add facts =
      { facts with imports := facts.imports ++
          imports.mapIdx fun i entry => { entry with occurrence := facts.imports.length + i } } := by
  induction imports generalizing facts with
  | nil => simp
  | cons entry imports ih =>
      rw [List.map_cons, List.foldl_cons, ih, Facts.add, List.mapIdx_cons]
      simp [Nat.add_assoc, Nat.add_comm 1]

theorem foldl_add_typeAliases (typeAliases : List TypeAlias) (facts : Facts) :
    (typeAliases.map Sum.inr).foldl Facts.add facts =
      { facts with typeAliases := facts.typeAliases ++
          typeAliases.mapIdx fun i entry =>
            { entry with occurrence := facts.typeAliases.length + i } } := by
  induction typeAliases generalizing facts with
  | nil => simp
  | cons entry typeAliases ih =>
      rw [List.map_cons, List.foldl_cons, ih, Facts.add, List.mapIdx_cons]
      simp [Nat.add_assoc, Nat.add_comm 1]

/-- The facts of a file are read back as they are, or the section is refused; it is refused
exactly if a text that is written as it is leaves a quote open. -/
theorem decodeFacts_factRows (normalized : Context) (facts : Facts) :
    (factRows normalized >>= fun rows => decodeFacts (textOf rows)) = .ok facts ↔
      facts = factsOf normalized ∧
        ∀ fact ∈ factEntries normalized, ∀ text, some text ∈ factValues fact → Readable text := by
  have hfold : (factEntries normalized).foldl Facts.add { imports := [], typeAliases := [] } =
      factsOf normalized := by
    rw [factEntries, List.foldl_append, foldl_add_imports, foldl_add_typeAliases]
    simp [factsOf]
  rw [factRows_eq, ← hfold, ← foldlM_decodeFact, ← lines_textOf]
  rfl

/-- An apostrophe is read back, a measure in inches is not. -/
example : Readable "it's" ∧ ¬Readable "3.5\" disk" := by decide

end Sections

end CompactA3
end CleanCtx
