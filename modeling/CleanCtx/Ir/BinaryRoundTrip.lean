import CleanCtx.Ir.BinaryWire
import CleanCtx.Ir.WireRoundTrip

/-!
The binary decoder inverts the binary encoder. Each reader is paired with the
bytes it takes by `Reads`; the pairs compose along the encoder's own structure,
up to the largest position a `usize` can hold.
-/
namespace CleanCtx
namespace Binary

theorem reads_readWord (truncated : String) (v : UInt64) :
    Reads usizeMax (readWord truncated) (writeVarint v) v := by
  intro pos rest _
  simp [readWord, StateT.run_bind, readVarint_writeVarint]
  rfl

theorem reads_readBytes (bytes : List UInt8) (truncated : String) :
    Reads usizeMax (readBytes bytes.length truncated) bytes bytes := by
  intro pos rest hlimit
  have hpos : ¬ pos + bytes.length > usizeMax := by omega
  have hrest : ¬ bytes.length + rest.length < bytes.length := by omega
  simp [readBytes, StateT.run_bind, hpos, hrest]
  rfl

theorem reads_readByte (truncated : String) (byte : UInt8) :
    Reads usizeMax (readByte truncated) [byte] byte := by
  intro pos rest _
  simp [readByte, StateT.run_bind]
  rfl

theorem writeString_ne_nil (s : String) : writeString s ≠ [] := by
  simp [writeString, writeVarint_ne_nil]

/-- The text behind its length, where there is something to read. -/
theorem reads_stringBody (i : Nat) (s : String)
    (hlength : (UInt64.ofNat (utf8 s).length).toNat = (utf8 s).length) :
    Reads usizeMax (do
      let len ← readWord ("string length for entry " ++ toString i)
      let bytes ← readBytes len.toNat ("string data for entry " ++ toString i)
      match String.fromUTF8? ⟨bytes.toArray⟩ with
      | some value => pure value
      | none => Reader.fail (.invalidUtf8 bytes) : Decode String)
      (writeVarint (UInt64.ofNat (utf8 s).length) ++ (utf8 s ++ [])) s := by
  refine (reads_readWord _ _).bind ?_
  rw [hlength]
  refine (reads_readBytes _ _).bind ?_
  rw [utf8_fromUTF8]
  exact reads_pure _ _

theorem reads_readString (i : Nat) (s : String) :
    Reads usizeMax (readString i) (writeString s) s := by
  refine Reads.of_limit fun hlimit => ?_
  have hlength : (UInt64.ofNat (utf8 s).length).toNat = (utf8 s).length := by
    rw [writeString, List.length_append] at hlimit
    rw [UInt64.toNat_ofNat', Nat.mod_eq_of_lt]
    unfold usizeMax at hlimit
    omega
  have hbody := reads_stringBody i s hlength
  rw [List.append_nil] at hbody
  intro pos rest hpos
  have hrest : writeString s ++ rest ≠ [] := by simp [writeString_ne_nil]
  refine Eq.trans ?_ (hbody pos rest hpos)
  simp only [readString, StateT.run_bind, StateT.run_get, writeString] at hrest ⊢
  rw [pure_bind]
  simp only [if_neg hrest]
  rfl

theorem opToIndex_le (op : CoreOp) : ¬ opToIndex op > opMax := by
  cases op with
  | call _ _ _ hasSpread => cases hasSpread <;> exact of_decide_eq_true rfl
  | _ => exact of_decide_eq_true rfl

/-- What the binary readers require of a payload; a list of dependencies may be empty. -/
def Readable : CoreOp → Prop
  | .methodModifiers _ modifiers | .classModifiers _ modifiers
  | .interfaceModifiers _ modifiers => modifiers ≠ []
  | .controlSummary _ summaries => summaries ≠ []
  | .patternFacts _ facts => facts ≠ [] ∧ ∀ fact ∈ facts, fact.Named
  | .body _ _ start stop => start.isSome = stop.isSome
  | _ => True

instance : DecidablePred Readable
  | .methodModifiers _ modifiers | .classModifiers _ modifiers
  | .interfaceModifiers _ modifiers => inferInstanceAs (Decidable (modifiers ≠ []))
  | .controlSummary _ summaries => inferInstanceAs (Decidable (summaries ≠ []))
  | .patternFacts _ facts =>
      inferInstanceAs (Decidable (facts ≠ [] ∧ ∀ fact ∈ facts, fact.Named))
  | .body _ _ start stop => inferInstanceAs (Decidable (start.isSome = stop.isSome))
  | .defClass .. | .defMethod .. | .defField .. | .defInterface .. | .defInterfaceMethod ..
  | .defInterfaceField .. | .param .. | .ret .. | .fieldType .. | .flags .. | .classFlags ..
  | .classExtends .. | .baseTypeRef .. | .interfaceExtends .. | .implements .. | .injects ..
  | .importModule .. | .typeAlias .. | .pattern .. | .dataFlow .. | .controlFlow ..
  | .sideEffect .. | .executionContext .. | .call .. =>
      isTrue trivial

theorem Readable.of_transportable {op : CoreOp} (h : op.Transportable) : Readable op := by
  cases op with
  | flags | classFlags | injects | pattern => trivial
  | _ => exact h

section Operands

variable {strings : List String} {strToIdx : HashMap String Nat}

/-- The bytes `encode_operand` writes for a string of the table. -/
def writeOperand (strToIdx : HashMap String Nat) (s : String) : List UInt8 :=
  writeVarint (UInt64.ofNat ((strToIdx.lookup s).getD 0))

variable (hindex : Indexes id strToIdx strings) (hlength : strings.length < 2 ^ 64)

include hindex in
theorem encodeOperand_ok {s : String} (hs : s ∈ strings) :
    encodeOperand strToIdx s = .ok (writeOperand strToIdx s) := by
  obtain ⟨idx, hidx⟩ := hindex.lookup_isSome hs
  simp only [id_eq] at hidx
  rw [encodeOperand, hidx, writeOperand, hidx]
  rfl

include hindex in
theorem encodeOperands_ok {ss : List String} (hss : ∀ s ∈ ss, s ∈ strings) :
    encodeOperands strToIdx ss = .ok (ss.flatMap (writeOperand strToIdx)) := by
  induction ss with
  | nil => rfl
  | cons s ss ih =>
      rw [encodeOperands, encodeOperand_ok hindex (hss s List.mem_cons_self), Rust.ok_bind,
        ih fun t ht => hss t (List.mem_cons_of_mem _ ht)]
      rfl

include hindex hlength in
theorem reads_readOperand {s : String} (hs : s ∈ strings) :
    Reads usizeMax (readOperand strings) (writeOperand strToIdx s) s := by
  obtain ⟨idx, hidx⟩ := hindex.lookup_isSome hs
  obtain ⟨a, hget, ha⟩ := hindex.sound hidx
  simp only [id_eq] at hidx ha
  have hbytes : writeOperand strToIdx s = writeVarint (UInt64.ofNat idx) ++ [] := by
    rw [writeOperand, hidx, Option.getD_some, List.append_nil]
  have htoNat : (UInt64.ofNat idx).toNat = idx := by
    rw [UInt64.toNat_ofNat', Nat.mod_eq_of_lt ((hindex.lt hidx).trans hlength)]
  rw [hbytes]
  refine (reads_readWord _ _).bind ?_
  rw [htoNat, hget, ha]
  exact reads_pure _ _

theorem writeOperand_ne_nil (s : String) : writeOperand strToIdx s ≠ [] := writeVarint_ne_nil _

/-- A counted list of non-empty encodings fits its count into a word. -/
theorem reads_counted {α β : Type} {item : Nat → Decode α} {write : α → List UInt8}
    {next : List α → Decode β} {bytes : List UInt8} {b : β} (truncated : String)
    (items : List α) (hne : ∀ a ∈ items, write a ≠ [])
    (hitem : ∀ i, ∀ a ∈ items, Reads usizeMax (item i) (write a) a)
    (hnext : Reads usizeMax (next items) bytes b) :
    Reads usizeMax (do
        let count ← readWord truncated
        let as ← Reader.many item 0 count.toNat
        next as)
      (writeVarint (UInt64.ofNat items.length) ++ (items.flatMap write ++ bytes)) b := by
  refine Reads.of_limit fun hlimit => (reads_readWord _ _).bind ?_
  have hcount : (UInt64.ofNat items.length).toNat = items.length := by
    have hle := length_le_flatMap hne
    rw [List.length_append, List.length_append] at hlimit
    rw [UInt64.toNat_ofNat', Nat.mod_eq_of_lt]
    unfold usizeMax at hlimit
    omega
  rw [hcount]
  exact (Reads.many items hitem 0).bind hnext

include hindex hlength in
theorem reads_variadic {opIdx : UInt8} {operands : List String} {op : CoreOp} (i : Nat)
    (hmax : ¬ opIdx > opMax) (hvariadic : isVariadic opIdx = true)
    (hoperands : ∀ s ∈ operands, s ∈ strings) (hop : variadicOp opIdx operands = pure op) :
    ∃ bytes, encodeVariadic strToIdx operands = .ok bytes ∧
      Reads usizeMax (readOp strings i) (opIdx :: bytes) op := by
  refine ⟨writeVarint (UInt64.ofNat operands.length) ++
    operands.flatMap (writeOperand strToIdx), ?_, ?_⟩
  · rw [encodeVariadic, encodeOperands_ok hindex hoperands]
    rfl
  · have hread := reads_counted "variadic operand count" operands
      (fun s _ => writeOperand_ne_nil s)
      (fun _ s hs => reads_readOperand hindex hlength (hoperands s hs))
      (hop ▸ reads_pure usizeMax op)
    refine (reads_readByte _ opIdx).bind (f := fun opIdx => _) ?_
    rw [if_neg hmax, if_pos hvariadic]
    simpa using hread

theorem reads_fixed {opIdx : UInt8} {bytes : List UInt8} {op : CoreOp} (i : Nat)
    (hmax : ¬ opIdx > opMax) (hfixed : isVariadic opIdx = false)
    (hread : Reads usizeMax (readFixed strings opIdx) bytes op) :
    Reads usizeMax (readOp strings i) (opIdx :: bytes) op := by
  have hvariadic : ¬ isVariadic opIdx = true := by simp [hfixed]
  refine (reads_readByte _ opIdx).bind (f := fun opIdx => _) ?_
  rw [if_neg hmax, if_neg hvariadic]
  exact hread

include hindex hlength in
theorem reads_read2 {a b : String} (build : String → String → CoreOp)
    (hmem : ∀ s ∈ [a, b], s ∈ strings) :
    Reads usizeMax (read2 strings build) ([a, b].flatMap (writeOperand strToIdx))
      (build a b) := by
  have ha := reads_readOperand hindex hlength (hmem a (by simp))
  have hb := reads_readOperand hindex hlength (hmem b (by simp))
  simpa [read2] using ha.bind (hb.map (build a))

include hindex hlength in
theorem reads_read3 {a b c : String} (build : String → String → String → CoreOp)
    (hmem : ∀ s ∈ [a, b, c], s ∈ strings) :
    Reads usizeMax (read3 strings build) ([a, b, c].flatMap (writeOperand strToIdx))
      (build a b c) := by
  have ha := reads_readOperand hindex hlength (hmem a (by simp))
  have hb := reads_readOperand hindex hlength (hmem b (by simp))
  have hc := reads_readOperand hindex hlength (hmem c (by simp))
  simpa [read3] using ha.bind (hb.bind (hc.map (build a b)))

include hindex hlength in
theorem written_fixed2 {opIdx : UInt8} {a b : String} {build : String → String → CoreOp}
    (i : Nat) (hmax : ¬ opIdx > opMax) (hfixed : isVariadic opIdx = false)
    (hread : readFixed strings opIdx = read2 strings build)
    (hmem : ∀ s ∈ [a, b], s ∈ strings) :
    ∃ bytes, encodeOperands strToIdx [a, b] = .ok bytes ∧
      Reads usizeMax (readOp strings i) (opIdx :: bytes) (build a b) := by
  refine ⟨_, encodeOperands_ok hindex hmem, reads_fixed i hmax hfixed ?_⟩
  rw [hread]
  exact reads_read2 hindex hlength build hmem

include hindex hlength in
theorem written_fixed3 {opIdx : UInt8} {a b c : String}
    {build : String → String → String → CoreOp} (i : Nat) (hmax : ¬ opIdx > opMax)
    (hfixed : isVariadic opIdx = false)
    (hread : readFixed strings opIdx = read3 strings build)
    (hmem : ∀ s ∈ [a, b, c], s ∈ strings) :
    ∃ bytes, encodeOperands strToIdx [a, b, c] = .ok bytes ∧
      Reads usizeMax (readOp strings i) (opIdx :: bytes) (build a b c) := by
  refine ⟨_, encodeOperands_ok hindex hmem, reads_fixed i hmax hfixed ?_⟩
  rw [hread]
  exact reads_read3 hindex hlength build hmem

include hindex hlength in
theorem written_param {mid pid ty name : String} (i : Nat)
    (hmem : ∀ s ∈ [mid, pid, ty, name], s ∈ strings) :
    ∃ bytes, encodeOperands strToIdx [mid, pid, ty, name] = .ok bytes ∧
      Reads usizeMax (readOp strings i) (opSig :: bytes) (.param mid pid ty name) := by
  have hmid := reads_readOperand hindex hlength (hmem mid (by simp))
  have hpid := reads_readOperand hindex hlength (hmem pid (by simp))
  have hty := reads_readOperand hindex hlength (hmem ty (by simp))
  have hname := reads_readOperand hindex hlength (hmem name (by simp))
  have hread : Reads usizeMax (readFixed strings opSig)
      (writeOperand strToIdx mid ++ (writeOperand strToIdx pid ++
        (writeOperand strToIdx ty ++ writeOperand strToIdx name))) (.param mid pid ty name) :=
    hmid.bind (hpid.bind (hty.bind (hname.map (CoreOp.param mid pid ty))))
  refine ⟨_, encodeOperands_ok hindex hmem, reads_fixed i (by decide) rfl ?_⟩
  simpa using hread

include hindex hlength in
theorem written_body {mid text : String} {start stop : Option UInt64} (i : Nat)
    (hspan : start.isSome = stop.isSome) (hmem : ∀ s ∈ [mid, text], s ∈ strings) :
    ∃ bytes, encodeFields strToIdx (.body mid text start stop) = .ok bytes ∧
      Reads usizeMax (readOp strings i) (opBody :: bytes) (.body mid text start stop) := by
  have hmid := reads_readOperand hindex hlength (hmem mid (by simp))
  have htext := reads_readOperand hindex hlength (hmem text (by simp))
  rw [encodeFields, encodeOperands_ok hindex hmem, Rust.ok_bind]
  cases start with
  | none =>
      cases stop with
      | some _ => cases hspan
      | none =>
          have hread : Reads usizeMax (readFixed strings opBody)
              (writeOperand strToIdx mid ++ (writeOperand strToIdx text ++ (writeVarint 0 ++ [])))
              (.body mid text none none) :=
            hmid.bind (htext.bind ((reads_readWord _ _).bind (reads_pure _ _)))
          refine ⟨_, rfl, reads_fixed i (by decide) rfl ?_⟩
          simpa using hread
  | some s =>
      cases stop with
      | none => cases hspan
      | some e =>
          have hread : Reads usizeMax (readFixed strings opBody)
              (writeOperand strToIdx mid ++ (writeOperand strToIdx text ++
                (writeVarint 1 ++ (writeVarint s ++ writeVarint e))))
              (.body mid text (some s) (some e)) :=
            hmid.bind (htext.bind ((reads_readWord _ _).bind
              ((reads_readWord _ _).bind ((reads_readWord _ _).map _))))
          refine ⟨_, rfl, reads_fixed i (by decide) rfl ?_⟩
          simpa using hread

include hindex hlength in
theorem written_call {caller callee : String} {argc : UInt64} {hasSpread : Bool} (i : Nat)
    (hmem : ∀ s ∈ [caller, callee], s ∈ strings) :
    ∃ bytes, encodeFields strToIdx (.call caller callee argc hasSpread) = .ok bytes ∧
      Reads usizeMax (readOp strings i) (opToIndex (.call caller callee argc hasSpread) :: bytes)
        (.call caller callee argc hasSpread) := by
  have hcaller := reads_readOperand hindex hlength (hmem caller (by simp))
  have hcallee := reads_readOperand hindex hlength (hmem callee (by simp))
  have hread : Reads usizeMax
      (readFixed strings (opToIndex (.call caller callee argc hasSpread)))
      (writeOperand strToIdx caller ++ (writeOperand strToIdx callee ++ writeVarint argc))
      (.call caller callee argc hasSpread) := by
    cases hasSpread <;> exact hcaller.bind (hcallee.bind ((reads_readWord _ _).map _))
  have hfixed : isVariadic (opToIndex (.call caller callee argc hasSpread)) = false := by
    cases hasSpread <;> rfl
  rw [encodeFields, encodeOperands_ok hindex hmem, Rust.ok_bind]
  refine ⟨_, rfl, reads_fixed i (opToIndex_le _) hfixed ?_⟩
  simpa using hread

theorem reads_kind {α : Type} {fromSerialized : String → Option α}
    (invalid : String → BinaryDecodeError) (build : String → α → CoreOp) (mid : String)
    {text : String} {a : α} (hvalue : fromSerialized text = some a) :
    Reads usizeMax (match fromSerialized text with
      | some a => pure (build mid a)
      | none => Reader.fail (invalid text) : Decode CoreOp) [] (build mid a) := by
  rw [hvalue]
  exact reads_pure _ _

include hindex hlength in
theorem written_kind {α : Type} {opIdx : UInt8} {fromSerialized : String → Option α}
    {invalid : String → BinaryDecodeError} {build : String → α → CoreOp} {mid text : String}
    {a : α} (i : Nat) (hmax : ¬ opIdx > opMax) (hfixed : isVariadic opIdx = false)
    (hread : readFixed strings opIdx = readKind strings fromSerialized invalid build)
    (hvalue : fromSerialized text = some a) (hmem : ∀ s ∈ [mid, text], s ∈ strings) :
    ∃ bytes, encodeOperands strToIdx [mid, text] = .ok bytes ∧
      Reads usizeMax (readOp strings i) (opIdx :: bytes) (build mid a) := by
  have hmid := reads_readOperand hindex hlength (hmem mid (by simp))
  have htext := reads_readOperand hindex hlength (hmem text (by simp))
  have hbuild := reads_kind invalid build mid hvalue
  have hkind : Reads usizeMax (readKind strings fromSerialized invalid build)
      (writeOperand strToIdx mid ++ (writeOperand strToIdx text ++ [])) (build mid a) :=
    hmid.bind (htext.bind hbuild)
  refine ⟨_, encodeOperands_ok hindex hmem, reads_fixed i hmax hfixed ?_⟩
  rw [hread]
  simpa using hkind

theorem readVocabulary_map {α : Type} {fromSerialized : String → Option α} {write : α → String}
    {invalid : String → BinaryDecodeError} (h : ∀ a, fromSerialized (write a) = some a)
    (values : List α) :
    readVocabulary fromSerialized invalid (values.map write) = pure values := by
  induction values with
  | nil => rfl
  | cons a values ih =>
      rw [List.map_cons, readVocabulary, h a]
      dsimp only
      rw [ih, pure_bind]

theorem targetAndPayload_ok {truncated : String} {read : String → List String → Decode CoreOp}
    {target : String} {values : List String} (h : values ≠ []) :
    targetAndPayload truncated read (target :: values) = read target values := by
  cases values with
  | nil => exact absurd rfl h
  | cons value values => rfl

theorem readModifiers_ok {name target : String}
    {build : String → List DeclarationModifier → CoreOp} {modifiers : List DeclarationModifier}
    (h : modifiers ≠ []) :
    readModifiers name build (target :: modifiers.map (·.asStr)) =
      pure (build target modifiers) := by
  rw [readModifiers, targetAndPayload_ok (by simpa using h),
    readVocabulary_map DeclarationModifier.fromSerialized_asStr, pure_bind]

theorem readSummaries_ok {methodId : String} {summaries : List ControlSummary}
    (h : summaries ≠ []) :
    readSummaries (methodId :: summaries.map (·.asStr)) =
      pure (.controlSummary methodId summaries) := by
  rw [readSummaries, targetAndPayload_ok (by simpa using h),
    readVocabulary_map ControlSummary.fromSerialized_asStr, pure_bind]

theorem readFacts_ok {methodId : String} {facts : List PatternFact}
    (h : facts ≠ [] ∧ ∀ fact ∈ facts, fact.Named) :
    readFacts (methodId :: serializeFacts facts) = pure (.patternFacts methodId facts) := by
  rw [readFacts, targetAndPayload_ok (mt (serializeFacts_eq_nil facts).mp h.1),
    parseAll_serializeFacts, if_pos h]

include hindex hlength in
/-- Every operation of a table's stream is written, and read back where its payload allows. -/
theorem encodeFields_reads (op : CoreOp) (hmem : ∀ s ∈ opToTuple op, s ∈ strings)
    (hread : Readable op) (i : Nat) :
    ∃ bytes, encodeFields strToIdx op = .ok bytes ∧
      Reads usizeMax (readOp strings i) (opToIndex op :: bytes) op := by
  cases op with
  | defClass | defInterface | ret | fieldType | classExtends | baseTypeRef | interfaceExtends
  | implements | typeAlias =>
      exact written_fixed2 hindex hlength i (opToIndex_le _) rfl rfl
        fun s hs => hmem s (List.mem_cons_of_mem _ hs)
  | defMethod | defField | defInterfaceMethod | defInterfaceField | importModule | dataFlow
  | controlFlow =>
      exact written_fixed3 hindex hlength i (opToIndex_le _) rfl rfl
        fun s hs => hmem s (List.mem_cons_of_mem _ hs)
  | param =>
      exact written_param hindex hlength i fun s hs => hmem s (List.mem_cons_of_mem _ hs)
  | methodModifiers | classModifiers | interfaceModifiers =>
      exact reads_variadic hindex hlength i (opToIndex_le _) rfl
        (fun s hs => hmem s (List.mem_cons_of_mem _ hs)) (readModifiers_ok hread)
  | controlSummary =>
      exact reads_variadic hindex hlength i (opToIndex_le _) rfl
        (fun s hs => hmem s (List.mem_cons_of_mem _ hs)) (readSummaries_ok hread)
  | patternFacts =>
      exact reads_variadic hindex hlength i (opToIndex_le _) rfl
        (fun s hs => hmem s (List.mem_cons_of_mem _ hs)) (readFacts_ok hread)
  | flags | classFlags | injects | pattern =>
      exact reads_variadic hindex hlength i (opToIndex_le _) rfl
        (fun s hs => hmem s (List.mem_cons_of_mem _ hs)) rfl
  | body mid text start stop =>
      refine written_body hindex hlength i hread fun s hs => hmem s ?_
      cases start <;> cases stop <;> simp [opToTuple] at hs ⊢ <;> tauto
  | sideEffect mid effect =>
      exact written_kind hindex hlength i (opToIndex_le _) rfl rfl
        (SideEffectKind.fromSerialized_asStr effect)
        fun s hs => hmem s (List.mem_cons_of_mem _ hs)
  | executionContext mid context =>
      exact written_kind hindex hlength i (opToIndex_le _) rfl rfl
        (ExecutionContextKind.fromSerialized_asStr context)
        fun s hs => hmem s (List.mem_cons_of_mem _ hs)
  | call caller callee argc hasSpread =>
      refine written_call hindex hlength i fun s hs => hmem s ?_
      simp [opToTuple] at hs ⊢
      tauto

def writeOp (strToIdx : HashMap String Nat) (op : CoreOp) : List UInt8 :=
  opToIndex op :: ((encodeFields strToIdx op).toOption.getD [])

include hindex in
theorem encodeFields_ok (op : CoreOp) (hmem : ∀ s ∈ opToTuple op, s ∈ strings) :
    ∃ bytes, encodeFields strToIdx op = .ok bytes := by
  have hvariadic : ∀ {operands}, (∀ s ∈ operands, s ∈ strings) →
      ∃ bytes, encodeVariadic strToIdx operands = .ok bytes := by
    intro operands hoperands
    rw [encodeVariadic, encodeOperands_ok hindex hoperands]
    exact ⟨_, rfl⟩
  cases op with
  | methodModifiers | classModifiers | interfaceModifiers | controlSummary | patternFacts
  | flags | classFlags | injects | pattern =>
      exact hvariadic fun s hs => hmem s (List.mem_cons_of_mem _ hs)
  | body mid text start stop =>
      have hoperands : ∀ s ∈ [mid, text], s ∈ strings := fun s hs => hmem s (by
        cases start <;> cases stop <;> simp [opToTuple] at hs ⊢ <;> tauto)
      rw [encodeFields, encodeOperands_ok hindex hoperands]
      cases start <;> cases stop <;> exact ⟨_, rfl⟩
  | call caller callee _ _ =>
      have hoperands : ∀ s ∈ [caller, callee], s ∈ strings := fun s hs => hmem s (by
        simp [opToTuple] at hs ⊢
        tauto)
      rw [encodeFields, encodeOperands_ok hindex hoperands]
      exact ⟨_, rfl⟩
  | _ => exact ⟨_, encodeOperands_ok hindex fun s hs => hmem s (List.mem_cons_of_mem _ hs)⟩

include hindex in
theorem encodeInstructions_ok {ops : List CoreOp}
    (hmem : ∀ op ∈ ops, ∀ s ∈ opToTuple op, s ∈ strings) :
    encodeInstructions strToIdx ops = .ok (ops.flatMap (writeOp strToIdx)) := by
  induction ops with
  | nil => rfl
  | cons op ops ih =>
      obtain ⟨bytes, hencode⟩ := encodeFields_ok hindex op (hmem op List.mem_cons_self)
      rw [encodeInstructions, hencode, Rust.ok_bind,
        ih fun o ho => hmem o (List.mem_cons_of_mem _ ho), List.flatMap_cons, writeOp, hencode]
      rfl

include hindex hlength in
theorem reads_readOp {op : CoreOp} (hmem : ∀ s ∈ opToTuple op, s ∈ strings)
    (hread : Readable op) (i : Nat) :
    Reads usizeMax (readOp strings i) (writeOp strToIdx op) op := by
  obtain ⟨bytes, hencode, hread⟩ := encodeFields_reads hindex hlength op hmem hread i
  rw [writeOp, hencode]
  exact hread

end Operands

theorem mem_encodeTable (ir : CompiledIR) {op : CoreOp} (hop : op ∈ ir.instructions)
    {s : String} (hs : s ∈ opToTuple op) : s ∈ (encodeTable ir).strings :=
  StringTable.subset_intern _ _ (StringTable.mem_fromInstructions hop hs)

/-- The string table, the file identity and the instructions, as `encode` lays them out. -/
def streamBytes (ir : CompiledIR) : List UInt8 :=
  let strings := (encodeTable ir).strings
  let strToIdx := indexFrom id 0 strings ∅
  writeVarint ir.version ++ (writeVarint (UInt64.ofNat strings.length) ++
    (strings.flatMap writeString ++ (writeOperand strToIdx ir.fileId ++
      (writeVarint (UInt64.ofNat ir.instructions.length) ++
        (ir.instructions.flatMap (writeOp strToIdx) ++ [])))))

theorem encode_ok (ir : CompiledIR) :
    encode ir = .ok (magic ++ [schemaVersion] ++ streamBytes ir) := by
  have hindex : Indexes id (indexFrom id 0 (encodeTable ir).strings ∅) (encodeTable ir).strings :=
    Indexes.empty.indexFrom _
  have hfile : ir.fileId ∈ (encodeTable ir).strings := StringTable.mem_intern _ _
  rw [encode, encodeOperand_ok hindex hfile, Rust.ok_bind,
    encodeInstructions_ok hindex fun _ hop _ hs => mem_encodeTable ir hop hs]
  simp [streamBytes, pure, Except.pure, Rust.ok_bind]

theorem reads_readStream (ir : CompiledIR) (hread : ∀ op ∈ ir.instructions, Readable op)
    (hlength : (encodeTable ir).strings.length < 2 ^ 64) :
    Reads usizeMax readStream (streamBytes ir) ir := by
  have hindex : Indexes id (indexFrom id 0 (encodeTable ir).strings ∅) (encodeTable ir).strings :=
    Indexes.empty.indexFrom _
  have hfile : ir.fileId ∈ (encodeTable ir).strings := StringTable.mem_intern _ _
  refine (reads_readWord _ _).bind ?_
  refine reads_counted _ _ (fun s _ => writeString_ne_nil s) (fun i s _ => reads_readString i s) ?_
  refine (reads_readOperand hindex hlength hfile).bind ?_
  exact reads_counted _ _ (fun op _ => List.cons_ne_nil _ _)
    (fun i op hop => reads_readOp hindex hlength (fun _ hs => mem_encodeTable ir hop hs)
      (hread op hop) i) (reads_pure _ _)

/-- A byte vector is no longer than its `usize` length can say. -/
def Addressable (ir : CompiledIR) : Prop :=
  ∀ bytes, encode ir = .ok bytes → bytes.length < 2 ^ 64

theorem Addressable.length_streamBytes {ir : CompiledIR} (h : Addressable ir) :
    3 + (streamBytes ir).length < 2 ^ 64 := by
  have hbytes := h _ (encode_ok ir)
  simp only [magic, List.length_append, List.length_cons, List.length_nil] at hbytes
  omega

theorem Addressable.length_strings {ir : CompiledIR} (h : Addressable ir) :
    (encodeTable ir).strings.length < 2 ^ 64 := by
  have hstream := h.length_streamBytes
  have hle : (encodeTable ir).strings.length ≤
      ((encodeTable ir).strings.flatMap writeString).length :=
    length_le_flatMap fun s _ => writeString_ne_nil s
  simp only [streamBytes, List.length_append] at hstream
  omega

theorem decode_streamBytes (ir : CompiledIR) (hread : ∀ op ∈ ir.instructions, Readable op)
    (hfits : Addressable ir) : decode (magic ++ [schemaVersion] ++ streamBytes ir) = .ok ir := by
  have hrun := reads_readStream ir hread hfits.length_strings 3 []
    (by have := hfits.length_streamBytes; unfold usizeMax; omega)
  rw [List.append_nil] at hrun
  have hir : readIr.run { pos := 3, rest := streamBytes ir } =
      .ok (ir, { pos := 3 + (streamBytes ir).length, rest := [] }) := by
    rw [readIr, StateT.run_bind, hrun]
    rfl
  change (readIr.run { pos := 3, rest := streamBytes ir }).map Prod.fst = _
  rw [hir]
  rfl

/-- Binary decoding inverts binary encoding, for every string content and table size. -/
theorem decode_encode (ir : CompiledIR) (hread : ∀ op ∈ ir.instructions, Readable op)
    (hfits : Addressable ir) : ∃ bytes, encode ir = .ok bytes ∧ decode bytes = .ok ir :=
  ⟨_, encode_ok ir, decode_streamBytes ir hread hfits⟩

theorem decode_encode_spanned :
    ∃ bytes, encode ⟨"é", [.patternFacts "M1" [.getter "x"], .body "M1" "{}" (some 3) (some 300)], 7⟩
        = .ok bytes ∧
      decode bytes =
        .ok ⟨"é", [.patternFacts "M1" [.getter "x"], .body "M1" "{}" (some 3) (some 300)], 7⟩ :=
  decode_encode _ (by decide) (by
    intro bytes h
    rw [encode_ok] at h
    cases h
    decide +kernel)

end Binary
end CleanCtx
