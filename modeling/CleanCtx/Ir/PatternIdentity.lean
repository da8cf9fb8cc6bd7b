import CleanCtx.Ir.IdentityCollector
import CleanCtx.Ir.PatternRegions

/-!
What pattern recognition keeps. The recognizers change a stream only by the operations that a
classification summarizes, so a valid stream stays valid, and each operation that disappears
is accounted for by a pattern that is emitted.
-/
namespace CleanCtx
namespace Patterns

/-- The operations that recognition may add or take out. -/
def isSummary : CoreOp → Bool
  | .pattern .. | .patternFacts .. | .flags .. | .injects .. => true
  | _ => false

theorem isSummary_of_owner {methodId : String} {op : CoreOp}
    (h : patternAnnotationOwner op = some methodId) : isSummary op = true := by
  cases op with
  | patternFacts | flags => rfl
  | _ => cases h

theorem isSummary_of_signature {methodId : String} {op : CoreOp}
    (h : signatureOwner op = some methodId) : isSummary op = false ∧ isAuthoritative op = false := by
  cases op with
  | param | ret => exact ⟨rfl, rfl⟩
  | _ => cases h

theorem isSummary_of_trailing {methodId : String} {op : CoreOp}
    (h : trailsMethod methodId op = true) : isSummary op = !isAuthoritative op := by
  cases op with
  | patternFacts | flags | methodModifiers | controlSummary => rfl
  | _ => cases h

theorem isSummary_of_override {methodId : String} {op : CoreOp}
    (h : isOverrideAnnotation op methodId = true) :
    isSummary op = true ∧ patternAnnotationOwner op = some methodId := by
  cases op with
  | patternFacts mid | flags mid =>
      exact ⟨rfl, congrArg some (of_decide_eq_true (Bool.and_eq_true_iff.mp h).1)⟩
  | _ => cases h

theorem isAuthoritative_of_isSummary {op : CoreOp} (h : isSummary op = true) :
    isAuthoritative op = false := by
  cases op with
  | methodModifiers | controlSummary => cases h
  | _ => rfl

def Summarizes (p : PatternOp) (op : CoreOp) : Prop :=
  patternAnnotationOwner op = some p.methodId ∨
    ∃ deps, p = .constructor p.classId p.methodId deps ∧ op = .injects p.classId deps

theorem Replaces.summarizes {p : PatternOp} {replaced : List CoreOp} (h : Replaces p replaced) :
    ∀ op ∈ replaced, isSummary op = true ∧ Summarizes p op := by
  intro op hop
  cases h with
  | nothing => cases hop
  | injects classId methodId deps =>
      rcases List.mem_singleton.mp hop with rfl
      exact ⟨rfl, Or.inr ⟨deps, rfl, rfl⟩⟩
  | override classId methodId found hannotation =>
      rcases List.mem_singleton.mp hop with rfl
      obtain ⟨hsummary, howner⟩ := isSummary_of_override hannotation
      exact ⟨hsummary, Or.inl howner⟩

namespace Region

variable (region : Region)

theorem isSummary_identity : ∀ op ∈ region.identity,
    isSummary op = false ∧ isAuthoritative op = false := by
  intro op hop
  rcases List.mem_cons.mp hop with rfl | hmem
  · exact ⟨rfl, rfl⟩
  · exact isSummary_of_signature (region.signs op hmem)

theorem filter_trailing : region.trailing.filter (fun op => !isSummary op) =
    region.trailing.filter isAuthoritative := by
  refine List.filter_congr fun op hop => ?_
  rw [isSummary_of_trailing (region.trails op hop), Bool.not_not]

theorem filter_span : region.span.filter (fun op => !isSummary op) =
    region.identity ++ region.trailing.filter isAuthoritative := by
  have hleading : region.leading.filter (fun op => !isSummary op) = [] :=
    List.filter_eq_nil_iff.mpr fun op hop => by simp [isSummary_of_owner (region.leads op hop)]
  have hreplaced : region.replaced.filter (fun op => !isSummary op) = [] :=
    List.filter_eq_nil_iff.mpr fun op hop => by simp [(region.replaces.summarizes op hop).1]
  have hidentity : region.identity.filter (fun op => !isSummary op) = region.identity :=
    List.filter_eq_self.mpr fun op hop => by simp [(region.isSummary_identity op hop).1]
  rw [span, List.filter_append, List.filter_append, List.filter_append, hleading, hidentity,
    hreplaced, region.filter_trailing, List.nil_append, List.append_nil]

theorem filter_emitted : region.emitted.filter (fun op => !isSummary op) =
    region.span.filter fun op => !isSummary op := by
  have hidentity : region.identity.filter (fun op => !isSummary op) = region.identity :=
    List.filter_eq_self.mpr fun op hop => by simp [(region.isSummary_identity op hop).1]
  have htrailing : (region.trailing.filter isAuthoritative).filter (fun op => !isSummary op) =
      region.trailing.filter isAuthoritative := by
    rw [← region.filter_trailing, List.filter_filter]
    simp only [Bool.and_self]
  rw [region.filter_span, emitted, List.filter_append, List.filter_append, hidentity, htrailing]
  exact List.append_nil _

/-- A region and its pattern are what is emitted and what is removed. -/
theorem perm :
    (region.span ++ [region.pattern.op]).Perm (region.emitted ++ region.removed) := by
  have htrailing := List.filter_append_perm isAuthoritative region.trailing
  refine List.perm_iff_count.mpr fun op => ?_
  have hcount := htrailing.count_eq op
  simp only [span, emitted, removed, List.count_append] at hcount ⊢
  omega

theorem summarizes_removed : ∀ op ∈ region.removed, Summarizes region.pattern op := by
  intro op hop
  rcases List.mem_append.mp hop with hfront | htrailing
  · rcases List.mem_append.mp hfront with hleading | hreplaced
    · exact Or.inl (region.leads op hleading)
    · exact (region.replaces.summarizes op hreplaced).2
  · obtain ⟨hmem, hauthority⟩ := List.mem_filter.mp htrailing
    refine Or.inl ?_
    have htrails := region.trails op hmem
    cases op with
    | patternFacts | flags => exact congrArg some (of_decide_eq_true htrails)
    | methodModifiers | controlSummary => cases hauthority
    | _ => cases htrails

theorem filter_authoritative :
    region.span.filter isAuthoritative = region.trailing.filter isAuthoritative := by
  have hnone : ∀ ops : List CoreOp, (∀ op ∈ ops, isAuthoritative op = false) →
      ops.filter isAuthoritative = [] := fun ops h =>
    List.filter_eq_nil_iff.mpr fun op hop => Bool.eq_false_iff.mp (h op hop)
  have hleading := hnone region.leading fun op hop =>
    isAuthoritative_of_isSummary (isSummary_of_owner (region.leads op hop))
  have hidentity := hnone region.identity fun op hop => (region.isSummary_identity op hop).2
  have hreplaced := hnone region.replaced fun op hop =>
    isAuthoritative_of_isSummary (region.replaces.summarizes op hop).1
  rw [span, List.filter_append, List.filter_append, List.filter_append, hleading, hidentity,
    hreplaced]
  rfl

end Region

section Blocks

variable {alphabet : Alphabet}

/-- What is emitted for a match is what its region emits. -/
theorem mergedItems_region {matched : PatternMatch} {span rest : List CoreOp}
    (h : attemptPattern alphabet (span ++ rest) = some (matched, span.length)) :
    ∃ region : Region, region.span = span ∧ region.pattern = matched.pattern ∧
      (mergedItems (.taken matched span)).map MergeItem.toOp = region.emitted := by
  obtain ⟨hlength, hmatch⟩ := attemptPattern_spec h
  obtain ⟨region, behind, hslice, hpattern, hstart, hretained, hconsumed⟩ :=
    tryCompressPattern_spec hmatch
  obtain ⟨rfl, -⟩ := List.append_inj hslice (hlength.trans hconsumed)
  have hpassed : MergeItem.toOp ∘ MergeItem.passthrough = id := rfl
  have hidentity : (region.span.drop matched.retainedStart).take matched.retained =
      region.identity := by
    rw [hstart, hretained, Region.span, List.append_assoc, List.append_assoc, List.drop_left,
      List.take_left]
  refine ⟨region, rfl, hpattern.symm, ?_⟩
  rw [mergedItems, hidentity, region.filter_authoritative, List.map_append, List.map_append,
    List.map_map, List.map_map, hpassed, List.map_id, List.map_id, List.map_singleton,
    toOp_pattern, hpattern]
  rfl

/-- A stretch of a stream: an operation that passes, or a region. -/
inductive Block
  | passed (op : CoreOp)
  | classified (region : Region)

namespace Block

def source : Block → List CoreOp
  | passed op => [op]
  | classified region => region.span

def emitted : Block → List CoreOp
  | passed op => [op]
  | classified region => region.emitted

def removed : Block → List CoreOp
  | passed _ => []
  | classified region => region.removed

def patterns : Block → List PatternOp
  | passed _ => []
  | classified region => [region.pattern]

theorem filter_emitted (block : Block) : block.emitted.filter (fun op => !isSummary op) =
    block.source.filter fun op => !isSummary op := by
  cases block with
  | passed op => rfl
  | classified region => exact region.filter_emitted

theorem perm (block : Block) :
    (block.source ++ block.patterns.map PatternOp.op).Perm (block.emitted ++ block.removed) := by
  cases block with
  | passed op => exact List.Perm.refl _
  | classified region => exact region.perm

end Block

theorem perm_blocks (blocks : List Block) :
    (blocks.flatMap Block.source ++ (blocks.flatMap Block.patterns).map PatternOp.op).Perm
      (blocks.flatMap Block.emitted ++ blocks.flatMap Block.removed) := by
  induction blocks with
  | nil => exact List.Perm.refl _
  | cons block blocks ih =>
      refine List.perm_iff_count.mpr fun op => ?_
      have hfirst := block.perm.count_eq op
      have hrest := ih.count_eq op
      simp only [List.flatMap_cons, List.map_append, List.count_append] at hfirst hrest ⊢
      omega

/-- The recognizer cuts a stream into blocks, and emits what they emit. -/
theorem exists_blocks (alphabet : Alphabet) (instructions : List CoreOp) :
    ∃ blocks : List Block, blocks.flatMap Block.source = instructions ∧
      blocks.flatMap Block.emitted = recognize alphabet instructions := by
  refine Scan.scan_induction
    (motive := fun instructions events => ∃ blocks : List Block,
      blocks.flatMap Block.source = instructions ∧
        blocks.flatMap Block.emitted = (events.flatMap mergedItems).map MergeItem.toOp)
    attemptPattern_advances ⟨[], rfl, rfl⟩ (fun matched span rest _ hmatch ih => ?_)
    (fun op rest _ ih => ?_) instructions
  · obtain ⟨blocks, hsource, hemitted⟩ := ih
    obtain ⟨region, rfl, -, hitems⟩ := mergedItems_region hmatch
    refine ⟨.classified region :: blocks, ?_, ?_⟩
    · rw [List.flatMap_cons, hsource]
      rfl
    · rw [List.flatMap_cons, List.flatMap_cons, List.map_append, hitems, hemitted]
      rfl
  · obtain ⟨blocks, hsource, hemitted⟩ := ih
    refine ⟨.passed op :: blocks, ?_, ?_⟩
    · rw [List.flatMap_cons, hsource]
      rfl
    · rw [List.flatMap_cons, List.flatMap_cons, List.map_append, hemitted]
      rfl

end Blocks

/-- A stream after recognition: the operations that no classification summarizes stay in order,
and the others are accounted for. -/
structure Accounted (before after added removed : List CoreOp) : Prop where
  kept : after.filter (fun op => !isSummary op) = before.filter fun op => !isSummary op
  perm : (before ++ added).Perm (after ++ removed)

namespace Accounted

variable {before after later added added' removed removed' : List CoreOp}

theorem trans (h : Accounted before after added removed)
    (h' : Accounted after later added' removed') :
    Accounted before later (added ++ added') (removed ++ removed') where
  kept := h'.kept.trans h.kept
  perm := by
    refine List.perm_iff_count.mpr fun op => ?_
    have hfirst := h.perm.count_eq op
    have hsecond := h'.perm.count_eq op
    simp only [List.count_append] at hfirst hsecond ⊢
    omega

theorem mem_iff (h : Accounted before after added removed) {op : CoreOp}
    (hop : isSummary op = false) : op ∈ after ↔ op ∈ before := by
  have hmem : ∀ ops : List CoreOp, op ∈ ops ↔ op ∈ ops.filter fun op => !isSummary op := by
    intro ops
    rw [List.mem_filter, hop]
    exact (and_iff_left rfl).symm
  rw [hmem after, h.kept, ← hmem before]

theorem owns_iff (h : Accounted before after added removed) {classId methodId : String} :
    Owns after classId methodId ↔ Owns before classId methodId :=
  exists_congr fun _ => h.mem_iff rfl

theorem declares (h : Accounted before after added removed) {kind : IdentityKind} {id : String}
    (hdeclares : Declares before kind id) : Declares after kind id := by
  obtain ⟨op, hop, hdefinition⟩ := hdeclares
  refine ⟨op, (h.mem_iff ?_).mpr hop, hdefinition⟩
  cases op with
  | pattern | patternFacts | flags | injects => cases hdefinition
  | _ => rfl

theorem slots_filter (ops : List CoreOp) :
    slots (ops.filter fun op => !isSummary op) = slots ops := by
  rw [slots, List.filterMap_filter]
  refine List.filterMap_congr fun op _ => ?_
  cases op <;> rfl

/-- Recognition keeps a stream valid where what it adds resolves. -/
theorem valid (h : Accounted before after added removed) (hvalid : Valid before)
    (hadded : ∀ op ∈ added, isSummary op = true ∧ op.Resolved before) : Valid after := by
  have hback : ∀ op ∈ after, isSummary op = false → op ∈ before := fun op hop hsummary =>
    (h.mem_iff hsummary).mp hop
  have hresolved : ∀ op ∈ after, op.Resolved before := by
    intro op hop
    rcases List.mem_append.mp (h.perm.mem_iff.mpr (List.mem_append_left removed hop)) with
      hbefore | hnew
    · exact hvalid.resolved op hbefore
    · exact (hadded op hnew).2
  refine ⟨fun op hop => ?_, ?_, fun op hop => ?_⟩
  · cases hsummary : isSummary op with
    | false => exact hvalid.named op (hback op hop hsummary)
    | true =>
        cases op with
        | pattern | patternFacts | flags | injects => exact List.not_mem_nil
        | _ => cases hsummary
  · rw [← slots_filter, h.kept, slots_filter]
    exact hvalid.unique
  · obtain ⟨htargets, hpayload, howner⟩ := hresolved op hop
    exact ⟨fun t ht => h.declares (htargets t ht), hpayload,
      fun o ho => h.owns_iff.mpr (howner o ho)⟩

end Accounted

section Recognizers

variable (alphabet : Alphabet) (instructions : List CoreOp)

/-- What the consumptive recognizer removes, its patterns summarize; and these classify methods
of the stream. -/
theorem recognize_accounted : ∃ (patterns : List PatternOp) (removed : List CoreOp),
    Accounted instructions (recognize alphabet instructions) (patterns.map PatternOp.op) removed ∧
      (∀ p ∈ patterns, Owns instructions p.classId p.methodId) ∧
      ∀ op ∈ removed, ∃ p ∈ patterns, Summarizes p op := by
  obtain ⟨blocks, rfl, hemitted⟩ := exists_blocks alphabet instructions
  rw [← hemitted]
  refine ⟨blocks.flatMap Block.patterns, blocks.flatMap Block.removed, ⟨?_, ?_⟩,
    fun p hp => ?_, fun op hop => ?_⟩
  · rw [List.filter_flatMap, List.filter_flatMap]
    exact List.flatMap_congr fun block _ => block.filter_emitted
  · exact perm_blocks blocks
  · obtain ⟨block, hblock, hmem⟩ := List.mem_flatMap.mp hp
    cases block with
    | passed op => cases hmem
    | classified region =>
        rcases List.mem_singleton.mp hmem with rfl
        refine ⟨region.name, List.mem_flatMap.mpr ⟨_, hblock, ?_⟩⟩
        simp [Block.source, Region.span, Region.identity]
  · obtain ⟨block, hblock, hmem⟩ := List.mem_flatMap.mp hop
    cases block with
    | passed other => cases hmem
    | classified region =>
        exact ⟨region.pattern, List.mem_flatMap.mpr ⟨_, hblock, List.mem_singleton_self _⟩,
          region.summarizes_removed op hmem⟩

def Announces (instructions : List CoreOp) (op : CoreOp) : Prop :=
  ∃ classId methodId fact, op = .patternFacts methodId [fact] ∧ Owns instructions classId methodId

variable {alphabet}

/-- The additive recognizer states a fact about the declaration that it looks at. -/
theorem Additive.attempt_spec {op : CoreOp} {rest : List CoreOp} {result : CoreOp × Nat}
    {consumed : Nat} (h : Additive.attempt alphabet (op :: rest) = some (result, consumed)) :
    consumed = 1 ∧ ∃ classId methodId name fact, op = .defMethod classId methodId name ∧
      result = (.patternFacts methodId [fact], 0) := by
  obtain ⟨found, hfound, heq⟩ := Option.map_eq_some_iff.mp h
  cases op with
  | defMethod classId methodId name =>
      suffices hfact : ∃ fact, found = (.patternFacts methodId [fact], 0) by
        obtain ⟨fact, rfl⟩ := hfact
        cases heq
        exact ⟨rfl, classId, methodId, name, fact, rfl, rfl⟩
      simp only [tryRecognizePattern, Option.orElse_eq_orElse, Option.orElse_eq_or,
        Option.or_eq_some_iff] at hfound
      rcases hfound with hctor | ⟨-, hobservable | ⟨-, haccessor⟩⟩
      · unfold tryCtorPattern at hctor
        dsimp only at hctor
        split_ifs at hctor
        cases hctor
        exact ⟨_, rfl⟩
      · unfold tryObservablePattern at hobservable
        dsimp only at hobservable
        split_ifs at hobservable
        cases hobservable
        exact ⟨_, rfl⟩
      · unfold tryAccessorPattern at haccessor
        dsimp only at haccessor
        split at haccessor
        · cases haccessor
          exact ⟨_, rfl⟩
        · split at haccessor
          · cases haccessor
            exact ⟨_, rfl⟩
          · cases haccessor
  | _ => cases hfound

theorem Additive.attempt_advances : Scan.Advances (Additive.attempt alphabet) := by
  intro slice result consumed h
  cases slice with
  | nil => cases h
  | cons op rest =>
      obtain ⟨rfl, -⟩ := Additive.attempt_spec h
      exact ⟨Nat.one_pos, Nat.le_add_left 1 rest.length⟩

theorem Announces.cons {op fact : CoreOp} {instructions : List CoreOp}
    (h : Announces instructions fact) : Announces (op :: instructions) fact := by
  obtain ⟨classId, methodId, stated, rfl, name, hmem⟩ := h
  exact ⟨classId, methodId, stated, rfl, name, List.mem_cons_of_mem op hmem⟩

variable (alphabet)

/-- The additive recognizer removes nothing. -/
theorem Additive.recognize_accounted : ∃ facts : List CoreOp,
    Accounted instructions (Additive.recognize alphabet instructions) facts [] ∧
      ∀ fact ∈ facts, Announces instructions fact := by
  refine Scan.scan_induction
    (motive := fun instructions events => ∃ facts : List CoreOp,
      Accounted instructions (events.flatMap Additive.emitted) facts [] ∧
        ∀ fact ∈ facts, Announces instructions fact)
    Additive.attempt_advances ⟨[], ⟨rfl, List.Perm.refl _⟩, fun fact h => absurd h List.not_mem_nil⟩
    (fun result span rest hspan hattempt ih => ?_) (fun op rest _ ih => ?_) instructions
  · obtain ⟨facts, ⟨hkept, hperm⟩, hfacts⟩ := ih
    obtain ⟨op, tail, rfl⟩ := List.exists_cons_of_ne_nil hspan
    obtain ⟨hlength, classId, methodId, name, fact, rfl, rfl⟩ := Additive.attempt_spec hattempt
    obtain rfl : tail = [] := List.eq_nil_of_length_eq_zero (Nat.succ.inj hlength)
    refine ⟨.patternFacts methodId [fact] :: facts, ⟨?_, ?_⟩, fun other hother => ?_⟩
    · rw [List.flatMap_cons, List.filter_append, hkept]
      rfl
    · refine List.perm_iff_count.mpr fun op => ?_
      have hcount := hperm.count_eq op
      simp only [List.flatMap_cons, Additive.emitted, if_pos, List.count_append, List.count_cons,
        List.count_nil] at hcount ⊢
      omega
    · rcases List.mem_cons.mp hother with rfl | hmem
      · exact ⟨classId, methodId, fact, rfl, name, List.mem_cons_self⟩
      · exact (hfacts other hmem).cons
  · obtain ⟨facts, ⟨hkept, hperm⟩, hfacts⟩ := ih
    refine ⟨facts, ⟨?_, ?_⟩, fun other hother => (hfacts other hother).cons⟩
    · rw [List.flatMap_cons, List.filter_append, hkept]
      exact (List.filter_append [op] rest).symm
    · exact hperm.cons op

variable {instructions}

theorem PatternOp.resolved {p : PatternOp} (hvalid : Valid instructions)
    (howns : Owns instructions p.classId p.methodId) : p.op.Resolved instructions := by
  have hoperands : patternOperands p.name p.args = .method ⟨p.classId⟩ ⟨p.methodId⟩ := by
    cases p <;> rfl
  have hpayload : p.name ≠ "" ∧ validArity p.name p.args = true := by
    cases p <;> simp [PatternOp.name, PatternOp.args, validArity]
  obtain ⟨name, hmem⟩ := howns
  refine ⟨fun t ht => ?_, hpayload, fun o ho => ?_⟩
  · rw [PatternOp.op, CoreOp.targets, hoperands] at ht
    rcases List.mem_cons.mp ht with rfl | ht
    · exact (hvalid.resolved _ hmem).targets _ List.mem_cons_self
    · rcases List.mem_singleton.mp ht with rfl
      exact ⟨_, hmem, rfl⟩
  · rw [PatternOp.op, CoreOp.ownership, hoperands] at ho
    cases ho
    exact ⟨name, hmem⟩

theorem Announces.resolved {fact : CoreOp} (h : Announces instructions fact) :
    isSummary fact = true ∧ fact.Resolved instructions := by
  obtain ⟨classId, methodId, stated, rfl, howns⟩ := h
  refine ⟨rfl, fun t ht => ?_, List.cons_ne_nil _ _, by rintro o ⟨⟩⟩
  rcases List.mem_singleton.mp ht with rfl
  exact howns.declares

theorem Additive.recognize_valid (hvalid : Valid instructions) :
    Valid (Additive.recognize alphabet instructions) := by
  obtain ⟨facts, haccounted, hfacts⟩ := Additive.recognize_accounted alphabet instructions
  exact haccounted.valid hvalid fun op hop => (hfacts op hop).resolved

theorem recognize_valid (hvalid : Valid instructions) : Valid (recognize alphabet instructions) := by
  obtain ⟨patterns, removed, haccounted, hpatterns, -⟩ := recognize_accounted alphabet instructions
  refine haccounted.valid hvalid fun op hop => ?_
  obtain ⟨p, hp, rfl⟩ := List.mem_map.mp hop
  exact ⟨rfl, PatternOp.resolved hvalid (hpatterns p hp)⟩

/-- A unit that the identity validator accepts before Pass 4 it accepts after it, and every
operation that no pattern summarizes is still there, in its place. -/
theorem patternRecognitionPass_keepsIdentity (ir : CompiledIR)
    (haccepted : ∃ index, validateIdentityGraph ir = .ok index) :
    (∃ index, validateIdentityGraph
        { ir with instructions := patternRecognitionPass alphabet ir.instructions } = .ok index) ∧
      (patternRecognitionPass alphabet ir.instructions).filter (fun op => !isSummary op) =
        ir.instructions.filter fun op => !isSummary op := by
  obtain ⟨facts, hadditive, -⟩ := Additive.recognize_accounted alphabet ir.instructions
  obtain ⟨patterns, removed, hconsumptive, -⟩ :=
    recognize_accounted alphabet (Additive.recognize alphabet ir.instructions)
  refine ⟨validateIdentityGraph_iff.mpr ?_, (hadditive.trans hconsumptive).kept⟩
  exact recognize_valid alphabet
    (Additive.recognize_valid alphabet (validateIdentityGraph_iff.mp haccepted))

/-- A class with a constructor and a return. -/
def constructorUnit : CompiledIR where
  fileId := "a.ts"
  instructions := [.defClass "C1" "A", .defMethod "C1" "M1" "constructor", .ret "M1" "A"]
  version := 1

theorem patternRecognitionPass_keepsIdentity_constructor :
    (∃ index, validateIdentityGraph
        { constructorUnit with
          instructions := patternRecognitionPass .ofAscii constructorUnit.instructions } =
            .ok index) ∧
      (patternRecognitionPass .ofAscii constructorUnit.instructions).filter
          (fun op => !isSummary op) =
        constructorUnit.instructions.filter fun op => !isSummary op :=
  patternRecognitionPass_keepsIdentity .ofAscii constructorUnit ⟨_, rfl⟩

variable (instructions)

/-- Everything that Pass 4 changes: the facts that it states are about methods of the stream, its
patterns classify methods of the stream, and what disappears a pattern summarizes. -/
theorem patternRecognitionPass_accounted :
    ∃ (facts : List CoreOp) (patterns : List PatternOp) (removed : List CoreOp),
      Accounted instructions (patternRecognitionPass alphabet instructions)
          (facts ++ patterns.map PatternOp.op) removed ∧
        (∀ fact ∈ facts, Announces instructions fact) ∧
        (∀ p ∈ patterns, Owns instructions p.classId p.methodId) ∧
        ∀ op ∈ removed, ∃ p ∈ patterns, Summarizes p op := by
  obtain ⟨facts, hadditive, hfacts⟩ := Additive.recognize_accounted alphabet instructions
  obtain ⟨patterns, removed, hconsumptive, hpatterns, hremoved⟩ :=
    recognize_accounted alphabet (Additive.recognize alphabet instructions)
  exact ⟨facts, patterns, removed, hadditive.trans hconsumptive, hfacts,
    fun p hp => hadditive.owns_iff.mp (hpatterns p hp), hremoved⟩

end Recognizers

/-! The pattern stream. -/

def MergeItem.pattern? : MergeItem → Option PatternOp
  | passthrough _ => none
  | pattern p => some p

theorem filterMap_passthrough (ops : List CoreOp) :
    (ops.map MergeItem.passthrough).filterMap MergeItem.pattern? = [] := by
  rw [List.filterMap_map]
  exact List.filterMap_eq_nil_iff.mpr fun _ _ => rfl

theorem mergedItems_pattern (matched : PatternMatch) (span : List CoreOp) :
    (mergedItems (.taken matched span)).filterMap MergeItem.pattern? = [matched.pattern] := by
  rw [mergedItems, List.filterMap_append, List.filterMap_append, filterMap_passthrough,
    filterMap_passthrough]
  rfl

/-- What the loop of `compress` adds to its state. -/
theorem foldl_compressStep (alphabet : Alphabet) (instructions : List CoreOp) :
    ∀ (output : List PatternOp) (stats : CompressionStats),
      (Scan.scan (attemptPattern alphabet) instructions).foldl compressStep (output, stats) =
        (output ++ (compressMerged alphabet instructions).filterMap MergeItem.pattern?,
          { sourceOps := stats.sourceOps + instructions.length
            outputOps := stats.outputOps +
              ((compressMerged alphabet instructions).filterMap MergeItem.pattern?).length }) := by
  refine Scan.scan_induction
    (motive := fun instructions events => ∀ (output : List PatternOp) (stats : CompressionStats),
      events.foldl compressStep (output, stats) =
        (output ++ (events.flatMap mergedItems).filterMap MergeItem.pattern?,
          { sourceOps := stats.sourceOps + instructions.length
            outputOps := stats.outputOps +
              ((events.flatMap mergedItems).filterMap MergeItem.pattern?).length }))
    attemptPattern_advances (fun output stats => ?_)
    (fun matched span rest _ hmatch ih output stats => ?_) (fun op rest _ ih output stats => ?_)
    instructions
  · rw [List.flatMap_nil, List.filterMap_nil, List.append_nil]
    rfl
  · obtain ⟨hlength, -⟩ := attemptPattern_spec hmatch
    rw [List.foldl_cons, compressStep, ih, List.flatMap_cons, List.filterMap_append,
      mergedItems_pattern, List.append_assoc, List.length_append, List.length_append, hlength,
      ← Nat.add_assoc, ← Nat.add_assoc]
    rfl
  · rw [List.foldl_cons, compressStep, ih, List.length_cons, Nat.add_right_comm]
    rfl

/-- The pattern stream has the patterns of the merged stream, and its statistics count every
operation of the source once. -/
theorem compress_agrees (alphabet : Alphabet) (instructions : List CoreOp) :
    (compress alphabet instructions).1 =
        (compressMerged alphabet instructions).filterMap MergeItem.pattern? ∧
      (compress alphabet instructions).2 =
        { sourceOps := instructions.length
          outputOps := (compress alphabet instructions).1.length } := by
  rw [compress, foldl_compressStep, List.nil_append, Nat.zero_add, Nat.zero_add]
  exact ⟨rfl, rfl⟩

end Patterns
end CleanCtx
