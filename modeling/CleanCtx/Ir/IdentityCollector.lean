import CleanCtx.Ir.IdentityValidity

/-!
The validator decides validity: the collected maps mirror what the processed
instructions define and state, so that each pass succeeds exactly when its
part of the condition holds.
-/
namespace CleanCtx
namespace Contracts

/-- The accumulators after the instructions `done`. -/
structure Collected (done : List CoreOp) (state : Collector) : Prop where
  kinds : ∀ id kind, state.definitionKinds.lookup id = some kind ↔ Declares done kind id
  classes : ∀ id, ⟨id⟩ ∈ state.index.classes ↔ Declares done .class id
  methods : ∀ id, ⟨id⟩ ∈ state.index.methods ↔ Declares done .method id
  fields : ∀ id, ⟨id⟩ ∈ state.index.fields ↔ Declares done .field id
  interfaces : ∀ id, ⟨id⟩ ∈ state.index.interfaces ↔ Declares done .interface id
  methodOwners : ∀ c m, state.index.methodOwners.lookup ⟨m⟩ = some ⟨c⟩ ↔ Owns done c m
  parameters : ∀ m p, (⟨m⟩, ⟨p⟩) ∈ state.facts.parameters ↔ Slot.parameter m p ∈ slots done
  returns : ∀ m, ⟨m⟩ ∈ state.facts.returns ↔ Slot.returnType m ∈ slots done
  fieldTypes : ∀ f, ⟨f⟩ ∈ state.facts.fieldTypes ↔ Slot.fieldType f ∈ slots done
  classBases : ∀ c, ⟨c⟩ ∈ state.facts.classBases ↔ Slot.classBase c ∈ slots done
  bodies : ∀ m, ⟨m⟩ ∈ state.facts.bodies ↔ Slot.body m ∈ slots done
  importAliases : ∀ a, a ∈ state.facts.importAliases ↔ Slot.importAlias a ∈ slots done

/-- What the first pass requires of an operation after the instructions `done`. -/
def Fresh (done : List CoreOp) (op : CoreOp) : Prop :=
  "" ∉ op.requiredIds ∧ ∀ s, op.slot = some s → s ∉ slots done

theorem collected_empty : Collected [] Collector.empty := by
  constructor <;> simp [Collector.empty, Declares, Owns, slots, Finmap.notMem_empty]

theorem requireNonEmpty_decides {operation : String} {kind : IdentityKind} {rawId : String}
    {owner : Option String} {instruction : Nat} :
    Decides ("" ≠ rawId) (fun _ => True)
      (requireNonEmpty operation kind rawId owner instruction) := by
  unfold requireNonEmpty
  by_cases h : rawId = ""
  · rw [if_pos h]; exact .error fun hne => hne h.symm
  · rw [if_neg h]; exact .ok (fun he => h he.symm) trivial

theorem insertDefinition_decides {κ : Type} [DecidableEq κ] {definitions : HashMap κ Nat}
    {key : κ} {operation : String} {kind : IdentityKind} {rawId : String}
    {owner : Option String} {instruction : Nat} :
    Decides (key ∉ definitions) (· = definitions.insert key instruction)
      (insertDefinition definitions key operation kind rawId owner instruction) := by
  unfold insertDefinition
  cases h : definitions.lookup key with
  | none => exact .ok (Finmap.lookup_eq_none.mp h) rfl
  | some first => exact .error fun hfree => hfree (Finmap.mem_of_lookup_eq_some h)

theorem insertSingular_decides {κ : Type} [DecidableEq κ] {facts : HashMap κ Nat}
    {key : κ} {operation : String} {kind : IdentityKind} {rawId : String} {instruction : Nat} :
    Decides (key ∉ facts) (· = facts.insert key instruction)
      (insertSingular facts key operation kind rawId instruction) := by
  unfold insertSingular
  cases h : facts.lookup key with
  | none => exact .ok (Finmap.lookup_eq_none.mp h) rfl
  | some first => exact .error fun hfree => hfree (Finmap.mem_of_lookup_eq_some h)

/-- The inlined form of the same check, for facts with an error of their own. -/
theorem absent_decides {κ : Type} [DecidableEq κ] {facts : HashMap κ Nat} {key : κ}
    {duplicate : Nat → IdentityError} {next : Collector} {post : Collector → Prop}
    (hpost : post next) :
    Decides (key ∉ facts) post
      (match facts.lookup key with
      | some first => (.error (duplicate first) : Checked Collector)
      | none => .ok next) := by
  cases h : facts.lookup key with
  | none => exact .ok (Finmap.lookup_eq_none.mp h) hpost
  | some first => exact .error fun hfree => hfree (Finmap.mem_of_lookup_eq_some h)

theorem registerDefinitionKind_decides {definitions : HashMap String IdentityKind}
    {operation rawId : String} {kind : IdentityKind} {instruction : Nat} :
    Decides (∀ actual, definitions.lookup rawId = some actual → actual = kind)
      (fun definitions' => ∀ id k, definitions'.lookup id = some k ↔
        (k = kind ∧ id = rawId) ∨ definitions.lookup id = some k)
      (registerDefinitionKind definitions operation rawId kind instruction) := by
  unfold registerDefinitionKind
  cases h : definitions.lookup rawId with
  | none =>
      refine .ok (by simp) fun id k => ?_
      rw [HashMap.lookup_insert_iff]
      by_cases hid : id = rawId
      · subst hid; simp [h]
      · simp [hid]
  | some actual =>
      dsimp only
      split
      · rename_i heq
        refine .ok (by simpa using heq) fun id k => ?_
        refine ⟨Or.inr, ?_⟩
        rintro (⟨rfl, rfl⟩ | hk)
        · rw [h, heq]
        · exact hk
      · rename_i hne
        exact .error fun hall => hne (hall actual rfl)

/-- The two registrations of a definition decide that its identity is free. -/
theorem define_decides {done : List CoreOp} {definitions : HashMap String IdentityKind}
    {κ : Type} [DecidableEq κ] {index : HashMap κ Nat} {key : κ} {operation operation' : String}
    {kind : IdentityKind} {rawId : String} {owner : Option String} {instruction : Nat}
    {next : HashMap String IdentityKind → HashMap κ Nat → Collector} {post : Collector → Prop}
    (hkinds : ∀ id k, definitions.lookup id = some k ↔ Declares done k id)
    (hkey : key ∈ index ↔ Declares done kind rawId)
    (hpost : ∀ definitions', (∀ id k, definitions'.lookup id = some k ↔
        (k = kind ∧ id = rawId) ∨ Declares done k id) →
      (∀ k, ¬Declares done k rawId) →
      post (next definitions' (index.insert key instruction))) :
    Decides (Slot.definition rawId ∉ slots done) post (do
      let definitions' ← registerDefinitionKind definitions operation rawId kind instruction
      let index' ← insertDefinition index key operation' kind rawId owner instruction
      .ok (next definitions' index')) := by
  refine Decides.congr (Decides.bind registerDefinitionKind_decides
    fun definitions' hsame hdefinitions => insertDefinition_decides.bind_ok ?_) ?_
  · rintro _ hfree rfl
    refine hpost definitions' (fun id k => by rw [hdefinitions, hkinds]) fun k hk => ?_
    rw [hkey] at hfree
    exact hfree (hsame k ((hkinds _ _).mpr hk) ▸ hk)
  · simp only [mem_slots_definition, hkey, hkinds]
    constructor
    · rintro ⟨hsame, hfree⟩ ⟨k, hk⟩
      exact hfree (hsame k hk ▸ hk)
    · intro hfree
      exact ⟨fun k hk => absurd ⟨k, hk⟩ hfree, fun h => hfree ⟨kind, h⟩⟩

section Step

attribute [local simp] declares_concat owns_concat mem_slots_concat Fresh CoreOp.definition
  CoreOp.slot CoreOp.requiredIds HashMap.lookup_insert_iff

/-- One instruction of the first pass. -/
theorem collectOp_decides {done : List CoreOp} {state : Collector} (h : Collected done state)
    (instruction : Nat) (op : CoreOp) :
    Decides (Fresh done op) (Collected (done ++ [op])) (collectOp state instruction op) := by
  obtain ⟨hkinds, hclasses, hmethods, hfields, hinterfaces, howners, hparameters, hreturns,
    hfieldTypes, hbases, hbodies, haliases⟩ := h
  cases op with
  | defClass id name =>
      refine Decides.congr (requireNonEmpty_decides.bind fun _ _ _ =>
        define_decides hkinds (hclasses id) fun _ hdefinitions _ => ?_) (by simp)
      constructor <;> simp [*]
  | defMethod owner id name =>
      refine Decides.congr (requireNonEmpty_decides.bind fun _ _ _ =>
        requireNonEmpty_decides.bind fun _ _ _ =>
        define_decides hkinds (hmethods id) fun _ hdefinitions hfree => ?_) (by simp [and_assoc])
      have hnew : ∀ c, ¬Owns done c id := fun c hc => hfree _ hc.declares
      have howned : ∀ c m, (m = id ∧ c = owner ∨ ¬m = id ∧ Owns done c m) ↔
          ((owner = c ∧ id = m) ∨ Owns done c m) := by
        intro c m
        by_cases hm : m = id
        · subst hm; simp [hnew, eq_comm]
        · simp [hm, Ne.symm hm]
      constructor <;> simp [*]
  | defField owner id name =>
      refine Decides.congr (requireNonEmpty_decides.bind fun _ _ _ =>
        requireNonEmpty_decides.bind fun _ _ _ =>
        define_decides hkinds (hfields id) fun _ hdefinitions _ => ?_) (by simp [and_assoc])
      constructor <;> simp [*]
  | defInterface id name =>
      refine Decides.congr (requireNonEmpty_decides.bind fun _ _ _ =>
        define_decides hkinds (hinterfaces id) fun _ hdefinitions _ => ?_) (by simp)
      constructor <;> simp [*]
  | defInterfaceMethod owner id name =>
      refine Decides.congr (requireNonEmpty_decides.bind fun _ _ _ =>
        requireNonEmpty_decides.bind fun _ _ _ =>
        define_decides hkinds (hmethods id) fun _ hdefinitions _ => ?_) (by simp [and_assoc])
      constructor <;> simp [*]
  | defInterfaceField owner id name =>
      refine Decides.congr (requireNonEmpty_decides.bind fun _ _ _ =>
        requireNonEmpty_decides.bind fun _ _ _ =>
        define_decides hkinds (hfields id) fun _ hdefinitions _ => ?_) (by simp [and_assoc])
      constructor <;> simp [*]
  | param m p type name =>
      refine Decides.congr (requireNonEmpty_decides.bind fun _ _ _ =>
        requireNonEmpty_decides.bind fun _ _ _ =>
        insertDefinition_decides.bind_ok ?_) (by simp [hparameters, and_assoc])
      rintro _ _ rfl
      constructor <;> simp [*]
  | ret m type =>
      refine Decides.congr (requireNonEmpty_decides.bind fun _ _ _ => absent_decides ?_)
        (by simp [hreturns])
      constructor <;> simp [*]
  | fieldType f type =>
      refine Decides.congr (requireNonEmpty_decides.bind fun _ _ _ => absent_decides ?_)
        (by simp [hfieldTypes])
      constructor <;> simp [*]
  | classExtends c _ | baseTypeRef c _ =>
      refine Decides.congr (insertSingular_decides.bind_ok ?_) (by simp [hbases])
      rintro _ _ rfl
      constructor <;> simp [*]
  | importModule a module named =>
      refine Decides.congr (requireNonEmpty_decides.bind fun _ _ _ =>
        insertDefinition_decides.bind_ok ?_) (by simp [haliases])
      rintro _ _ rfl
      constructor <;> simp [*]
  | typeAlias a original =>
      refine Decides.congr (requireNonEmpty_decides.bind fun _ _ _ =>
        Decides.ok trivial ?_) (by simp)
      constructor <;> simp [*]
  | body m text start stop =>
      refine Decides.congr (insertSingular_decides.bind_ok ?_) (by simp [hbodies])
      rintro _ _ rfl
      constructor <;> simp [*]
  | _ =>
      refine Decides.ok (by simp) ?_
      constructor <;> simp [*]

end Step

/-- What the first pass requires of the rest of a stream. -/
theorem fresh_cons {done ops : List CoreOp} {op : CoreOp} :
    (Fresh done op ∧ (∀ o ∈ ops, "" ∉ o.requiredIds) ∧ (slots (done ++ [op] ++ ops)).Nodup) ↔
      ((∀ o ∈ op :: ops, "" ∉ o.requiredIds) ∧ (slots (done ++ op :: ops)).Nodup) := by
  have hsplit : done ++ [op] ++ ops = done ++ op :: ops := by simp
  rw [hsplit]
  constructor
  · rintro ⟨⟨hnamed, _⟩, hrest, hunique⟩
    exact ⟨by simpa [hnamed] using hrest, hunique⟩
  · rintro ⟨hnamed, hunique⟩
    refine ⟨⟨hnamed op (by simp), fun s hs hmem => ?_⟩,
      fun o ho => hnamed o (List.mem_cons_of_mem _ ho), hunique⟩
    rw [slots, List.filterMap_append, List.filterMap_cons_some hs] at hunique
    exact (List.nodup_append.mp hunique).2.2 s hmem s List.mem_cons_self rfl

theorem slots_concat_nodup {done : List CoreOp} {op : CoreOp} (hdone : (slots done).Nodup)
    (h : Fresh done op) : (slots (done ++ [op])).Nodup := by
  cases hs : op.slot with
  | none => simpa [slots, hs] using hdone
  | some s =>
      have hnew := h.2 s hs
      have hslots : slots (done ++ [op]) = slots done ++ [s] := by simp [slots, hs]
      rw [hslots]
      exact hdone.append (List.nodup_singleton s) (by simpa using hnew)

/-- The collecting loop, by induction on the instructions left. -/
theorem collectFrom_decides (ops : List CoreOp) :
    ∀ {done : List CoreOp} {state : Collector} (i : Nat), Collected done state →
      (slots done).Nodup →
      Decides ((∀ op ∈ ops, "" ∉ op.requiredIds) ∧ (slots (done ++ ops)).Nodup)
        (Collected (done ++ ops)) (collectFrom i ops state) := by
  induction ops with
  | nil =>
      intro done state i h hunique
      exact .ok (by simpa using hunique) (by simpa using h)
  | cons op ops ih =>
      intro done state i h hunique
      refine Decides.congr ((collectOp_decides h i op).bind fun state' hfresh hnext => ?_)
        fresh_cons
      refine (ih (i + 1) hnext (slots_concat_nodup hunique hfresh)).mono fun _ _ hdone => ?_
      simpa using hdone

section References

variable {ops : List CoreOp} {state : Collector}

theorem resolves_iff (h : Collected ops state) (id : String) (kind : IdentityKind) :
    resolves state.index id kind = true ↔ Declares ops kind id := by
  have hnone : ∀ op ∈ ops, ∀ k, op.definition = some k →
      k.1 ≠ .parameter ∧ k.1 ≠ .importAlias ∧ k.1 ≠ .typeAlias := by
    rintro op - k hk
    cases op <;> cases hk <;> simp
  cases kind with
  | «class» => simpa [resolves] using h.classes id
  | method => simpa [resolves] using h.methods id
  | field => simpa [resolves] using h.fields id
  | interface => simpa [resolves] using h.interfaces id
  | parameter | importAlias | typeAlias =>
      simp only [resolves, Bool.false_eq_true, false_iff]
      rintro ⟨op, hop, hdef⟩
      have := hnone op hop _ hdef
      simp at this

theorem requireTarget_decides (h : Collected ops state) (hnamed : ∀ op ∈ ops, "" ∉ op.requiredIds)
    {operation rawId : String} {kind : IdentityKind} {instruction : Nat} :
    Decides (Declares ops kind rawId) (fun _ => True)
      (requireTarget operation rawId kind instruction state.index) := by
  refine Decides.congr (requireNonEmpty_decides.bind fun _ _ _ => ?_)
    (Iff.intro And.right fun hdeclared => ⟨(hdeclared.ne_empty hnamed).symm, hdeclared⟩)
  rw [← resolves_iff h]
  by_cases hresolved : resolves state.index rawId kind = true
  · rw [if_pos hresolved]
    exact .ok hresolved trivial
  · rw [if_neg hresolved]
    split <;> exact .error hresolved

theorem requireNonEmptyPayload_decides {α : Type} {operation : String} {values : List α}
    {instruction : Nat} :
    Decides (values ≠ []) (fun _ => True)
      (requireNonEmptyPayload operation values instruction) := by
  cases values with
  | nil => exact .error fun h => h rfl
  | cons v values => exact .ok (by simp) trivial

theorem rejectTypedFlagPayload_decides {operation : String} {values : List String}
    {instruction : Nat} :
    Decides (∀ v ∈ values, isTypedFlag v = false) (fun _ => True)
      (rejectTypedFlagPayload operation values instruction) := by
  unfold rejectTypedFlagPayload
  cases h : values.find? isTypedFlag with
  | none => exact .ok (by simpa using h) trivial
  | some v =>
      refine .error fun hall => ?_
      have htyped := List.find?_some h
      rw [hall v (List.mem_of_find?_eq_some h)] at htyped
      cases htyped

theorem validateBodySpan_decides {start stop : Option UInt64} {instruction : Nat} :
    Decides (SpanValid start stop) (fun _ => True)
      (validateBodySpan start stop instruction) := by
  cases start <;> cases stop
  · exact .ok trivial trivial
  · exact .error id
  · exact .error id
  · rename_i s e
    exact Decides.ite (p := s ≤ e) fun _ => trivial

theorem requireVocabulary_decides {operation field value : String} {accepted : List String}
    {instruction : Nat} :
    Decides (value ∈ accepted) (fun _ => True)
      (requireVocabulary operation field value accepted instruction) :=
  .ite fun _ => trivial

theorem patternTarget_decides {name : String} {args : List String} (instruction : Nat) :
    Decides (name ≠ "" ∧ validArity name args = true) (· = patternOperands name args)
      (patternTarget name args instruction) := by
  unfold patternTarget
  by_cases hname : name = ""
  · rw [if_pos hname]; exact .error fun h => h.1 hname
  · rw [if_neg hname]
    cases harity : validArity name args with
    | false => exact .error (by simp)
    | true =>
        unfold patternOperands
        dsimp only
        cases isMethodPattern name <;> exact .ok ⟨hname, rfl⟩ rfl

theorem validatePattern_decides (h : Collected ops state)
    (hnamed : ∀ op ∈ ops, "" ∉ op.requiredIds) {name : String} {args : List String}
    {instruction : Nat} :
    Decides ((CoreOp.pattern name args).Resolved ops) (fun _ => True)
      (validatePattern name args instruction state.index) := by
  refine Decides.congr ((patternTarget_decides instruction).bind (Q := (∀ t ∈ (CoreOp.pattern name args).targets,
    Declares ops t.1 t.2) ∧ ∀ o, (CoreOp.pattern name args).ownership = some o → Owns ops o.1 o.2)
    ?_) ?_
  · rintro _ _ rfl
    simp only [CoreOp.targets, CoreOp.ownership]
    cases patternOperands name args with
    | «class» c =>
        exact (requireTarget_decides h hnamed).congr (by simp)
    | method c m =>
        refine Decides.congr ((requireTarget_decides h hnamed).bind fun _ _ _ =>
          (requireTarget_decides h hnamed).bind fun _ _ _ => Decides.ite fun _ => trivial) ?_
        simp [h.methodOwners, and_assoc]
  · constructor
    · rintro ⟨hpayload, htargets, howner⟩
      exact ⟨htargets, hpayload, howner⟩
    · rintro ⟨htargets, hpayload, howner⟩
      exact ⟨hpayload, htargets, howner⟩

/-- All but the patterns name at most one target. -/
theorem resolved_iff {op : CoreOp} {kind : IdentityKind} {id : String}
    (howner : op.ownership = none) (htargets : op.targets = [(kind, id)]) :
    op.Resolved ops ↔ Declares ops kind id ∧ op.PayloadValid := by
  constructor
  · intro h
    exact ⟨h.targets (kind, id) (by simp [htargets]), h.payload⟩
  · rintro ⟨hdeclared, hpayload⟩
    exact ⟨by simpa [htargets] using hdeclared, hpayload, by simp [howner]⟩

/-- The target of an operation, then its payload. -/
theorem target_decides (h : Collected ops state) (hnamed : ∀ op ∈ ops, "" ∉ op.requiredIds)
    {op : CoreOp} {operation id : String} {kind : IdentityKind} {instruction : Nat}
    {payload : Checked Unit} (howner : op.ownership = none) (htargets : op.targets = [(kind, id)])
    (hpayload : Decides op.PayloadValid (fun _ => True) payload) :
    Decides (op.Resolved ops) (fun _ => True)
      (requireTarget operation id kind instruction state.index >>= fun _ => payload) :=
  ((requireTarget_decides h hnamed).bind fun _ _ _ => hpayload).congr
    (resolved_iff howner htargets).symm

theorem bareTarget_decides (h : Collected ops state) (hnamed : ∀ op ∈ ops, "" ∉ op.requiredIds)
    {op : CoreOp} {operation id : String} {kind : IdentityKind} {instruction : Nat}
    (howner : op.ownership = none) (htargets : op.targets = [(kind, id)])
    (hpayload : op.PayloadValid) :
    Decides (op.Resolved ops) (fun _ => True)
      (requireTarget operation id kind instruction state.index) :=
  (requireTarget_decides h hnamed).congr
    ((and_iff_left hpayload).symm.trans (resolved_iff howner htargets).symm)

/-- One instruction of the reference pass. -/
theorem checkReferences_decides (h : Collected ops state)
    (hnamed : ∀ op ∈ ops, "" ∉ op.requiredIds) (instruction : Nat) (op : CoreOp) :
    Decides (op.Resolved ops) (fun _ => True) (checkReferences state.index instruction op) := by
  cases op with
  | defClass _ _ | defInterface _ _ | importModule _ _ _ | typeAlias _ _ =>
      exact .ok ⟨by simp [CoreOp.targets], trivial, by simp [CoreOp.ownership]⟩ trivial
  | pattern name args => exact validatePattern_decides h hnamed
  | methodModifiers _ _ | classModifiers _ _ | interfaceModifiers _ _ | controlSummary _ _
  | patternFacts _ _ =>
      exact target_decides h hnamed rfl rfl requireNonEmptyPayload_decides
  | flags _ _ | classFlags _ _ =>
      exact target_decides h hnamed rfl rfl
        (requireNonEmptyPayload_decides.bind fun _ _ _ => rejectTypedFlagPayload_decides)
  | body _ _ _ _ => exact target_decides h hnamed rfl rfl validateBodySpan_decides
  | dataFlow _ _ _ | controlFlow _ _ _ =>
      exact target_decides h hnamed rfl rfl requireVocabulary_decides
  | _ => exact bareTarget_decides h hnamed rfl rfl trivial

/-- The reference loop, by induction on the instructions left. -/
theorem checkFrom_decides (h : Collected ops state) (hnamed : ∀ op ∈ ops, "" ∉ op.requiredIds)
    (rest : List CoreOp) (i : Nat) :
    Decides (∀ op ∈ rest, op.Resolved ops) (fun _ => True)
      (checkFrom state.index i rest) := by
  induction rest generalizing i with
  | nil => exact .ok (by simp) trivial
  | cons op rest ih =>
      exact ((checkReferences_decides h hnamed i op).bind fun _ _ _ => ih (i + 1)).congr
        (by simp)

end References
end Contracts

/-- The validator accepts exactly the valid streams, with the index of their definitions. -/
theorem validateIdentityGraph_decides (ir : CompiledIR) :
    Decides (Valid ir.instructions)
      (fun index => ∃ state, Contracts.Collected ir.instructions state ∧ index = state.index)
      (validateIdentityGraph ir) := by
  have hcollect := Contracts.collectFrom_decides ir.instructions 0 Contracts.collected_empty
    List.nodup_nil
  rw [List.nil_append] at hcollect
  refine Decides.congr (hcollect.bind fun state hfirst hstate =>
    (Contracts.checkFrom_decides hstate hfirst.1 ir.instructions 0).bind_ok fun _ _ _ =>
      ⟨state, hstate, rfl⟩) ?_
  constructor
  · rintro ⟨⟨hnamed, hunique⟩, hresolved⟩
    exact ⟨hnamed, hunique, hresolved⟩
  · rintro ⟨hnamed, hunique, hresolved⟩
    exact ⟨⟨hnamed, hunique⟩, hresolved⟩

theorem validateIdentityGraph_iff {ir : CompiledIR} :
    (∃ index, validateIdentityGraph ir = .ok index) ↔ Valid ir.instructions :=
  (validateIdentityGraph_decides ir).isOk_iff

end CleanCtx
