import CleanCtx.Edit.Intent
import CleanCtx.Ir.Transport

/-!
Structural edits are crash-atomic. Wherever the commit stops, it leaves the file
settled on one side of the edit, or an intent from which recovery can tell the
side by the bytes alone; recovery keeps that condition under its own crashes and,
once it ends, has settled the file.
-/
namespace CleanCtx
namespace Edit

section Restore

theorem valid_of_projects {ir : CompiledIR} {hir : HierarchicalIR}
    (h : ExceptT.run (tryIrToHierarchical ir) = .ok (.ok hir)) : Valid ir.instructions := by
  refine validateIdentityGraph_iff.mp ?_
  cases hindex : validateIdentityGraph ir with
  | ok index => exact ⟨index, rfl⟩
  | error error =>
      rw [tryIrToHierarchical, hindex] at h
      cases h

theorem readable_of_valid {op : CoreOp} (h : op.PayloadValid)
    (hnamed : ∀ methodId facts, op = .patternFacts methodId facts → ∀ fact ∈ facts, fact.Named) :
    Binary.Readable op := by
  cases op with
  | methodModifiers | classModifiers | interfaceModifiers | controlSummary => exact h
  | patternFacts methodId facts => exact ⟨h, hnamed methodId facts rfl⟩
  | body _ _ start stop => exact h.isSome_eq
  | _ => trivial

theorem restoreEdges_ok {snapshot : DurableSemanticSnapshot}
    (h : ∀ edge ∈ snapshot.edges, edge.callEvidence.isSome = true ↔ edge.relation = .calls) :
    snapshot.restoreEdges = .ok snapshot.edges := by
  rw [DurableSemanticSnapshot.restoreEdges]
  generalize snapshot.edges = edges at h
  induction edges with
  | nil => rfl
  | cons edge edges ih =>
      have hedge : validateRelationEvidence edge.relation edge.callEvidence = .ok () := by
        have hiff := h edge List.mem_cons_self
        cases hevidence : edge.callEvidence with
        | none =>
            have hother : edge.relation ≠ .calls := fun hcalls => by simp [hevidence, hcalls] at hiff
            simp [validateRelationEvidence, hother]
        | some evidence =>
            have hcalls : edge.relation = .calls := hiff.mp (by rw [hevidence]; rfl)
            simp [validateRelationEvidence, hcalls]
      rw [List.mapM_cons, hedge, ih fun e he => h e (List.mem_cons_of_mem _ he)]
      rfl

end Restore

variable (hash : List UInt8 → String)

namespace PreparedEdit

def targetBinary (edit : PreparedEdit) : List UInt8 :=
  Binary.magic ++ [Binary.schemaVersion] ++ Binary.streamBytes edit.durableIr

def stored (edit : PreparedEdit) : StoredIntent :=
  { intent := { edit.intent hash edit.targetBinary with targetEdges := [] }
    edges :=
      { filePath := edit.filePath
        sourceHash := edit.targetHash hash
        version := edit.targetVersion
        edges := edit.candidate.semanticEdges }
    compatibility :=
      { canonicalConfig := some edit.compatibility.canonicalConfig
        canonicalProducers := some edit.compatibility.canonicalProducers
        semanticConfig := some edit.compatibility.semanticConfig
        semanticProducers := some edit.compatibility.semanticProducers } }

def targetContext (edit : PreparedEdit) : DurableContext :=
  { filePath := edit.filePath
    fidelity := .edit
    compactOutput := ""
    irBinary := edit.targetBinary
    sourceHash := edit.targetHash hash
    rawTokens := 0
    compressedTokens := 0
    snapshot :=
      { filePath := edit.filePath
        sourceHash := edit.targetHash hash
        version := edit.targetVersion
        edges := edit.candidate.semanticEdges }
    identities := some edit.compatibility }

theorem encode_durableIr (edit : PreparedEdit) :
    Binary.encode edit.durableIr = .ok edit.targetBinary := Binary.encode_ok _

/-- The stored target of an accepted candidate passes every check of the recovery. -/
theorem restoreTarget_stored (edit : PreparedEdit) (hvalid : Valid edit.candidate.ir.instructions) :
    restoreTarget edit.filePath (edit.stored hash) =
      .ok (edit.candidate.semanticEdges, some edit.compatibility) := by
  have hreadable : ∀ op ∈ edit.durableIr.instructions, Binary.Readable op := by
    intro op hop
    refine readable_of_valid (hvalid.resolved op hop).payload fun methodId facts heq => ?_
    subst heq
    exact fun fact hfact => (edit.candidate.recognized methodId facts hop fact hfact).named
  have htarget : Binary.decode (edit.stored hash).intent.targetIr = .ok edit.durableIr :=
    Binary.decode_streamBytes _ hreadable edit.addressable
  rw [restoreTarget, htarget]
  have hedges : (edit.stored hash).edges.restoreEdges = .ok edit.candidate.semanticEdges :=
    restoreEdges_ok edit.candidate.evidenced
  change (if _ ∨ _ then _ else _ : Except RecoveryError _) = _
  rw [if_neg (by simp [durableIr, stored, intent, targetVersion]),
    if_neg (by simp [stored, intent]), hedges]
  rfl

def targetPair (edit : PreparedEdit) : List UInt8 × Option DurableContext :=
  (edit.targetSource, some (edit.targetContext hash))

end PreparedEdit

def Store.pair (store : Store) : List UInt8 × Option DurableContext := (store.source, store.context)

/-- No intent is left, and bytes and context are those of one side of the edit. -/
def Settled (edit : PreparedEdit) (prior store : Store) : Prop :=
  store.intent = none ∧ (store.pair = prior.pair ∨ store.pair = edit.targetPair hash)

/-- The edit's intent is stored. The context may already be the target's once the bytes are. -/
structure Pending (edit : PreparedEdit) (prior store : Store) : Prop where
  accepted : Valid edit.candidate.ir.instructions
  begun : prior.source = edit.priorSource
  stored : store.intent = some (edit.stored hash)
  side : store.pair = prior.pair ∨ store.source = edit.targetSource ∧
    (store.context = prior.context ∨ store.context = some (edit.targetContext hash))

def Recoverable (edit : PreparedEdit) (prior store : Store) : Prop :=
  Settled hash edit prior store ∨ Pending hash edit prior store

open Durable

section Steps

variable {hash} {α : Type} {P C : Store → Prop} {Q : α → Store → Prop}

def Attempted (P : Store → Prop) (Q : α → Store → Prop) : Except String α → Store → Prop
  | .error _, s => P s
  | .ok a, s => Q a s

theorem triple_attempt {fault : Option String} {step : Durable Store α}
    (h : CrashTriple P step Q C) (hcrash : ∀ s, P s → C s) :
    CrashTriple P (attempt fault step) (Attempted P Q) C := by
  cases fault with
  | some error => exact .of_pure (fun s hs => hs) hcrash
  | none =>
      refine CrashTriple.map (f := Except.ok) ?_
      exact h

theorem triple_clear {transitionId : String} (hcrash : ∀ s, P s → C s)
    (hcleared : ∀ s, P s → C { s with intent := none }) :
    CrashTriple P (clearEditIntent transitionId) (fun _ s => C s) C := by
  have hafter : ∀ s, P s → C (if s.intent.any fun stored =>
      stored.intent.transitionId = transitionId then
        ({ s with intent := none }, (.ok () : Except RecoveryError Unit))
      else (s, .error (.message "edit intent ownership changed unexpectedly"))).1 := by
    intro s hs
    split
    · exact hcleared s hs
    · exact hcrash s hs
  exact .of_write hafter hcrash hafter

theorem triple_settle {edit : PreparedEdit} {answer : EditRecovery}
    (hstored : ∀ s, P s → s.intent = some (edit.stored hash)) (hcrash : ∀ s, P s → C s)
    (hcleared : ∀ s, P s → C { s with intent := none }) :
    CrashTriple P (settle (edit.transitionId hash) answer)
      (fun result s => result = .ok answer ∧ C s ∧ s.intent = none) C := by
  have howned : ∀ s, P s → (s.intent.any fun stored =>
      stored.intent.transitionId = edit.transitionId hash) = true := by
    intro s hs
    rw [hstored s hs]
    exact decide_eq_true rfl
  refine CrashTriple.map (.of_write (fun s hs => ?_) hcrash fun s hs => ?_)
  · rw [if_pos (howned s hs)]
    exact ⟨rfl, hcleared s hs, rfl⟩
  · rw [if_pos (howned s hs)]
    exact hcleared s hs

end Steps

section Recovery

variable {hash} {edit : PreparedEdit} {prior store : Store}

/-- Beside bytes that are the prior ones, the context belongs to one of the sides. -/
theorem Pending.settled_of_prior (h : Pending hash edit prior store)
    (hsource : store.source = edit.priorSource) :
    store.pair = prior.pair ∨ store.pair = edit.targetPair hash := by
  obtain hprior | ⟨htarget, hcontext⟩ := h.side
  · exact .inl hprior
  · obtain hcontext | hcontext := hcontext
    · exact .inl (Prod.ext (hsource.trans h.begun.symm) hcontext)
    · exact .inr (Prod.ext htarget hcontext)

theorem Pending.source (h : Pending hash edit prior store) :
    store.source = edit.priorSource ∨ store.source = edit.targetSource := by
  obtain hprior | ⟨htarget, -⟩ := h.side
  · exact .inl ((congrArg Prod.fst hprior).trans h.begun)
  · exact .inr htarget

theorem Pending.save (h : Pending hash edit prior store) (hsource : store.source = edit.targetSource) :
    Pending hash edit prior { store with context := some (edit.targetContext hash) } :=
  ⟨h.accepted, h.begun, h.stored, .inr ⟨hsource, .inr rfl⟩⟩

/-- The bytes of either side are enough for a stored intent to be settled. -/
theorem triple_recoverStored (hpending : Pending hash edit prior store) :
    CrashTriple (· = store) (recoverStored hash edit.filePath store.source (edit.stored hash))
      (fun result s => (∃ answer, result = .ok answer) ∧ Settled hash edit prior s)
      (Recoverable hash edit prior) := by
  have hstore : ∀ s, s = store → Recoverable hash edit prior s := fun s hs => hs ▸ .inr hpending
  have hdone : ∀ {P : Store → Prop} {answer : EditRecovery},
      (∀ s, P s → Pending hash edit prior s) →
      (∀ s, P s → s.pair = prior.pair ∨ s.pair = edit.targetPair hash) →
      CrashTriple P (settle (edit.transitionId hash) answer)
        (fun result s => (∃ answer, result = .ok answer) ∧ Settled hash edit prior s)
        (Recoverable hash edit prior) := by
    intro P answer hP hpair
    refine (triple_settle (fun s hs => (hP s hs).stored) (fun s hs => .inr (hP s hs))
      fun s hs => .inl ⟨rfl, hpair s hs⟩).consequence (fun s hs => hs) ?_
    rintro result s ⟨hok, hrecoverable, hnone⟩
    obtain hsettled | hstored := hrecoverable
    · exact ⟨⟨_, hok⟩, hsettled⟩
    · cases hnone.symm.trans hstored.stored
  rw [recoverStored]
  by_cases hprior : store.source = edit.priorSource
  · rw [if_pos ⟨by rw [hprior]; rfl, hprior⟩]
    refine hdone (fun s hs => hs ▸ hpending) fun s hs => hs ▸ hpending.settled_of_prior hprior
  · have htarget := hpending.source.resolve_left hprior
    rw [if_neg (fun h => hprior h.2), if_neg (by rw [htarget]; simp [PreparedEdit.stored,
      PreparedEdit.intent, PreparedEdit.targetHash]), edit.restoreTarget_stored hash hpending.accepted]
    refine .bind (Q := fun _ s => s = { store with context := some (edit.targetContext hash) })
      (.of_write (fun s hs => by rw [hs]; rfl) hstore fun s hs => ?_) fun _ => ?_
    · rw [hs]
      exact .inr (hpending.save htarget)
    · exact hdone (fun s hs => hs ▸ hpending.save htarget)
        fun s hs => hs ▸ .inr (Prod.ext htarget rfl)

theorem triple_recoverEditIntent :
    CrashTriple (Recoverable hash edit prior) (recoverEditIntent hash edit.filePath)
      (fun result s => (∃ answer, result = .ok answer) ∧ Settled hash edit prior s)
      (Recoverable hash edit prior) := by
  refine .of_read fun store hstore => ?_
  obtain hsettled | hpending := hstore
  · rw [hsettled.1]
    exact .of_pure (fun s hs => ⟨⟨_, rfl⟩, hs ▸ hsettled⟩) fun s hs => hs ▸ .inl hsettled
  · rw [hpending.stored]
    exact triple_recoverStored hpending

end Recovery

section Commit

variable {hash} {edit : PreparedEdit} {prior : Store} {faults : Faults}

theorem recoverable_free (hfree : prior.intent = none) : Recoverable hash edit prior prior :=
  .inl ⟨hfree, .inl rfl⟩

theorem recoverable_cleared (store : Store) (hpair : store.pair = prior.pair ∨
    store.pair = edit.targetPair hash) :
    Recoverable hash edit prior { store with intent := none } :=
  .inl ⟨rfl, hpair⟩

/-- The states between the insertion of the intent and its removal. -/
inductive Between (hash : List UInt8 → String) (edit : PreparedEdit) (prior : Store) :
    List UInt8 → Option DurableContext → Prop
  | established : Between hash edit prior prior.source prior.context
  | replaced : Between hash edit prior edit.targetSource prior.context
  | saved : Between hash edit prior edit.targetSource (some (edit.targetContext hash))

variable (haccepted : Valid edit.candidate.ir.instructions)
  (hbegun : prior.source = edit.priorSource)

include haccepted hbegun in
theorem Between.pending {source : List UInt8} {context : Option DurableContext}
    (h : Between hash edit prior source context) :
    Pending hash edit prior ⟨source, context, some (edit.stored hash)⟩ := by
  refine ⟨haccepted, hbegun, rfl, ?_⟩
  cases h with
  | established => exact .inl rfl
  | replaced => exact .inr ⟨rfl, .inl rfl⟩
  | saved => exact .inr ⟨rfl, .inr rfl⟩

include haccepted hbegun in
theorem triple_establishEditIntent (hfree : prior.intent = none) :
    CrashTriple (· = prior) (establishEditIntent hash faults edit edit.targetBinary)
      (Attempted (· = prior)
        fun _ s => s = ⟨prior.source, prior.context, some (edit.stored hash)⟩)
      (Recoverable hash edit prior) := by
  have hprior : ∀ s, s = prior → Recoverable hash edit prior s := by
    intro s hs
    rw [hs]
    exact recoverable_free hfree
  have hinsert : CrashTriple (· = prior)
      (insertEditIntent (edit.intent hash edit.targetBinary) (some edit.compatibility))
      (fun result s => result = .ok () ∧
        s = ⟨prior.source, prior.context, some (edit.stored hash)⟩)
      (Recoverable hash edit prior) := by
    refine .of_write (fun s hs => ?_) hprior fun s hs => ?_
    · rw [hs, hfree]
      exact ⟨rfl, rfl⟩
    · rw [hs, hfree]
      exact .inr (Between.established.pending haccepted hbegun)
  refine (triple_attempt hinsert hprior).left.bind fun inserted => ?_
  cases inserted with
  | error error => exact .of_pure (fun s hs => hs.1) fun s hs => hs.2
  | ok inserted =>
      cases inserted with
      | error error => exact .of_pure (fun s hs => by cases hs.1.1) fun s hs => hs.2
      | ok => exact .of_pure (fun s hs => hs.1.2) fun s hs => hs.2

section Between

variable {fault : Option String} {source bytes : List UInt8} {context : Option DurableContext}
  (hbefore : Between hash edit prior source context)

include haccepted hbegun hbefore

theorem recoverable_between (s : Store) (hs : s = ⟨source, context, some (edit.stored hash)⟩) :
    Recoverable hash edit prior s :=
  hs ▸ .inr (hbefore.pending haccepted hbegun)

/-- Replacing the source between two states of the run. -/
theorem triple_replaceSource (hafter : Between hash edit prior bytes context) :
    CrashTriple (· = ⟨source, context, some (edit.stored hash)⟩)
      (attempt fault (replaceSource bytes))
      (Attempted (· = ⟨source, context, some (edit.stored hash)⟩)
        fun _ s => s = ⟨bytes, context, some (edit.stored hash)⟩)
      (Recoverable hash edit prior) := by
  have hstart := recoverable_between haccepted hbegun hbefore
  refine triple_attempt (.of_write (fun s hs => by rw [hs]) hstart fun s hs => ?_) hstart
  rw [hs]
  exact recoverable_between haccepted hbegun hafter _ rfl

/-- Dropping the intent where bytes and context agree. -/
theorem triple_dropIntent
    (hpair : (source, context) = prior.pair ∨ (source, context) = edit.targetPair hash) :
    CrashTriple (· = ⟨source, context, some (edit.stored hash)⟩)
      (attempt fault (clearEditIntent (edit.transitionId hash)))
      (fun _ _ => True) (Recoverable hash edit prior) := by
  have hstart := recoverable_between haccepted hbegun hbefore
  have hclear : CrashTriple (· = ⟨source, context, some (edit.stored hash)⟩)
      (clearEditIntent (edit.transitionId hash)) (fun _ s => Recoverable hash edit prior s)
      (Recoverable hash edit prior) :=
    triple_clear hstart fun s hs => hs ▸ recoverable_cleared _ hpair
  exact (triple_attempt hclear hstart).consequence (fun s hs => hs) fun _ _ _ => trivial

theorem triple_clearEditIntentBestEffort
    (hpair : (source, context) = prior.pair ∨ (source, context) = edit.targetPair hash) :
    CrashTriple (· = ⟨source, context, some (edit.stored hash)⟩)
      (clearEditIntentBestEffort hash faults edit) (fun _ _ => True)
      (Recoverable hash edit prior) :=
  (triple_dropIntent haccepted hbegun hbefore hpair).left.bind fun _ =>
    .of_pure (fun _ _ => trivial) fun _ hs => hs.2

end Between

include haccepted hbegun in
theorem triple_commitEditSemantics :
    CrashTriple (· = ⟨edit.targetSource, prior.context, some (edit.stored hash)⟩)
      (commitEditSemantics hash faults edit edit.targetBinary)
      (Attempted (· = ⟨edit.targetSource, prior.context, some (edit.stored hash)⟩)
        fun _ _ => True)
      (Recoverable hash edit prior) := by
  have hreplaced : Between hash edit prior edit.targetSource prior.context := .replaced
  have hstart := recoverable_between haccepted hbegun hreplaced
  have hsave : CrashTriple (· = ⟨edit.targetSource, prior.context, some (edit.stored hash)⟩)
      (saveContext edit.filePath .edit "" edit.targetBinary (edit.targetHash hash)
        edit.targetVersion edit.candidate.semanticEdges 0 0 (some edit.compatibility))
      (fun _ s => s = ⟨edit.targetSource, some (edit.targetContext hash), some (edit.stored hash)⟩)
      (Recoverable hash edit prior) := by
    refine .of_write (fun s hs => by rw [hs]; rfl) hstart fun s hs => ?_
    rw [hs]
    exact recoverable_between haccepted hbegun .saved _ rfl
  refine (triple_attempt hsave hstart).left.bind fun saved => ?_
  cases saved with
  | error error => exact .of_pure (fun s hs => hs.1) fun s hs => hs.2
  | ok =>
      refine .of_pre (fun s hs => hs.1) ((triple_dropIntent haccepted hbegun .saved
        (.inr rfl)).left.bind fun _ => ?_)
      exact .of_pure (fun _ _ => trivial) fun s hs => hs.2

include haccepted hbegun in
theorem triple_restorePrior {error : String} :
    CrashTriple (· = ⟨edit.targetSource, prior.context, some (edit.stored hash)⟩)
      (restorePrior hash faults edit error) (fun _ _ => True) (Recoverable hash edit prior) := by
  rw [restorePrior, ← hbegun]
  refine (triple_replaceSource haccepted hbegun .replaced .established).left.bind fun restored => ?_
  cases restored with
  | error => exact .of_pure (fun _ _ => trivial) fun s hs => hs.2
  | ok =>
      have hestablished : Between hash edit prior prior.source prior.context := .established
      refine .of_pre (fun s hs => hs.1) ((triple_clearEditIntentBestEffort haccepted hbegun
        hestablished (.inl rfl)).left.bind fun _ => ?_)
      exact .of_pure (fun _ _ => trivial) fun s hs => hs.2

include haccepted hbegun in
theorem triple_commitStaged (hfree : prior.intent = none) :
    CrashTriple (· = prior) (commitStaged hash faults edit edit.targetBinary) (fun _ _ => True)
      (Recoverable hash edit prior) := by
  have hestablished : Between hash edit prior prior.source prior.context := .established
  refine (triple_establishEditIntent haccepted hbegun hfree).left.bind fun established => ?_
  cases established with
  | error => exact .of_pure (fun _ _ => trivial) fun s hs => hs.2
  | ok =>
      refine .of_pre (fun s hs => hs.1) ((triple_replaceSource haccepted hbegun hestablished
        .replaced).left.bind fun persisted => ?_)
      cases persisted with
      | error =>
          refine .of_pre (fun s hs => hs.1) ((triple_clearEditIntentBestEffort haccepted hbegun
            hestablished (.inl rfl)).left.bind fun _ => ?_)
          exact .of_pure (fun _ _ => trivial) fun s hs => hs.2
      | ok =>
          refine .of_pre (fun s hs => hs.1)
            ((triple_commitEditSemantics haccepted hbegun).left.bind fun committed => ?_)
          cases committed with
          | error => exact .of_pre (fun s hs => hs.1) (triple_restorePrior haccepted hbegun)
          | ok => exact .of_pure (fun _ _ => trivial) fun s hs => hs.2

end Commit

/-- Wherever it stops, the commit leaves a state that recovery can settle. -/
theorem triple_commitEdit (faults : Faults) (edit : PreparedEdit) {prior : Store}
    (hfree : prior.intent = none) :
    CrashTriple (· = prior) (commitEdit hash faults edit) (fun _ _ => True)
      (Recoverable hash edit prior) := by
  have hprior : ∀ s, s = prior → Recoverable hash edit prior s := by
    intro s hs
    rw [hs]
    exact recoverable_free hfree
  have hanswer : ∀ answer : CommitAnswer,
      CrashTriple (· = prior) (pure answer) (fun _ _ => True) (Recoverable hash edit prior) :=
    fun answer => .of_pure (fun _ _ => trivial) hprior
  rw [commitEdit]
  cases hprojects : ExceptT.run (tryIrToHierarchical edit.candidate.ir) with
  | error panic => exact hanswer _
  | ok projected =>
      cases projected with
      | error error => exact hanswer _
      | ok hir =>
          refine .of_read fun store hstore => ?_
          subst hstore
          by_cases hbegun : store.source = edit.priorSource
          · rw [if_neg (not_not.mpr hbegun), edit.encode_durableIr]
            cases faults.stage with
            | some error => exact hanswer _
            | none =>
                cases faults.identities with
                | some error => exact hanswer _
                | none => exact triple_commitStaged (valid_of_projects hprojects) hbegun hfree
          · rw [if_pos hbegun]
            exact hanswer _

/-- A structural edit is crash-atomic. Stop the commit anywhere, with any of its steps failing,
and cut any number of recoveries short: the recovery that ends leaves no intent, beside the prior
bytes and context or the target ones, and no recovery fails on the bytes of either side. -/
theorem commitEdit_crashAtomic (faults : Faults) (edit : PreparedEdit) (prior left again : Store)
    (hfree : prior.intent = none) (hleft : (commitEdit hash faults edit).Leaves prior left)
    (hagain : Interrupted (recoverEditIntent hash edit.filePath) left again) :
    (∀ answer, (recoverEditIntent hash edit.filePath again).value = .ok answer →
      ((recoverEditIntent hash edit.filePath again).final again).intent = none ∧
      (((recoverEditIntent hash edit.filePath again).final again).pair = prior.pair ∨
        ((recoverEditIntent hash edit.filePath again).final again).pair =
          edit.targetPair hash)) ∧
    ∀ stored, again.intent = some stored → ∀ source,
      source = stored.intent.priorSource ∨ source = stored.intent.targetSource →
      ∃ answer, (recoverEditIntent hash edit.filePath { again with source }).value =
        .ok answer := by
  have hrecoverable : Recoverable hash edit prior again :=
    hagain.crash triple_recoverEditIntent
      ((triple_commitEdit hash faults edit hfree).crash prior rfl left hleft)
  refine ⟨fun _ _ => (triple_recoverEditIntent.post again hrecoverable).2,
    fun stored hstored source hsource => ?_⟩
  obtain hsettled | hpending := hrecoverable
  · cases hsettled.1.symm.trans hstored
  · cases hpending.stored.symm.trans hstored
    have hside : Pending hash edit ⟨edit.priorSource, again.context, none⟩ { again with source } := by
      refine ⟨hpending.accepted, rfl, hpending.stored, ?_⟩
      obtain hprior | htarget := hsource
      · exact .inl (Prod.ext hprior rfl)
      · exact .inr ⟨htarget, .inl rfl⟩
    exact (triple_recoverEditIntent.post _ (.inr hside)).1

def renameEdit : PreparedEdit where
  filePath := "a.ts"
  stagePath := ""
  priorSource := utf8 "class A \x7b\x7d"
  priorVersion := 1
  targetSource := utf8 "class B \x7b\x7d"
  candidate :=
    { ir := ⟨"α1", [.defClass "C1" "B"], 2⟩
      semanticEdges := []
      recognized := by simp
      evidenced := by simp }
  compatibility := ⟨"c", "p", "s", "q"⟩
  addressable := by
    intro bytes h
    rw [Binary.encode_ok] at h
    cases h
    decide +kernel

/-- SHA-256 on the texts that the edit hashes. -/
def renameHash (bytes : List UInt8) : String :=
  if bytes = renameEdit.priorSource then
    "107310d1668e0941284e7595573d77788d10959a91d6eb1a53c03b4faba0bc97"
  else if bytes = renameEdit.targetSource then
    "9712d0ed754bf804ad7da3f84f78a096cb1ae145218f3075829eacc049f9ab51"
  else "33d6c7f5fc6760426498c324e46af40b72cc8c268521f7ce27c20cdad0e524ec"

/-- The durable save fails, and so does putting the prior bytes back. -/
def failedSave : Faults :=
  { stage := none
    identities := none
    establish := none
    persist := none
    commit := some "disk full"
    clear := none
    restore := some "read-only directory"
    compensate := none }

theorem commitEdit_crashAtomic_retained :
    let prior : Store := ⟨renameEdit.priorSource, none, none⟩
    let left := (commitEdit renameHash failedSave renameEdit prior).final prior
    (∀ answer, (recoverEditIntent renameHash "a.ts" left).value = .ok answer →
      ((recoverEditIntent renameHash "a.ts" left).final left).intent = none ∧
      (((recoverEditIntent renameHash "a.ts" left).final left).pair = prior.pair ∨
        ((recoverEditIntent renameHash "a.ts" left).final left).pair =
          renameEdit.targetPair renameHash)) ∧
    ∀ stored, left.intent = some stored → ∀ source,
      source = stored.intent.priorSource ∨ source = stored.intent.targetSource →
      ∃ answer, (recoverEditIntent renameHash "a.ts" { left with source }).value = .ok answer :=
  commitEdit_crashAtomic renameHash failedSave renameEdit _ _ _ rfl (leaves_final _ _) .refl

example :
    let prior : Store := ⟨renameEdit.priorSource, none, none⟩
    let left := (commitEdit renameHash failedSave renameEdit prior).final prior
    (recoverEditIntent renameHash "a.ts" left).value = .ok .targetCommitted := by decide +kernel

end Edit
end CleanCtx
