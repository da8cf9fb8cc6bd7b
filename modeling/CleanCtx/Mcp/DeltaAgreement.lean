import CleanCtx.Mcp.DeltaGeneration

/-!
What asking for a delta leaves behind. The live instructions of the file stay as they are,
and so does its durable context. The recorded fidelity becomes that of the request when a
delta is remembered, and the recorded hash that of the new text when nothing changed; in
neither case does the durable context follow.
-/
namespace CleanCtx
namespace Mcp

open Edit Sqlite

/-- The live and the durable context of a file are at the same version and of the same source,
and the recorded fidelity is the one at which the live instructions were compiled. -/
structure Agrees (state : McpState) (name owner : String) (compiledAt : Fidelity) : Prop where
  fidelity : state.contextFidelities.lookup name = some compiledAt
  durable : ∃ store context, state.persistenceStore = some store ∧
    store.loadDurableContext owner none = pure (some context) ∧
    state.irContext.getSourceHash name = some context.sourceHash ∧
    state.irContext.fileVersion name = some context.ir.version

/-- The instructions of the new text are others than those that the session holds. -/
def Changes (env : DeltaEnv) (request : DeltaRequest) (state : McpState) (name : String) : Prop :=
  ∃ live compiled semanticEdges,
    tuplesToCoreopsFrom 0 ((state.irContext.getIr name).getD []) = .ok live ∧
    env.compile request.resolvedPath request.fidelity name
      ((state.irContext.fileVersion name).getD 0) request.source = .ok (compiled, semanticEdges) ∧
    live.map opToTuple ≠ compiled.instructions.map opToTuple

section Publishing

variable {env : DeltaEnv} {request : DeltaRequest} {candidate : DeltaCandidate}
  {state state' : McpState}

theorem call_ofResult_ok {α : Type} {result : Except DeltaFailure α} {a : α}
    (h : (ofResult result).call state = .ok (.ok a, state')) : result = .ok a ∧ state' = state := by
  cases result with
  | error error => cases h
  | ok b =>
      cases h
      exact ⟨rfl, rfl⟩

/-- Where a baseline is stored, it is only compared. -/
theorem ensurePersistedBaseline_ok {filePath sourceHash source : String} {fidelity : Fidelity}
    {compiled : CompiledIR} {store : SqliteStore} {context : SqliteStore.UntrustedDurableContext}
    (hstore : state.persistenceStore = some store)
    (hload : store.loadDurableContext filePath none = pure (some context))
    (h : (ensurePersistedBaseline env filePath fidelity compiled sourceHash source).call state =
      .ok (.ok (), state')) : state' = state := by
  obtain ⟨self, _, hself, h⟩ := Method.call_bind_ok.mp h
  cases hself
  rw [hstore] at h
  dsimp only at h
  cases hrow : store.latestRow filePath with
  | none =>
      rw [SqliteStore.loadDurableContext, hrow] at hload
      cases hload
  | some row =>
      rw [hrow, hload] at h
      dsimp only at h
      obtain ⟨found, _, hfound, h⟩ := Method.call_bind_ok.mp h
      cases hfound
      dsimp only at h
      split at h
      · cases h
      · obtain ⟨current, _, hcurrent, hvalid⟩ := Method.call_bind_ok.mp h
        rw [(call_ofResult_ok hvalid).2, (call_ofResult_ok hcurrent).2]

theorem rememberPendingTransition_ok {name durableFile targetSourceHash : String}
    {delta : SequenceDelta} {semantic : CompatibleSemanticProjection}
    {compatibility : CompatibilityIdentities}
    (h : (rememberPendingTransition env name durableFile delta targetSourceHash semantic
      compatibility).call state = .ok (.ok (), state')) :
    ∃ transitions, state' = { state with pendingSemanticTransitions := transitions } := by
  rw [rememberPendingTransition] at h
  split at h
  · cases h
  split at h
  · cases h
  cases h
  exact ⟨_, rfl⟩

/-- A remembered delta changes the recorded fidelity and the pending transitions. -/
theorem rememberDelta_ok {delta remembered : SequenceDelta}
    (h : (rememberDelta env request candidate delta).call state = .ok (.ok remembered, state')) :
    ∃ transitions, state' =
      { state.rememberContextFidelity candidate.pathAlias request.fidelity with
        pendingSemanticTransitions := transitions } := by
  obtain ⟨_, recorded, hrecorded, h⟩ := Method.call_bind_ok.mp h
  cases hrecorded
  obtain ⟨compatibility, _, hcompatibility, hrest⟩ := Method.call_bind_ok.mp h
  rw [(call_ofResult_ok hcompatibility).2] at hrest
  obtain ⟨_, pending, hpending, hlast⟩ := Method.call_bind_ok.mp hrest
  cases hlast
  exact rememberPendingTransition_ok hpending

theorem compute_none_iff {baseline current : CompiledIR} {delta : Option SequenceDelta}
    (h : SequenceDeltaComputer.compute baseline current = .ok delta) :
    delta = none ↔ baseline.instructions.map opToTuple = current.instructions.map opToTuple := by
  rw [SequenceDeltaComputer.compute] at h
  split at h
  · next heq =>
    cases h
    exact iff_of_true rfl heq
  · next hne =>
    cases hrecord : SequenceDeltaComputer.recordEdits (baseline.instructions.map opToTuple)
        (current.instructions.map opToTuple) with
    | error panic =>
        rw [hrecord] at h
        cases h
    | ok recording =>
        rw [hrecord] at h
        cases h
        exact iff_of_false (Option.some_ne_none _) hne

theorem checkpointBaseline_ok {prevCompiled : CompiledIR} {previousHash : String}
    {store : SqliteStore} {context : SqliteStore.UntrustedDurableContext}
    (hstore : state.persistenceStore = some store)
    (hload : store.loadDurableContext (env.durableOwnerPath request.resolvedPath) none =
      pure (some context))
    (h : (checkpointBaseline env request prevCompiled previousHash).call state =
      .ok (.ok (), state')) : state' = state := by
  rw [checkpointBaseline] at h
  split at h
  · exact ensurePersistedBaseline_ok hstore hload h
  · cases h
    rfl

/-- Either a delta is remembered, or the hash of the new text is written. -/
theorem publishTransition_ok {prevCompiled : CompiledIR} {delta : Option SequenceDelta}
    (h : (publishTransition env request candidate prevCompiled).call state =
      .ok (.ok delta, state')) :
    (prevCompiled.instructions.map opToTuple ≠ candidate.compiled.instructions.map opToTuple ∧
      ∃ transitions, state' =
        { state.rememberContextFidelity candidate.pathAlias request.fidelity with
          pendingSemanticTransitions := transitions }) ∨
    (prevCompiled.instructions.map opToTuple = candidate.compiled.instructions.map opToTuple ∧
      state' = { state with irContext :=
        state.irContext.setSourceHash candidate.pathAlias candidate.sourceHash }) := by
  obtain ⟨computed, _, hcomputed, hrest⟩ := Method.call_bind_ok.mp h
  cases hcompute : SequenceDeltaComputer.compute prevCompiled candidate.compiled with
  | error panic =>
      rw [hcompute] at hcomputed
      cases hcomputed
  | ok result =>
      rw [hcompute] at hcomputed
      cases hcomputed
      have hnone := compute_none_iff hcompute
      cases computed with
      | none =>
          cases hrest
          exact Or.inr ⟨hnone.mp rfl, rfl⟩
      | some found =>
          dsimp only at hrest
          rw [map_eq_pure_bind] at hrest
          obtain ⟨remembered, _, hremembered, hlast⟩ := Method.call_bind_ok.mp hrest
          cases hlast
          exact Or.inl ⟨mt hnone.mpr (Option.some_ne_none _), rememberDelta_ok hremembered⟩

/-- With a live and a durable context, a commit either remembers a delta or writes the hash of the
new text. -/
theorem publishDelta_ok {tuples : List Tuple} {previousHash : Option String} {store : SqliteStore}
    {context : SqliteStore.UntrustedDurableContext} {delta : Option SequenceDelta}
    {compiled : CompiledIR} (hstore : state.persistenceStore = some store)
    (hload : store.loadDurableContext (env.durableOwnerPath request.resolvedPath) none =
      pure (some context))
    (hprevious : candidate.previousAuthority = some (tuples, previousHash))
    (h : (publishDelta env request candidate).call state =
      .ok (.ok (some (delta, compiled)), state')) :
    authorityIsCurrent env request candidate state = true ∧ ∃ live,
      tuplesToCoreopsFrom 0 tuples = .ok live ∧
      ((live.map opToTuple ≠ candidate.compiled.instructions.map opToTuple ∧
          ∃ transitions, state' =
            { state.rememberContextFidelity candidate.pathAlias request.fidelity with
              pendingSemanticTransitions := transitions }) ∨
        (live.map opToTuple = candidate.compiled.instructions.map opToTuple ∧
          state' = { state with irContext :=
            state.irContext.setSourceHash candidate.pathAlias candidate.sourceHash })) := by
  obtain ⟨self, _, hself, hpublish⟩ := Method.call_bind_ok.mp h
  cases hself
  split at hpublish
  · next hcurrent =>
    refine ⟨hcurrent, ?_⟩
    rw [hprevious] at hpublish
    dsimp only at hpublish
    obtain ⟨prevCompiled, _, hprev, hbaseline⟩ := Method.call_bind_ok.mp hpublish
    obtain ⟨hdecoded, rfl⟩ := call_ofResult_ok hprev
    obtain ⟨_, _, hchecked, htransition⟩ := Method.call_bind_ok.mp hbaseline
    obtain rfl := checkpointBaseline_ok hstore hload hchecked
    obtain ⟨computed, _, hcomputed, hlast⟩ := Method.call_bind_ok.mp htransition
    cases hlast
    rw [compiledFromTuples] at hdecoded
    cases hlive : tuplesToCoreopsFrom 0 tuples with
    | error failure =>
        rw [hlive] at hdecoded
        cases hdecoded
    | ok live =>
        rw [hlive] at hdecoded
        cases hdecoded
        exact ⟨live, rfl, publishTransition_ok hcomputed⟩
  · cases hpublish

end Publishing

section Handling

variable {env : DeltaEnv} {request : DeltaRequest} {candidate : DeltaCandidate} {newest : Bool}
  {started ready state' : McpState} {response : DeltaResponse} {name : String}
  {compiledAt : Fidelity}

theorem isSourceUnchanged_iff (self : ContextState) (fileId sourceHash : String) :
    self.isSourceUnchanged fileId sourceHash = true ↔
      self.getSourceHash fileId = some sourceHash := by
  rw [ContextState.isSourceUnchanged]
  cases self.getSourceHash fileId with
  | none => exact iff_of_false Bool.false_ne_true nofun
  | some stored => simp

/-- What a request that is not answered from the session takes to its commit. -/
structure Read (env : DeltaEnv) (request : DeltaRequest) (started : McpState) (name : String)
    (candidate : DeltaCandidate) : Prop where
  pathAlias : candidate.pathAlias = name
  prevVersion : candidate.prevVersion = (started.irContext.fileVersion name).getD 0
  sourceHash : candidate.sourceHash = env.computeHash request.source
  authority : candidate.previousAuthority =
    if started.irContext.tracked name then
      some ((started.irContext.getIr name).getD [], started.irContext.getSourceHash name)
    else none
  changed : started.irContext.tracked name = true →
    started.irContext.getSourceHash name ≠ some (env.computeHash request.source)
  compiled : ∃ compiled semanticEdges, env.compile request.resolvedPath request.fidelity name
    ((started.irContext.fileVersion name).getD 0) request.source = .ok (compiled, semanticEdges) ∧
    candidate.compiled.instructions = compiled.instructions

theorem compileCandidate_ok {prevVersion : UInt64} {compiled : CompiledIR}
    {semanticEdges : List SemanticEdge}
    (hname : started.aliasForPath env request.resolvedPath = some name)
    (h : compileCandidate env request prevVersion started = .ok (compiled, semanticEdges)) :
    ∃ original semanticEdges, env.compile request.resolvedPath request.fidelity name
      ((started.irContext.fileVersion name).getD 0) request.source =
        .ok (original, semanticEdges) ∧ compiled.instructions = original.instructions := by
  rw [compileCandidate, hname] at h
  dsimp only [Option.getD_some, Option.bind_some] at h
  cases hcompile : env.compile request.resolvedPath request.fidelity name
      ((started.irContext.fileVersion name).getD 0) request.source with
  | error error =>
      rw [hcompile] at h
      cases h
  | ok pair =>
      rw [hcompile] at h
      cases h
      exact ⟨_, _, rfl, rfl⟩

theorem prepareDelta_ok {prepared : Prepared} {state : McpState}
    (hname : started.aliasForPath env request.resolvedPath = some name)
    (h : (prepareDelta env request).call started = .ok (.ok prepared, state)) :
    match prepared with
    | .cached _ _ => started.irContext.getSourceHash name = some (env.computeHash request.source)
    | .candidate candidate => Read env request started name candidate := by
  obtain ⟨self, _, hself, hrest⟩ := Method.call_bind_ok.mp h
  cases hself
  rw [hname] at hrest
  dsimp only [Option.getD_some] at hrest
  split at hrest
  · next hcached =>
    obtain ⟨compiled, _, hcompiled, hchecked⟩ := Method.call_bind_ok.mp hrest
    obtain ⟨_, _, _, hlast⟩ := Method.call_bind_ok.mp hchecked
    cases hlast
    exact (isSourceUnchanged_iff _ _ _).mp hcached.2
  · next hstale =>
    obtain ⟨⟨compiled, semanticEdges⟩, _, hcompile, hlast⟩ := Method.call_bind_ok.mp hrest
    cases hlast
    exact
      { pathAlias := rfl
        prevVersion := rfl
        sourceHash := rfl
        authority := rfl
        changed := fun htracked hsame =>
          hstale ⟨htracked, (isSourceUnchanged_iff _ _ _).mpr hsame⟩
        compiled := compileCandidate_ok hname (call_ofResult_ok hcompile).1 }

/-- A commit that answers has published. -/
theorem commitDelta_ok (h : (commitDelta env request candidate newest).call ready =
    .ok (.ok response, state')) : ∃ delta compiled,
    (publishDelta env request candidate).call ready = .ok (.ok (some (delta, compiled)), state') := by
  rw [commitDelta] at h
  dsimp only at h
  split at h
  · obtain ⟨published, _, hpublished, hrest⟩ := Method.call_bind_ok.mp h
    match published with
    | none => cases hrest
    | some (some delta, compiled) =>
        cases hrest
        exact ⟨_, _, hpublished⟩
    | some (none, compiled) =>
        obtain ⟨_, _, hchecked, hlast⟩ := Method.call_bind_ok.mp hrest
        cases hlast
        obtain rfl := Method.readOnly_ofLocal _ _ _ _ hchecked
        exact ⟨_, _, hpublished⟩
  · cases h

/-- The recorded fidelity stays right only if the delta was asked for at it. -/
theorem Agrees.remembered_iff {owner : String} (h : Agrees ready name owner compiledAt)
    (fidelity : Fidelity)
    (transitions : HashMap PendingTransitionKey PendingSemanticTransition) :
    Agrees { ready.rememberContextFidelity name fidelity with
      pendingSemanticTransitions := transitions } name owner compiledAt ↔
      fidelity = compiledAt := by
  have hlookup : (ready.contextFidelities.insert name fidelity).lookup name = some fidelity :=
    Finmap.lookup_insert _
  constructor
  · exact fun hafter => Option.some.inj (hlookup.symm.trans hafter.fidelity)
  · rintro rfl
    exact ⟨hlookup, h.durable⟩

/-- The hash of another text is not the one of the durable context. -/
theorem Agrees.rehashed_iff {owner : String} (h : Agrees ready name owner compiledAt)
    (sourceHash : String) :
    Agrees { ready with irContext := ready.irContext.setSourceHash name sourceHash } name owner
      compiledAt ↔ ready.irContext.getSourceHash name = some sourceHash := by
  have hlookup : (ready.irContext.setSourceHash name sourceHash).getSourceHash name =
      some sourceHash := Finmap.lookup_insert _
  obtain ⟨store, context, hstore, hload, hhash, hversion⟩ := h.durable
  constructor
  · rintro ⟨-, store', context', hstore', hload', hhash', -⟩
    cases hstore.symm.trans hstore'
    cases hload.symm.trans hload'
    exact hhash.trans (hhash'.symm.trans hlookup)
  · intro hsame
    refine ⟨h.fidelity, store, context, hstore, hload, ?_, hversion⟩
    exact hlookup.trans (hsame.symm.trans hhash)

/-- Without an authority of its own a request does not replace the context of a file. -/
theorem publishDelta_untracked
    (hready : ready.aliasForPath env request.resolvedPath = some name)
    (hfile : ready.irContext.hasFile name = true) (hprevious : candidate.previousAuthority = none)
    {outcome : Option (Option SequenceDelta × CompiledIR)}
    (h : (publishDelta env request candidate).call ready = .ok (.ok outcome, state')) :
    outcome = none := by
  have hcurrent : authorityIsCurrent env request candidate ready = false := by
    rw [authorityIsCurrent, hprevious]
    dsimp only
    rw [hready]
    exact congrArg (!·) hfile
  obtain ⟨self, _, hself, hrest⟩ := Method.call_bind_ok.mp h
  cases hself
  rw [hcurrent, if_neg Bool.false_ne_true] at hrest
  cases hrest
  rfl

theorem Read.changes_iff (hread : Read env request started name candidate) {live : List CoreOp}
    (hlive : tuplesToCoreopsFrom 0 ((started.irContext.getIr name).getD []) = .ok live) :
    Changes env request started name ↔
      live.map opToTuple ≠ candidate.compiled.instructions.map opToTuple := by
  obtain ⟨original, semanticEdges, hcompile, hinstructions⟩ := hread.compiled
  rw [hinstructions]
  constructor
  · rintro ⟨live', compiled', semanticEdges', hlive', hcompile', hne⟩
    cases hlive.symm.trans hlive'
    cases hcompile.symm.trans hcompile'
    exact hne
  · exact fun hne => ⟨live, original, semanticEdges, hlive, hcompile, hne⟩

/-- What a commit does to a live context that agrees with the durable one. -/
theorem commitDelta_agrees_iff (hready : ready.aliasForPath env request.resolvedPath = some name)
    (hread : Read env request started name candidate)
    (hagrees : Agrees ready name (env.durableOwnerPath request.resolvedPath) compiledAt)
    (h : (commitDelta env request candidate newest).call ready = .ok (.ok response, state')) :
    state'.irContext.files = ready.irContext.files ∧
      started.irContext.getSourceHash name ≠ some (env.computeHash request.source) ∧
      (Agrees state' name (env.durableOwnerPath request.resolvedPath) compiledAt ↔
        Changes env request started name ∧ request.fidelity = compiledAt) := by
  obtain ⟨delta, compiled, hpublished⟩ := commitDelta_ok h
  obtain ⟨store, context, hstore, hload, hhash, hversion⟩ := hagrees.durable
  have hauthority := hread.authority
  by_cases htracked : started.irContext.tracked name = true
  · rw [if_pos htracked] at hauthority
    obtain ⟨hcurrent, live, hlive, hcommitted⟩ :=
      publishDelta_ok hstore hload hauthority hpublished
    have hchanged := hread.changed htracked
    have hchanges := hread.changes_iff hlive
    refine ⟨?_, hchanged, ?_⟩
    · obtain ⟨-, transitions, rfl⟩ | ⟨-, rfl⟩ := hcommitted <;> rfl
    · obtain ⟨hne, transitions, rfl⟩ | ⟨heq, rfl⟩ := hcommitted
      · rw [hread.pathAlias, hagrees.remembered_iff]
        exact (and_iff_right (hchanges.mpr hne)).symm
      · rw [authorityIsCurrent, hauthority] at hcurrent
        dsimp only at hcurrent
        have hsame : ready.irContext.getSourceHash name = started.irContext.getSourceHash name := by
          have hlast := (Bool.and_eq_true_iff.mp hcurrent).2
          rw [hread.pathAlias] at hlast
          exact of_decide_eq_true hlast
        rw [hread.pathAlias, hagrees.rehashed_iff, hread.sourceHash, hsame]
        exact iff_of_false hchanged fun hboth => hchanges.mp hboth.1 heq
  · rw [if_neg htracked] at hauthority
    have hfile : ready.irContext.hasFile name = true := by
      rw [ContextState.fileVersion] at hversion
      obtain ⟨file, hfile, -⟩ := Option.map_eq_some_iff.mp hversion
      rw [ContextState.hasFile, hfile]
      rfl
    cases publishDelta_untracked hready hfile hauthority hpublished

/-- Where the live and the durable context of a file agree, they still do after a delta was asked
for exactly if the text is the recorded one, or if it has other instructions and the delta was
asked for at the fidelity of the live ones. -/
theorem handleDeltaCodeContext_agrees_iff
    (hstarted : started.aliasForPath env request.resolvedPath = some name)
    (hready : ready.aliasForPath env request.resolvedPath = some name)
    (hagrees : Agrees ready name (env.durableOwnerPath request.resolvedPath) compiledAt)
    (h : handleDeltaCodeContext env request newest started ready = .ok (.ok response, state')) :
    state'.irContext.files = ready.irContext.files ∧
      (Agrees state' name (env.durableOwnerPath request.resolvedPath) compiledAt ↔
        started.irContext.getSourceHash name = some (env.computeHash request.source) ∨
          (Changes env request started name ∧ request.fidelity = compiledAt)) := by
  rw [handleDeltaCodeContext] at h
  split at h
  · cases h
  · cases h
  · next hprepared =>
    cases h
    exact ⟨rfl, iff_of_true hagrees (Or.inl (prepareDelta_ok hstarted hprepared))⟩
  · next hprepared =>
    obtain ⟨hfiles, hne, hiff⟩ :=
      commitDelta_agrees_iff hready (prepareDelta_ok hstarted hprepared) hagrees h
    exact ⟨hfiles, hiff.trans (or_iff_right hne).symm⟩

end Handling

section Sample

/-- A compiler that sees one declaration in one text, and hashes that are the texts. -/
def sampleEnv : DeltaEnv where
  semanticOwnerPath := id
  durableOwnerPath := id
  canonicalIdentityKey := id
  shortPathHash := id
  computeHash := id
  compile _ _ fileId _ source := .ok
    ({ fileId, version := 0
       instructions := if source = "struct A;" then [.defClass "C1" "A"] else [] }, [])
  deriveIdentities _ _ := .ok
    { canonicalConfig := "", canonicalProducers := "", semanticConfig := "",
      semanticProducers := "" }
  sequenceDeltaIdentity _ := ""
  autoSave := false
  now := 0

/-- A file without declarations, saved at high fidelity. -/
def savedStore : SqliteStore :=
  let saved := SqliteStore.saveContextTransaction id 0 "a.rs" .high ""
    [204, 2, 4, 1, 1, 4, 97, 46, 114, 115, 0, 0] "// a" 1 [] 0 0 none .empty
  (saved.toOption.map (·.1)).getD .empty

def sampleState : McpState where
  irContext := ContextState.new.loadIr { fileId := "α1", instructions := [], version := 1 }
    (some "// a")
  dict := { forward := Finmap.insert "α1" "a.rs" ∅, reverse := Finmap.insert "a.rs" "α1" ∅ }
  contextFidelities := Finmap.insert "α1" .high ∅
  pendingSemanticTransitions := ∅
  semanticEdgeSnapshots := ∅
  persistedPaths := ∅
  workspaceIndex := .new
  persistenceStore := some savedStore

def commentRequest : DeltaRequest := { resolvedPath := "a.rs", fidelity := .high, source := "// b" }

def lowRequest : DeltaRequest := { resolvedPath := "a.rs", fidelity := .low, source := "struct A;" }

theorem agrees_sample : Agrees sampleState "α1" "a.rs" .high := by
  have hloaded : (SqliteStore.answered (savedStore.loadDurableContext "a.rs" none)).map
      (fun context => (context.sourceHash, context.ir.version)) = some ("// a", 1) := by
    decide +kernel
  have hanswered : (SqliteStore.answered (savedStore.loadDurableContext "a.rs" none)).isSome := by
    decide +kernel
  obtain ⟨context, hcontext⟩ := SqliteStore.exists_of_answered hanswered
  rw [hcontext] at hloaded
  obtain ⟨hhash, hversion⟩ := Prod.mk.inj (Option.some.inj hloaded)
  exact ⟨rfl, savedStore, context, rfl, hcontext, congrArg some hhash.symm,
    congrArg some hversion.symm⟩

/-- A new comment leaves the live context with the hash of a text that the store does not have, and
a delta that is asked for at a low fidelity leaves that fidelity with instructions of a high one. -/
theorem not_handleDeltaCodeContext_agrees : Agrees sampleState "α1" "a.rs" .high ∧
    (∃ response state', handleDeltaCodeContext sampleEnv commentRequest true sampleState
        sampleState = .ok (.ok response, state') ∧ ¬Agrees state' "α1" "a.rs" .high) ∧
    ∃ response state', handleDeltaCodeContext sampleEnv lowRequest true sampleState
      sampleState = .ok (.ok response, state') ∧ ¬Agrees state' "α1" "a.rs" .high := by
  refine ⟨agrees_sample, ⟨_, _, rfl, ?_⟩, _, _, rfl, ?_⟩
  · exact (agrees_sample.rehashed_iff "// b").not.mpr (by decide)
  · exact (agrees_sample.remembered_iff .low _).not.mpr (by decide)

def changeRequest : DeltaRequest :=
  { resolvedPath := "a.rs", fidelity := .high, source := "struct A;" }

/-- A delta with a new declaration, asked for at the recorded fidelity, leaves the two contexts in
agreement. -/
theorem handleDeltaCodeContext_agrees_change : ∃ response state',
    handleDeltaCodeContext sampleEnv changeRequest true sampleState sampleState =
        .ok (.ok response, state') ∧ Agrees state' "α1" "a.rs" .high := by
  have hrun : ∃ response state', handleDeltaCodeContext sampleEnv changeRequest true sampleState
      sampleState = .ok (.ok response, state') := ⟨_, _, rfl⟩
  obtain ⟨response, state', hrun⟩ := hrun
  refine ⟨response, state', hrun,
    (handleDeltaCodeContext_agrees_iff rfl rfl agrees_sample hrun).2.mpr (.inr ⟨?_, rfl⟩)⟩
  exact ⟨[], _, [], rfl, rfl, by decide⟩

end Sample

end Mcp
end CleanCtx
