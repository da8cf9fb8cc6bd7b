import CleanCtx.Mcp.ApplyDelta
import CleanCtx.Mcp.DeltaAgreement

/-!
What a request to apply a delta leaves behind. It may store the baseline of the file first; the
live state changes only if the delta is accepted, and is then the one that the delta makes.
-/
namespace CleanCtx
namespace Mcp

open Sqlite Edit

/-- Only the store, and the names that files have there, may differ. -/
def SameLive (state state' : McpState) : Prop :=
  state' = { state with
    persistenceStore := state'.persistenceStore
    persistedPaths := state'.persistedPaths }

section Frames

variable {α β : Type} {state state' state'' : McpState} {m : DeltaM α} {f : α → DeltaM β}

theorem SameLive.trans (h : SameLive state state') (h' : SameLive state' state'') :
    SameLive state state'' := by
  cases state
  cases state'
  cases state''
  simp only [SameLive, McpState.mk.injEq] at h h' ⊢
  exact ⟨h'.1.trans h.1, h'.2.1.trans h.2.1, h'.2.2.1.trans h.2.2.1, h'.2.2.2.1.trans h.2.2.2.1,
    h'.2.2.2.2.1.trans h.2.2.2.2.1, trivial, h'.2.2.2.2.2.2.1.trans h.2.2.2.2.2.2.1, trivial⟩

theorem SameLive.irContext (h : SameLive state state') : state'.irContext = state.irContext := by
  rw [SameLive] at h
  rw [h]

def KeepsLive (m : DeltaM α) : Prop :=
  ∀ state result state', m.call state = .ok (result, state') → SameLive state state'

/-- If the method returns an error, the live state is as it was. -/
def KeepsLiveOnError (m : DeltaM α) : Prop :=
  ∀ state e state', m.call state = .ok (.error e, state') → SameLive state state'

theorem keepsLive_of_readOnly (h : m.ReadOnly) : KeepsLive m := by
  intro state result state' hcall
  rw [h _ _ _ hcall]
  rfl

theorem keepsLive_modify {g : McpState → McpState} (hg : ∀ state, SameLive state (g state)) :
    KeepsLive (modify g) := by
  intro state result state' h
  cases h
  exact hg state

theorem KeepsLive.bind (hm : KeepsLive m) (hf : ∀ a, KeepsLive (f a)) : KeepsLive (m >>= f) := by
  intro state result state' h
  rw [Method.call_bind] at h
  split at h
  case h_1 => cases h
  case h_2 hc =>
    cases h
    exact hm _ _ _ hc
  case h_3 hc => exact (hm _ _ _ hc).trans (hf _ _ _ _ h)

theorem KeepsLive.bind_onError (hm : KeepsLive m) (hf : ∀ a, KeepsLiveOnError (f a)) :
    KeepsLiveOnError (m >>= f) := by
  intro state e state' h
  rw [Method.call_bind] at h
  split at h
  case h_1 => cases h
  case h_2 hc =>
    cases h
    exact hm _ _ _ hc
  case h_3 hc => exact (hm _ _ _ hc).trans (hf _ _ _ _ h)

theorem KeepsLive.onError (h : KeepsLive m) : KeepsLiveOnError m := fun state e => h state (.error e)

theorem keepsLiveOnError_of_transactional (h : m.Transactional) : KeepsLiveOnError m := by
  intro state e state' hcall
  rw [h _ _ _ hcall]
  rfl

theorem keepsLive_ofLocal (m : Fallible DeltaFailure α) : KeepsLive (Method.ofLocal m) :=
  keepsLive_of_readOnly (Method.readOnly_ofLocal m)

theorem keepsLive_ofResult (result : Except DeltaFailure α) : KeepsLive (ofResult result) :=
  keepsLive_ofLocal _

theorem keepsLive_get : KeepsLive get := keepsLive_of_readOnly Method.readOnly_get

theorem keepsLive_throw (e : DeltaFailure) : KeepsLive (throw e : DeltaM α) :=
  keepsLive_of_readOnly (Method.readOnly_throw e)

theorem keepsLive_throw_bind (e : DeltaFailure) : KeepsLive (throw e >>= f) := by
  intro state result state' h
  rw [Method.call_bind, Method.call_throw] at h
  cases h
  rfl

theorem keepsLive_pure (a : α) : KeepsLive (pure a : DeltaM α) :=
  keepsLive_of_readOnly (Method.readOnly_pure a)

end Frames

section Steps

variable {env : ApplyEnv} {name filePath : String} {fidelity : Fidelity}
  {identities : Option CompatibilityIdentities}

theorem keepsLive_persistBaseline {compiled : CompiledIR} {sourceHash : String}
    {semanticEdges : List SemanticEdge} {identities : CompatibilityIdentities} :
    KeepsLive (persistBaselineWithIdentities env filePath fidelity compiled sourceHash
      semanticEdges identities) := by
  refine (keepsLive_ofLocal _).bind fun binary => keepsLive_get.bind fun state => ?_
  split
  · exact keepsLive_pure _
  · split
    · exact keepsLive_throw _
    · exact keepsLive_modify fun _ => rfl

theorem keepsLive_ensurePersistedBaseline {store : SqliteStore} {compiled : CompiledIR}
    {sourceHash : String} : KeepsLive (ensurePersistedBaselineWithIdentities env store filePath
      fidelity compiled sourceHash identities) := by
  unfold ensurePersistedBaselineWithIdentities
  split
  · refine keepsLive_get.bind fun state => ?_
    split
    · exact keepsLive_throw _
    · refine (keepsLive_ofResult _).bind fun found => keepsLive_persistBaseline.bind fun _ => ?_
      exact keepsLive_modify fun _ => rfl
  · refine (keepsLive_ofLocal _).bind fun durable => ?_
    split
    · exact keepsLive_throw _
    · split
      · exact keepsLive_throw _
      · exact (keepsLive_ofResult _).bind fun current => keepsLive_ofResult _

theorem keepsLive_ensureApplyBaseline :
    KeepsLive (ensureApplyBaseline env name filePath fidelity identities) := by
  refine keepsLive_get.bind fun state => ?_
  split
  · exact keepsLive_pure _
  · split
    · exact keepsLive_throw _
    · exact keepsLive_throw _
    · exact keepsLive_throw _
    · exact (keepsLive_ofResult _).bind fun compiled => keepsLive_ensurePersistedBaseline

theorem keepsLive_persistedContextId : KeepsLive (persistedContextId filePath) := by
  refine keepsLive_get.bind fun state => ?_
  split
  · exact keepsLive_pure _
  · split
    · exact keepsLive_throw _
    · exact keepsLive_pure _

variable {delta : PersistedDelta} {transition : Option PendingSemanticTransition}
  {contextId : Option String}

theorem keepsLive_persistApplied {compact sourceHash : String} {version : UInt64} :
    KeepsLive (persistApplied env delta filePath transition contextId compact sourceHash version) := by
  refine keepsLive_get.bind fun state => ?_
  split
  · split
    · exact keepsLive_throw _
    · exact keepsLive_modify fun _ => rfl
  · exact keepsLive_throw _
  · split
    · exact keepsLive_throw _
    · exact keepsLive_modify fun _ => rfl
  · exact keepsLive_pure _

theorem keepsLive_applied {context : ContextState} : KeepsLive (applied delta context) := by
  unfold applied
  split
  · exact keepsLive_ofLocal _
  · exact keepsLive_throw _
  · exact keepsLive_pure _

theorem keepsLive_commitApplied :
    KeepsLiveOnError (commitApplied env delta filePath fidelity transition contextId) := by
  unfold commitApplied
  dsimp only
  by_cases hretired : transition.any (·.retired) = true
  · rw [if_pos hretired]
    exact (keepsLive_throw_bind _).onError
  · rw [if_neg hretired]
    refine keepsLive_get.bind_onError fun state => keepsLive_applied.bind_onError fun _ => ?_
    split
    · exact (keepsLive_throw _).onError
    · refine (keepsLive_ofResult _).bind_onError fun target =>
        (keepsLive_ofLocal _).bind_onError fun _ => keepsLive_persistApplied.bind_onError fun _ => ?_
      refine keepsLiveOnError_of_transactional (Method.transactional_modify_bind ?_)
      intro self e self' h
      split at h
      · cases h
      · cases h

variable {state state' : McpState} {version : UInt64} {target : CompiledIR}

theorem call_applied_ok {context candidate : ContextState}
    (h : (applied delta context).call state = .ok (.ok (version, candidate), state')) :
    delta.call context = .ok (.ok version, candidate) ∧ state' = state := by
  unfold applied at h
  split at h
  · cases h
  · cases h
  · next heq =>
    cases h
    exact ⟨heq, rfl⟩

/-- A delta that replays leaves its file at the version that it answers. -/
theorem fileVersion_of_call {self candidate : ContextState}
    (h : delta.call self = .ok (.ok version, candidate)) :
    candidate.fileVersion delta.file = some version := by
  have hpublished : ContextState.Published self candidate delta.file version := by
    cases delta with
    | sequence delta => exact ((ContextState.transacts_applySequence delta self).onSuccess _ _ h).2
    | legacy delta => exact ((ContextState.transacts_apply delta self).onSuccess _ _ h).2
  obtain ⟨_, updated, -, hupdated, hversion, -⟩ := hpublished.named
  rw [ContextState.fileVersion, hupdated, Option.map_some, hversion]

/-- An accepted delta is applied to the live state, and the answer is the file as it then is. -/
theorem commitApplied_ok
    (h : (commitApplied env delta filePath fidelity transition contextId).call state =
      .ok (.ok (version, target), state')) :
    ∃ candidate sourceHash tuples, delta.call state.irContext = .ok (.ok version, candidate) ∧
      state'.irContext = candidate.setSourceHash delta.file sourceHash ∧
      state'.irContext.fileVersion delta.file = some version ∧
      state'.irContext.getIr delta.file = some tuples ∧
      compiledFromTuples delta.file version tuples = .ok target := by
  unfold commitApplied at h
  dsimp only at h
  by_cases hretired : transition.any (·.retired) = true
  · rw [if_pos hretired] at h
    obtain ⟨_, _, hthrown, -⟩ := Method.call_bind_ok.mp h
    cases hthrown
  · rw [if_neg hretired] at h
    obtain ⟨_, _, hread, h⟩ := Method.call_bind_ok.mp h
    cases hread
    obtain ⟨⟨version', candidate⟩, _, happlied, h⟩ := Method.call_bind_ok.mp h
    obtain ⟨hdelta, rfl⟩ := call_applied_ok happlied
    have hversion := fileVersion_of_call hdelta
    dsimp only at h
    split at h
    · cases h
    · next tuples htuples =>
      obtain ⟨compiled, _, hcompiled, h⟩ := Method.call_bind_ok.mp h
      obtain ⟨htarget, rfl⟩ := call_ofResult_ok hcompiled
      obtain ⟨_, _, hchecked, h⟩ := Method.call_bind_ok.mp h
      obtain ⟨_, _, hpersisted, h⟩ := Method.call_bind_ok.mp h
      obtain ⟨_, _, hmodified, h⟩ := Method.call_bind_ok.mp h
      cases hmodified
      split at h
      · cases h
        exact ⟨candidate, _, tuples, hdelta, rfl, hversion, htuples, htarget⟩
      · cases h
        exact ⟨candidate, _, tuples, hdelta, rfl, hversion, htuples, htarget⟩

/-- A delta is accepted as a whole or refused as a whole: a request that is refused leaves the
live state as it was, and one that is accepted leaves what the delta makes of it. -/
theorem handleApplyDelta_live (env : ApplyEnv) (request : ApplyRequest) (state : McpState) :
    match (handleApplyDelta env request).call state with
    | .error _ => True
    | .ok (.error _, state') => SameLive state state'
    | .ok (.ok (version, target), state') => ∃ candidate sourceHash tuples,
        request.delta.call state.irContext = .ok (.ok version, candidate) ∧
          state'.irContext = candidate.setSourceHash request.delta.file sourceHash ∧
          state'.irContext.fileVersion request.delta.file = some version ∧
          state'.irContext.getIr request.delta.file = some tuples ∧
          compiledFromTuples request.delta.file version tuples = .ok target := by
  split
  · trivial
  · next e state' h =>
    have hkeeps : KeepsLiveOnError (handleApplyDelta env request) := by
      unfold handleApplyDelta
      dsimp only
      split
      · exact (keepsLive_throw_bind _).onError
      · refine keepsLive_get.bind_onError fun state => ?_
        split
        · exact (keepsLive_throw _).onError
        · exact (keepsLive_ofResult _).bind_onError fun transition =>
            keepsLive_ensureApplyBaseline.bind_onError fun _ =>
              keepsLive_persistedContextId.bind_onError fun contextId => keepsLive_commitApplied
    exact hkeeps _ _ _ h
  · next version target state' h =>
    unfold handleApplyDelta at h
    dsimp only at h
    split at h
    · obtain ⟨_, _, hthrown, -⟩ := Method.call_bind_ok.mp h
      cases hthrown
    · obtain ⟨_, _, hread, h⟩ := Method.call_bind_ok.mp h
      cases hread
      split at h
      · cases h
      · obtain ⟨_, _, htransition, h⟩ := Method.call_bind_ok.mp h
        obtain ⟨-, rfl⟩ := call_ofResult_ok htransition
        obtain ⟨_, _, hbaseline, h⟩ := Method.call_bind_ok.mp h
        obtain ⟨_, _, hcontext, h⟩ := Method.call_bind_ok.mp h
        have hlive := (keepsLive_ensureApplyBaseline _ _ _ hbaseline).trans
          (keepsLive_persistedContextId _ _ _ hcontext)
        rw [← hlive.irContext]
        exact commitApplied_ok h

end Steps

end Mcp
end CleanCtx
