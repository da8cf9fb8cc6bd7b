import CleanCtx.Cbm.CallerArity

/-!
Verification of the callers a graph proposes (`cbm/caller_verify.rs`): the
argument counts at the call sites of the candidates against the parameter list of
the selected declaration.
-/
namespace CleanCtx
namespace Cbm

inductive CallerVerificationStatus
  | verifiedCompatible
  | rejectedArityMismatch
  | ambiguous
  | unverifiable
  deriving DecidableEq, Repr

structure CsharpTargetSelector where
  qualifiedName : String
  declaredArity : Option Nat
  deriving DecidableEq, Repr

structure CandidateSource where
  file : String
  resolvedFile : String
  text : String
  deriving DecidableEq, Repr

structure VerifiedCallerCandidate where
  cbmFile : String
  file : String
  argumentCounts : List Nat
  status : CallerVerificationStatus
  deriving DecidableEq, Repr

structure CallerVerificationSummary where
  targetQualifiedName : Option String
  targetExplicitArity : Option Nat
  rawCandidates : Nat
  verified : Nat
  rejectedArity : Nat
  ambiguous : Nat
  unverifiable : Nat
  verifiedCallerFiles : Nat
  compatibleCallerFiles : Nat
  resolution : CallerVerificationStatus
  verifiedCandidates : List VerifiedCallerCandidate
  ambiguousCandidates : List VerifiedCallerCandidate
  deriving DecidableEq, Repr

def CallerVerificationSummary.ofUnverifiable (target : Option String) :
    CallerVerificationSummary where
  targetQualifiedName := target
  targetExplicitArity := none
  rawCandidates := 0
  verified := 0
  rejectedArity := 0
  ambiguous := 0
  unverifiable := 1
  verifiedCallerFiles := 0
  compatibleCallerFiles := 0
  resolution := .unverifiable
  verifiedCandidates := []
  ambiguousCandidates := []

/-- The counts in order, each once. -/
def candidateEvidence (candidate : CandidateSource) (observed : List Nat)
    (status : CallerVerificationStatus) : VerifiedCallerCandidate where
  cbmFile := candidate.file
  file := candidate.resolvedFile
  argumentCounts := (observed.mergeSort (· ≤ ·)).dedup
  status := status

/-- `rsplit('.').next()` of the qualified name. -/
def CsharpTargetSelector.methodName (selector : CsharpTargetSelector) : String :=
  lastSegment selector.qualifiedName

/-- `rsplit('.').nth(1)`. -/
def CsharpTargetSelector.typeName (selector : CsharpTargetSelector) : Option String :=
  ((selector.qualifiedName.toList.splitOn '.').reverse[1]?).map String.ofList

def CsharpTargetSelector.selects (selector : CsharpTargetSelector) (shape : ArityShape) : Bool :=
  selector.declaredArity.all fun arity => shape.declared = arity

inductive Resolution
  | unverifiable
  | several
  | single (target : ArityShape) (sameShapeAmbiguity : Bool)
  deriving DecidableEq, Repr

def resolveTarget (declarations : List ArityShape) (selector : CsharpTargetSelector) : Resolution :=
  let selected := declarations.filter selector.selects
  match selected with
  | [] => .unverifiable
  | target :: _ =>
      if selector.declaredArity = none ∧ 1 < selected.length then .several
      else .single target
        (1 < selected.length || 1 < declarations.countP (aritiesOverlap target))

inductive SiteVerdict
  | rejected
  | ambiguous
  | verified
  deriving DecidableEq, Repr

def judge (target : ArityShape) (sameShapeAmbiguity : Bool) (observed : Nat) : SiteVerdict :=
  if !target.accepts observed then .rejected
  else if target.flexible || sameShapeAmbiguity then .ambiguous
  else .verified

section Loops

variable {alphabet : Alphabet} (parseTree : String → Option (Tree alphabet)) (methodName : String)

/-- `HashSet::insert`. -/
def insertFile (file : String) (files : List String) : List String :=
  if files.contains file then files else files ++ [file]

/-- The loop over the candidates of a target that stays ambiguous. -/
structure AmbiguousLoop where
  ambiguous : Nat
  files : List String
  unverifiable : Nat
  ambiguousCandidates : List VerifiedCallerCandidate

def ambiguousStep (state : AmbiguousLoop) (candidate : CandidateSource) :
    Option (Tree alphabet) → AmbiguousLoop
  | none => { state with unverifiable := state.unverifiable + 1 }
  | some tree =>
      let invocations := invocationAritiesOf tree methodName
      let state :=
        if invocations.isEmpty then state
        else { state with
          files := insertFile candidate.file state.files
          ambiguousCandidates := state.ambiguousCandidates ++
            [candidateEvidence candidate invocations .ambiguous] }
      { state with ambiguous := state.ambiguous + invocations.length }

def ambiguousLoop : AmbiguousLoop → ParseMemo alphabet → List CandidateSource →
    AmbiguousLoop × ParseMemo alphabet
  | state, memo, [] => (state, memo)
  | state, memo, candidate :: rest =>
      let (tree, memo) := memo.tree parseTree candidate.resolvedFile candidate.text
      ambiguousLoop (ambiguousStep methodName state candidate tree) memo rest

/-- The counters of the main loop with its sets of files and its evidence. -/
structure VerifyLoop where
  rawCandidates : Nat
  verified : Nat
  rejectedArity : Nat
  ambiguous : Nat
  unverifiable : Nat
  verifiedFiles : List String
  compatibleFiles : List String
  verifiedCandidates : List VerifiedCallerCandidate
  ambiguousCandidates : List VerifiedCallerCandidate

/-- The sites of one candidate, with the counts accepted and those that are compatible but
ambiguous. -/
def siteLoop (target : ArityShape) (sameShapeAmbiguity : Bool) (file : String) :
    VerifyLoop → List Nat → List Nat → List Nat → VerifyLoop × List Nat × List Nat
  | state, accepted, compatible, [] => (state, accepted, compatible)
  | state, accepted, compatible, observed :: rest =>
      let state := { state with rawCandidates := state.rawCandidates + 1 }
      match judge target sameShapeAmbiguity observed with
      | .rejected =>
          siteLoop target sameShapeAmbiguity file
            { state with rejectedArity := state.rejectedArity + 1 } accepted compatible rest
      | .ambiguous =>
          siteLoop target sameShapeAmbiguity file
            { state with
              ambiguous := state.ambiguous + 1
              compatibleFiles := insertFile file state.compatibleFiles }
            accepted (compatible ++ [observed]) rest
      | .verified =>
          siteLoop target sameShapeAmbiguity file
            { state with
              verified := state.verified + 1
              compatibleFiles := insertFile file state.compatibleFiles
              verifiedFiles := insertFile file state.verifiedFiles }
            (accepted ++ [observed]) compatible rest

def verifyStep (target : ArityShape) (sameShapeAmbiguity : Bool) (state : VerifyLoop)
    (candidate : CandidateSource) : Option (Tree alphabet) → VerifyLoop
  | none => { state with unverifiable := state.unverifiable + 1 }
  | some tree =>
      let (state, accepted, compatible) := siteLoop target sameShapeAmbiguity candidate.file state
        [] [] (invocationAritiesOf tree methodName)
      if !accepted.isEmpty then
        { state with verifiedCandidates := state.verifiedCandidates ++
            [candidateEvidence candidate accepted .verifiedCompatible] }
      else if !compatible.isEmpty then
        { state with ambiguousCandidates := state.ambiguousCandidates ++
            [candidateEvidence candidate compatible .ambiguous] }
      else state

def verifyLoop (target : ArityShape) (sameShapeAmbiguity : Bool) :
    VerifyLoop → ParseMemo alphabet → List CandidateSource → VerifyLoop × ParseMemo alphabet
  | state, memo, [] => (state, memo)
  | state, memo, candidate :: rest =>
      let (tree, memo) := memo.tree parseTree candidate.resolvedFile candidate.text
      verifyLoop target sameShapeAmbiguity
        (verifyStep methodName target sameShapeAmbiguity state candidate tree) memo rest

end Loops

def overallResolution (state : VerifyLoop) : CallerVerificationStatus :=
  if 0 < state.unverifiable then .unverifiable
  else if 0 < state.ambiguous then .ambiguous
  else if 0 < state.verified then .verifiedCompatible
  else if 0 < state.rejectedArity then .rejectedArityMismatch
  else .unverifiable

def verifyCsharpCallers {alphabet : Alphabet} (parseTree : String → Option (Tree alphabet))
    (targetSource targetKey : String) (selector : CsharpTargetSelector)
    (candidates : List CandidateSource) (memo : ParseMemo alphabet) :
    CallerVerificationSummary × ParseMemo alphabet :=
  let (targetTree, memo) := memo.tree parseTree targetKey targetSource
  match targetTree with
  | none => (.ofUnverifiable (some selector.qualifiedName), memo)
  | some tree =>
      match resolveTarget (declarationsOf tree selector.methodName selector.typeName) selector with
      | .unverifiable => (.ofUnverifiable (some selector.qualifiedName), memo)
      | .several =>
          let (state, memo) := ambiguousLoop parseTree selector.methodName
            { ambiguous := 0, files := [], unverifiable := 0, ambiguousCandidates := [] }
            memo candidates
          ({ targetQualifiedName := some selector.qualifiedName
             targetExplicitArity := none
             rawCandidates := state.ambiguous
             verified := 0
             rejectedArity := 0
             ambiguous := state.ambiguous
             unverifiable := state.unverifiable
             verifiedCallerFiles := 0
             compatibleCallerFiles := state.files.length
             resolution := if 0 < state.unverifiable then .unverifiable else .ambiguous
             verifiedCandidates := []
             ambiguousCandidates := state.ambiguousCandidates }, memo)
      | .single target sameShapeAmbiguity =>
          let (state, memo) := verifyLoop parseTree selector.methodName target sameShapeAmbiguity
            { rawCandidates := 0, verified := 0, rejectedArity := 0, ambiguous := 0
              unverifiable := 0, verifiedFiles := [], compatibleFiles := []
              verifiedCandidates := [], ambiguousCandidates := [] }
            memo candidates
          ({ targetQualifiedName := some selector.qualifiedName
             targetExplicitArity := target.exactExplicit
             rawCandidates := state.rawCandidates
             verified := state.verified
             rejectedArity := state.rejectedArity
             ambiguous := state.ambiguous
             unverifiable := state.unverifiable
             verifiedCallerFiles := state.verifiedFiles.length
             compatibleCallerFiles := state.compatibleFiles.length
             resolution := overallResolution state
             verifiedCandidates := state.verifiedCandidates
             ambiguousCandidates := state.ambiguousCandidates }, memo)

end Cbm
end CleanCtx
