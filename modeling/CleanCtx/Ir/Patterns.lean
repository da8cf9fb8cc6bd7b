import CleanCtx.Dictionary.Symbol
import CleanCtx.Ir.Opcodes
import CleanCtx.Library.Consuming

/-!
Pattern recognition. The consumptive recognizer (`ir/patterns.rs`, `ir/patterns/recognize.rs`,
`recognize/guards.rs`) classifies methods and takes out what a classification stands for; the
additive one (`ir/layers/patterns.rs`) only states facts. Pass 4 of the pipeline runs the
additive recognizer, then the consumptive one.
-/
namespace CleanCtx
namespace Patterns

inductive PatternOp
  | constructor (classId methodId : String) (deps : List String)
  | observable (classId methodId returnType : String)
  | promise (classId methodId returnType : String)
  | getter (classId methodId property : String)
  | setter (classId methodId property : String)
  | override (classId methodId : String)
  | emptyConstructor (classId methodId : String)
  deriving DecidableEq

namespace PatternOp

def classId : PatternOp → String
  | constructor c _ _ | observable c _ _ | promise c _ _ | getter c _ _ | setter c _ _
  | override c _ | emptyConstructor c _ => c

def methodId : PatternOp → String
  | constructor _ m _ | observable _ m _ | promise _ m _ | getter _ m _ | setter _ m _
  | override _ m | emptyConstructor _ m => m

def name : PatternOp → String
  | constructor .. => "CTOR"
  | emptyConstructor .. => "EMPTY_CTOR"
  | observable .. => "OBSERVABLE"
  | promise .. => "PROMISE"
  | getter .. => "GETTER"
  | setter .. => "SETTER"
  | override .. => "OVERRIDE"

/-- What the tuple has behind its name. -/
def args : PatternOp → List String
  | constructor c m deps => c :: m :: deps
  | observable c m type | promise c m type => [c, m, type]
  | getter c m property | setter c m property => [c, m, property]
  | override c m | emptyConstructor c m => [c, m]

def toTuple (p : PatternOp) : List String := "PAT" :: p.name :: p.args

def fromTuple : List String → Option PatternOp
  | "PAT" :: name :: classId :: methodId :: rest =>
      match name, rest with
      | "CTOR", deps => some (constructor classId methodId deps)
      | "EMPTY_CTOR", _ => some (emptyConstructor classId methodId)
      | "OBSERVABLE", type :: _ => some (observable classId methodId type)
      | "PROMISE", type :: _ => some (promise classId methodId type)
      | "GETTER", property :: _ => some (getter classId methodId property)
      | "SETTER", property :: _ => some (setter classId methodId property)
      | "OVERRIDE", _ => some (override classId methodId)
      | _, _ => none
  | _ => none

end PatternOp

variable (alphabet : Alphabet)

def hasTypeIdentifier (returnType expected : String) : Bool :=
  (returnType.toList.splitOnP fun c => !(alphabet.isAlphanumeric c || c = '_' || c = '$')).any
    (· = expected.toList)

def isObservableReturnType (returnType : String) : Bool :=
  hasTypeIdentifier alphabet returnType "Observable" ||
    hasTypeIdentifier alphabet returnType "IObservable"

def isPromiseReturnType (returnType : String) : Bool :=
  hasTypeIdentifier alphabet returnType "$P" || hasTypeIdentifier alphabet returnType "Promise"

/-! Guards. -/

def isPatternAnnotation : CoreOp → Bool
  | .patternFacts .. | .flags .. => true
  | _ => false

def patternAnnotationOwner : CoreOp → Option String
  | .patternFacts method _ | .flags method _ => some method
  | _ => none

def isOverrideAnnotation (op : CoreOp) (methodId : String) : Bool :=
  match op with
  | .patternFacts method facts => method = methodId && facts.contains .override
  | .flags method values => method = methodId && values.contains "OVERRIDE"
  | _ => false

def opReferencesMethod (op : CoreOp) (methodId : String) : Bool :=
  match op with
  | .param mid _ _ _ | .ret mid _ | .patternFacts mid _ | .flags mid _ | .methodModifiers mid _
  | .controlSummary mid _ | .dataFlow mid _ _ | .sideEffect mid _ | .executionContext mid _
  | .controlFlow mid _ _ | .body mid _ _ _ => mid = methodId
  | .call caller _ _ _ => caller = methodId
  | _ => false

def isCallOf (op : CoreOp) (methodId : String) : Bool :=
  match op with
  | .call caller _ _ _ => caller = methodId
  | _ => false

/-- The loop of `trailing_region_references_call`, over what stands behind the offset. -/
def referencesCall (methodId : String) : List CoreOp → Bool
  | [] => false
  | op :: rest =>
      if isCallOf op methodId then true
      else if opReferencesMethod op methodId then referencesCall methodId rest
      else false

def trailingRegionReferencesCall (slice : List CoreOp) (offset : Nat) (methodId : String) : Bool :=
  referencesCall methodId (slice.drop offset)

/-- What a run of trailing annotations is made of. -/
def trailsMethod (methodId : String) : CoreOp → Bool
  | .patternFacts mid _ | .flags mid _ | .methodModifiers mid _ | .controlSummary mid _ =>
      mid = methodId
  | _ => false

def countTrailingAnnotations (slice : List CoreOp) (offset : Nat) (methodId : String) : Nat :=
  ((slice.drop offset).takeWhile (trailsMethod methodId)).length

def opIsUnrepresentableMethodRef (op : CoreOp) (methodId : String) : Bool :=
  match op with
  | .dataFlow mid _ _ | .sideEffect mid _ | .executionContext mid _ | .controlFlow mid _ _
  | .body mid _ _ _ => mid = methodId
  | .call caller _ _ _ => caller = methodId
  | _ => false

def trailingRegionReferencesMethod (slice : List CoreOp) (offset : Nat) (methodId : String) :
    Bool :=
  ((slice.drop offset).dropWhile (trailsMethod methodId)).head?.any
    (opIsUnrepresentableMethodRef · methodId)

/-! Matchers: the pattern, how many operations are retained, and how many are consumed. -/

abbrev MatcherResult := PatternOp × Nat × Nat

def isConstructorName (name : String) : Bool :=
  ["constructor", "new", "__init__", "initialize", "ctor"].contains name

/-- The parameters of a method, and whether its return type follows them. -/
def walkSignature (methodId : String) : List CoreOp → Nat × Bool
  | .param mid _ _ _ :: rest =>
      if mid = methodId then
        let (params, sawReturn) := walkSignature methodId rest
        (params + 1, sawReturn)
      else (0, false)
  | .ret mid _ :: _ => (0, mid = methodId)
  | _ => (0, false)

def injectsOf (classId : String) : Option CoreOp → Option (List String)
  | some (.injects cid deps) => if cid = classId then some deps else none
  | _ => none

def isReturnOf (methodId : String) : Option CoreOp → Bool
  | some (.ret mid _) => mid = methodId
  | _ => false

def isParamOf (methodId : String) : Option CoreOp → Bool
  | some (.param mid _ _ _) => mid = methodId
  | _ => false

def tryCtorPattern (slice : List CoreOp) : Option MatcherResult :=
  match slice with
  | .defMethod classId methodId name :: rest =>
      if isConstructorName name = false then none
      else
        let (paramCount, sawReturn) := walkSignature methodId rest
        let identityEnd := 1 + paramCount + sawReturn.toNat
        let injects := injectsOf classId slice[identityEnd]?
        let idx := identityEnd + injects.isSome.toNat
        if injects.isSome = false ∧ paramCount = 0 then none
        else if sawReturn = false ∧ injects.isSome = false then none
        else if trailingRegionReferencesMethod slice idx methodId then none
        else some (.constructor classId methodId (injects.getD []), identityEnd, idx)
  | _ => none

def tryEmptyCtorPattern (slice : List CoreOp) : Option MatcherResult :=
  match slice with
  | .defMethod classId methodId name :: rest =>
      if isConstructorName name = true ∧ isReturnOf methodId rest.head? = true ∧
          trailingRegionReferencesMethod slice 2 methodId = false then
        some (.emptyConstructor classId methodId, 2, 2)
      else none
  | _ => none

def tryObservablePattern (slice : List CoreOp) : Option MatcherResult :=
  match slice with
  | .defMethod classId methodId _ :: .ret mid type :: _ =>
      if mid = methodId ∧ isObservableReturnType alphabet type = true then
        some (.observable classId methodId type, 2, 2)
      else none
  | _ => none

def tryPromisePattern (slice : List CoreOp) : Option MatcherResult :=
  match slice with
  | .defMethod classId methodId _ :: .ret mid type :: _ =>
      if mid = methodId ∧ isPromiseReturnType alphabet type = true then
        some (.promise classId methodId type, 2, 2)
      else none
  | _ => none

/-- What the name has behind the keyword. No character outside ASCII has one of the keyword's
letters as its lower case. -/
def accessorName (keyword name : String) : Option String :=
  if (name.toList.take 4).map Char.toLower = keyword.toList then
    some (String.ofList (trim (name.toList.drop 4)))
  else none

def accessorProperty (keyword name : String) : Option String :=
  (accessorName keyword name).filter (· ≠ "")

def tryGetterPattern (slice : List CoreOp) : Option MatcherResult :=
  match slice with
  | .defMethod classId methodId name :: rest =>
      (accessorProperty "get " name).map fun property =>
        let consumed := 1 + (isReturnOf methodId rest.head?).toNat
        (.getter classId methodId property, consumed, consumed)
  | _ => none

def trySetterPattern (slice : List CoreOp) : Option MatcherResult :=
  match slice with
  | .defMethod classId methodId name :: rest =>
      (accessorProperty "set " name).map fun property =>
        let params := (isParamOf methodId rest.head?).toNat
        let consumed := 1 + params + (isReturnOf methodId rest[params]?).toNat
        (.setter classId methodId property, consumed, consumed)
  | _ => none

def tryOverridePattern (slice : List CoreOp) : Option MatcherResult :=
  match slice with
  | .defMethod classId methodId _ :: annotation :: _ =>
      if isOverrideAnnotation annotation methodId then some (.override classId methodId, 1, 2)
      else none
  | _ => none

/-- The matchers in the order in which they are tried. -/
def firstMatch (slice : List CoreOp) : Option MatcherResult :=
  tryCtorPattern slice <|> tryEmptyCtorPattern slice <|> tryObservablePattern alphabet slice <|>
    tryPromisePattern alphabet slice <|> tryGetterPattern slice <|> trySetterPattern slice <|>
    tryOverridePattern slice

structure PatternMatch where
  pattern : PatternOp
  retainedStart : Nat
  retained : Nat
  consumed : Nat

def tryCompressPattern (slice : List CoreOp) : Option PatternMatch :=
  let leading := slice.takeWhile isPatternAnnotation
  let firstNonFlags := leading.length
  match slice.drop firstNonFlags with
  | .defMethod _ methodId _ :: _ =>
      if leading.any fun annotation => patternAnnotationOwner annotation ≠ some methodId then none
      else
        match firstMatch alphabet (slice.drop firstNonFlags) with
        | none => none
        | some (pattern, retained, consumed) =>
            let offset := firstNonFlags + consumed
            if trailingRegionReferencesCall slice offset methodId then none
            else
              some
                { pattern
                  retainedStart := firstNonFlags
                  retained
                  consumed := offset + countTrailingAnnotations slice offset methodId }
  | _ => none

/-! The streams. -/

inductive MergeItem
  | passthrough (op : CoreOp)
  | pattern (p : PatternOp)
  deriving DecidableEq

def attemptPattern (slice : List CoreOp) : Option (PatternMatch × Nat) :=
  (tryCompressPattern alphabet slice).map fun matched => (matched, matched.consumed)

/-- What is emitted unchanged out of a whole consumed span. -/
def isAuthoritative : CoreOp → Bool
  | .methodModifiers .. | .controlSummary .. => true
  | _ => false

def mergedItems : ScanEvent CoreOp PatternMatch → List MergeItem
  | .taken matched span =>
      ((span.drop matched.retainedStart).take matched.retained).map .passthrough ++
        (span.filter isAuthoritative).map .passthrough ++ [.pattern matched.pattern]
  | .passed op => [.passthrough op]

def compressMerged (instructions : List CoreOp) : List MergeItem :=
  (Scan.scan (attemptPattern alphabet) instructions).flatMap mergedItems

/-- `CompressionStats`, without the ratio of its two counts. -/
structure CompressionStats where
  sourceOps : Nat
  outputOps : Nat
  deriving DecidableEq

/-- One turn of the loop of `compress`. -/
def compressStep (state : List PatternOp × CompressionStats)
    (event : ScanEvent CoreOp PatternMatch) : List PatternOp × CompressionStats :=
  let (output, stats) := state
  match event with
  | .taken matched _ =>
      (output ++ [matched.pattern],
        { sourceOps := stats.sourceOps + matched.consumed, outputOps := stats.outputOps + 1 })
  | .passed _ => (output, { stats with sourceOps := stats.sourceOps + 1 })

def compress (instructions : List CoreOp) : List PatternOp × CompressionStats :=
  (Scan.scan (attemptPattern alphabet) instructions).foldl compressStep
    ([], { sourceOps := 0, outputOps := 0 })

def MergeItem.toOp : MergeItem → CoreOp
  | passthrough op => op
  | pattern p => .pattern ((p.toTuple[1]?).getD "") (p.toTuple.drop 2)

/-- `CompressingPatternRecognizer::recognize`. -/
def recognize (instructions : List CoreOp) : List CoreOp :=
  (compressMerged alphabet instructions).map MergeItem.toOp

/-! The additive recognizer. -/

namespace Additive

def tryCtorPattern : List CoreOp → Option (CoreOp × Nat)
  | .defMethod _ methodId name :: _ =>
      if isConstructorName name then some (.patternFacts methodId [.constructor], 0) else none
  | _ => none

/-- Some return of the method, before the next method, is observable. -/
def returnsObservable (methodId : String) : List CoreOp → Bool
  | [] => false
  | .defMethod .. :: _ => false
  | .ret mid type :: rest =>
      if mid = methodId ∧ isObservableReturnType alphabet type = true then true
      else returnsObservable methodId rest
  | _ :: rest => returnsObservable methodId rest

def tryObservablePattern : List CoreOp → Option (CoreOp × Nat)
  | .defMethod _ methodId _ :: rest =>
      if returnsObservable alphabet methodId rest then
        some (.patternFacts methodId [.observable], 0)
      else none
  | _ => none

def tryAccessorPattern : List CoreOp → Option (CoreOp × Nat)
  | .defMethod _ methodId name :: _ =>
      match accessorName "get " name with
      | some property => some (.patternFacts methodId [.getter property], 0)
      | none =>
          match accessorName "set " name with
          | some property => some (.patternFacts methodId [.setter property], 0)
          | none => none
  | _ => none

def tryRecognizePattern (slice : List CoreOp) : Option (CoreOp × Nat) :=
  tryCtorPattern slice <|> tryObservablePattern alphabet slice <|> tryAccessorPattern slice

/-- A match that consumes nothing keeps the operation it is made at. -/
def attempt (slice : List CoreOp) : Option ((CoreOp × Nat) × Nat) :=
  (tryRecognizePattern alphabet slice).map fun (pattern, consumed) =>
    ((pattern, consumed), if consumed = 0 then 1 else consumed)

def emitted : ScanEvent CoreOp (CoreOp × Nat) → List CoreOp
  | .taken (pattern, consumed) span => pattern :: if consumed = 0 then span else []
  | .passed op => [op]

/-- `CodePatternRecognizer::recognize`. -/
def recognize (instructions : List CoreOp) : List CoreOp :=
  (Scan.scan (attempt alphabet) instructions).flatMap emitted

end Additive

/-- `PatternRecognitionPass::run` over the recognizers that the server installs. -/
def patternRecognitionPass (instructions : List CoreOp) : List CoreOp :=
  [Additive.recognize alphabet, recognize alphabet].foldl
    (fun instructions recognizer => recognizer instructions) instructions

end Patterns
end CleanCtx
