import CleanCtx.Ir.Patterns

/-!
What a match of the consumptive recognizer consists of. A stream is cut into the operations
that pass and the regions that are classified, and of each region the declaration, its
signature and the authoritative annotations are emitted again.
-/
namespace CleanCtx
namespace Patterns

def PatternOp.op (p : PatternOp) : CoreOp := .pattern p.name p.args

theorem toOp_pattern (p : PatternOp) : (MergeItem.pattern p).toOp = p.op := by
  cases p <;> rfl

def signatureOwner : CoreOp → Option String
  | .param methodId _ _ _ | .ret methodId _ => some methodId
  | _ => none

/-- What a classification stands for, of the facts that do not identify the method. -/
inductive Replaces : PatternOp → List CoreOp → Prop
  | nothing (p : PatternOp) : Replaces p []
  | injects (classId methodId : String) (deps : List String) :
      Replaces (.constructor classId methodId deps) [.injects classId deps]
  | override (classId methodId : String) (op : CoreOp)
      (stated : isOverrideAnnotation op methodId = true) :
      Replaces (.override classId methodId) [op]

/-- A stretch of a stream that a pattern classifies. -/
structure Region where
  pattern : PatternOp
  name : String
  leading : List CoreOp
  signature : List CoreOp
  replaced : List CoreOp
  trailing : List CoreOp
  leads : ∀ op ∈ leading, patternAnnotationOwner op = some pattern.methodId
  signs : ∀ op ∈ signature, signatureOwner op = some pattern.methodId
  replaces : Replaces pattern replaced
  trails : ∀ op ∈ trailing, trailsMethod pattern.methodId op = true

namespace Region

variable (region : Region)

def identity : List CoreOp :=
  .defMethod region.pattern.classId region.pattern.methodId region.name :: region.signature

def span : List CoreOp := region.leading ++ region.identity ++ region.replaced ++ region.trailing

def emitted : List CoreOp :=
  region.identity ++ region.trailing.filter isAuthoritative ++ [region.pattern.op]

def removed : List CoreOp :=
  region.leading ++ region.replaced ++ region.trailing.filter fun op => !isAuthoritative op

end Region

/-! Matchers. -/

/-- What a matcher finds: a declaration with its signature, and what the classification stands
for. -/
def Classified (slice : List CoreOp) (p : PatternOp) (retained consumed : Nat) : Prop :=
  ∃ name signature replaced rest,
    slice = .defMethod p.classId p.methodId name :: (signature ++ replaced ++ rest) ∧
      (∀ op ∈ signature, signatureOwner op = some p.methodId) ∧ Replaces p replaced ∧
      retained = signature.length + 1 ∧ consumed = retained + replaced.length

theorem signatureOwner_of_isParamOf {methodId : String} {op : CoreOp}
    (h : isParamOf methodId (some op) = true) : signatureOwner op = some methodId := by
  cases op with
  | param mid _ _ _ => exact congrArg some (of_decide_eq_true h)
  | _ => cases h

theorem signatureOwner_of_isReturnOf {methodId : String} {op : CoreOp}
    (h : isReturnOf methodId (some op) = true) : signatureOwner op = some methodId := by
  cases op with
  | ret mid _ => exact congrArg some (of_decide_eq_true h)
  | _ => cases h

/-- A declaration with so many operations of its signature behind it. -/
theorem classified_take {p : PatternOp} {name : String} {rest : List CoreOp} (count : Nat)
    (hcount : count ≤ rest.length)
    (hsignature : ∀ op ∈ rest.take count, signatureOwner op = some p.methodId) :
    Classified (.defMethod p.classId p.methodId name :: rest) p (count + 1) (count + 1) :=
  ⟨name, rest.take count, [], rest.drop count, by simp, hsignature, .nothing p,
    by rw [List.length_take_of_le hcount], rfl⟩

/-- A signature that starts with one more operation. -/
theorem forall_take_succ {methodId : String} {op : CoreOp} {rest : List CoreOp} {count : Nat}
    (hop : signatureOwner op = some methodId)
    (hrest : ∀ op ∈ rest.take count, signatureOwner op = some methodId) :
    ∀ other ∈ (op :: rest).take (count + 1), signatureOwner other = some methodId := by
  intro other hother
  rcases List.mem_cons.mp hother with rfl | hmem
  · exact hop
  · exact hrest other hmem

theorem walkSignature_spec (methodId : String) (rest : List CoreOp) :
    (walkSignature methodId rest).1 + (walkSignature methodId rest).2.toNat ≤ rest.length ∧
      ∀ op ∈ rest.take ((walkSignature methodId rest).1 +
        (walkSignature methodId rest).2.toNat), signatureOwner op = some methodId := by
  induction rest with
  | nil => exact ⟨Nat.le_refl 0, by rintro op ⟨⟩⟩
  | cons first rest ih =>
      cases first with
      | param mid paramId type name =>
          rw [walkSignature]
          split
          · next heq =>
            obtain ⟨hle, hall⟩ := ih
            rw [Nat.add_right_comm]
            have howner : signatureOwner (.param mid paramId type name) = some methodId :=
              congrArg some heq
            exact ⟨Nat.succ_le_succ hle, forall_take_succ howner hall⟩
          · exact ⟨Nat.zero_le _, by rintro op ⟨⟩⟩
      | ret mid type =>
          rw [walkSignature]
          by_cases heq : mid = methodId
          · rw [decide_eq_true heq]
            have howner : signatureOwner (.ret mid type) = some methodId := congrArg some heq
            have hend : ∀ op ∈ rest.take 0, signatureOwner op = some methodId := by rintro op ⟨⟩
            exact ⟨Nat.le_add_left 1 rest.length, forall_take_succ howner hend⟩
          · rw [decide_eq_false heq]
            exact ⟨Nat.zero_le _, by rintro op ⟨⟩⟩
      | _ => exact ⟨Nat.zero_le _, by rintro op ⟨⟩⟩

variable {alphabet : Alphabet} {slice : List CoreOp} {p : PatternOp} {retained consumed : Nat}

theorem injectsOf_eq_some {classId : String} {op : Option CoreOp} {deps : List String}
    (h : injectsOf classId op = some deps) : op = some (.injects classId deps) := by
  unfold injectsOf at h
  split at h
  · next cid found =>
    split at h
    · next heq =>
      cases h
      rw [heq]
    · cases h
  · cases h

theorem tryCtorPattern_spec (h : tryCtorPattern slice = some (p, retained, consumed)) :
    Classified slice p retained consumed := by
  unfold tryCtorPattern at h
  split at h
  · next classId methodId name rest =>
    obtain ⟨hle, hsignature⟩ := walkSignature_spec methodId rest
    generalize hcount : (walkSignature methodId rest).1 +
      (walkSignature methodId rest).2.toNat = count at hle hsignature
    have hend : 1 + (walkSignature methodId rest).1 + (walkSignature methodId rest).2.toNat =
        count + 1 := by omega
    simp only [hend, List.getElem?_cons_succ] at h
    cases hinjects : injectsOf classId rest[count]? with
    | none =>
        rw [hinjects] at h
        split_ifs at h
        cases h
        exact classified_take (p := .constructor classId methodId []) count hle hsignature
    | some deps =>
        rw [hinjects] at h
        split_ifs at h
        cases h
        have hinject := injectsOf_eq_some hinjects
        have hdrop : rest.drop count = .injects classId deps :: rest.drop (count + 1) :=
          List.drop_eq_getElem?_toList_append.trans (by rw [hinject]; rfl)
        refine ⟨name, rest.take count, [.injects classId deps], rest.drop (count + 1), ?_,
          hsignature, .injects classId methodId deps, by rw [List.length_take_of_le hle], rfl⟩
        rw [List.append_assoc, List.singleton_append, ← hdrop, List.take_append_drop]
        rfl
  · cases h

/-- A match of a declaration and the return behind it. -/
theorem classified_return {classId methodId name mid type : String} {rest : List CoreOp}
    (hclass : p.classId = classId) (hmethod : p.methodId = methodId) (hreturn : mid = methodId) :
    Classified (.defMethod classId methodId name :: .ret mid type :: rest) p 2 2 := by
  subst hclass hmethod
  exact classified_take 1 (Nat.le_add_left 1 rest.length)
    (forall_take_succ (congrArg some hreturn) (by rintro op ⟨⟩))

theorem tryEmptyCtorPattern_spec (h : tryEmptyCtorPattern slice = some (p, retained, consumed)) :
    Classified slice p retained consumed := by
  unfold tryEmptyCtorPattern at h
  split at h
  · next classId methodId name rest =>
    split at h
    · next hguard =>
      cases h
      obtain ⟨-, hreturn, -⟩ := hguard
      cases rest with
      | nil => cases hreturn
      | cons first rest =>
          have howner := signatureOwner_of_isReturnOf hreturn
          exact classified_take (p := .emptyConstructor classId methodId) 1
            (Nat.le_add_left 1 rest.length) (forall_take_succ howner (by rintro op ⟨⟩))
    · cases h
  · cases h

theorem tryObservablePattern_spec
    (h : tryObservablePattern alphabet slice = some (p, retained, consumed)) :
    Classified slice p retained consumed := by
  unfold tryObservablePattern at h
  split at h
  · split at h
    · next hguard =>
      cases h
      exact classified_return rfl rfl hguard.1
    · cases h
  · cases h

theorem tryPromisePattern_spec
    (h : tryPromisePattern alphabet slice = some (p, retained, consumed)) :
    Classified slice p retained consumed := by
  unfold tryPromisePattern at h
  split at h
  · split at h
    · next hguard =>
      cases h
      exact classified_return rfl rfl hguard.1
    · cases h
  · cases h

/-- An optional operation of the signature, and what follows. -/
theorem optional_spec {methodId : String} {guard : Option CoreOp → Bool} (rest : List CoreOp)
    (hguard : ∀ op, guard (some op) = true → signatureOwner op = some methodId)
    (hnone : guard none = false) :
    (guard rest.head?).toNat ≤ rest.length ∧
      ∀ op ∈ rest.take (guard rest.head?).toNat, signatureOwner op = some methodId := by
  cases rest with
  | nil =>
      rw [List.head?_nil, hnone]
      exact ⟨Nat.le_refl 0, by rintro op ⟨⟩⟩
  | cons first rest =>
      rw [List.head?_cons]
      cases hfirst : guard (some first) with
      | false => exact ⟨Nat.zero_le _, by rintro op ⟨⟩⟩
      | true =>
          exact ⟨Nat.le_add_left 1 rest.length,
            forall_take_succ (hguard first hfirst) (by rintro op ⟨⟩)⟩

theorem tryGetterPattern_spec (h : tryGetterPattern slice = some (p, retained, consumed)) :
    Classified slice p retained consumed := by
  unfold tryGetterPattern at h
  split at h
  · next classId methodId name rest =>
    obtain ⟨property, -, hmatch⟩ := Option.map_eq_some_iff.mp h
    cases hmatch
    obtain ⟨hle, hsignature⟩ :=
      optional_spec rest (fun _ => @signatureOwner_of_isReturnOf methodId _) rfl
    rw [Nat.add_comm 1]
    exact classified_take (p := .getter classId methodId property) _ hle hsignature
  · cases h

theorem trySetterPattern_spec (h : trySetterPattern slice = some (p, retained, consumed)) :
    Classified slice p retained consumed := by
  unfold trySetterPattern at h
  split at h
  · next classId methodId name rest =>
    obtain ⟨property, -, hmatch⟩ := Option.map_eq_some_iff.mp h
    cases hmatch
    obtain ⟨hparam, hparams⟩ :=
      optional_spec rest (fun _ => @signatureOwner_of_isParamOf methodId _) rfl
    obtain ⟨hreturn, hreturns⟩ :=
      optional_spec (rest.drop (isParamOf methodId rest.head?).toNat)
        (fun _ => @signatureOwner_of_isReturnOf methodId _) rfl
    rw [List.head?_drop] at hreturn hreturns
    rw [List.length_drop] at hreturn
    rw [Nat.add_assoc, Nat.add_comm 1]
    refine classified_take (p := .setter classId methodId property) _ (by omega) fun op hop => ?_
    rw [List.take_add] at hop
    rcases List.mem_append.mp hop with hmem | hmem
    · exact hparams op hmem
    · exact hreturns op hmem
  · cases h

theorem tryOverridePattern_spec (h : tryOverridePattern slice = some (p, retained, consumed)) :
    Classified slice p retained consumed := by
  unfold tryOverridePattern at h
  split at h
  · next classId methodId name found rest =>
    split at h
    · next hannotation =>
      cases h
      exact ⟨name, [], [found], rest, rfl, by rintro op ⟨⟩,
        .override classId methodId found hannotation, rfl, rfl⟩
    · cases h
  · cases h

theorem firstMatch_spec (h : firstMatch alphabet slice = some (p, retained, consumed)) :
    Classified slice p retained consumed := by
  simp only [firstMatch, Option.orElse_eq_orElse, Option.orElse_eq_or, Option.or_eq_some_iff] at h
  rcases h with h | ⟨-, h | ⟨-, h | ⟨-, h | ⟨-, h | ⟨-, h | ⟨-, h⟩⟩⟩⟩⟩⟩
  · exact tryCtorPattern_spec h
  · exact tryEmptyCtorPattern_spec h
  · exact tryObservablePattern_spec h
  · exact tryPromisePattern_spec h
  · exact tryGetterPattern_spec h
  · exact trySetterPattern_spec h
  · exact tryOverridePattern_spec h

/-! Regions. -/

/-- What a match takes off the front of a slice is a region. -/
theorem tryCompressPattern_spec {matched : PatternMatch}
    (h : tryCompressPattern alphabet slice = some matched) :
    ∃ (region : Region) (rest : List CoreOp), slice = region.span ++ rest ∧
      matched.pattern = region.pattern ∧ matched.retainedStart = region.leading.length ∧
      matched.retained = region.identity.length ∧ matched.consumed = region.span.length := by
  have hsplit := List.takeWhile_append_dropWhile (p := isPatternAnnotation) (l := slice)
  unfold tryCompressPattern at h
  generalize slice.takeWhile isPatternAnnotation = leading at h hsplit
  generalize slice.dropWhile isPatternAnnotation = behind at hsplit
  subst hsplit
  dsimp only at h
  rw [List.drop_left] at h
  split at h
  · next classId methodId name inner =>
    split_ifs at h with hannotations
    cases hfirst : firstMatch alphabet (.defMethod classId methodId name :: inner) with
    | none =>
        rw [hfirst] at h
        cases h
    | some result =>
        obtain ⟨p, retained, consumed⟩ := result
        rw [hfirst] at h
        dsimp only at h
        split_ifs at h with hcall
        cases h
        obtain ⟨found, signature, replaced, rest, hfound, hsignature, hreplaces, rfl, rfl⟩ :=
          firstMatch_spec hfirst
        cases hfound
        have hlead : ∀ op ∈ leading, patternAnnotationOwner op = some p.methodId := by
          intro op hop
          by_contra hne
          exact hannotations (List.any_eq_true.mpr ⟨op, hop, decide_eq_true hne⟩)
        have hdrop : (leading ++ .defMethod p.classId p.methodId name ::
            (signature ++ replaced ++ rest)).drop
              (leading.length + (signature.length + 1 + replaced.length)) = rest := by
          rw [← List.drop_drop, List.drop_left, Nat.add_right_comm, List.drop_succ_cons,
            ← List.length_append, List.drop_left]
        let region : Region :=
          { pattern := p, name, leading, signature, replaced
            trailing := rest.takeWhile (trailsMethod p.methodId)
            leads := hlead
            signs := hsignature
            replaces := hreplaces
            trails := fun op hop => List.mem_takeWhile_imp hop }
        refine ⟨region, rest.dropWhile (trailsMethod p.methodId), ?_, rfl, rfl, rfl, ?_⟩
        · simp only [region, Region.span, Region.identity, List.append_assoc, List.cons_append,
            List.takeWhile_append_dropWhile]
        · simp only [region, Region.span, Region.identity, countTrailingAnnotations, hdrop,
            List.length_append, List.length_cons]
          omega
  · cases h

theorem attemptPattern_spec {matched : PatternMatch}
    (h : attemptPattern alphabet slice = some (matched, consumed)) :
    consumed = matched.consumed ∧ tryCompressPattern alphabet slice = some matched := by
  obtain ⟨found, hfound, heq⟩ := Option.map_eq_some_iff.mp h
  cases heq
  exact ⟨rfl, hfound⟩

theorem attemptPattern_advances : Scan.Advances (attemptPattern alphabet) := by
  intro slice matched consumed h
  obtain ⟨rfl, hmatch⟩ := attemptPattern_spec h
  obtain ⟨region, rest, rfl, -, -, -, hconsumed⟩ := tryCompressPattern_spec hmatch
  rw [hconsumed, List.length_append]
  refine ⟨?_, Nat.le_add_right _ _⟩
  simp only [Region.span, Region.identity, List.length_append, List.length_cons]
  omega

end Patterns
end CleanCtx
