import CleanCtx.Cbm.CallerVerify

/-!
What caller verification says of the call sites. The legal argument counts of a
declaration are read off the syntax tree, for a call on a receiver and for one
that passes the receiver as an argument. The counters follow the verdicts, and
the verdicts are right except where the texts of the nodes mislead, where an
argument list holds more than arguments, and where an extension method is called
without a receiver.
-/
namespace CleanCtx
namespace Cbm

def argumentCount (site : Node) : Nat := (site.children.filter (·.kind = "argument")).length

/-- Every parameter without a default has an argument, and only a parameter array takes more
arguments than there are parameters. -/
def TakesArguments (parameters : List Node) (paramsArray : Bool) (count : Nat) : Prop :=
  parameters.countP (!hasDefault ·) ≤ count ∧ (paramsArray = true ∨ count ≤ parameters.length)

instance (parameters : List Node) (paramsArray : Bool) (count : Nat) :
    Decidable (TakesArguments parameters paramsArray count) :=
  inferInstanceAs (Decidable (_ ∧ _))

def isExtension (parameters : Node) : Bool := (parameterNodes parameters).head?.any isReceiver

/-- The argument counts of a legal call: with all parameters, or on a receiver with the others. -/
def LegalCount (parameters : Node) (count : Nat) : Prop :=
  TakesArguments (parameterNodes parameters) (hasParamsArray parameters) count ∨
    isExtension parameters = true ∧
      TakesArguments (parameterNodes parameters).tail (hasParamsArray parameters) count

instance (parameters : Node) (count : Nat) : Decidable (LegalCount parameters count) :=
  inferInstanceAs (Decidable (_ ∨ _))

section Shapes

variable (alphabet : Alphabet) (parameters : Node)

def mentionsParams : Bool := hasWord alphabet parameters.text "params"

/-- The first parameter has the word `this` in its text. -/
def mentionsReceiver : Bool :=
  (parameterNodes parameters).head?.any fun parameter => hasWord alphabet parameter.text "this"

def explicitParameters : Nat :=
  (parameterNodes parameters).length - (mentionsReceiver alphabet parameters).toNat

def mentionsDefault : Nat := (parameterNodes parameters).countP (·.text.toList.contains '=')

theorem arityOf_eq : arityOf alphabet parameters =
    { declared := (parameterNodes parameters).length + (mentionsParams alphabet parameters).toNat
      minimumExplicit := explicitParameters alphabet parameters - mentionsDefault parameters
      maximumExplicit := if mentionsParams alphabet parameters then none
        else some (explicitParameters alphabet parameters)
      flexible := 0 < mentionsDefault parameters || mentionsParams alphabet parameters } := by
  have hfirst : (((parameterNodes parameters).map (·.text)).head?.any
      fun text => hasWord alphabet text "this") = mentionsReceiver alphabet parameters := by
    unfold mentionsReceiver
    cases parameterNodes parameters <;> rfl
  have hdefaults : ((parameterNodes parameters).map (·.text)).countP (·.toList.contains '=') =
      mentionsDefault parameters := List.countP_map ..
  unfold arityOf
  simp only [hfirst, hdefaults, List.length_map]
  unfold explicitParameters mentionsParams
  cases hasWord alphabet parameters.text "params" with
  | false => simp
  | true =>
      simp only [Bool.toNat_true, if_true, Bool.or_true, ArityShape.mk.injEq, and_true, true_and]
      omega

end Shapes

/-- A parameter list whose nodes, and those of its parameters, have their keywords in their
texts. -/
structure SpelledList (alphabet : Alphabet) (parameters : Node) : Prop where
  own : Spelled alphabet parameters
  each : ∀ parameter ∈ parameterNodes parameters, Spelled alphabet parameter

section Legal

variable {alphabet : Alphabet} {parameters : Node} {count : Nat}

theorem takesArguments_length (nodes : List Node) (paramsArray : Bool) :
    TakesArguments nodes paramsArray nodes.length :=
  ⟨List.countP_le_length, .inr le_rfl⟩

theorem legalCount_length (parameters : Node) :
    LegalCount parameters (parameterNodes parameters).length :=
  .inl (takesArguments_length ..)

/-- Parameters that need no argument have an equals sign in their text. -/
theorem TakesArguments.length_le {nodes : List Node} {paramsArray : Bool}
    (h : TakesArguments nodes paramsArray count)
    (hspelled : ∀ node ∈ nodes, Spelled alphabet node) :
    nodes.length ≤ count + nodes.countP (·.text.toList.contains '=') := by
  have hdefaults : nodes.countP hasDefault ≤
      nodes.countP (·.text.toList.contains '=') := by
    apply List.countP_mono_left
    intro node hnode hdefault
    exact List.contains_iff_mem.mpr ((hspelled node hnode).default hdefault)
  have hsplit := List.length_eq_countP_add_countP hasDefault (l := nodes)
  have hrequired : nodes.countP (fun node => decide ¬hasDefault node = true) =
      nodes.countP (!hasDefault ·) := by
    apply List.countP_congr
    simp
  have := h.1
  omega

theorem mentionsReceiver_of_isExtension (h : SpelledList alphabet parameters)
    (hextension : isExtension parameters = true) : mentionsReceiver alphabet parameters = true := by
  unfold isExtension at hextension
  unfold mentionsReceiver
  cases hparameters : parameterNodes parameters with
  | nil =>
      rw [hparameters] at hextension
      cases hextension
  | cons first rest =>
      rw [hparameters] at hextension
      have hfirst : first ∈ parameterNodes parameters := by
        rw [hparameters]
        exact List.mem_cons_self
      exact (h.each first hfirst).receiver hextension

theorem exists_first_of_isExtension (hextension : isExtension parameters = true) :
    ∃ first rest, parameterNodes parameters = first :: rest := by
  unfold isExtension at hextension
  cases hparameters : parameterNodes parameters with
  | nil =>
      rw [hparameters] at hextension
      cases hextension
  | cons first rest => exact ⟨first, rest, rfl⟩

/-- No legal call passes fewer arguments than the least number the texts allow. -/
theorem LegalCount.minimum_le (h : SpelledList alphabet parameters)
    (hlegal : LegalCount parameters count) :
    explicitParameters alphabet parameters - mentionsDefault parameters ≤ count := by
  unfold explicitParameters mentionsDefault
  obtain htakes | ⟨hextension, htakes⟩ := hlegal
  · have := htakes.length_le h.each
    omega
  · obtain ⟨first, rest, hparameters⟩ := exists_first_of_isExtension hextension
    have hspelled : ∀ node ∈ rest, Spelled alphabet node := fun node hnode =>
      h.each node (hparameters ▸ List.mem_cons_of_mem first hnode)
    rw [hparameters, List.tail_cons] at htakes
    have hlength := htakes.length_le hspelled
    rw [mentionsReceiver_of_isExtension h hextension, hparameters, List.length_cons,
      List.countP_cons, Bool.toNat_true]
    omega

/-- Without a parameter array no legal call passes more arguments than there are parameters. -/
theorem LegalCount.le_length (h : SpelledList alphabet parameters)
    (hparams : mentionsParams alphabet parameters = false) (hlegal : LegalCount parameters count) :
    count ≤ (parameterNodes parameters).length := by
  have hnone : hasParamsArray parameters = false := by
    rw [← Bool.not_eq_true]
    intro harray
    have hmentions : mentionsParams alphabet parameters = true := h.own.params harray
    rw [hparams] at hmentions
    cases hmentions
  obtain htakes | ⟨-, htakes⟩ := hlegal
  · exact htakes.2.resolve_left (by rw [hnone]; exact Bool.false_ne_true)
  · have hle := htakes.2.resolve_left (by rw [hnone]; exact Bool.false_ne_true)
    rw [List.length_tail] at hle
    omega

variable (count) in
/-- With no default and no parameter array a call passes all parameters, or all but a receiver. -/
theorem legalCount_iff_of_exact (h : SpelledList alphabet parameters)
    (hdefaults : mentionsDefault parameters = 0)
    (hparams : mentionsParams alphabet parameters = false) :
    LegalCount parameters count ↔ count = (parameterNodes parameters).length ∨
      isExtension parameters = true ∧ count + 1 = (parameterNodes parameters).length := by
  have hnone : ∀ node ∈ parameterNodes parameters, hasDefault node = false := by
    intro node hnode
    rw [← Bool.not_eq_true]
    intro hdefault
    have hcontains := List.contains_iff_mem.mpr ((h.each node hnode).default hdefault)
    exact absurd hcontains (List.countP_eq_zero.mp hdefaults node hnode)
  have hrequired : ∀ nodes : List Node, (∀ node ∈ nodes, hasDefault node = false) →
      nodes.countP (!hasDefault ·) = nodes.length := by
    intro nodes hnodes
    apply List.countP_eq_length.mpr
    intro node hnode
    rw [hnodes node hnode]
    rfl
  constructor
  · intro hlegal
    have hle := hlegal.le_length h hparams
    obtain htakes | ⟨hextension, htakes⟩ := hlegal
    · have hge := htakes.1
      rw [hrequired _ hnone] at hge
      exact .inl (Nat.le_antisymm hle hge)
    · obtain ⟨first, rest, hparameters⟩ := exists_first_of_isExtension hextension
      have hge := htakes.1
      rw [hparameters] at hge hle ⊢
      rw [List.tail_cons, hrequired rest
        fun node hnode => hnone node (hparameters ▸ List.mem_cons_of_mem first hnode)] at hge
      rw [List.length_cons] at hle ⊢
      by_cases hall : count = rest.length + 1
      · exact .inl hall
      · exact .inr ⟨hextension, by omega⟩
  · rintro (rfl | ⟨hextension, hcount⟩)
    · exact legalCount_length parameters
    · obtain ⟨first, rest, hparameters⟩ := exists_first_of_isExtension hextension
      refine .inr ⟨hextension, ?_⟩
      rw [hparameters, List.length_cons] at hcount
      rw [hparameters, List.tail_cons, Nat.succ_injective hcount]
      exact takesArguments_length ..

end Legal

def VerifyLoop.count (state : VerifyLoop) : SiteVerdict → Nat
  | .rejected => state.rejectedArity
  | .ambiguous => state.ambiguous
  | .verified => state.verified

def CallerVerificationSummary.count (summary : CallerVerificationSummary) : SiteVerdict → Nat
  | .rejected => summary.rejectedArity
  | .ambiguous => summary.ambiguous
  | .verified => summary.verified

section Counters

variable {alphabet : Alphabet} {parseTree : String → Option (Tree alphabet)} {methodName : String}
  {target : ArityShape} {sameShapeAmbiguity : Bool}

def sitesOf (methodName : String) : Option (Tree alphabet) → List Node
  | none => []
  | some tree => invocationArguments tree methodName

def candidateTrees (parseTree : String → Option (Tree alphabet)) :
    ParseMemo alphabet → List CandidateSource → List (Option (Tree alphabet))
  | _, [] => []
  | memo, candidate :: rest =>
      let (tree, memo) := memo.tree parseTree candidate.resolvedFile candidate.text
      tree :: candidateTrees parseTree memo rest

variable (target sameShapeAmbiguity) in
/-- One site adds one to the counter of its verdict. -/
theorem siteLoop_count (file : String) (verdict : SiteVerdict) (observed : List Nat) :
    ∀ state accepted compatible,
      (siteLoop target sameShapeAmbiguity file state accepted compatible observed).1.count verdict =
        state.count verdict +
          observed.countP fun n => judge target sameShapeAmbiguity n = verdict := by
  induction observed with
  | nil => intro state accepted compatible; rfl
  | cons n rest ih =>
      intro state accepted compatible
      rw [siteLoop, List.countP_cons]
      cases hjudge : judge target sameShapeAmbiguity n <;>
        rw [ih] <;> cases verdict <;> simp [VerifyLoop.count] <;> omega

theorem verifyStep_count (verdict : SiteVerdict) (state : VerifyLoop)
    (candidate : CandidateSource) (tree : Option (Tree alphabet)) :
    (verifyStep methodName target sameShapeAmbiguity state candidate tree).count verdict =
      state.count verdict + (sitesOf methodName tree).countP
        fun site => judge target sameShapeAmbiguity site.namedChildCount = verdict := by
  cases tree with
  | none => cases verdict <;> rfl
  | some tree =>
      have hsites := siteLoop_count target sameShapeAmbiguity
        candidate.file verdict (invocationAritiesOf tree methodName) state [] []
      unfold invocationAritiesOf at hsites
      rw [List.countP_map] at hsites
      refine Eq.trans ?_ hsites
      unfold verifyStep invocationAritiesOf
      simp only
      split
      · cases verdict <;> rfl
      · split
        · cases verdict <;> rfl
        · rfl

variable (parseTree methodName target sameShapeAmbiguity) in
theorem verifyLoop_count (verdict : SiteVerdict) (candidates : List CandidateSource) :
    ∀ state (memo : ParseMemo alphabet),
      (verifyLoop parseTree methodName target sameShapeAmbiguity state memo candidates).1.count
          verdict =
        state.count verdict +
          ((candidateTrees parseTree memo candidates).flatMap (sitesOf methodName)).countP
            fun site => judge target sameShapeAmbiguity site.namedChildCount = verdict := by
  induction candidates with
  | nil => intro state memo; rfl
  | cons candidate rest ih =>
      intro state memo
      rw [verifyLoop, candidateTrees]
      simp only [List.flatMap_cons, List.countP_append]
      rw [ih, verifyStep_count, Nat.add_assoc]

theorem ambiguousLoop_ambiguous (candidates : List CandidateSource) :
    ∀ state (memo : ParseMemo alphabet),
      (ambiguousLoop parseTree methodName state memo candidates).1.ambiguous =
        state.ambiguous +
          ((candidateTrees parseTree memo candidates).flatMap (sitesOf methodName)).length := by
  have hstep : ∀ (state : AmbiguousLoop) candidate (tree : Option (Tree alphabet)),
      (ambiguousStep methodName state candidate tree).ambiguous =
        state.ambiguous + (sitesOf methodName tree).length := by
    intro state candidate tree
    cases tree with
    | none => rfl
    | some tree =>
        unfold ambiguousStep invocationAritiesOf
        simp only [List.length_map]
        split <;> rfl
  induction candidates with
  | nil => intro state memo; rfl
  | cons candidate rest ih =>
      intro state memo
      rw [ambiguousLoop, candidateTrees]
      simp only [List.flatMap_cons, List.length_append]
      rw [ih, hstep, Nat.add_assoc]

end Counters

end Cbm
end CleanCtx
