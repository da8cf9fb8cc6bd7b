import Mathlib.Tactic.IntervalCases
import CleanCtx.Ir.WireRoundTrip
import CleanCtx.Library.Lists

/-!
What the tuple decoder reads of a tuple (`tuple_to_op` of `ir/wire.rs`). An opcode either
reads a fixed number of operands and ignores the rest, or reads them all; a few operands
are numbers, and count by their value. Two tuples of one length decode to the same
operation exactly when they agree in what is read.
-/
namespace CleanCtx

theorem DeclarationModifier.eq_asStr {s : String} {m : DeclarationModifier}
    (h : fromSerialized s = some m) : m.asStr = s := by
  unfold fromSerialized at h
  split at h <;> cases h <;> rfl

theorem ControlSummary.eq_asStr {s : String} {c : ControlSummary}
    (h : fromSerialized s = some c) : c.asStr = s := by
  unfold fromSerialized at h
  split at h <;> cases h <;> rfl

theorem SideEffectKind.eq_asStr {s : String} {e : SideEffectKind}
    (h : fromSerialized s = some e) : e.asStr = s := by
  unfold fromSerialized at h
  split at h <;> cases h <;> rfl

theorem ExecutionContextKind.eq_asStr {s : String} {c : ExecutionContextKind}
    (h : fromSerialized s = some c) : c.asStr = s := by
  unfold fromSerialized at h
  split at h <;> cases h <;> rfl

/-- The facts of a payload are all it says. -/
theorem PatternFact.serializeFacts_of_parseLoop (values : List String) :
    ∀ {facts}, parseLoop values = some facts →
      serializeFacts facts = values ∧ ∀ fact ∈ facts, fact.Named := by
  fun_induction parseLoop values with
  | case1 =>
      rintro facts ⟨⟩
      exact ⟨rfl, by simp⟩
  | case2 rest ih | case3 rest ih | case4 rest ih =>
      intro facts h
      obtain ⟨found, hfound, rfl⟩ := Option.map_eq_some_iff.mp h
      obtain ⟨htexts, hnamed⟩ := ih hfound
      rw [serializeFacts_eq_flatMap] at htexts
      refine ⟨?_, List.forall_mem_cons.mpr ⟨trivial, hnamed⟩⟩
      rw [serializeFacts_eq_flatMap, List.flatMap_cons, htexts]
      rfl
  | case6 property rest hne ih | case8 property rest hne ih =>
      intro facts h
      obtain ⟨found, hfound, rfl⟩ := Option.map_eq_some_iff.mp h
      obtain ⟨htexts, hnamed⟩ := ih hfound
      rw [serializeFacts_eq_flatMap] at htexts
      refine ⟨?_, List.forall_mem_cons.mpr ⟨hne, hnamed⟩⟩
      rw [serializeFacts_eq_flatMap, List.flatMap_cons, htexts]
      rfl
  | case5 | case7 | case9 => rintro facts ⟨⟩

namespace DeltaOpcode

/-- How many operands are read, where those behind them are ignored. -/
def arity : DeltaOpcode → Option Nat
  | defClass | defInterface | ret | fieldType | classExtends | baseTypeRef | interfaceExtends
  | implements | typeAlias | sideEffect | executionContext => some 2
  | defMethod | defField | defInterfaceMethod | defInterfaceField | importModule | dataFlow
  | controlFlow => some 3
  | param => some 4
  | _ => none

def Reads (opcode : DeltaOpcode) (k : Nat) : Prop := ∀ n ∈ opcode.arity, k < n

def Numeric (opcode : DeltaOpcode) (k : Nat) : Prop :=
  opcode = body ∧ (k = 2 ∨ k = 3) ∨ opcode = call ∧ k = 2

def SameOperand (opcode : DeltaOpcode) (k : Nat) (s s' : String) : Prop :=
  s = s' ∨ opcode.Numeric k ∧ Decimal.parse s = Decimal.parse s'

/-- The operands that the opcode asks for. -/
def Legible : DeltaOpcode → List String → Prop
  | methodModifiers, operands | classModifiers, operands | interfaceModifiers, operands =>
      2 ≤ operands.length ∧ ∀ word ∈ operands.tail, ∃ m : DeclarationModifier, m.asStr = word
  | controlSummary, operands =>
      2 ≤ operands.length ∧ ∀ word ∈ operands.tail, ∃ c : ControlSummary, c.asStr = word
  | patternFacts, operands =>
      2 ≤ operands.length ∧ ∃ facts : List PatternFact, (∀ fact ∈ facts, fact.Named) ∧
        serializeFacts facts = operands.tail
  | flags, operands | classFlags, operands | injects, operands | pattern, operands =>
      2 ≤ operands.length
  | sideEffect, operands => ∃ effect : SideEffectKind, operands[1]? = some effect.asStr
  | executionContext, operands =>
      ∃ context : ExecutionContextKind, operands[1]? = some context.asStr
  | body, operands =>
      operands.length = 2 ∨ operands.length = 4 ∧
        ∀ number ∈ operands.drop 2, (Decimal.parse number).isSome
  | call, operands =>
      (operands.length = 3 ∨ operands.length = 4 ∧ operands[3]? = some "spread") ∧
        ∀ number ∈ operands[2]?, (Decimal.parse number).isSome
  | opcode, operands => ∃ n ∈ opcode.arity, n ≤ operands.length

variable {opcode : DeltaOpcode} {operands operands' : List String} {op : CoreOp} {n : Nat}

theorem fixed_or_variadic (opcode : DeltaOpcode) :
    (∃ n, opcode.arity = some n) ∨ opcode.arity = none := by
  cases opcode.arity with
  | none => exact .inr rfl
  | some n => exact .inl ⟨n, rfl⟩

theorem operandsToOp_take (h : opcode.arity = some n) (operands : List String) :
    operandsToOp opcode (operands.take n) = operandsToOp opcode operands := by
  cases opcode <;> cases h <;>
    rcases operands with _ | ⟨a, _ | ⟨b, _ | ⟨c, _ | ⟨d, operands⟩⟩⟩⟩ <;> rfl

theorem variadicArm_eq_some {α : Type} {build : String → α → CoreOp}
    {read : List String → Option α} : variadicArm build read operands = some op ↔
      ∃ target values payload, operands = target :: values ∧ values ≠ [] ∧
        read values = some payload ∧ op = build target payload := by
  cases operands with
  | nil => exact iff_of_false nofun fun ⟨_, _, _, h, _⟩ => List.cons_ne_nil _ _ h.symm
  | cons target values =>
      rw [variadicArm_cons]
      split
      · next h =>
          refine iff_of_false nofun ?_
          rintro ⟨_, _, _, ⟨⟩, hvalues, _⟩
          exact hvalues h
      · next h =>
          rw [Option.map_eq_some_iff]
          constructor
          · rintro ⟨payload, hread, rfl⟩
            exact ⟨target, values, payload, rfl, h, hread, rfl⟩
          · rintro ⟨_, _, payload, ⟨⟩, -, hread, rfl⟩
            exact ⟨payload, hread, rfl⟩

theorem mapM_eq_map {α : Type} {read : String → Option α} {write : α → String}
    (h : ∀ {s a}, read s = some a → write a = s) {words : List String} {values : List α}
    (hread : words.mapM read = some values) : values.map write = words := by
  rw [Lists.mapM_eq_some_iff] at hread
  induction hread with
  | nil => rfl
  | cons hword _ ih => rw [List.map_cons, h hword, ih]

/-- Of a tuple whose surplus is ignored, the operation spells what was read. -/
theorem opToTuple_of_fixed (harity : opcode.arity = some n)
    (h : operandsToOp opcode operands = some op) :
    opToTuple op = opcode.wireName :: operands.take n := by
  rw [← operandsToOp_take harity] at h
  generalize htaken : operands.take n = taken at h ⊢
  have hlength : taken.length ≤ n := htaken ▸ List.length_take_le n operands
  cases opcode with
  | sideEffect =>
      cases harity
      rcases taken with _ | ⟨m, _ | ⟨word, _ | ⟨_, _⟩⟩⟩
      · cases h
      · cases h
      · obtain ⟨effect, heffect, rfl⟩ := Option.map_eq_some_iff.mp h
        rw [opToTuple, wireName, SideEffectKind.eq_asStr heffect]
      · simp only [List.length_cons] at hlength
        omega
  | executionContext =>
      cases harity
      rcases taken with _ | ⟨m, _ | ⟨word, _ | ⟨_, _⟩⟩⟩
      · cases h
      · cases h
      · obtain ⟨context, hcontext, rfl⟩ := Option.map_eq_some_iff.mp h
        rw [opToTuple, wireName, ExecutionContextKind.eq_asStr hcontext]
      · simp only [List.length_cons] at hlength
        omega
  | methodModifiers | classModifiers | interfaceModifiers | controlSummary | patternFacts | flags
  | classFlags | injects | pattern | body | call => cases harity
  | _ =>
      cases harity
      rcases taken with _ | ⟨a, _ | ⟨b, _ | ⟨c, _ | ⟨d, _ | ⟨_, _⟩⟩⟩⟩⟩ <;>
        first
        | (cases h <;> rfl)
        | (simp only [List.length_cons] at hlength; omega)

/-- A variadic operation spells all that it was decoded from. -/
theorem opToTuple_of_variadic (harity : opcode.arity = none) (hbody : opcode ≠ body)
    (hcall : opcode ≠ call) (h : operandsToOp opcode operands = some op) :
    opToTuple op = opcode.wireName :: operands := by
  cases opcode with
  | methodModifiers | classModifiers | interfaceModifiers =>
      obtain ⟨target, values, payload, rfl, -, hread, rfl⟩ := variadicArm_eq_some.mp h
      rw [← mapM_eq_map DeclarationModifier.eq_asStr hread]
      rfl
  | controlSummary =>
      obtain ⟨target, values, payload, rfl, -, hread, rfl⟩ := variadicArm_eq_some.mp h
      rw [← mapM_eq_map ControlSummary.eq_asStr hread]
      rfl
  | patternFacts =>
      obtain ⟨target, values, payload, rfl, -, hread, rfl⟩ := variadicArm_eq_some.mp h
      obtain ⟨facts, hfacts, hsome⟩ := Option.bind_eq_some_iff.mp hread
      obtain ⟨-, hsame⟩ := Option.ite_none_left_eq_some.mp hsome
      cases hsame
      rw [← (PatternFact.serializeFacts_of_parseLoop values hfacts).1]
      rfl
  | flags | classFlags | injects | pattern =>
      obtain ⟨target, values, payload, rfl, -, hread, rfl⟩ := variadicArm_eq_some.mp h
      cases hread
      rfl
  | body => exact absurd rfl hbody
  | call => exact absurd rfl hcall
  | _ => cases harity

/-- A body has two operands, or its span behind them. -/
theorem body_of_operandsToOp (h : operandsToOp body operands = some op) :
    (∃ m text, operands = [m, text] ∧ op = .body m text none none) ∨
      ∃ m text start stop a b, operands = [m, text, start, stop] ∧ Decimal.parse start = some a ∧
        Decimal.parse stop = some b ∧ op = .body m text (some a) (some b) := by
  rcases operands with _ | ⟨m, _ | ⟨text, _ | ⟨start, _ | ⟨stop, _ | ⟨_, _⟩⟩⟩⟩⟩
  · cases h
  · cases h
  · cases h
    exact .inl ⟨m, text, rfl, rfl⟩
  · cases h
  · obtain ⟨a, ha, hrest⟩ := Option.bind_eq_some_iff.mp h
    obtain ⟨b, hb, hop⟩ := Option.bind_eq_some_iff.mp hrest
    exact .inr ⟨m, text, start, stop, a, b, rfl, ha, hb, (Option.some.inj hop).symm⟩
  · cases h

/-- A call has three operands, or the spread mark behind them. -/
theorem call_of_operandsToOp (h : operandsToOp call operands = some op) :
    ∃ caller callee argc n, Decimal.parse argc = some n ∧
      (operands = [caller, callee, argc] ∧ op = .call caller callee n false ∨
        operands = [caller, callee, argc, "spread"] ∧ op = .call caller callee n true) := by
  rcases operands with _ | ⟨caller, _ | ⟨callee, _ | ⟨argc, _ | ⟨mark, _ | ⟨_, _⟩⟩⟩⟩⟩
  · cases h
  · cases h
  · cases h
  · obtain ⟨n, hn, rfl⟩ := Option.map_eq_some_iff.mp h
    exact ⟨caller, callee, argc, n, hn, .inl ⟨rfl, rfl⟩⟩
  · rw [operandsToOp] at h
    split at h
    · next hmark =>
      obtain ⟨n, hn, rfl⟩ := Option.map_eq_some_iff.mp h
      exact ⟨caller, callee, argc, n, hn, .inr ⟨by rw [hmark], rfl⟩⟩
    · cases h
  · cases h

theorem opcode_of_operandsToOp (h : operandsToOp opcode operands = some op) :
    op.opcode = opcode := by
  have hname : ∀ op, (opToTuple op).head? = some op.opcode.wireName := by
    intro op
    cases op with
    | body _ _ start stop => cases start <;> cases stop <;> rfl
    | _ => rfl
  refine wireName_injective (Option.some.inj ((hname op).symm.trans ?_))
  by_cases hbody : opcode = body
  · subst hbody
    obtain ⟨m, text, -, rfl⟩ | ⟨m, text, start, stop, a, b, -, -, -, rfl⟩ :=
      body_of_operandsToOp h <;> rfl
  · by_cases hcall : opcode = call
    · subst hcall
      obtain ⟨caller, callee, argc, n, -, ⟨-, rfl⟩ | ⟨-, rfl⟩⟩ := call_of_operandsToOp h <;> rfl
    · obtain ⟨n, harity⟩ | harity := fixed_or_variadic opcode
      · rw [opToTuple_of_fixed harity h, List.head?_cons]
      · rw [opToTuple_of_variadic harity hbody hcall h, List.head?_cons]

theorem sameOperand_body (h : operandsToOp body operands = some op)
    (h' : operandsToOp body operands' = some op) {k : Nat} {s s' : String}
    (hs : operands[k]? = some s) (hs' : operands'[k]? = some s') : body.SameOperand k s s' := by
  obtain ⟨m, text, rfl, rfl⟩ | ⟨m, text, start, stop, a, b, rfl, ha, hb, rfl⟩ :=
    body_of_operandsToOp h
  · obtain ⟨_, _, rfl, hop⟩ | ⟨_, _, _, _, _, _, -, -, -, hop⟩ := body_of_operandsToOp h'
    · cases hop
      exact .inl (Option.some.inj (hs.symm.trans hs'))
    · cases hop
  · obtain ⟨_, _, -, hop⟩ | ⟨_, _, start', stop', _, _, rfl, ha', hb', hop⟩ :=
      body_of_operandsToOp h'
    · cases hop
    · cases hop
      rcases k with _ | _ | _ | _ | k
      · exact .inl (Option.some.inj (hs.symm.trans hs'))
      · exact .inl (Option.some.inj (hs.symm.trans hs'))
      · cases hs
        cases hs'
        exact .inr ⟨.inl ⟨rfl, .inl rfl⟩, ha.trans ha'.symm⟩
      · cases hs
        cases hs'
        exact .inr ⟨.inl ⟨rfl, .inr rfl⟩, hb.trans hb'.symm⟩
      · cases hs

theorem sameOperand_call (h : operandsToOp call operands = some op)
    (h' : operandsToOp call operands' = some op) {k : Nat} {s s' : String}
    (hs : operands[k]? = some s) (hs' : operands'[k]? = some s') : call.SameOperand k s s' := by
  obtain ⟨caller, callee, argc, n, hn, hshape⟩ := call_of_operandsToOp h
  obtain ⟨caller', callee', argc', n', hn', hshape'⟩ := call_of_operandsToOp h'
  have hsame : ∀ rest, caller :: callee :: argc :: rest = operands →
      caller :: callee :: argc' :: rest = operands' → n = n' → call.SameOperand k s s' := by
    rintro rest rfl rfl rfl
    rcases k with _ | _ | _ | k
    · exact .inl (Option.some.inj (hs.symm.trans hs'))
    · exact .inl (Option.some.inj (hs.symm.trans hs'))
    · cases hs
      cases hs'
      exact .inr ⟨.inr ⟨rfl, rfl⟩, hn.trans hn'.symm⟩
    · exact .inl (Option.some.inj (hs.symm.trans hs'))
  obtain ⟨hoperands, rfl⟩ | ⟨hoperands, rfl⟩ := hshape
  · obtain ⟨hoperands', hop⟩ | ⟨-, hop⟩ := hshape'
    · cases hop
      exact hsame [] hoperands.symm hoperands'.symm rfl
    · cases hop
  · obtain ⟨-, hop⟩ | ⟨hoperands', hop⟩ := hshape'
    · cases hop
    · cases hop
      exact hsame ["spread"] hoperands.symm hoperands'.symm rfl

/-- Operands that decode to one operation agree in what is read. -/
theorem sameOperand_of_eq (h : operandsToOp opcode operands = some op)
    (h' : operandsToOp opcode operands' = some op) {k : Nat} (hreads : opcode.Reads k)
    {s s' : String} (hs : operands[k]? = some s) (hs' : operands'[k]? = some s') :
    opcode.SameOperand k s s' := by
  by_cases hbody : opcode = body
  · subst hbody
    exact sameOperand_body h h' hs hs'
  by_cases hcall : opcode = call
  · subst hcall
    exact sameOperand_call h h' hs hs'
  refine .inl ?_
  obtain ⟨n, harity⟩ | harity := fixed_or_variadic opcode
  · have htake : operands.take n = operands'.take n := (List.cons.inj
      ((opToTuple_of_fixed harity h).symm.trans (opToTuple_of_fixed harity h'))).2
    have hk : k < n := hreads n harity
    have hget := congrArg (·[k]?) htake
    simp only [List.getElem?_take_of_lt hk, hs, hs', Option.some.injEq] at hget
    exact hget
  · have hsame : operands = operands' := (List.cons.inj
      ((opToTuple_of_variadic harity hbody hcall h).symm.trans
        (opToTuple_of_variadic harity hbody hcall h'))).2
    exact Option.some.inj (hs.symm.trans (hsame ▸ hs'))

theorem SameOperand.symm {k : Nat} {s s' : String} (h : opcode.SameOperand k s s') :
    opcode.SameOperand k s' s :=
  h.imp Eq.symm fun ⟨hnumeric, hparse⟩ => ⟨hnumeric, hparse.symm⟩

theorem SameOperand.text {k : Nat} {s s' : String} (h : opcode.SameOperand k s s')
    (htext : ¬ opcode.Numeric k) : s = s' :=
  h.resolve_right fun hnumeric => htext hnumeric.1

theorem SameOperand.number {k : Nat} {s s' : String} (h : opcode.SameOperand k s s') :
    Decimal.parse s = Decimal.parse s' :=
  h.elim (congrArg Decimal.parse) And.right

def SameOperands (opcode : DeltaOpcode) (operands operands' : List String) : Prop :=
  ∀ k s s', operands[k]? = some s → operands'[k]? = some s' → opcode.SameOperand k s s'

theorem body_congr (hlength : operands.length = operands'.length)
    (hsame : body.SameOperands operands operands') (h : operandsToOp body operands = some op) :
    operandsToOp body operands' = some op := by
  obtain ⟨m, text, rfl, rfl⟩ | ⟨m, text, start, stop, a, b, rfl, ha, hb, rfl⟩ :=
    body_of_operandsToOp h
  · obtain ⟨m', text', rfl⟩ := List.length_eq_two.mp hlength.symm
    cases (hsame 0 m m' rfl rfl).text (by simp [Numeric])
    cases (hsame 1 text text' rfl rfl).text (by simp [Numeric])
    rfl
  · rcases operands' with _ | ⟨m', _ | ⟨text', _ | ⟨start', _ | ⟨stop', _ | ⟨_, _⟩⟩⟩⟩⟩ <;>
      simp at hlength
    cases (hsame 0 m m' rfl rfl).text (by simp [Numeric])
    cases (hsame 1 text text' rfl rfl).text (by simp [Numeric])
    rw [operandsToOp, ← (hsame 2 start start' rfl rfl).number, ha,
      ← (hsame 3 stop stop' rfl rfl).number, hb]
    rfl

theorem call_congr (hlength : operands.length = operands'.length)
    (hsame : call.SameOperands operands operands') (h : operandsToOp call operands = some op) :
    operandsToOp call operands' = some op := by
  obtain ⟨caller, callee, argc, n, hn, ⟨rfl, rfl⟩ | ⟨rfl, rfl⟩⟩ := call_of_operandsToOp h
  · obtain ⟨caller', callee', argc', rfl⟩ := List.length_eq_three.mp hlength.symm
    cases (hsame 0 caller caller' rfl rfl).text (by simp [Numeric])
    cases (hsame 1 callee callee' rfl rfl).text (by simp [Numeric])
    rw [operandsToOp, ← (hsame 2 argc argc' rfl rfl).number, hn]
    rfl
  · rcases operands' with _ | ⟨caller', _ | ⟨callee', _ | ⟨argc', _ | ⟨mark, _ | ⟨_, _⟩⟩⟩⟩⟩ <;>
      simp at hlength
    cases (hsame 0 caller caller' rfl rfl).text (by simp [Numeric])
    cases (hsame 1 callee callee' rfl rfl).text (by simp [Numeric])
    cases (hsame 3 "spread" mark rfl rfl).text (by simp [Numeric])
    rw [operandsToOp, if_pos rfl, ← (hsame 2 argc argc' rfl rfl).number, hn]
    rfl

/-- Operands that agree in what is read decode alike. -/
theorem operandsToOp_congr (hlength : operands.length = operands'.length)
    (hsame : ∀ k s s', opcode.Reads k → operands[k]? = some s → operands'[k]? = some s' →
      opcode.SameOperand k s s') : operandsToOp opcode operands = operandsToOp opcode operands' := by
  have hall : opcode.arity = none → opcode.SameOperands operands operands' := fun harity k s s' =>
    hsame k s s' fun n hn => by cases harity.symm.trans hn
  have hback : opcode.arity = none → opcode.SameOperands operands' operands :=
    fun harity k s s' hs hs' => (hall harity k s' s hs' hs).symm
  by_cases hbody : opcode = body
  · subst hbody
    exact Option.ext fun op =>
      ⟨body_congr hlength (hall rfl), body_congr hlength.symm (hback rfl)⟩
  by_cases hcall : opcode = call
  · subst hcall
    exact Option.ext fun op =>
      ⟨call_congr hlength (hall rfl), call_congr hlength.symm (hback rfl)⟩
  have htext : ∀ k, opcode.Reads k → operands[k]? = operands'[k]? := by
    intro k hreads
    by_cases hk : k < operands.length
    · have hnumeric : ¬ opcode.Numeric k := fun h =>
        h.elim (fun hop => hbody hop.1) fun hop => hcall hop.1
      rw [List.getElem?_eq_getElem hk, List.getElem?_eq_getElem (hlength ▸ hk),
        (hsame k _ _ hreads (List.getElem?_eq_getElem hk)
          (List.getElem?_eq_getElem (hlength ▸ hk))).text hnumeric]
    · rw [List.getElem?_eq_none (by omega), List.getElem?_eq_none (by omega)]
  obtain ⟨n, harity⟩ | harity := fixed_or_variadic opcode
  · rw [← operandsToOp_take harity, ← operandsToOp_take harity operands']
    refine congrArg _ (List.ext_getElem? fun k => ?_)
    by_cases hk : k < n
    · rw [List.getElem?_take_of_lt hk, List.getElem?_take_of_lt hk]
      refine htext k fun m hm => ?_
      cases harity.symm.trans hm
      exact hk
    · rw [List.getElem?_eq_none (by simp; omega), List.getElem?_eq_none (by simp; omega)]
  · refine congrArg _ (List.ext_getElem? fun k => htext k fun n hn => ?_)
    cases harity.symm.trans hn

theorem variadicArm_isSome {α : Type} (build : String → α → CoreOp)
    (read : List String → Option α) : (variadicArm build read operands).isSome ↔
      2 ≤ operands.length ∧ (read operands.tail).isSome := by
  rcases operands with _ | ⟨target, _ | ⟨value, values⟩⟩ <;> simp [variadicArm]

theorem mapM_isSome {α : Type} {read : String → Option α} {write : α → String}
    (hread : ∀ a, read (write a) = some a) (hwrite : ∀ {s a}, read s = some a → write a = s)
    (words : List String) :
    (words.mapM read).isSome ↔ ∀ word ∈ words, ∃ a, write a = word := by
  constructor
  · intro h word hword
    obtain ⟨values, hvalues⟩ := Option.isSome_iff_exists.mp h
    obtain ⟨a, -, ha⟩ :=
      Lists.exists_right_of_forall₂ (Lists.mapM_eq_some_iff.mp hvalues) word hword
    exact ⟨a, hwrite ha⟩
  · intro h
    obtain ⟨values, hvalues⟩ := Lists.exists_mapM (f := read) fun word hword => by
      obtain ⟨a, rfl⟩ := h word hword
      rw [hread, Option.isSome_some]
    rw [hvalues, Option.isSome_some]

theorem parseAll_isSome {values : List String} (hne : values ≠ []) :
    (PatternFact.parseAll values).isSome ↔
      ∃ facts : List PatternFact, (∀ fact ∈ facts, fact.Named) ∧ serializeFacts facts = values := by
  constructor
  · intro h
    obtain ⟨facts, hfacts⟩ := Option.isSome_iff_exists.mp h
    obtain ⟨found, hfound, -⟩ := Option.bind_eq_some_iff.mp hfacts
    obtain ⟨htexts, hnamed⟩ := PatternFact.serializeFacts_of_parseLoop values hfound
    exact ⟨found, hnamed, htexts⟩
  · rintro ⟨facts, hnamed, rfl⟩
    rw [parseAll_serializeFacts,
      if_pos ⟨mt (serializeFacts_eq_nil facts).mpr hne, hnamed⟩, Option.isSome_some]

/-- The decoder takes exactly the operands that the opcode asks for. -/
theorem operandsToOp_isSome_iff :
    (operandsToOp opcode operands).isSome ↔ opcode.Legible operands := by
  cases opcode with
  | methodModifiers | classModifiers | interfaceModifiers =>
      rw [operandsToOp, variadicArm_isSome, mapM_isSome DeclarationModifier.fromSerialized_asStr
        DeclarationModifier.eq_asStr, Legible]
  | controlSummary =>
      rw [operandsToOp, variadicArm_isSome,
        mapM_isSome ControlSummary.fromSerialized_asStr ControlSummary.eq_asStr, Legible]
  | patternFacts =>
      rw [operandsToOp, variadicArm_isSome, Legible]
      refine and_congr_right fun hlength => parseAll_isSome ?_
      exact List.ne_nil_of_length_pos (by rw [List.length_tail]; omega)
  | flags | classFlags | injects | pattern =>
      rw [operandsToOp, variadicArm_isSome, Legible]
      exact and_iff_left rfl
  | sideEffect =>
      rcases operands with _ | ⟨m, _ | ⟨word, operands⟩⟩
      · simp [operandsToOp, Legible]
      · simp [operandsToOp, Legible]
      · rw [operandsToOp, Option.isSome_map, Option.isSome_iff_exists]
        refine exists_congr fun effect => ⟨fun h => ?_, fun h => ?_⟩
        · rw [SideEffectKind.eq_asStr h]
          rfl
        · rw [Option.some.inj h, SideEffectKind.fromSerialized_asStr]
  | executionContext =>
      rcases operands with _ | ⟨m, _ | ⟨word, operands⟩⟩
      · simp [operandsToOp, Legible]
      · simp [operandsToOp, Legible]
      · rw [operandsToOp, Option.isSome_map, Option.isSome_iff_exists]
        refine exists_congr fun context => ⟨fun h => ?_, fun h => ?_⟩
        · rw [ExecutionContextKind.eq_asStr h]
          rfl
        · rw [Option.some.inj h, ExecutionContextKind.fromSerialized_asStr]
  | body =>
      rcases operands with _ | ⟨m, _ | ⟨text, _ | ⟨start, _ | ⟨stop, _ | ⟨_, _⟩⟩⟩⟩⟩ <;>
        simp [operandsToOp, Legible]
      cases Decimal.parse start <;> cases Decimal.parse stop <;> simp
  | call =>
      rcases operands with _ | ⟨caller, _ | ⟨callee, _ | ⟨argc, _ | ⟨mark, _ | ⟨_, _⟩⟩⟩⟩⟩ <;>
        simp [operandsToOp, Legible]
      by_cases hmark : mark = "spread" <;> simp [hmark]
  | _ =>
      rcases operands with _ | ⟨a, _ | ⟨b, _ | ⟨c, _ | ⟨d, operands⟩⟩⟩⟩ <;>
        simp [operandsToOp, Legible, arity]

end DeltaOpcode

end CleanCtx
