import CleanCtx.Library.Decides
import CleanCtx.Ir.Identity

/-!
What the identity validator decides. The validity of a stream is a property of
its set of operations and of the singular facts they occupy; neither the order
of the operations nor the accumulated maps occur in it.
-/
namespace CleanCtx

/-- The identity an operation defines. -/
def CoreOp.definition : CoreOp → Option (IdentityKind × String)
  | .defClass id _ => some (.class, id)
  | .defMethod _ id _ | .defInterfaceMethod _ id _ => some (.method, id)
  | .defField _ id _ | .defInterfaceField _ id _ => some (.field, id)
  | .defInterface id _ => some (.interface, id)
  | _ => none

/-- A fact a stream may state only once. -/
inductive Slot
  | definition (id : String)
  | parameter (methodId parameterId : String)
  | returnType (methodId : String)
  | fieldType (fieldId : String)
  | classBase (classId : String)
  | body (methodId : String)
  | importAlias (aliasName : String)
  deriving DecidableEq

/-- The singular fact an operation states; the two class bases share theirs. -/
def CoreOp.slot : CoreOp → Option Slot
  | .defClass id _ | .defMethod _ id _ | .defField _ id _ | .defInterface id _
  | .defInterfaceMethod _ id _ | .defInterfaceField _ id _ => some (.definition id)
  | .param m p _ _ => some (.parameter m p)
  | .ret m _ => some (.returnType m)
  | .fieldType f _ => some (.fieldType f)
  | .classExtends c _ | .baseTypeRef c _ => some (.classBase c)
  | .body m _ _ _ => some (.body m)
  | .importModule a _ _ => some (.importAlias a)
  | _ => none

/-- The identities whose raw text the first pass requires to be non-empty. -/
def CoreOp.requiredIds : CoreOp → List String
  | .defClass id _ | .defInterface id _ => [id]
  | .defMethod owner id _ | .defField owner id _ | .defInterfaceMethod owner id _
  | .defInterfaceField owner id _ => [owner, id]
  | .param m p _ _ => [m, p]
  | .ret m _ => [m]
  | .fieldType f _ => [f]
  | .importModule a _ _ | .typeAlias a _ => [a]
  | _ => []

def patternOperands (name : String) (args : List String) : PatternTarget :=
  if isMethodPattern name then .method ⟨(args[0]?).getD ""⟩ ⟨(args[1]?).getD ""⟩
  else .class ⟨(args[0]?).getD ""⟩

/-- The identities an operation refers to. -/
def CoreOp.targets : CoreOp → List (IdentityKind × String)
  | .defMethod owner _ _ | .defField owner _ _ => [(.class, owner)]
  | .defInterfaceMethod owner _ _ | .defInterfaceField owner _ _ => [(.interface, owner)]
  | .param m _ _ _ | .ret m _ | .methodModifiers m _ | .controlSummary m _
  | .patternFacts m _ | .flags m _ | .body m _ _ _ | .dataFlow m _ _ | .controlFlow m _ _
  | .sideEffect m _ | .executionContext m _ | .call m _ _ _ => [(.method, m)]
  | .fieldType f _ => [(.field, f)]
  | .classModifiers c _ | .classFlags c _ | .classExtends c _ | .baseTypeRef c _
  | .implements c _ | .injects c _ => [(.class, c)]
  | .interfaceModifiers i _ | .interfaceExtends i _ => [(.interface, i)]
  | .pattern name args =>
      match patternOperands name args with
      | .class c => [(.class, c.raw)]
      | .method c m => [(.class, c.raw), (.method, m.raw)]
  | .defClass _ _ | .defInterface _ _ | .importModule _ _ _ | .typeAlias _ _ => []

/-- The class and the method a method pattern relates. -/
def CoreOp.ownership : CoreOp → Option (String × String)
  | .pattern name args =>
      match patternOperands name args with
      | .class _ => none
      | .method c m => some (c.raw, m.raw)
  | _ => none

/-- A span is absent or ordered. -/
def SpanValid : Option UInt64 → Option UInt64 → Prop
  | none, none => True
  | some s, some e => s ≤ e
  | _, _ => False

open Contracts in
/-- The payload contract, which reads no other operation. -/
def CoreOp.PayloadValid : CoreOp → Prop
  | .methodModifiers _ ms | .classModifiers _ ms | .interfaceModifiers _ ms => ms ≠ []
  | .controlSummary _ summaries => summaries ≠ []
  | .patternFacts _ facts => facts ≠ []
  | .flags _ values | .classFlags _ values =>
      values ≠ [] ∧ ∀ v ∈ values, isTypedFlag v = false
  | .pattern name args => name ≠ "" ∧ validArity name args = true
  | .body _ _ start stop => SpanValid start stop
  | .dataFlow _ direction _ => direction ∈ dataflowDirections
  | .controlFlow _ kind _ => kind ∈ controlKinds
  | _ => True

def Declares (ops : List CoreOp) (kind : IdentityKind) (id : String) : Prop :=
  ∃ op ∈ ops, op.definition = some (kind, id)

def Owns (ops : List CoreOp) (classId methodId : String) : Prop :=
  ∃ name, CoreOp.defMethod classId methodId name ∈ ops

def slots (ops : List CoreOp) : List Slot := ops.filterMap CoreOp.slot

/-- Every reference of an operation resolves in the stream. -/
structure CoreOp.Resolved (ops : List CoreOp) (op : CoreOp) : Prop where
  targets : ∀ t ∈ op.targets, Declares ops t.1 t.2
  payload : op.PayloadValid
  owner : ∀ o, op.ownership = some o → Owns ops o.1 o.2

/-- A stream with a valid identity graph. -/
structure Valid (ops : List CoreOp) : Prop where
  named : ∀ op ∈ ops, "" ∉ op.requiredIds
  unique : (slots ops).Nodup
  resolved : ∀ op ∈ ops, op.Resolved ops

theorem declares_concat {ops : List CoreOp} {op : CoreOp} {kind : IdentityKind} {id : String} :
    Declares (ops ++ [op]) kind id ↔ some (kind, id) = op.definition ∨ Declares ops kind id := by
  simp [Declares, or_and_right, exists_or, or_comm, eq_comm]

theorem owns_concat {ops : List CoreOp} {op : CoreOp} {c m : String} :
    Owns (ops ++ [op]) c m ↔ (∃ name, op = .defMethod c m name) ∨ Owns ops c m := by
  simp [Owns, exists_or, or_comm, eq_comm]

theorem mem_slots_concat {ops : List CoreOp} {op : CoreOp} {s : Slot} :
    s ∈ slots (ops ++ [op]) ↔ some s = op.slot ∨ s ∈ slots ops := by
  cases h : op.slot <;> simp [slots, h, or_comm]

theorem Owns.declares {ops : List CoreOp} {c m : String} (h : Owns ops c m) :
    Declares ops .method m := by
  obtain ⟨name, hmem⟩ := h
  exact ⟨_, hmem, rfl⟩

theorem CoreOp.slot_of_definition {op : CoreOp} {kind : IdentityKind} {id : String}
    (h : op.definition = some (kind, id)) : op.slot = some (.definition id) := by
  cases op <;> simp_all [definition, slot]

theorem CoreOp.definition_of_slot {op : CoreOp} {id : String}
    (h : op.slot = some (.definition id)) : ∃ kind, op.definition = some (kind, id) := by
  cases op <;> simp_all [definition, slot]

theorem mem_slots_definition {ops : List CoreOp} {id : String} :
    Slot.definition id ∈ slots ops ↔ ∃ kind, Declares ops kind id := by
  constructor
  · intro h
    obtain ⟨op, hop, hslot⟩ := List.mem_filterMap.mp h
    obtain ⟨kind, hkind⟩ := CoreOp.definition_of_slot hslot
    exact ⟨kind, op, hop, hkind⟩
  · rintro ⟨kind, op, hop, hkind⟩
    exact List.mem_filterMap.mpr ⟨op, hop, CoreOp.slot_of_definition hkind⟩

theorem CoreOp.mem_requiredIds_of_definition {op : CoreOp} {kind : IdentityKind} {id : String}
    (h : op.definition = some (kind, id)) : id ∈ op.requiredIds := by
  cases op <;> cases h <;> simp only [requiredIds, List.mem_cons, true_or, or_true]

theorem Declares.ne_empty {ops : List CoreOp} {kind : IdentityKind} {id : String}
    (hnamed : ∀ op ∈ ops, "" ∉ op.requiredIds) (h : Declares ops kind id) : id ≠ "" := by
  rintro rfl
  obtain ⟨op, hop, hdef⟩ := h
  exact hnamed op hop (CoreOp.mem_requiredIds_of_definition hdef)

namespace Valid

variable {ops ops' : List CoreOp}

theorem declares_perm (h : ops.Perm ops') {kind : IdentityKind} {id : String} :
    Declares ops kind id ↔ Declares ops' kind id := by
  simp only [Declares, h.mem_iff]

theorem owns_perm (h : ops.Perm ops') {c m : String} : Owns ops c m ↔ Owns ops' c m := by
  simp only [Owns, h.mem_iff]

theorem perm (h : ops.Perm ops') (hvalid : Valid ops) : Valid ops' where
  named op hop := hvalid.named op (h.mem_iff.mpr hop)
  unique := ((h.filterMap CoreOp.slot).nodup_iff).mp hvalid.unique
  resolved op hop :=
    have hresolved := hvalid.resolved op (h.mem_iff.mpr hop)
    { targets := fun t ht => (declares_perm h).mp (hresolved.targets t ht)
      payload := hresolved.payload
      owner := fun o ho => (owns_perm h).mp (hresolved.owner o ho) }

theorem eq_of_slot (h : Valid ops) {op op' : CoreOp} (hop : op ∈ ops) (hop' : op' ∈ ops)
    {s : Slot} (hs : op.slot = some s) (hs' : op'.slot = some s) : op = op' :=
  Lists.filterMap_inj h.unique hop hop' hs hs'

/-- Selected definitions have distinct identities. -/
theorem nodup_definitions (h : Valid ops) {α κ : Type} {sel : CoreOp → Option α} {key : α → κ}
    (raw : κ → String)
    (hsel : ∀ op a, sel op = some a → op.slot = some (.definition (raw (key a)))) :
    ((ops.filterMap sel).map key).Nodup := by
  have hslots := Lists.map_filterMap_sublist
    (show ∀ op a, sel op = some a → op.slot = some ((fun a => Slot.definition (raw (key a))) a)
      from hsel) ops
  have hnodup := h.unique.sublist hslots
  have hsplit : (ops.filterMap sel).map (fun a => Slot.definition (raw (key a))) =
      ((ops.filterMap sel).map key).map fun k => Slot.definition (raw k) := by
    rw [List.map_map]
    rfl
  rw [hsplit] at hnodup
  exact hnodup.of_map

end Valid
end CleanCtx
