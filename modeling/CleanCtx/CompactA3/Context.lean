import Std.Data.TreeMap.Lemmas
import CleanCtx.Ir.Hierarchical

/-!
The normalized file context (`ir/control_full.rs`) as the compact codec sees it, and
its renumbering (`ir/compact_a3/renumber.rs`). A member that a value may lack is an
option; of a call only its caller is kept.
-/
namespace CleanCtx
namespace CompactA3

structure Parameter where
  id : Option String
  name : Option String
  type : Option String
  deriving DecidableEq

structure Field where
  id : String
  name : String
  type : Option String
  deriving DecidableEq

structure Method where
  id : String
  name : String
  parameters : List Parameter
  returnType : Option String
  modifierOccurrences : List (List String)
  body : Option String
  bodyStart : Option UInt64
  bodyEnd : Option UInt64
  patterns : Option (List PatternEntry)
  controlFlow : Option (List (List String))
  dataFlow : Option (List (List String))
  deriving DecidableEq

/-- A class or an interface: what both have, with the members of its kind. -/
structure Owner (κ μ : Type) where
  id : String
  name : String
  fields : List Field
  methods : List μ
  modifierOccurrences : List (List String)
  patterns : Option (List PatternEntry)
  kind : κ
  deriving DecidableEq

/-- `parent` is the member `extends`. -/
structure ClassMembers where
  synthetic : Bool
  classFlagOccurrences : List (List String)
  parent : Option String
  baseTypeRefs : List String
  implements : List String
  deriving DecidableEq

/-- `parents` is the member `extends`. -/
structure InterfaceMembers where
  parents : List String
  deriving DecidableEq

abbrev Class := Owner ClassMembers Method

abbrev Interface := Owner InterfaceMembers Method

structure Import where
  occurrence : Nat
  aliasName : Option String
  modulePath : Option String
  namedExport : Option String
  deriving DecidableEq

structure TypeAlias where
  occurrence : Nat
  aliasName : Option String
  originalType : Option String
  deriving DecidableEq

structure Call where
  callerMethodId : String
  deriving DecidableEq

structure File where
  id : String
  sourcePath : String
  irVersion : UInt64
  deriving DecidableEq

structure Mode where
  fidelity : String
  exactBodyMethodIds : List String
  sourceRequirement : String
  deriving DecidableEq

structure Context where
  schema : String
  schemaVersion : Nat
  file : File
  mode : Mode
  classes : List Class
  interfaces : List Interface
  imports : List Import
  typeAliases : List TypeAlias
  calls : Option (List Call)
  deriving DecidableEq

namespace Context

variable (v : Context)

def fields : List Field := v.classes.flatMap (·.fields) ++ v.interfaces.flatMap (·.fields)

/-- `all_methods`. -/
def allMethods : List Method :=
  v.classes.flatMap (·.methods) ++ v.interfaces.flatMap (·.methods)

end Context

/-- The handles of the families, by the identities they stand for. -/
structure Handles where
  classes : Std.TreeMap String String
  interfaces : Std.TreeMap String String
  fields : Std.TreeMap String String
  methods : Std.TreeMap String String

namespace Handles

/-- `owner_map`: the handles of the classes, extended by those of the interfaces. -/
def owner (handles : Handles) (id : String) : Option String :=
  handles.interfaces[id]? <|> handles.classes[id]?

def any (handles : Handles) (id : String) : Option String :=
  handles.owner id <|> handles.methods[id]? <|> handles.fields[id]?

end Handles

def ordinals (family : String) (ids : List String) : Std.TreeMap String String :=
  ids.zipIdx.foldl (fun handles (id, i) => handles.insert id (family ++ (i + 1).repr)) ∅

def handlesOf (v : Context) : Handles where
  classes := ordinals "C" (v.classes.map (·.id))
  interfaces := ordinals "I" (v.interfaces.map (·.id))
  fields := ordinals "F" (v.fields.map (·.id))
  methods := ordinals "M" (v.allMethods.map (·.id))

def mapped (handle : String → Option String) (id : String) : String := (handle id).getD id

def rewritePatterns (handles : Handles) (patterns : Option (List PatternEntry)) :
    Option (List PatternEntry) :=
  patterns.map fun patterns => patterns.map fun pattern =>
    { pattern with args := pattern.args.map (mapped handles.any) }

def rewriteFlow (handles : Handles) (rows : Option (List (List String))) :
    Option (List (List String)) :=
  rows.map fun rows => rows.map fun row => row.modify 1 (mapped handles.any)

def require (found : Option String) (message : String) : Except String String :=
  match found with
  | some handle => .ok handle
  | none => .error message

def renumberField (handles : Handles) (field : Field) : Except String Field := do
  let id ← require handles.fields[field.id]? ("field " ++ field.id ++ " not mapped")
  pure { field with id := id }

def renumberMethod (handles : Handles) (method : Method) : Except String Method := do
  let id ← require handles.methods[method.id]? ("method " ++ method.id ++ " not mapped")
  pure { method with
    id := id
    parameters := method.parameters.zipIdx.map fun (parameter, k) =>
      { parameter with id := some ("P" ++ (k + 1).repr) }
    patterns := rewritePatterns handles method.patterns
    controlFlow := rewriteFlow handles method.controlFlow
    dataFlow := rewriteFlow handles method.dataFlow }

def renumberOwner {κ : Type} (handles : Handles) (renumberKind : κ → κ) (owner : Owner κ Method) :
    Except String (Owner κ Method) := do
  let id ← require (handles.owner owner.id) ("owner " ++ owner.id ++ " not mapped")
  let fields ← owner.fields.mapM (renumberField handles)
  let methods ← owner.methods.mapM (renumberMethod handles)
  pure { owner with
    id := id
    fields := fields
    methods := methods
    patterns := rewritePatterns handles owner.patterns
    kind := renumberKind owner.kind }

def renumberClass (handles : Handles) : Class → Except String Class :=
  renumberOwner handles fun members =>
    { members with
      parent := members.parent.map (mapped handles.owner)
      implements := members.implements.map (mapped fun id => handles.interfaces[id]?) }

def renumberInterface (handles : Handles) : Interface → Except String Interface :=
  renumberOwner handles fun members =>
    { members with parents := members.parents.map (mapped fun id => handles.interfaces[id]?) }

def renumberCall (handles : Handles) (call : Call) : Except String Call := do
  let caller ← require handles.methods[call.callerMethodId]?
    ("call references unknown method " ++ call.callerMethodId)
  pure { call with callerMethodId := caller }

def renumber (normalized : Context) : Except String Context := do
  let handles := handlesOf normalized
  let ids ← normalized.mode.exactBodyMethodIds.mapM fun id =>
    require handles.methods[id]? ("body references unknown method " ++ id)
  let classes ← normalized.classes.mapM (renumberClass handles)
  let interfaces ← normalized.interfaces.mapM (renumberInterface handles)
  match normalized.calls with
  | none => .error "calls must be an array"
  | some calls =>
      let calls ← calls.mapM (renumberCall handles)
      pure { normalized with
        mode := { normalized.mode with exactBodyMethodIds := ids }
        classes := classes
        interfaces := interfaces
        calls := some calls }

end CompactA3
end CleanCtx
