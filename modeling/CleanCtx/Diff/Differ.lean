import Std.Data.TreeSet.Lemmas
import CleanCtx.Diff.Keys

/-!
The structural diff comparator (`diff/differ.rs`) over the snapshots of
`diff/snapshot.rs` and the actions of `diff/action.rs`.
-/
namespace CleanCtx
namespace Diff

structure CapturedMethod where
  /-- The compact signature text. -/
  sig : String
  markers : List String
  /-- The normalized body, absent when it could not be extracted. -/
  body : Option String
  deriving DecidableEq, Repr

structure CapturedClass where
  name : String
  /-- Base class and interface list. -/
  classMeta : String
  fields : List String
  methods : List CapturedMethod
  deriving DecidableEq, Repr

structure CapturedStructure where
  imports : List String
  classes : List CapturedClass
  orphanFields : List String
  orphanMethods : List CapturedMethod
  deriving DecidableEq, Repr

inductive DiffKind where
  | added
  | removed
  | modified
  | unchanged
  deriving DecidableEq, Repr

inductive DiffTarget where
  | «class»
  | method
  | field
  | «import»
  deriving DecidableEq, Repr

structure DiffAction where
  kind : DiffKind
  target : DiffTarget
  label : String
  detail : String
  previousDetail : String
  reasonHint : String
  deriving DecidableEq, Repr

def newAction (kind : DiffKind) (target : DiffTarget) (label detail previous : String) :
    DiffAction :=
  { kind, target, label, detail, previousDetail := previous, reasonHint := "" }

def methodAction (kind : DiffKind) (key : String) (m : CapturedMethod)
    (previousSig reason : String) : DiffAction :=
  { kind, target := .method, label := "method " ++ key, detail := m.sig,
    previousDetail := previousSig, reasonHint := reason }

def summarizeClass (cls : CapturedClass) : String :=
  let fields := if cls.fields.isEmpty then [] else [toString cls.fields.length ++ " fields"]
  let methods := if cls.methods.isEmpty then [] else [toString cls.methods.length ++ " methods"]
  ", ".intercalate (fields ++ methods)

/-- Imports and orphan fields are compared as sets of texts. -/
def diffTexts (target : DiffTarget) (label : String) (baseline current : List String) :
    List DiffAction :=
  let base := Std.TreeSet.ofList baseline
  let cur := Std.TreeSet.ofList current
  (current.filter fun text => !base.contains text).map
      (fun text => newAction .added target label text "") ++
    (baseline.filter fun text => !cur.contains text).map
      (fun text => newAction .removed target label text "")

def diffImports (baseline current : List String) : List DiffAction :=
  diffTexts .import "import" baseline current

def diffOrphanFields (baseline current : List String) : List DiffAction :=
  diffTexts .field "field" baseline current

def diffMethodPair (key : String) (b c : CapturedMethod) : DiffAction :=
  if b.sig = c.sig ∧ b.markers = c.markers ∧ b.body = c.body then
    methodAction .unchanged key c "" ""
  else
    let reason :=
      if b.sig ≠ c.sig then "sig"
      else if b.markers ≠ c.markers ∧ b.body = c.body then "markers"
      else "body"
    methodAction .modified key c b.sig reason

/-- `for i in 0..g1.len().max(g2.len())` over two groups. -/
def diffGroups {T : Type} (pair : T → T → DiffAction) (removed added : T → DiffAction)
    (g1 g2 : List T) : List DiffAction :=
  (List.range (max g1.length g2.length)).flatMap fun i =>
    match g1[i]?, g2[i]? with
    | some b, some c => [pair b c]
    | some b, none => [removed b]
    | none, some c => [added c]
    | none, none => []

def diffMethods (base cur : List CapturedMethod) : List DiffAction :=
  let bg := groupByKey base fun m => methodKey m.sig
  let cg := groupByKey cur fun m => methodKey m.sig
  let keys := Std.TreeSet.ofList (bg.keys ++ cg.keys)
  keys.toList.flatMap fun key =>
    match bg[key]?, cg[key]? with
    | none, some g => g.map fun m => methodAction .added key m "" ""
    | some g, none => g.map fun m => methodAction .removed key m "" ""
    | some g1, some g2 =>
        diffGroups (diffMethodPair key) (fun b => methodAction .removed key b "" "")
          (fun c => methodAction .added key c "" "") g1 g2
    | none, none => []

def diffFieldPair (key b c : String) : DiffAction :=
  if b = c then newAction .unchanged .field ("field " ++ key) c ""
  else newAction .modified .field ("field " ++ key) c b

def diffFields (base cur : List String) : List DiffAction :=
  let baseFields := groupByKey base fieldKey
  let curFields := groupByKey cur fieldKey
  let removed := fun key f => newAction .removed .field ("field " ++ key) f ""
  let added := fun key f => newAction .added .field ("field " ++ key) f ""
  (baseFields.toList.flatMap fun (key, baseGroup) =>
      match curFields[key]? with
      | none => baseGroup.map (removed key)
      | some curGroup =>
          diffGroups (diffFieldPair key) (removed key) (added key) baseGroup curGroup) ++
    curFields.toList.flatMap fun (key, curGroup) =>
      if baseFields.contains key then [] else curGroup.map (added key)

def diffClass (baseline current : CapturedClass) : List DiffAction :=
  diffMethods baseline.methods current.methods ++ diffFields baseline.fields current.fields

/-- The classes of a snapshot by name. A later class replaces an earlier one of its name. -/
def classesByName (classes : List CapturedClass) : Std.TreeMap String CapturedClass :=
  classes.foldl (fun byName c => byName.insert c.name c) ∅

def diffMatchedClass (baseCls curCls : CapturedClass) : List DiffAction :=
  let childActions := diffClass baseCls curCls
  let classMetaChanged := baseCls.classMeta ≠ curCls.classMeta
  let hasChildChanges := childActions.any fun a => a.kind ≠ .unchanged
  let label := "class " ++ baseCls.name
  if classMetaChanged ∧ ¬ hasChildChanges then
    [newAction .modified .class label curCls.classMeta baseCls.classMeta]
  else if hasChildChanges then newAction .modified .class label "" "" :: childActions
  else [newAction .unchanged .class label "" ""]

def diffClasses (baseline current : List CapturedClass) : List DiffAction :=
  let curByName := classesByName current
  let seen := Std.TreeSet.ofList (baseline.map (·.name))
  (baseline.flatMap fun baseCls =>
      match curByName[baseCls.name]? with
      | none => [newAction .removed .class ("class " ++ baseCls.name) (summarizeClass baseCls) ""]
      | some curCls => diffMatchedClass baseCls curCls) ++
    (current.filter fun curCls => !seen.contains curCls.name).map fun curCls =>
      newAction .added .class ("class " ++ curCls.name) (summarizeClass curCls) ""

def diffSnapshots (baseline current : CapturedStructure) : List DiffAction :=
  diffImports baseline.imports current.imports ++
    diffClasses baseline.classes current.classes ++
    diffOrphanFields baseline.orphanFields current.orphanFields ++
    diffMethods baseline.orphanMethods current.orphanMethods

end Diff
end CleanCtx
