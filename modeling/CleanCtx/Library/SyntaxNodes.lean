import Mathlib.Data.List.Basic

/-!
Concrete syntax trees as a parser hands them over: every node has a kind, the
text it spans and the field it fills in its parent. The walk visits the named
nodes in the order of the text and remembers the ancestors of each.
-/
namespace CleanCtx

inductive Node
  | mk (kind : String) (named : Bool) (field : Option String) (text : String) (children : List Node)

namespace Node

def kind : Node → String
  | mk kind _ _ _ _ => kind

def named : Node → Bool
  | mk _ named _ _ _ => named

def field : Node → Option String
  | mk _ _ field _ _ => field

def text : Node → String
  | mk _ _ _ text _ => text

def children : Node → List Node
  | mk _ _ _ _ children => children

def namedChildren (node : Node) : List Node := node.children.filter (·.named)

def namedChildCount (node : Node) : Nat := node.namedChildren.length

def childByFieldName (node : Node) (name : String) : Option Node :=
  node.children.find? (·.field = some name)

mutual

/-- The named nodes of a kind, each with its ancestors from the nearest one on. -/
def collectKind (kind : String) (ancestors : List Node) : Node → List (List Node × Node)
  | mk k named field text children =>
      let node := mk k named field text children
      (if k = kind then [(ancestors, node)] else []) ++
        collectKindIn kind (node :: ancestors) children

def collectKindIn (kind : String) (ancestors : List Node) : List Node → List (List Node × Node)
  | [] => []
  | child :: rest =>
      (if child.named then collectKind kind ancestors child else []) ++
        collectKindIn kind ancestors rest

end

mutual

def everywhere (check : Node → Bool) : Node → Bool
  | mk kind named field text children =>
      check (mk kind named field text children) && everywhereIn check children

def everywhereIn (check : Node → Bool) : List Node → Bool
  | [] => true
  | child :: rest => everywhere check child && everywhereIn check rest

end

/-- The nodes of the tree below a root. -/
inductive Within (root : Node) : Node → Prop
  | root : Within root root
  | child {node child : Node} : Within root node → child ∈ node.children → Within root child

theorem Within.trans {root node inner : Node} (h : Within root node) (h' : Within node inner) :
    Within root inner := by
  induction h' with
  | root => exact h
  | child _ hmem ih => exact ih.child hmem

theorem within_of_childByFieldName {root node found : Node} {name : String}
    (h : Within root node) (hfound : node.childByFieldName name = some found) :
    Within root found :=
  h.child (List.mem_of_find?_eq_some hfound)

mutual

theorem within_of_mem_collectKind {kind : String} {ancestors : List Node} {found : List Node × Node} :
    ∀ root : Node, found ∈ collectKind kind ancestors root → Within root found.2
  | mk k named field text children, h => by
      rw [collectKind] at h
      obtain hself | hbelow := List.mem_append.mp h
      · split at hself
        · rw [List.mem_singleton.mp hself]
          exact .root
        · cases hself
      · obtain ⟨child, hmem, hwithin⟩ := within_of_mem_collectKindIn children hbelow
        exact (Within.root.child hmem).trans hwithin

theorem within_of_mem_collectKindIn {kind : String} {ancestors : List Node}
    {found : List Node × Node} :
    ∀ children : List Node, found ∈ collectKindIn kind ancestors children →
      ∃ child ∈ children, Within child found.2
  | [], h => by
      rw [collectKindIn] at h
      cases h
  | child :: rest, h => by
      rw [collectKindIn] at h
      obtain hfirst | hrest := List.mem_append.mp h
      · split at hfirst
        · exact ⟨child, List.mem_cons_self, within_of_mem_collectKind child hfirst⟩
        · cases hfirst
      · obtain ⟨other, hmem, hwithin⟩ := within_of_mem_collectKindIn rest hrest
        exact ⟨other, List.mem_cons_of_mem _ hmem, hwithin⟩

end

theorem everywhereIn_mem {check : Node → Bool} {children : List Node} {child : Node}
    (h : everywhereIn check children = true) (hmem : child ∈ children) :
    everywhere check child = true := by
  induction children with
  | nil => cases hmem
  | cons first rest ih =>
      rw [everywhereIn, Bool.and_eq_true] at h
      obtain rfl | hrest := List.mem_cons.mp hmem
      · exact h.1
      · exact ih h.2 hrest

theorem everywhere_within {check : Node → Bool} {root node : Node}
    (h : everywhere check root = true) (hwithin : Within root node) : check node = true := by
  have hbelow : everywhere check node = true := by
    induction hwithin with
    | root => exact h
    | @child node child _ hmem ih =>
        obtain ⟨kind, named, field, text, children⟩ := node
        rw [everywhere, Bool.and_eq_true] at ih
        exact everywhereIn_mem ih.2 hmem
  obtain ⟨kind, named, field, text, children⟩ := node
  rw [everywhere, Bool.and_eq_true] at hbelow
  exact hbelow.1

end Node
end CleanCtx
