import Mathlib.Data.List.Basic

/-!
JSON values with the accessors the wire decoders use. An object is its list of
members; a lookup answers with the first member of that name.
-/
namespace CleanCtx

inductive Number
  | posInt (n : UInt64)
  | negInt (n : Int64)
  | float (bits : UInt64)
  deriving DecidableEq

inductive Value
  | null
  | bool (b : Bool)
  | number (n : Number)
  | string (s : String)
  | array (items : List Value)
  | object (members : List (String × Value))

namespace Value

def get (value : Value) (key : String) : Option Value :=
  match value with
  | object members => members.lookup key
  | _ => none

def asStr : Value → Option String
  | string s => some s
  | _ => none

def asU64 : Value → Option UInt64
  | number (.posInt n) => some n
  | _ => none

def asArray : Value → Option (List Value)
  | array items => some items
  | _ => none

/-- `json!` of an unsigned integer. -/
def ofU64 (n : UInt64) : Value := number (.posInt n)

/-- `json!` of a list of strings. -/
def ofStrings (ss : List String) : Value := array (ss.map string)

@[simp] theorem asStr_string (s : String) : (string s).asStr = some s := rfl

@[simp] theorem asU64_ofU64 (n : UInt64) : (ofU64 n).asU64 = some n := rfl

@[simp] theorem asArray_array (items : List Value) : (array items).asArray = some items := rfl

@[simp] theorem asArray_ofStrings (ss : List String) :
    (ofStrings ss).asArray = some (ss.map string) := rfl

@[simp] theorem get_object (members : List (String × Value)) (key : String) :
    (object members).get key = members.lookup key := rfl

end Value
end CleanCtx
