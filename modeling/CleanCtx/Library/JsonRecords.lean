import CleanCtx.Library.JsonChanges
import CleanCtx.Library.Lists

/-!
Reading JSON values into records, as a derived deserializer does: a record is read from an object
by the names of its fields, or from an array by their positions. A step that may fail changes one
member of an object; where it keeps the texts of the member, the object keeps its texts.
-/
namespace CleanCtx
namespace Value

open Lists

variable {α β : Type}

/-- The value of a field, by name or by position. -/
def structField (names : List String) (value : Value) (name : String) : Option Value :=
  match value with
  | object members => members.lookup name
  | array items => items[names.idxOf name]?
  | _ => none

/-- Objects, and arrays that hold no more than the fields. -/
def isStruct (names : List String) : Value → Bool
  | object _ => true
  | array items => decide (items.length ≤ names.length)
  | _ => false

def readArray (read : Value → Option α) : Value → Option (List α)
  | array items => items.mapM read
  | _ => none

def readDefault (read : Value → Option α) : Option Value → Option (List α)
  | none => some []
  | some value => readArray read value

def readOption (read : Value → Option α) : Option Value → Option (Option α)
  | none | some null => some none
  | some value => (read value).map some

/-- A flag that is off when the field is absent. -/
def readFlag : Option Value → Option Bool
  | none => some false
  | some (bool b) => some b
  | some _ => none

/-- A variant without content: its name, or an object that gives the name nothing. -/
def readUnitVariant (fromName : String → Option α) : Value → Option α
  | string name => fromName name
  | object [(name, null)] => fromName name
  | _ => none

def items (value : Value) : List Value := value.asArray.getD []

/-- A change, which may fail, of one member. -/
def changeMember {ε : Type} (key : String) (f : Value → Except ε Value) (value : Value) :
    Except ε Value :=
  match value with
  | object members =>
      match members.lookup key with
      | some old => (f old).map fun new => object (setMember key new members)
      | none => .ok value
  | _ => .ok value

/-- `value[key] = new` on an object. -/
def assign (key : String) (new : Value) : Value → Value
  | object members =>
      if (members.lookup key).isSome then object (setMember key new members)
      else object (members ++ [(key, new)])
  | value => value

section Texts

variable {ε : Type} {f : Value → Except ε Value} {value value' old new : Value} {key : String}

theorem textsOf_setMember {members : List (String × Value)} (hold : members.lookup key = some old)
    (hnew : new.texts = old.texts) : textsOf (setMember key new members) = textsOf members := by
  induction members with
  | nil => cases hold
  | cons entry members ih =>
      obtain ⟨k, v⟩ := entry
      rw [setMember]
      split
      · next hk =>
        subst hk
        rw [List.lookup_cons_self] at hold
        cases hold
        rw [textsOf, textsOf, hnew]
      · next hk =>
        rw [List.lookup_cons, beq_eq_false_iff_ne.mpr (Ne.symm hk)] at hold
        rw [textsOf, textsOf, ih hold]

theorem texts_changeMember (hf : ∀ old new, f old = .ok new → new.texts = old.texts)
    (h : changeMember key f value = .ok value') : value'.texts = value.texts := by
  cases value with
  | object members =>
      unfold changeMember at h
      cases hlookup : members.lookup key with
      | none =>
          simp only [hlookup] at h
          cases h
          rfl
      | some old =>
          simp only [hlookup] at h
          cases hnew : f old with
          | error e =>
              rw [hnew] at h
              cases h
          | ok new =>
              rw [hnew] at h
              cases h
              exact textsOf_setMember hlookup (hf old new hnew)
  | null | bool | number | string | array =>
      cases h
      rfl

theorem textsIn_mapM {items items' : List Value}
    (hf : ∀ old new, f old = .ok new → new.texts = old.texts) (h : items.mapM f = .ok items') :
    textsIn items' = textsIn items := by
  induction Lists.mapM_eq_ok_iff.mp h with
  | nil => rfl
  | cons hhead htail ih =>
      rw [textsIn, textsIn, hf _ _ hhead, ih (Lists.mapM_eq_ok_iff.mpr htail)]

/-- So does a loop over the items of an array. -/
theorem texts_mapItems {items : List Value}
    (hf : ∀ old new, f old = .ok new → new.texts = old.texts)
    (h : (items.mapM f).map array = .ok value') : value'.texts = (array items).texts := by
  cases hitems : items.mapM f with
  | error e =>
      rw [hitems] at h
      cases h
  | ok items' =>
      rw [hitems] at h
      cases h
      exact textsIn_mapM hf hitems

theorem texts_wrap (value : Value) : (array [value]).texts = value.texts := by
  rw [texts, textsIn, textsIn, List.append_nil]

end Texts

end Value
end CleanCtx
