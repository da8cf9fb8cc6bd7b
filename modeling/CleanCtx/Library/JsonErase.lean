import Mathlib.Data.List.Basic
import CleanCtx.Library.JsonPlaces

/-!
Members of one name, anywhere in a value: how many there are, and the value
without them. A value adds members to another when erasing them leaves the same.
-/
namespace CleanCtx
namespace Value

mutual

/-- The value without the members of a name, at every depth. -/
def erase (name : String) : Value → Value
  | array items => array (eraseItems name items)
  | object members => object (eraseMembers name members)
  | v => v

def eraseItems (name : String) : List Value → List Value
  | [] => []
  | item :: items => erase name item :: eraseItems name items

def eraseMembers (name : String) : List (String × Value) → List (String × Value)
  | [] => []
  | (k, v) :: members =>
      if k = name then eraseMembers name members
      else (k, erase name v) :: eraseMembers name members

end

mutual

/-- The number of members of a name, at every depth. -/
def occurrences (name : String) : Value → Nat
  | array items => occurrencesIn name items
  | object members => occurrencesOf name members
  | _ => 0

def occurrencesIn (name : String) : List Value → Nat
  | [] => 0
  | item :: items => occurrences name item + occurrencesIn name items

def occurrencesOf (name : String) : List (String × Value) → Nat
  | [] => 0
  | (k, v) :: members =>
      (if k = name then 1 else 0) + occurrences name v + occurrencesOf name members

end

/-- The second value is the first with `n` more members of the name. -/
structure Adds (name : String) (v v' : Value) (n : Nat) : Prop where
  erase : v'.erase name = v.erase name
  count : v'.occurrences name = v.occurrences name + n

structure AddsItems (name : String) (items items' : List Value) (n : Nat) : Prop where
  erase : eraseItems name items' = eraseItems name items
  count : occurrencesIn name items' = occurrencesIn name items + n

variable {name key : String} {u v w : Value} {n m : Nat} {items items' pre post : List Value}
  {members : List (String × Value)}

theorem Adds.refl (v : Value) : Adds name v v 0 := ⟨rfl, rfl⟩

theorem AddsItems.refl (items : List Value) : AddsItems name items items 0 := ⟨rfl, rfl⟩

theorem Adds.trans (h : Adds name u v n) (h' : Adds name v w m) : Adds name u w (n + m) :=
  ⟨h'.erase.trans h.erase, by rw [h'.count, h.count, Nat.add_assoc]⟩

theorem AddsItems.array (h : AddsItems name items items' n) :
    Adds name (array items) (array items') n :=
  ⟨by rw [Value.erase, Value.erase, h.erase], by rw [occurrences, occurrences, h.count]⟩

theorem eraseItems_append : eraseItems name (pre ++ post) =
    eraseItems name pre ++ eraseItems name post := by
  induction pre with
  | nil => rfl
  | cons item pre ih => rw [List.cons_append, eraseItems, eraseItems, ih, List.cons_append]

theorem occurrencesIn_append : occurrencesIn name (pre ++ post) =
    occurrencesIn name pre + occurrencesIn name post := by
  induction pre with
  | nil => rw [List.nil_append, occurrencesIn, Nat.zero_add]
  | cons item pre ih => rw [List.cons_append, occurrencesIn, occurrencesIn, ih, Nat.add_assoc]

theorem Adds.item (pre : List Value) (h : Adds name v w n) :
    AddsItems name (pre ++ v :: post) (pre ++ w :: post) n := by
  refine ⟨?_, ?_⟩
  · rw [eraseItems_append, eraseItems_append, eraseItems, eraseItems, h.erase]
  · rw [occurrencesIn_append, occurrencesIn_append, occurrencesIn, occurrencesIn, h.count]
    omega

theorem Adds.member (h : Adds name v w n) (hkey : key ≠ name) (hlookup : members.lookup key = some v) :
    Adds name (object members) (object (setMember key w members)) n := by
  have hparts : eraseMembers name (setMember key w members) = eraseMembers name members ∧
      occurrencesOf name (setMember key w members) = occurrencesOf name members + n := by
    induction members with
    | nil => simp at hlookup
    | cons entry members ih =>
        obtain ⟨k, old⟩ := entry
        by_cases hk : k = key
        · subst hk
          rw [List.lookup_cons_self, Option.some.injEq] at hlookup
          subst hlookup
          rw [setMember, if_pos rfl, eraseMembers, eraseMembers, occurrencesOf, occurrencesOf,
            if_neg hkey, if_neg hkey, h.erase, h.count]
          exact ⟨rfl, by omega⟩
        · have hne : (key == k) = false := by simpa using Ne.symm hk
          rw [List.lookup_cons, hne] at hlookup
          obtain ⟨herase, hcount⟩ := ih hlookup
          rw [setMember, if_neg hk, eraseMembers, eraseMembers, occurrencesOf, occurrencesOf, herase,
            hcount]
          exact ⟨rfl, by omega⟩
  exact ⟨by rw [Value.erase, Value.erase, hparts.1], by rw [occurrences, occurrences, hparts.2]⟩

theorem eraseMembers_append {more : List (String × Value)} :
    eraseMembers name (members ++ more) = eraseMembers name members ++ eraseMembers name more := by
  induction members with
  | nil => rfl
  | cons entry members ih =>
      rw [List.cons_append, eraseMembers, eraseMembers, ih]
      split <;> rfl

theorem occurrencesOf_append {more : List (String × Value)} :
    occurrencesOf name (members ++ more) = occurrencesOf name members + occurrencesOf name more := by
  induction members with
  | nil => rw [List.nil_append, occurrencesOf, Nat.zero_add]
  | cons entry members ih =>
      rw [List.cons_append, occurrencesOf, occurrencesOf, ih]
      omega

theorem adds_append (hvalue : v.occurrences name = 0) :
    Adds name (object members) (object (members ++ [(name, v)])) 1 := by
  refine ⟨?_, ?_⟩
  · rw [erase, erase, eraseMembers_append, eraseMembers, if_pos rfl, eraseMembers, List.append_nil]
  · rw [occurrences, occurrences, occurrencesOf_append, occurrencesOf, occurrencesOf, if_pos rfl,
      hvalue]

theorem get_erase (hkey : key ≠ name) : (v.erase name).get key = (v.get key).map (erase name) := by
  have hmembers : ∀ members : List (String × Value),
      (eraseMembers name members).lookup key = (members.lookup key).map (erase name) := by
    intro members
    induction members with
    | nil => rfl
    | cons entry members ih =>
        obtain ⟨k, old⟩ := entry
        rw [eraseMembers, List.lookup_cons]
        by_cases hk : k = name
        · have hne : (key == k) = false := by simpa [hk] using hkey
          rw [if_pos hk, hne, ih]
        · rw [if_neg hk, List.lookup_cons, ih]
          cases key == k <;> rfl
  cases v with
  | object members => rw [erase, get_object, get_object, hmembers]
  | null | bool | number | string | array => simp [erase, get]

theorem eraseItems_eq_map : eraseItems name items = items.map (erase name) := by
  induction items with
  | nil => rfl
  | cons item items ih => rw [eraseItems, ih, List.map_cons]

end Value
end CleanCtx
