import Mathlib.Algebra.Ring.Nat
import CleanCtx.Library.Json

/-!
Values changed in place. Indexing a value as a mutable place creates an absent
member as `null`, turns `null` into an object, and panics on any other kind of
value; a panic is the result `none`.
-/
namespace CleanCtx
namespace Value

variable {β : Type}

/-- Replace the value of the first member of a name. -/
def setMember (key : String) (value : Value) : List (String × Value) → List (String × Value)
  | [] => []
  | (k, v) :: members =>
      if k = key then (k, value) :: members else (k, v) :: setMember key value members

/-- An action on `value[key]` as a mutable place. -/
def atKey (key : String) (f : Value → Option (Value × β)) (value : Value) : Option (Value × β) :=
  match value with
  | .null => (f .null).map fun (v, b) => (.object [(key, v)], b)
  | .object members =>
      match members.lookup key with
      | some old => (f old).map fun (v, b) => (.object (setMember key v members), b)
      | none => (f .null).map fun (v, b) => (.object (members ++ [(key, v)]), b)
  | _ => none

/-- An action on the items behind `as_array_mut`, if the value is an array. -/
def onArray (otherwise : β) (f : List Value → Option (List Value × β)) (value : Value) :
    Option (Value × β) :=
  match value with
  | .array items => (f items).map fun (items, b) => (.array items, b)
  | _ => some (value, otherwise)

/-- `for item in items.iter_mut()`, adding up what the steps count. -/
def forEach (f : Value → Option (Value × Nat)) : List Value → Option (List Value × Nat)
  | [] => some ([], 0)
  | item :: items => do
      let (item, n) ← f item
      let (items, m) ← forEach f items
      some (item :: items, n + m)

/-- The same with the position of the item, collecting what the steps record. -/
def forEachIdx {ω : Type} (f : Nat → Value → Option (Value × List ω)) :
    Nat → List Value → Option (List Value × List ω)
  | _, [] => some ([], [])
  | i, item :: items => do
      let (item, recorded) ← f i item
      let (items, later) ← forEachIdx f (i + 1) items
      some (item :: items, recorded ++ later)

/-- Up to the first item the step reports. -/
def untilFound (f : Value → Option (Value × Bool)) : List Value → Option (List Value × Bool)
  | [] => some ([], false)
  | item :: items => do
      let (item, found) ← f item
      if found then some (item :: items, true)
      else
        let (items, found) ← untilFound f items
        some (item :: items, found)

/-- The same from the back. -/
def fromBack (f : Value → Option (Value × Bool)) : List Value → Option (List Value × Bool)
  | [] => some ([], false)
  | item :: items => do
      let (items, found) ← fromBack f items
      if found then some (item :: items, true)
      else
        let (item, found) ← f item
        some (item :: items, found)

/-- The position of the last item that satisfies a predicate. -/
def rposition (p : Value → Bool) : List Value → Option Nat
  | [] => none
  | item :: items =>
      match rposition p items with
      | some i => some (i + 1)
      | none => if p item then some 0 else none

/-- An action on the item at a position. -/
def atIndex (f : Value → Option (Value × β)) : Nat → List Value → Option (List Value × β)
  | _, [] => none
  | 0, item :: items => (f item).map fun (item, b) => (item :: items, b)
  | i + 1, item :: items => (atIndex f i items).map fun (items, b) => (item :: items, b)

/-- `value[key]` as a value: `null` where there is no such member. -/
def member (value : Value) (key : String) : Value := (value.get key).getD .null

def Indexable : Value → Prop
  | .null | .object _ => True
  | _ => False

section Members

variable {key other : String} {value old : Value} {members : List (String × Value)}

theorem lookup_setMember_self (h : (members.lookup key).isSome) :
    (setMember key value members).lookup key = some value := by
  induction members with
  | nil => simp at h
  | cons entry members ih =>
      obtain ⟨k, v⟩ := entry
      by_cases hk : k = key
      · simp [setMember, hk]
      · have hkey : (key == k) = false := by simpa using Ne.symm hk
        rw [List.lookup_cons, hkey] at h
        rw [setMember, if_neg hk, List.lookup_cons, hkey]
        exact ih h

theorem lookup_setMember_of_ne (h : other ≠ key) :
    (setMember key value members).lookup other = members.lookup other := by
  induction members with
  | nil => rfl
  | cons entry members ih =>
      obtain ⟨k, v⟩ := entry
      by_cases hk : k = key
      · have hother : (other == k) = false := by simpa [hk] using h
        rw [setMember, if_pos hk, List.lookup_cons, List.lookup_cons, hother]
      · rw [setMember, if_neg hk, List.lookup_cons, List.lookup_cons, ih]

theorem setMember_self (h : members.lookup key = some old) : setMember key old members = members := by
  induction members with
  | nil => rfl
  | cons entry members ih =>
      obtain ⟨k, v⟩ := entry
      by_cases hk : k = key
      · subst hk
        rw [List.lookup_cons_self, Option.some.injEq] at h
        rw [setMember, if_pos rfl, h]
      · have hkey : (key == k) = false := by simpa using Ne.symm hk
        rw [List.lookup_cons, hkey] at h
        rw [setMember, if_neg hk, ih h]

theorem setMember_setMember : setMember key value (setMember key old members) =
    setMember key value members := by
  induction members with
  | nil => rfl
  | cons entry members ih =>
      obtain ⟨k, v⟩ := entry
      by_cases hk : k = key
      · simp only [setMember, hk, if_true]
      · simp only [setMember, hk, if_false, ih]

end Members

section Places

variable {key other : String} {value result old : Value} {b : β} {members : List (String × Value)}
  {f : Value → Option (Value × β)}

theorem atKey_object (h : members.lookup key = some old) : atKey key f (object members) =
    (f old).map fun (v, b) => (object (setMember key v members), b) := by
  simp only [atKey, h]

/-- Where a mutable place was reached it is there afterwards, and other members stay. -/
theorem get_atKey (h : atKey key f value = some (result, b)) :
    ∃ v, result.get key = some v ∧ f (value.member key) = some (v, b) ∧
      ∀ other, other ≠ key → result.get other = value.get other := by
  cases value with
  | null =>
      obtain ⟨⟨v, b'⟩, hf, heq⟩ := Option.map_eq_some_iff.mp h
      cases heq
      refine ⟨v, List.lookup_cons_self, hf, fun other hother => ?_⟩
      rw [get_object, List.lookup_cons, show (other == key) = false by simpa using hother]
      rfl
  | object members =>
      rw [member, get_object]
      cases hold : members.lookup key with
      | some old =>
          rw [atKey_object hold] at h
          obtain ⟨⟨v, b'⟩, hf, heq⟩ := Option.map_eq_some_iff.mp h
          cases heq
          refine ⟨v, lookup_setMember_self (by rw [hold]; rfl), hf, fun other hother => ?_⟩
          exact lookup_setMember_of_ne hother
      | none =>
          rw [atKey, hold] at h
          obtain ⟨⟨v, b'⟩, hf, heq⟩ := Option.map_eq_some_iff.mp h
          cases heq
          refine ⟨v, ?_, hf, fun other hother => ?_⟩
          · rw [get_object, List.lookup_append, hold, Option.none_or, List.lookup_cons_self]
          · rw [get_object, get_object, List.lookup_append, List.lookup_cons,
              show (other == key) = false by simpa using hother]
            simp
  | bool | number | string | array => simp [atKey] at h

theorem member_atKey_of_ne (h : atKey key f value = some (result, b)) (hother : other ≠ key) :
    result.member other = value.member other := by
  obtain ⟨_, _, _, hsame⟩ := get_atKey h
  rw [member, member, hsame other hother]

theorem isSome_atKey : (atKey key f value).isSome ↔ value.Indexable ∧ (f (value.member key)).isSome := by
  cases value with
  | null => simp [atKey, Indexable, member, get]
  | object members =>
      rw [member, get_object]
      cases hold : members.lookup key <;> simp [atKey, Indexable, hold]
  | bool | number | string | array => simp [atKey, Indexable]

theorem indexable_of_get (h : (value.get key).isSome) : value.Indexable := by
  cases value with
  | object => trivial
  | null | bool | number | string | array => simp [get] at h

theorem indexable_of_asStr (h : (value.member key).asStr.isSome) : value.Indexable := by
  cases value with
  | object => trivial
  | null | bool | number | string | array => simp [member, get, asStr] at h

/-- An array behind `as_array_mut` is an array of what the action made of its items. -/
theorem onArray_cases {otherwise : β} {g : List Value → Option (List Value × β)}
    (h : onArray otherwise g value = some (result, b)) :
    (∃ items items', value = array items ∧ result = array items' ∧ g items = some (items', b)) ∨
      value.asArray = none ∧ result = value ∧ b = otherwise := by
  cases value with
  | array items =>
      obtain ⟨⟨items', b'⟩, hg, heq⟩ := Option.map_eq_some_iff.mp h
      cases heq
      exact .inl ⟨items, items', rfl, rfl, hg⟩
  | null | bool | number | string | object =>
      cases h
      exact .inr ⟨rfl, rfl, rfl⟩

theorem isSome_onArray {otherwise : β} {g : List Value → Option (List Value × β)} :
    (onArray otherwise g value).isSome ↔ ∀ items, value.asArray = some items → (g items).isSome := by
  cases value <;> simp [onArray, asArray]

end Places

section Items

variable {items pre post : List Value} {item : Value}

theorem forEach_same {f : Value → Option (Value × Nat)} (h : ∀ x ∈ items, f x = some (x, 0)) :
    forEach f items = some (items, 0) := by
  induction items with
  | nil => rfl
  | cons x items ih =>
      rw [forEach, h x List.mem_cons_self, ih fun y hy => h y (List.mem_cons_of_mem x hy)]
      rfl

theorem isSome_forEach {f : Value → Option (Value × Nat)} :
    (forEach f items).isSome ↔ ∀ x ∈ items, (f x).isSome := by
  induction items with
  | nil => simp [forEach]
  | cons x items ih =>
      rw [List.forall_mem_cons, ← ih, forEach]
      cases f x with
      | none => simp
      | some => cases forEach f items <;> simp

/-- What a step does to the readings of one item, the loop does to the readings of all. -/
theorem flatMap_forEach {γ : Type} {f : Value → Option (Value × Nat)} {g : Value → List γ}
    {after : γ → γ} {items' : List Value} {n : Nat}
    (hf : ∀ x x' n, f x = some (x', n) → g x' = (g x).map after)
    (h : forEach f items = some (items', n)) : items'.flatMap g = (items.flatMap g).map after := by
  induction items generalizing items' n with
  | nil =>
      cases h
      rfl
  | cons x items ih =>
      obtain ⟨⟨x', n₁⟩, hx, h⟩ := Option.bind_eq_some_iff.mp h
      obtain ⟨⟨rest, n₂⟩, hrest, h⟩ := Option.bind_eq_some_iff.mp h
      cases h
      rw [List.flatMap_cons, List.flatMap_cons, List.map_append, hf _ _ _ hx, ih hrest]

/-- What every step establishes holds of every item afterwards. -/
theorem forall_forEach {f : Value → Option (Value × Nat)} {P : Value → Prop} {items' : List Value}
    {n : Nat} (hf : ∀ x x' n, f x = some (x', n) → P x') (h : forEach f items = some (items', n)) :
    ∀ x ∈ items', P x := by
  induction items generalizing items' n with
  | nil =>
      cases h
      nofun
  | cons x items ih =>
      obtain ⟨⟨x', n₁⟩, hx, h⟩ := Option.bind_eq_some_iff.mp h
      obtain ⟨⟨rest, n₂⟩, hrest, h⟩ := Option.bind_eq_some_iff.mp h
      cases h
      exact List.forall_mem_cons.mpr ⟨hf _ _ _ hx, ih hrest⟩

/-- What every step keeps still holds of every item afterwards. -/
theorem forall_fromBack {f : Value → Option (Value × Bool)} {P : Value → Prop}
    {items' : List Value} {found : Bool} (hf : ∀ x x' b, P x → f x = some (x', b) → P x')
    (hitems : ∀ x ∈ items, P x) (h : fromBack f items = some (items', found)) :
    ∀ x ∈ items', P x := by
  induction items generalizing items' found with
  | nil =>
      cases h
      nofun
  | cons x items ih =>
      obtain ⟨hx, hrest⟩ := List.forall_mem_cons.mp hitems
      obtain ⟨⟨rest, found'⟩, hback, h⟩ := Option.bind_eq_some_iff.mp h
      cases found' with
      | true =>
          cases h
          exact List.forall_mem_cons.mpr ⟨hx, ih hrest hback⟩
      | false =>
          obtain ⟨⟨x', b⟩, hstep, h⟩ := Option.bind_eq_some_iff.mp h
          cases h
          exact List.forall_mem_cons.mpr ⟨hf _ _ _ hx hstep, ih hrest hback⟩

theorem fromBack_cons {f : Value → Option (Value × Bool)}
    (h : fromBack f items = some (post, false)) :
    fromBack f (item :: items) = (f item).map fun (item, found) => (item :: post, found) := by
  rw [fromBack, h]
  cases f item <;> rfl

theorem fromBack_same {f : Value → Option (Value × Bool)} (h : ∀ x ∈ items, f x = some (x, false)) :
    fromBack f items = some (items, false) := by
  induction items with
  | nil => rfl
  | cons x items ih =>
      rw [fromBack_cons (ih fun y hy => h y (List.mem_cons_of_mem x hy)), h x List.mem_cons_self]
      rfl

/-- From the back the step reaches the last item it reports, and no earlier one. -/
theorem fromBack_found (pre : List Value) {f : Value → Option (Value × Bool)} {item' : Value}
    (hitem : f item = some (item', true)) (hpost : ∀ x ∈ post, f x = some (x, false)) :
    fromBack f (pre ++ item :: post) = some (pre ++ item' :: post, true) := by
  induction pre with
  | nil =>
      rw [List.nil_append, fromBack_cons (fromBack_same hpost), hitem]
      rfl
  | cons x pre ih =>
      rw [List.cons_append, fromBack, ih]
      rfl

theorem rposition_none {p : Value → Bool} (h : ∀ x ∈ items, p x = false) :
    rposition p items = none := by
  induction items with
  | nil => rfl
  | cons x items ih =>
      rw [rposition, ih fun y hy => h y (List.mem_cons_of_mem x hy), h x List.mem_cons_self]
      rfl

theorem rposition_found {p : Value → Bool} (hitem : p item = true)
    (hpost : ∀ x ∈ post, p x = false) : rposition p (pre ++ item :: post) = some pre.length := by
  induction pre with
  | nil => rw [List.nil_append, rposition, rposition_none hpost, hitem]; rfl
  | cons x pre ih => rw [List.cons_append, rposition, ih, List.length_cons]

theorem atIndex_append {f : Value → Option (Value × β)} :
    atIndex f pre.length (pre ++ item :: post) =
      (f item).map fun (item, b) => (pre ++ item :: post, b) := by
  induction pre with
  | nil => rfl
  | cons x pre ih =>
      rw [List.length_cons, List.cons_append, atIndex, ih, Option.map_map]
      rfl

theorem exists_last {p : Value → Bool} (h : ∃ x ∈ items, p x = true) :
    ∃ pre item post, items = pre ++ item :: post ∧ p item = true ∧ ∀ x ∈ post, p x = false := by
  induction items with
  | nil => simp at h
  | cons x items ih =>
      by_cases hrest : ∃ y ∈ items, p y = true
      · obtain ⟨pre, item, post, heq, hitem, hpost⟩ := ih hrest
        exact ⟨x :: pre, item, post, by rw [heq, List.cons_append], hitem, hpost⟩
      · have hnone : ∀ y ∈ items, p y = false := fun y hy =>
          Bool.eq_false_iff.mpr fun hpy => hrest ⟨y, hy, hpy⟩
        obtain ⟨y, hy, hpy⟩ := h
        rcases List.mem_cons.mp hy with rfl | hy
        · exact ⟨[], y, items, rfl, hpy, hnone⟩
        · exact absurd ⟨y, hy, hpy⟩ hrest

end Items

end Value
end CleanCtx
