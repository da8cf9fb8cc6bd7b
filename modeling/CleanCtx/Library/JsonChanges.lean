import CleanCtx.Library.JsonFrames

/-!
Changes of a value that are confined to places: to the member of a name, if it is
there, and to the items of an array by their positions. A loop over the items
that makes an update of each is the update of the list, and collects what each
step records. The texts of a value are its strings and member names, anywhere.
-/
namespace CleanCtx
namespace Value

mutual

/-- The strings and member names of a value, at every depth. -/
def texts : Value → List String
  | string s => [s]
  | array items => textsIn items
  | object members => textsOf members
  | _ => []

def textsIn : List Value → List String
  | [] => []
  | item :: items => texts item ++ textsIn items

def textsOf : List (String × Value) → List String
  | [] => []
  | (key, v) :: members => key :: texts v ++ textsOf members

end

def AtMember (key : String) (R : Value → Value → Prop) (v v' : Value) : Prop :=
  ∃ F : Value → Value, v' = mapMember key F v ∧ ∀ old, v.get key = some old → R old (F old)

def AtItems (R : Nat → Value → Value → Prop) (v v' : Value) : Prop :=
  ∃ F : Nat → Value → Value, v' = mapItems (mapFrom F 0) v ∧
    ∀ i x, (v.asArray.getD [])[i]? = some x → R i x (F i x)

section Places

variable {key : String} {v v' old x : Value} {R : Value → Value → Prop} {i : Nat}
  {S : Nat → Value → Value → Prop}

theorem getElem?_mapFrom (F : Nat → Value → Value) (start : Nat) (items : List Value) :
    (mapFrom F start items)[i]? = items[i]?.map (F (start + i)) := by
  induction items generalizing start i with
  | nil => rfl
  | cons item items ih =>
      cases i with
      | zero => rfl
      | succ i =>
          rw [mapFrom, List.getElem?_cons_succ, List.getElem?_cons_succ, ih, Nat.add_assoc,
            Nat.add_comm 1 i]

theorem AtMember.get (h : AtMember key R v v') (hold : v.get key = some old) :
    R old (v'.member key) := by
  obtain ⟨F, rfl, hR⟩ := h
  rw [member, get_mapMember, hold]
  exact hR old hold

theorem AtItems.item (h : AtItems S v v') (hx : (v.asArray.getD [])[i]? = some x) :
    ∃ x', (v'.asArray.getD [])[i]? = some x' ∧ S i x x' := by
  obtain ⟨F, rfl, hS⟩ := h
  cases v with
  | array items =>
      refine ⟨F i x, ?_, hS i x hx⟩
      change (mapFrom F 0 items)[i]? = _
      rw [getElem?_mapFrom, show items[i]? = some x from hx, Option.map_some, Nat.zero_add]
  | null | bool | number | string | object => cases hx

theorem mapFrom_same (start : Nat) (items : List Value) :
    mapFrom (fun _ item => item) start items = items := by
  rw [mapFrom_const fun item => item, List.map_id']

theorem AtMember.refl (h : ∀ old, R old old) (v : Value) : AtMember key R v v :=
  ⟨id, (mapMember_same fun _ _ => rfl).symm, fun old _ => h old⟩

theorem AtItems.refl (h : ∀ i x, S i x x) (v : Value) : AtItems S v v := by
  refine ⟨fun _ x => x, ?_, fun i x _ => h i x⟩
  cases v with
  | array items => rw [mapItems, mapFrom_same]
  | null | bool | number | string | object => rfl

end Places

section Loops

variable {ω γ : Type} {items : List Value}

theorem flatMap_mapFrom (F : Nat → Value → Value) (g : Value → List γ) (start : Nat) :
    (mapFrom F start items).flatMap g = (items.zipIdx start).flatMap fun p => g (F p.2 p.1) := by
  induction items generalizing start with
  | nil => rfl
  | cons item items ih => rw [mapFrom, List.zipIdx_cons, List.flatMap_cons, List.flatMap_cons, ih]

/-- A loop whose steps always make their updates. -/
theorem forEachIdx_eq {f : Nat → Value → Option (Value × List ω)} {F : Nat → Value → Value}
    {recorded : Nat → Value → List ω} (h : ∀ i x, f i x = some (F i x, recorded i x)) (start : Nat) :
    forEachIdx f start items =
      some (mapFrom F start items, (items.zipIdx start).flatMap fun p => recorded p.2 p.1) := by
  induction items generalizing start with
  | nil => rfl
  | cons item items ih =>
      rw [forEachIdx, h, Option.bind_eq_bind, Option.bind_some, ih]
      rfl

end Loops

end Value
end CleanCtx
