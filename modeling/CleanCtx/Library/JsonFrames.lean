import CleanCtx.Library.JsonPlaces

/-!
Steps that change a value in place, compared with pure updates. A step is framed
by an update when it makes that update wherever the places it reaches for writing
are present, and otherwise, if it returns at all, adds a member. The members are
counted by a size, which no step lets shrink.
-/
namespace CleanCtx
namespace Value

/-- An update of one member, if there is one of that name. -/
def mapMember (key : String) (F : Value → Value) : Value → Value
  | object members =>
      match members.lookup key with
      | some old => object (setMember key (F old) members)
      | none => object members
  | value => value

def mapItems (F : List Value → List Value) : Value → Value
  | array items => array (F items)
  | value => value

def mapFrom (F : Nat → Value → Value) : Nat → List Value → List Value
  | _, [] => []
  | i, item :: items => F i item :: mapFrom F (i + 1) items

def mapFirst (p : Value → Bool) (F : Value → Value) : List Value → List Value
  | [] => []
  | item :: items => if p item then F item :: items else item :: mapFirst p F items

def keyCount : Value → Nat
  | object members => members.length
  | _ => 0

def atItems (size : List Value → Nat) : Value → Nat
  | array items => size items
  | _ => 0

def HasMember (key : String) (fits : Value → Prop) (value : Value) : Prop :=
  (value.get key).isSome ∧ fits (value.member key)

def EachItem (fits : Value → Prop) (value : Value) : Prop :=
  ∀ x ∈ value.asArray.getD [], fits x

structure Framed {α β : Type} (step : α → Option (α × β)) (fits : α → Prop) (update : α → α)
    (size : α → Nat) : Prop where
  run : ∀ {a}, fits a → ∃ b, step a = some (update a, b)
  grows : ∀ {a a' b}, step a = some (a', b) → size a ≤ size a' ∧ (size a' = size a → fits a)
  keeps : ∀ a, size (update a) = size a

section Members

variable {key other : String} {F : Value → Value} {value : Value} {fits : Value → Prop}

theorem length_setMember {members : List (String × Value)} :
    (setMember key value members).length = members.length := by
  induction members with
  | nil => rfl
  | cons entry members ih =>
      obtain ⟨k, v⟩ := entry
      by_cases hk : k = key
      · rw [setMember, if_pos hk, List.length_cons, List.length_cons]
      · rw [setMember, if_neg hk, List.length_cons, List.length_cons, ih]

theorem mapMember_object {members : List (String × Value)} {old : Value}
    (h : members.lookup key = some old) :
    mapMember key F (object members) = object (setMember key (F old) members) := by
  simp only [mapMember, h]

@[simp] theorem keyCount_mapMember : (mapMember key F value).keyCount = value.keyCount := by
  cases value with
  | object members =>
      rw [mapMember]
      cases members.lookup key with
      | none => rfl
      | some old => exact length_setMember
  | null | bool | number | string | array => rfl

theorem get_mapMember : (mapMember key F value).get key = (value.get key).map F := by
  cases value with
  | object members =>
      rw [mapMember, get_object]
      cases hold : members.lookup key with
      | none => exact hold
      | some old => exact lookup_setMember_self (by rw [hold]; rfl)
  | null | bool | number | string | array => rfl

theorem get_mapMember_of_ne (h : other ≠ key) : (mapMember key F value).get other = value.get other := by
  cases value with
  | object members =>
      rw [mapMember, get_object]
      cases members.lookup key with
      | none => rfl
      | some old => exact lookup_setMember_of_ne h
  | null | bool | number | string | array => rfl

theorem member_mapMember_of_ne (h : other ≠ key) :
    (mapMember key F value).member other = value.member other := by
  rw [member, member, get_mapMember_of_ne h]

@[simp] theorem isSome_get_mapMember :
    ((mapMember key F value).get other).isSome = (value.get other).isSome := by
  by_cases h : other = key
  · rw [h, get_mapMember, Option.isSome_map]
  · rw [get_mapMember_of_ne h]

theorem hasMember_mapMember : HasMember key fits (mapMember key F value) ↔
    HasMember key (fun v => fits (F v)) value := by
  rw [HasMember, HasMember, isSome_get_mapMember, member, get_mapMember, member]
  cases value.get key with
  | none => simp
  | some old => rfl

theorem hasMember_mapMember_of_ne (h : other ≠ key) :
    HasMember other fits (mapMember key F value) ↔ HasMember other fits value := by
  rw [HasMember, HasMember, isSome_get_mapMember, member_mapMember_of_ne h]

theorem present_mapMember : HasMember other (fun _ => True) (mapMember key F value) ↔
    HasMember other (fun _ => True) value := by
  rw [HasMember, HasMember, isSome_get_mapMember]

theorem hasMember_congr {fits' : Value → Prop} (h : ∀ v, fits' v ↔ fits v) :
    HasMember key fits' value ↔ HasMember key fits value :=
  and_congr_right fun _ => h _

theorem atKey_present {β : Type} {f : Value → Option (Value × β)} {old : Value}
    (h : value.get key = some old) :
    atKey key f value = (f old).map fun (v, b) => (mapMember key (fun _ => v) value, b) := by
  cases value with
  | object members =>
      have hold : members.lookup key = some old := h
      simp only [atKey_object hold, mapMember_object hold]
  | null | bool | number | string | array => cases h

theorem isSome_get_of_items (h : (value.member key).asArray.getD [] ≠ []) :
    (value.get key).isSome := by
  cases hget : value.get key with
  | none => simp [member, hget, asArray] at h
  | some => rfl

theorem mapMember_congr {G : Value → Value} (h : ∀ old, value.get key = some old → F old = G old) :
    mapMember key F value = mapMember key G value := by
  cases value with
  | object members =>
      cases hold : members.lookup key with
      | none => simp only [mapMember, hold]
      | some old => rw [mapMember_object hold, mapMember_object hold, h old hold]
  | null | bool | number | string | array => rfl

theorem mapMember_same (h : ∀ old, value.get key = some old → F old = old) :
    mapMember key F value = value := by
  cases value with
  | object members =>
      rw [mapMember]
      cases hold : members.lookup key with
      | none => rfl
      | some old =>
          change object (setMember key (F old) members) = _
          rw [h old hold, setMember_self hold]
  | null | bool | number | string | array => rfl

end Members

section Items

variable {fits : Value → Prop} {value : Value}

theorem mapFrom_const (F : Value → Value) (i : Nat) : mapFrom (fun _ => F) i = List.map F := by
  funext items
  induction items generalizing i with
  | nil => rfl
  | cons x items ih => rw [mapFrom, ih, List.map_cons]

theorem eachItem_mapFrom {F : Nat → Value → Value} (h : ∀ i x, fits (F i x) ↔ fits x) (start : Nat) :
    EachItem fits (mapItems (mapFrom F start) value) ↔ EachItem fits value := by
  cases value with
  | array items =>
      change (∀ x ∈ mapFrom F start items, fits x) ↔ ∀ x ∈ items, fits x
      induction items generalizing start with
      | nil => rfl
      | cons x items ih =>
          rw [mapFrom, List.forall_mem_cons, List.forall_mem_cons]
          exact and_congr (h start x) (ih (start + 1))
  | null | bool | number | string | object => rfl

end Items

namespace Framed

section Basic

variable {α β γ : Type} {step : α → Option (α × β)} {fits : α → Prop} {update U : α → α}
  {size : α → Nat}

theorem always (h : ∀ a, ∃ b, step a = some (update a, b))
    (hkeeps : ∀ a, size (update a) = size a) : Framed step (fun _ => True) update size := by
  refine ⟨fun {a} _ => h a, fun {a a' b'} ha => ?_, hkeeps⟩
  obtain ⟨b, hb⟩ := h a
  rw [hb] at ha
  cases ha
  exact ⟨Nat.le_of_eq (hkeeps a).symm, fun _ => trivial⟩

theorem comp (h : Framed step fits update size) (hU : ∀ a, size (U a) = size a) :
    Framed (fun a => step (U a)) (fun a => fits (U a)) (fun a => update (U a)) size :=
  ⟨h.run, fun {a} _ _ ha => hU a ▸ h.grows ha, fun a => (h.keeps _).trans (hU a)⟩

/-- A step with a parameter that is read off the value. -/
theorem param {γ : Type} {steps : γ → α → Option (α × β)} {updates : γ → α → α}
    (h : ∀ c, Framed (steps c) fits (updates c) size) (c : α → γ) :
    Framed (fun a => steps (c a) a) fits (fun a => updates (c a) a) size :=
  ⟨(h _).run, (h _).grows, fun a => (h (c a)).keeps a⟩

theorem record (h : Framed step fits update size) (count : α → β → γ) :
    Framed (fun a => (step a).map fun (a', b) => (a', count a b)) fits update size := by
  refine ⟨fun {a} ha => ?_, fun ha => ?_, h.keeps⟩
  · obtain ⟨b, hb⟩ := h.run ha
    exact ⟨count a b, by rw [hb]; rfl⟩
  · obtain ⟨⟨a₁, b⟩, hstep, heq⟩ := Option.map_eq_some_iff.mp ha
    cases heq
    exact h.grows hstep

theorem congr_step {step' : α → Option (α × β)} (h : Framed step fits update size)
    (hstep : ∀ a, step' a = step a) : Framed step' fits update size :=
  (funext hstep : step' = step) ▸ h

theorem congr_fits {fits' : α → Prop} (h : Framed step fits update size)
    (hfits : ∀ a, fits' a ↔ fits a) : Framed step fits' update size :=
  ⟨fun ha => h.run ((hfits _).mp ha),
    fun ha => ⟨(h.grows ha).1, fun heq => (hfits _).mpr ((h.grows ha).2 heq)⟩, h.keeps⟩

theorem congr_size {size' : α → Nat} (h : Framed step fits update size)
    (hsize : ∀ a, size' a = size a) : Framed step fits update size' :=
  (funext hsize : size' = size) ▸ h

theorem congr_update {update' : α → α} (h : Framed step fits update size)
    (hupdate : ∀ a, update' a = update a) : Framed step fits update' size :=
  (funext hupdate : update' = update) ▸ h

/-- A step behind a guard that lets only fitting values through. -/
theorem guarded (h : Framed step fits update size) {p : α → Bool} (b : β)
    (hp : ∀ a, p a = false → fits a) :
    Framed (fun a => if p a then some (a, b) else step a) (fun _ => True)
      (fun a => if p a then a else update a) size := by
  refine always (fun a => ?_) fun a => ?_
  · cases hguard : p a with
    | true => exact ⟨b, rfl⟩
    | false => exact h.run (hp a hguard)
  · cases p a with
    | true => rfl
    | false => exact h.keeps a

end Basic

section Places

variable {β : Type} {f : Value → Option (Value × β)} {fits : Value → Prop} {F : Value → Value}
  {inner : Value → Nat} {key : String}

/-- Where the member is present the place is it; otherwise the value is no object, or grows. -/
theorem atKey_cases {value result : Value} {b : β} (h : Value.atKey key f value = some (result, b)) :
    (∃ members old new, value = object members ∧ members.lookup key = some old ∧
        f old = some (new, b) ∧ result = object (setMember key new members)) ∨
      value.get key = none ∧ keyCount result = keyCount value + 1 := by
  cases value with
  | null =>
      obtain ⟨⟨v, b'⟩, -, heq⟩ := Option.map_eq_some_iff.mp h
      cases heq
      exact .inr ⟨rfl, rfl⟩
  | object members =>
      cases hold : members.lookup key with
      | none =>
          rw [Value.atKey, hold] at h
          obtain ⟨⟨v, b'⟩, -, heq⟩ := Option.map_eq_some_iff.mp h
          cases heq
          exact .inr ⟨hold, List.length_append⟩
      | some old =>
          rw [atKey_object hold] at h
          obtain ⟨⟨v, b'⟩, hf, heq⟩ := Option.map_eq_some_iff.mp h
          cases heq
          exact .inl ⟨members, old, v, rfl, hold, hf, rfl⟩
  | bool | number | string | array => simp [Value.atKey] at h

/-- A place at a member, for a size of the whole that counts what stands in the place. -/
theorem atKey_of (h : Framed f fits F inner) {outer : Value → Nat}
    (hplace : ∀ members old new, members.lookup key = some old →
      outer (object (setMember key new members)) + inner old = outer (object members) + inner new)
    (habsent : ∀ value result b, value.get key = none →
      Value.atKey key f value = some (result, b) → outer value < outer result) :
    Framed (Value.atKey key f) (HasMember key fits) (mapMember key F) outer := by
  refine ⟨fun {value} hvalue => ?_, fun {value result b} hstep => ?_, fun value => ?_⟩
  · obtain ⟨hsome, hfits⟩ := hvalue
    obtain ⟨old, hget⟩ := Option.isSome_iff_exists.mp hsome
    rw [member, hget] at hfits
    obtain ⟨b, hb⟩ := h.run hfits
    refine ⟨b, ?_⟩
    rw [atKey_present hget]
    cases value with
    | object members =>
        have hold : members.lookup key = some old := hget
        rw [Option.getD_some] at hb
        simp only [hb, Option.map_some, mapMember_object hold]
    | null | bool | number | string | array => cases hget
  · obtain ⟨members, old, new, rfl, hold, hf, rfl⟩ | ⟨hnone, -⟩ := atKey_cases hstep
    · have hsize := hplace members old new hold
      obtain ⟨hle, heq⟩ := h.grows hf
      refine ⟨by omega, fun houter => ⟨by rw [get_object, hold]; rfl, ?_⟩⟩
      rw [member, get_object, hold]
      exact heq (by omega)
    · have hlt := habsent value result b hnone hstep
      exact ⟨Nat.le_of_lt hlt, fun heq => absurd heq (Nat.ne_of_gt hlt)⟩
  · cases value with
    | object members =>
        rw [mapMember]
        cases hold : members.lookup key with
        | none => rfl
        | some old =>
            have hsize := hplace members old (F old) hold
            have hinner := h.keeps old
            change outer (object (setMember key (F old) members)) = _
            omega
    | null | bool | number | string | array => rfl

def sizeAt (key : String) (size : Value → Nat) (value : Value) : Nat :=
  value.keyCount + size (value.member key)

theorem atKey (h : Framed f fits F inner) (key : String) :
    Framed (Value.atKey key f) (HasMember key fits) (mapMember key F) (sizeAt key inner) := by
  refine h.atKey_of (fun members old new hold => ?_) fun value result b hnone hstep => ?_
  · have hnew : (setMember key new members).lookup key = some new :=
      lookup_setMember_self (by rw [hold]; rfl)
    simp only [sizeAt, keyCount, member, get_object, length_setMember, hold, hnew, Option.getD_some]
    omega
  · obtain ⟨v, hget, hf, -⟩ := get_atKey hstep
    have hle := (h.grows hf).1
    have hcount : keyCount result = keyCount value + 1 := by
      obtain ⟨members, old, new, rfl, hold, -⟩ | ⟨-, hcount⟩ := atKey_cases hstep
      · cases hold.symm.trans hnone
      · exact hcount
    have hnew : result.member key = v := by rw [member, hget]; rfl
    rw [sizeAt, sizeAt, hcount, hnew]
    omega

/-- A place at another member than the one that is measured. -/
theorem atOther {other : String} (h : Framed f fits F fun _ => 0) (hne : other ≠ key)
    (size : Value → Nat) :
    Framed (Value.atKey key f) (HasMember key fits) (mapMember key F) (sizeAt other size) := by
  refine h.atKey_of (fun members old new _ => ?_) fun value result b hnone hstep => ?_
  · simp only [sizeAt, keyCount, member, get_object, length_setMember, lookup_setMember_of_ne hne]
  · obtain ⟨members, old, new, rfl, hold, -⟩ | ⟨-, hcount⟩ := atKey_cases hstep
    · cases hold.symm.trans hnone
    · rw [sizeAt, sizeAt, hcount, member_atKey_of_ne hstep hne]
      omega

theorem onArray {g : List Value → Option (List Value × β)} {fits : List Value → Prop}
    {G : List Value → List Value} {size : List Value → Nat} (h : Framed g fits G size)
    (otherwise : β) :
    Framed (Value.onArray otherwise g) (fun v => ∀ items, v.asArray = some items → fits items)
      (mapItems G) (atItems size) := by
  refine ⟨fun {value} hvalue => ?_, fun hstep => ?_, fun value => ?_⟩
  · cases value with
    | array items =>
        obtain ⟨b, hb⟩ := h.run (hvalue items rfl)
        exact ⟨b, by rw [Value.onArray, hb]; rfl⟩
    | null | bool | number | string | object => exact ⟨otherwise, rfl⟩
  · obtain ⟨items, items', rfl, rfl, hg⟩ | ⟨hnone, rfl, -⟩ := onArray_cases hstep
    · obtain ⟨hle, hfits⟩ := h.grows hg
      exact ⟨hle, fun heq other hother => by cases hother; exact hfits heq⟩
    · exact ⟨Nat.le_refl _, fun _ items hitems => by cases hitems.symm.trans hnone⟩
  · cases value with
    | array items => exact h.keeps items
    | null | bool | number | string | object => rfl

end Places

section Loops

variable {fits : Value → Prop} {size : Value → Nat}

/-- The size of a list is the sum over its items. -/
theorem forEachIdx {ω : Type} {f : Nat → Value → Option (Value × List ω)} {F : Nat → Value → Value}
    (h : ∀ i, Framed (f i) fits (F i) size) (start : Nat) :
    Framed (Value.forEachIdx f start) (fun items => ∀ x ∈ items, fits x) (mapFrom F start)
      fun items => (items.map size).sum := by
  refine ⟨fun {items} hitems => ?_, fun {items items' b} hstep => ?_, fun items => ?_⟩
  · induction items generalizing start with
    | nil => exact ⟨[], rfl⟩
    | cons x items ih =>
        obtain ⟨hx, hrest⟩ := List.forall_mem_cons.mp hitems
        obtain ⟨b, hb⟩ := (h start).run hx
        obtain ⟨bs, hbs⟩ := ih (start + 1) hrest
        exact ⟨b ++ bs, by rw [Value.forEachIdx, hb, Option.bind_eq_bind, Option.bind_some, hbs]; rfl⟩
  · induction items generalizing start items' b with
    | nil =>
        cases hstep
        exact ⟨Nat.le_refl _, fun _ x hx => by cases hx⟩
    | cons x items ih =>
        obtain ⟨⟨x', n₁⟩, hx, hstep⟩ := Option.bind_eq_some_iff.mp hstep
        obtain ⟨⟨rest, n₂⟩, hrest, hstep⟩ := Option.bind_eq_some_iff.mp hstep
        cases hstep
        obtain ⟨hle, hfits⟩ := (h start).grows hx
        obtain ⟨hles, hall⟩ := ih (start + 1) hrest
        simp only [List.map_cons, List.sum_cons]
        exact ⟨by omega, fun heq =>
          List.forall_mem_cons.mpr ⟨hfits (by omega), hall (by omega)⟩⟩
  · induction items generalizing start with
    | nil => rfl
    | cons x items ih =>
        simp only [mapFrom, List.map_cons, List.sum_cons, (h start).keeps x, ih (start + 1)]

theorem forEach {f : Value → Option (Value × Nat)} {F : Value → Value}
    (h : Framed f fits F size) :
    Framed (Value.forEach f) (fun items => ∀ x ∈ items, fits x) (List.map F)
      fun items => (items.map size).sum := by
  refine ⟨fun {items} hitems => ?_, fun {items items' b} hstep => ?_, fun items => ?_⟩
  · induction items with
    | nil => exact ⟨0, rfl⟩
    | cons x items ih =>
        obtain ⟨hx, hrest⟩ := List.forall_mem_cons.mp hitems
        obtain ⟨b, hb⟩ := h.run hx
        obtain ⟨bs, hbs⟩ := ih hrest
        exact ⟨b + bs, by rw [Value.forEach, hb, Option.bind_eq_bind, Option.bind_some, hbs]; rfl⟩
  · induction items generalizing items' b with
    | nil =>
        cases hstep
        exact ⟨Nat.le_refl _, fun _ x hx => by cases hx⟩
    | cons x items ih =>
        obtain ⟨⟨x', n₁⟩, hx, hstep⟩ := Option.bind_eq_some_iff.mp hstep
        obtain ⟨⟨rest, n₂⟩, hrest, hstep⟩ := Option.bind_eq_some_iff.mp hstep
        cases hstep
        obtain ⟨hle, hfits⟩ := h.grows hx
        obtain ⟨hles, hall⟩ := ih hrest
        simp only [List.map_cons, List.sum_cons]
        exact ⟨by omega, fun heq =>
          List.forall_mem_cons.mpr ⟨hfits (by omega), hall (by omega)⟩⟩
  · simp only [List.map_map]
    exact congrArg List.sum (List.map_congr_left fun x _ => h.keeps x)

/-- A loop over the items behind `as_array_mut`. -/
theorem eachItem {f : Value → Option (Value × Nat)} {F : Value → Value} (h : Framed f fits F size) :
    Framed (Value.onArray 0 (Value.forEach f)) (EachItem fits) (mapItems (List.map F))
      (atItems fun items => (items.map size).sum) :=
  (h.forEach.onArray 0).congr_fits fun value => by cases value <;> simp [EachItem, asArray]

theorem eachItemIdx {ω : Type} {f : Nat → Value → Option (Value × List ω)} {F : Nat → Value → Value}
    (h : ∀ i, Framed (f i) fits (F i) size) (start : Nat) :
    Framed (Value.onArray [] (Value.forEachIdx f start)) (EachItem fits) (mapItems (mapFrom F start))
      (atItems fun items => (items.map size).sum) :=
  ((forEachIdx h start).onArray []).congr_fits fun value => by cases value <;> simp [EachItem, asArray]

/-- A search that changes the item it reports, and only that one. -/
theorem untilFound {f : Value → Option (Value × Bool)} {p : Value → Bool} {F : Value → Value}
    (h : ∀ x, f x = some (if p x then F x else x, p x)) :
    Framed (Value.untilFound f) (fun _ => True) (mapFirst p F) fun _ => 0 := by
  refine .always (fun items => ⟨items.any p, ?_⟩) fun _ => rfl
  induction items with
  | nil => rfl
  | cons x items ih =>
      rw [Value.untilFound, h x, mapFirst]
      cases hp : p x with
      | true => simp [hp]
      | false => simp [hp, ih]

end Loops

end Framed

end Value
end CleanCtx
