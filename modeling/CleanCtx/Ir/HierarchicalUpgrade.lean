import CleanCtx.Ir.HierarchicalWire

/-!
The upgrades of documents that are older than occurrences: they put containers around
what is there, and change no string and no member name.
-/
namespace CleanCtx
namespace Hierarchical

open Value

variable {ir ir' owner owner' method method' : Value} {field description : String}

theorem texts_upgradeFlatOccurrences
    (h : upgradeFlatOccurrences field description owner = .ok owner') :
    owner'.texts = owner.texts := by
  refine texts_changeMember (fun old new hnew => ?_) h
  split at hnew
  · cases hnew
  · next payload hpayload =>
    split at hnew
    · cases hnew
    · split at hnew
      · cases hnew
        rfl
      · cases hnew
        cases old with
        | array items =>
            cases hpayload
            exact texts_wrap _
        | null | bool | number | string | object => cases hpayload

theorem texts_upgradeLegacyScalar (h : upgradeLegacyScalar field description method = .ok method') :
    method'.texts = method.texts := by
  refine texts_changeMember (fun old new hnew => ?_) h
  split at hnew
  · cases hnew
    exact texts_wrap old
  · cases hnew

theorem texts_upgradeLegacyFlags (h : upgradeLegacyFlags method = .ok method') :
    method'.texts = method.texts := by
  refine texts_changeMember (fun old new hnew => ?_) h
  split at hnew
  · cases hnew
  · next payload hpayload =>
    split at hnew
    · cases hnew
    · cases hnew
      cases old with
      | array items =>
          cases hpayload
          exact texts_wrap _
      | null | bool | number | string | object => cases hpayload

theorem texts_bind {f g : Value → Except DecodeError Value} {value value' : Value}
    (hf : ∀ old new, f old = .ok new → new.texts = old.texts)
    (hg : ∀ old new, g old = .ok new → new.texts = old.texts)
    (h : f value >>= g = .ok value') : value'.texts = value.texts := by
  cases hmid : f value with
  | error e =>
      rw [hmid] at h
      cases h
  | ok mid =>
      rw [hmid] at h
      exact (hg mid value' h).trans (hf value mid hmid)

theorem texts_upgradeLegacyMethod (h : upgradeLegacyMethod method = .ok method') :
    method'.texts = method.texts :=
  texts_bind (fun _ _ => texts_upgradeLegacyFlags)
    (fun _ _ => texts_bind (fun _ _ => texts_upgradeLegacyScalar)
      fun _ _ => texts_upgradeLegacyScalar) h

theorem texts_upgradeRevision2Class (h : upgradeRevision2Class owner = .ok owner') :
    owner'.texts = owner.texts :=
  texts_bind (fun _ _ => texts_upgradeFlatOccurrences) (fun _ _ => texts_upgradeFlatOccurrences) h

theorem texts_upgradeLegacyClass (h : upgradeLegacyClass owner = .ok owner') :
    owner'.texts = owner.texts := by
  refine texts_bind (fun _ _ => texts_upgradeRevision2Class) (fun _ _ => ?_) h
  refine texts_changeMember fun methods methods' hmethods => ?_
  split at hmethods
  · cases hmethods
  · next items hitems =>
    cases methods with
    | array methods =>
        cases hitems
        exact texts_mapItems (fun _ _ => texts_upgradeLegacyMethod) hmethods
    | null | bool | number | string | object => cases hitems

theorem texts_upgradeClasses {upgradeClass : Value → Except DecodeError Value}
    (hclass : ∀ old new, upgradeClass old = .ok new → new.texts = old.texts)
    (h : upgradeClasses upgradeClass ir = .ok ir') : ir'.texts = ir.texts := by
  refine texts_changeMember (fun classes classes' hclasses => ?_) h
  split at hclasses
  · cases hclasses
    rfl
  · next items hitems =>
    cases classes with
    | array classes =>
        cases hitems
        exact texts_mapItems hclass hclasses
    | null | bool | number | string | object => cases hitems

/-- A document without occurrences, and the same with them. -/
def flatDocument : Value :=
  object [("c", array [object [("n", string "Cart"), ("fl", array [string "EXPORT"]),
    ("m", array [object [("n", string "add"), ("se", string "IO")]])]])]

def wrappedDocument : Value :=
  object [("c", array [object [("n", string "Cart"), ("fl", array [array [string "EXPORT"]]),
    ("m", array [object [("n", string "add"), ("se", array [string "IO"])]])]])]

/-- The upgrades of an unversioned document and of revision 2 keep every string and every
member name, in their order. -/
theorem upgradeHierarchy_keepsTexts (ir ir' : Value)
    (h : upgradeLegacyHierarchy ir = .ok ir' ∨ upgradeRevision2Hierarchy ir = .ok ir') :
    ir'.texts = ir.texts := by
  obtain h | h := h
  · exact texts_upgradeClasses (fun _ _ => texts_upgradeLegacyClass) h
  · exact texts_upgradeClasses (fun _ _ => texts_upgradeRevision2Class) h

theorem upgradeHierarchy_keepsTexts_flat :
    upgradeLegacyHierarchy flatDocument = .ok wrappedDocument ∧
      wrappedDocument.texts = flatDocument.texts :=
  ⟨rfl, upgradeHierarchy_keepsTexts flatDocument wrappedDocument (.inl rfl)⟩

end Hierarchical
end CleanCtx
