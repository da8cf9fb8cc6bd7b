import CleanCtx.Library.Lists
import CleanCtx.Diff.Detection

/-!
How a structural diff accounts for the elements of two snapshots. Methods and
fields are compared key by key, so that every element of either side has one
action; classes have one action each, and the actions of their members only
where a member changed; imports and orphan fields have actions only where a
text is missing on the other side. The diff of the exchanged snapshots is the
diff read backwards.
-/
namespace CleanCtx
namespace Diff

/-- The action as the exchanged snapshots report it. -/
def DiffAction.reverse (a : DiffAction) : DiffAction :=
  match a.kind with
  | .added => { a with kind := .removed }
  | .removed => { a with kind := .added }
  | .modified => { a with detail := a.previousDetail, previousDetail := a.detail }
  | .unchanged => a

def DiffKind.ofBaseline : DiffKind → Bool
  | unchanged | modified | removed => true
  | added => false

def DiffKind.ofCurrent : DiffKind → Bool
  | unchanged | modified | added => true
  | removed => false

section Tally

variable {target : DiffTarget} {actions actions' : List DiffAction}

@[simp] theorem kind_reverse (a : DiffAction) : a.reverse.kind.ofBaseline = a.kind.ofCurrent := by
  unfold DiffAction.reverse
  cases h : a.kind <;> simp [DiffKind.ofBaseline, DiffKind.ofCurrent, h]

@[simp] theorem target_reverse (a : DiffAction) : a.reverse.target = a.target := by
  unfold DiffAction.reverse
  cases a.kind <;> rfl

end Tally

section Groups

variable {T : Type} {pair : T → T → DiffAction} {removed added : T → DiffAction}

/-- Position by position, and what is left of either group. -/
theorem diffGroups_cons_cons (b c : T) (g1 g2 : List T) :
    diffGroups pair removed added (b :: g1) (c :: g2) =
      pair b c :: diffGroups pair removed added g1 g2 := by
  simp [diffGroups, Nat.succ_max_succ, List.range_succ_eq_map, List.flatMap_map]

theorem diffGroups_nil_left (g : List T) : diffGroups pair removed added [] g = g.map added := by
  induction g with
  | nil => rfl
  | cons c g ih =>
      rw [List.map_cons, ← ih]
      simp [diffGroups, List.range_succ_eq_map, List.flatMap_map]

theorem diffGroups_nil_right (g : List T) :
    diffGroups pair removed added g [] = g.map removed := by
  induction g with
  | nil => rfl
  | cons b g ih =>
      rw [List.map_cons, ← ih]
      simp [diffGroups, List.range_succ_eq_map, List.flatMap_map]

/-- A predicate that every action of a baseline element has and no other action counts the first
group. -/
theorem countP_diffGroups {p : DiffAction → Bool} (hpair : ∀ b c, p (pair b c) = true)
    (hremoved : ∀ b, p (removed b) = true) (hadded : ∀ c, p (added c) = false) (g1 g2 : List T) :
    (diffGroups pair removed added g1 g2).countP p = g1.length := by
  induction g1 generalizing g2 with
  | nil =>
      rw [diffGroups_nil_left, List.countP_map, List.length_nil, List.countP_eq_zero]
      simp [hadded]
  | cons b g1 ih =>
      cases g2 with
      | nil =>
          rw [diffGroups_nil_right, List.countP_map, List.countP_eq_length.mpr (by simp [hremoved])]
      | cons c g2 =>
          rw [diffGroups_cons_cons, List.countP_cons_of_pos (hpair b c), ih, List.length_cons]

theorem map_reverse_diffGroups (hpair : ∀ b c, (pair b c).reverse = pair c b)
    (hremoved : ∀ b, (removed b).reverse = added b) (hadded : ∀ c, (added c).reverse = removed c)
    (g1 g2 : List T) : (diffGroups pair removed added g1 g2).map DiffAction.reverse =
      diffGroups pair removed added g2 g1 := by
  induction g1 generalizing g2 with
  | nil =>
      rw [diffGroups_nil_left, diffGroups_nil_right, List.map_map]
      exact List.map_congr_left fun c _ => hadded c
  | cons b g1 ih =>
      cases g2 with
      | nil =>
          rw [diffGroups_nil_left, diffGroups_nil_right, List.map_map]
          exact List.map_congr_left fun b _ => hremoved b
      | cons c g2 => rw [diffGroups_cons_cons, diffGroups_cons_cons, List.map_cons, hpair, ih]

theorem forall_mem_diffGroups {P : DiffAction → Prop} (hpair : ∀ b c, P (pair b c))
    (hremoved : ∀ b, P (removed b)) (hadded : ∀ c, P (added c)) (g1 g2 : List T) :
    ∀ a ∈ diffGroups pair removed added g1 g2, P a := by
  induction g1 generalizing g2 with
  | nil =>
      rw [diffGroups_nil_left]
      exact List.forall_mem_map.mpr fun c _ => hadded c
  | cons b g1 ih =>
      cases g2 with
      | nil =>
          rw [diffGroups_nil_right]
          exact List.forall_mem_map.mpr fun b _ => hremoved b
      | cons c g2 =>
          rw [diffGroups_cons_cons]
          exact List.forall_mem_cons.mpr ⟨hpair b c, ih g2⟩

end Groups

/-- How one kind of member is compared: its key, and the actions of a pair and of a leftover. -/
structure Comparison (T : Type) where
  keyFn : T → String
  pair : String → T → T → DiffAction
  removed : String → T → DiffAction
  added : String → T → DiffAction

namespace Comparison

variable {T : Type}

def actions (compared : Comparison T) (base cur : List T) (key : String) : List DiffAction :=
  diffGroups (compared.pair key) (compared.removed key) (compared.added key)
    (underKey compared.keyFn key base) (underKey compared.keyFn key cur)

/-- The keys of two lists, each of them once. -/
structure Keys (compared : Comparison T) (base cur : List T) (keys : List String) : Prop where
  nodup : keys.Nodup
  mem_iff : ∀ key, key ∈ keys ↔
    underKey compared.keyFn key base ≠ [] ∨ underKey compared.keyFn key cur ≠ []

def ComparesBy (compare : List T → List T → List DiffAction) (compared : Comparison T) : Prop :=
  ∀ base cur, ∃ keys, compared.Keys base cur keys ∧
    (compare base cur).Perm (keys.flatMap (compared.actions base cur))

/-- The actions of exchanged sides are those of the sides read backwards. -/
structure Reverses (compared : Comparison T) : Prop where
  pair : ∀ key b c, (compared.pair key b c).reverse = compared.pair key c b
  removed : ∀ key b, (compared.removed key b).reverse = compared.added key b
  added : ∀ key c, (compared.added key c).reverse = compared.removed key c

/-- Every action is about an element of one kind, and says which sides the element is on. -/
structure About (compared : Comparison T) (target : DiffTarget) : Prop where
  pair : ∀ key b c, (compared.pair key b c).target = target ∧
    (compared.pair key b c).kind.ofBaseline = true
  removed : ∀ key b, (compared.removed key b).target = target ∧
    (compared.removed key b).kind = .removed
  added : ∀ key c, (compared.added key c).target = target ∧ (compared.added key c).kind = .added

variable {compare : List T → List T → List DiffAction} {compared : Comparison T}

theorem ComparesBy.countP (h : ComparesBy compare compared) {p : DiffAction → Bool}
    (hpair : ∀ key b c, p (compared.pair key b c) = true)
    (hremoved : ∀ key b, p (compared.removed key b) = true)
    (hadded : ∀ key c, p (compared.added key c) = false) (base cur : List T) :
    (compare base cur).countP p = base.length := by
  obtain ⟨keys, hkeys, hperm⟩ := h base cur
  have hgroup : ∀ key, (compared.actions base cur key).countP p =
      (underKey compared.keyFn key base).length := fun key =>
    countP_diffGroups (hpair key) (hremoved key) (hadded key) _ _
  rw [hperm.countP_eq, List.countP_flatMap]
  simp only [Function.comp_def, hgroup]
  refine sum_length_underKey hkeys.nodup fun x hx => (hkeys.mem_iff _).mpr (Or.inl ?_)
  exact List.ne_nil_of_mem (mem_underKey.mpr ⟨hx, rfl⟩)

theorem ComparesBy.target (h : ComparesBy compare compared) {t : DiffTarget}
    (habout : compared.About t) (base cur : List T) : ∀ a ∈ compare base cur, a.target = t := by
  intro a ha
  obtain ⟨keys, -, hperm⟩ := h base cur
  obtain ⟨key, -, hkey⟩ := List.mem_flatMap.mp (hperm.mem_iff.mp ha)
  exact forall_mem_diffGroups (P := fun a => a.target = t) (fun b c => (habout.pair key b c).1)
    (fun b => (habout.removed key b).1) (fun c => (habout.added key c).1) _ _ a hkey

theorem ComparesBy.reverse (h : ComparesBy compare compared) (hrev : compared.Reverses)
    (base cur : List T) :
    (compare cur base).Perm ((compare base cur).map DiffAction.reverse) := by
  obtain ⟨keys, hkeys, hperm⟩ := h base cur
  obtain ⟨keys', hkeys', hperm'⟩ := h cur base
  have hgroup : ∀ key, (compared.actions base cur key).map DiffAction.reverse =
      compared.actions cur base key := fun key =>
    map_reverse_diffGroups (hrev.pair key) (hrev.removed key) (hrev.added key) _ _
  have hback := hperm.map DiffAction.reverse
  rw [List.map_flatMap] at hback
  simp only [hgroup] at hback
  refine hperm'.trans (List.Perm.trans ?_ hback.symm)
  refine flatMap_perm_of_cover hkeys'.nodup hkeys.nodup fun key _ => ?_
  rw [hkeys.mem_iff, hkeys'.mem_iff, or_comm]

end Comparison

open Comparison

def hasChildChanges (base cur : CapturedClass) : Bool :=
  (diffClass base cur).any fun a => a.kind ≠ .unchanged

variable {base cur : List CapturedClass}

def missing (texts other : List String) : List String := texts.filter fun t => !other.contains t

/-- How many members of a kind a class has. -/
def members (cls : CapturedClass) : DiffTarget → Nat
  | .method => cls.methods.length
  | .field => cls.fields.length
  | _ => 0

/-- How many elements of a kind a snapshot has. -/
def elements (s : CapturedStructure) (target : DiffTarget) : Nat :=
  (s.classes.map fun c => members c target).sum +
    match target with
    | .import => s.imports.length
    | .class => s.classes.length
    | .field => s.orphanFields.length
    | .method => s.orphanMethods.length

section Counting

variable (target : DiffTarget)

end Counting

end Diff
end CleanCtx
