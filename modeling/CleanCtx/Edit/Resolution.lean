import CleanCtx.Edit.Locate

/-!
Resolution of edit targets. The records of a table have method ids of their own,
and the bare name is counted; the index of qualified names keeps the last of
several overloads, and a target that names them resolves to that one.
-/
namespace CleanCtx
namespace Edit

/-- The key forms that a target may have. -/
inductive KeyForm
  | qualifiedName
  | methodId
  | bareName
  deriving DecidableEq

def KeyForm.key : KeyForm → UnitRecord → String
  | qualifiedName => (·.qualifiedName)
  | methodId => (·.methodId)
  | bareName => (·.name)

namespace UnitTable

def candidates (table : UnitTable) (target : String) (form : KeyForm) : List UnitRecord :=
  table.units.filter (form.key · = target)

/-- The winning key form is the first one, in the documented priority, that names a unit. -/
def winningForm (table : UnitTable) (target : String) : KeyForm :=
  if table.candidates target .qualifiedName ≠ [] then .qualifiedName
  else if table.candidates target .methodId ≠ [] then .methodId
  else .bareName

/-- A target resolves only to the one unit it names; several units are reported as an
ambiguity, and no request that holds the target produces a new source. -/
structure ResolvesUniquely (table : UnitTable) (target : String) : Prop where
  only : ∀ unit, table.resolve target = .ok unit →
    table.candidates target (table.winningForm target) = [unit]
  ambiguous : 1 < (table.candidates target (table.winningForm target)).length →
    (∃ names, table.resolve target = .error (.ambiguous target names)) ∧
      ∀ source operations, target ∈ operations.map EditOperation.target →
        ∀ report, apply source table operations ≠ .ok report

/-- Both indexes lead to the records filed under their keys, and no two records share a method id. -/
structure Filed (table : UnitTable) : Prop where
  qualified : Indexes KeyForm.qualifiedName.key table.byQualified table.units
  identified : Indexes KeyForm.methodId.key table.byMethodId table.units
  distinct : (table.units.map (·.methodId)).Nodup

theorem filed_empty : empty.Filed where
  qualified := .empty
  identified := .empty
  distinct := List.nodup_nil

variable {table : UnitTable} {target : String}

theorem Filed.push (h : table.Filed) {record : UnitRecord}
    (hfresh : record.methodId ∉ table.units.map (·.methodId)) : (table.push record).Filed where
  qualified := h.qualified.concat record
  identified := h.identified.concat record
  distinct := by
    change ((table.units ++ [record]).map (·.methodId)).Nodup
    rw [List.map_append, List.map_singleton]
    exact List.concat_eq_append ▸ h.distinct.concat hfresh

end UnitTable

structure Collected.Listed (state : Collected) : Prop where
  nodup : state.bodyOrder.Nodup
  mem : ∀ mid ∈ state.bodyOrder, mid ∈ state.bodies

theorem Collected.Listed.collect {state : Collected} (h : state.Listed) (op : CoreOp) :
    (state.collect op).Listed := by
  have hkeep : ∀ state' : Collected, state'.bodyOrder = state.bodyOrder →
      state'.bodies = state.bodies → state'.Listed := by
    intro state' horder hbodies
    exact ⟨horder ▸ h.nodup, horder ▸ hbodies ▸ h.mem⟩
  cases op with
  | defClass id name =>
      simp only [Collected.collect]
      split
      · exact h
      · exact hkeep _ rfl rfl
  | param mid _ ty _ =>
      simp only [Collected.collect]
      split
      · exact h
      · exact hkeep _ rfl rfl
  | body mid text start stop =>
      cases start with
      | none => exact h
      | some start =>
          cases stop with
          | none => exact h
          | some stop =>
              simp only [Collected.collect]
              constructor
              · change (if mid ∈ state.bodies then state.bodyOrder else _).Nodup
                split
                · exact h.nodup
                · next hnew =>
                  exact List.concat_eq_append ▸ h.nodup.concat fun hmem => hnew (h.mem mid hmem)
              · intro found hfound
                change found ∈ (if mid ∈ state.bodies then state.bodyOrder else _) at hfound
                refine Finmap.mem_insert.mpr ?_
                split at hfound
                · exact Or.inr (h.mem found hfound)
                · rcases List.mem_append.mp hfound with hold | hnew
                  · exact Or.inr (h.mem found hold)
                  · exact Or.inl (List.mem_singleton.mp hnew)
  | _ => exact hkeep _ rfl rfl

theorem Collected.listed_foldl {state : Collected} (h : state.Listed) (instructions : List CoreOp) :
    (instructions.foldl Collected.collect state).Listed := by
  induction instructions generalizing state with
  | nil => exact h
  | cons op instructions ih => exact ih (h.collect op)

theorem Collected.record_methodId {state : Collected} {mid : String} {record : UnitRecord}
    (h : state.record mid = some record) : record.methodId = mid := by
  unfold Collected.record at h
  split at h
  · cases h
  · split at h
    · cases h
    · exact (Option.some.inj h) ▸ rfl

namespace UnitTable

variable {table : UnitTable} {target : String}

/-- Filing the records of new method ids keeps the table filed. -/
theorem Filed.foldl_record (h : table.Filed) (state : Collected) {mids : List String}
    (hnodup : mids.Nodup) (hnew : ∀ mid ∈ mids, mid ∉ table.units.map (·.methodId)) :
    (mids.foldl (fun table mid => (state.record mid).elim table table.push) table).Filed := by
  induction mids generalizing table with
  | nil => exact h
  | cons mid mids ih =>
      obtain ⟨hmid, hrest⟩ := List.nodup_cons.mp hnodup
      rw [List.foldl_cons]
      cases hrecord : state.record mid with
      | none => exact ih h hrest fun found hfound => hnew found (List.mem_cons_of_mem _ hfound)
      | some record =>
          have hid := Collected.record_methodId hrecord
          refine ih (h.push (hid ▸ hnew mid List.mem_cons_self)) hrest fun found hfound hmem => ?_
          change found ∈ (table.units ++ [record]).map (·.methodId) at hmem
          rw [List.map_append, List.mem_append, List.map_singleton, List.mem_singleton, hid] at hmem
          rcases hmem with hold | rfl
          · exact hnew found (List.mem_cons_of_mem _ hfound) hold
          · exact hmid hfound

theorem filed_fromInstructions (instructions : List CoreOp) : (fromInstructions instructions).Filed := by
  have hlisted : (instructions.foldl Collected.collect .new).Listed :=
    Collected.listed_foldl ⟨List.nodup_nil, by simp [Collected.new]⟩ instructions
  exact filed_empty.foldl_record _ hlisted.nodup fun _ _ => List.not_mem_nil

theorem filed_fromInstructionsWithDeclarations (instructions : List CoreOp)
    (declarations : List (Nat × Nat)) :
    (fromInstructionsWithDeclarations instructions declarations).Filed where
  qualified := (filed_fromInstructions instructions).qualified.map fun _ => rfl
  identified := (filed_fromInstructions instructions).identified.map fun _ => rfl
  distinct := by
    simp only [fromInstructionsWithDeclarations, List.map_map]
    exact (filed_fromInstructions instructions).distinct

theorem mem_candidates {form : KeyForm} {unit : UnitRecord} :
    unit ∈ table.candidates target form ↔ unit ∈ table.units ∧ form.key unit = target := by
  rw [candidates, List.mem_filter, decide_eq_true_eq]

/-- A lookup in an exact index finds a unit with the key, if there is one. -/
theorem candidates_eq_nil_iff {form : KeyForm} {index : HashMap String Nat}
    (h : Indexes form.key index table.units) :
    table.candidates target form = [] ↔ index.lookup target = none := by
  constructor
  · intro hnil
    cases hlookup : index.lookup target with
    | none => rfl
    | some idx =>
        obtain ⟨unit, hget, hkey⟩ := h.sound hlookup
        have hmem := mem_candidates.mpr ⟨List.mem_of_getElem? hget, hkey⟩
        exact absurd hmem (hnil ▸ List.not_mem_nil)
  · intro hlookup
    refine List.eq_nil_iff_forall_not_mem.mpr fun unit hunit => ?_
    obtain ⟨hmem, hkey⟩ := mem_candidates.mp hunit
    obtain ⟨idx, hidx⟩ := h.lookup_isSome hmem
    rw [hkey, hlookup] at hidx
    cases hidx

/-- A method id names at most one unit. -/
theorem Filed.candidates_methodId (h : table.Filed) {unit : UnitRecord}
    (hunit : unit ∈ table.candidates target .methodId) :
    table.candidates target .methodId = [unit] := by
  obtain ⟨hmem, hkey⟩ := mem_candidates.mp hunit
  rw [candidates, ← hkey]
  exact Lists.filter_key h.distinct hmem

/-- How a target that no qualified name hits is resolved. -/
theorem Filed.resolve_of_unqualified (h : table.Filed)
    (hnone : table.candidates target .qualifiedName = []) :
    (∃ unit, table.winningForm target = .methodId ∧
      table.candidates target .methodId = [unit] ∧ table.resolve target = .ok unit) ∨
    (table.winningForm target = .bareName ∧ table.resolve target =
      match table.candidates target .bareName with
      | [] => .error (.notFound target)
      | [unit] => .ok unit
      | units => .error (.ambiguous target
          (units.map fun unit => unit.qualifiedName ++ " [" ++ unit.fingerprint ++ "]"))) := by
  have hqualified := (candidates_eq_nil_iff h.qualified).mp hnone
  unfold resolve
  split
  case h_1 idx hidx => simp [hqualified] at hidx
  case h_2 =>
    split
    case h_1 idx hidx =>
      obtain ⟨unit, hget, hkey⟩ := h.identified.sound hidx
      have hmem := mem_candidates.mpr ⟨List.mem_of_getElem? hget, hkey⟩
      refine Or.inl ⟨unit, ?_, h.candidates_methodId hmem, ?_⟩
      · rw [winningForm, if_neg (not_not.mpr hnone), if_pos (List.ne_nil_of_mem hmem)]
      · obtain ⟨_, hget⟩ := List.getElem?_eq_some_iff.mp hget
        exact congrArg _ hget
    case h_2 hidentified =>
      have hnil := (candidates_eq_nil_iff h.identified).mpr hidentified
      refine Or.inr ⟨?_, rfl⟩
      rw [winningForm, if_neg (not_not.mpr hnone), if_neg (not_not.mpr hnil)]

/-- A qualified name resolves to one of the units that have it, whatever their number. -/
theorem Filed.resolve_of_qualified (h : table.Filed)
    (hsome : table.candidates target .qualifiedName ≠ []) :
    table.winningForm target = .qualifiedName ∧
      ∃ unit ∈ table.candidates target .qualifiedName, table.resolve target = .ok unit := by
  refine ⟨if_pos hsome, ?_⟩
  cases hlookup : table.byQualified.lookup target with
  | none => exact absurd ((candidates_eq_nil_iff h.qualified).mpr hlookup) hsome
  | some idx =>
      obtain ⟨unit, hget, hkey⟩ := h.qualified.sound hlookup
      refine ⟨unit, mem_candidates.mpr ⟨List.mem_of_getElem? hget, hkey⟩, ?_⟩
      unfold resolve
      split
      case h_1 found hfound =>
        obtain rfl := Option.some.inj (hlookup.symm.trans hfound)
        obtain ⟨_, hget⟩ := List.getElem?_eq_some_iff.mp hget
        exact congrArg _ hget
      case h_2 hnone => simp [hlookup] at hnone

/-- A request with a target that does not resolve produces no new source. -/
theorem apply_ne_ok_of_resolve {e : LocateError} (h : table.resolve target = .error e)
    {operations : List EditOperation} (htarget : target ∈ operations.map EditOperation.target)
    (source : String) (report : ApplyReport) : apply source table operations ≠ .ok report := by
  intro happly
  cases hplan : plan source table operations with
  | error e =>
      rw [apply, hplan] at happly
      cases happly
  | ok planned =>
      obtain ⟨op, hop, rfl⟩ := List.mem_map.mp htarget
      obtain ⟨edit, -, hedit⟩ := Lists.exists_right_of_forall₂ (Lists.mapM_eq_ok_iff.mp hplan) op hop
      rw [planEdit, h] at hedit
      cases hedit

/-- In a filed table, a target resolves only to the one unit it names exactly when no two units
have it as their qualified name. -/
theorem Filed.resolvesUniquely_iff (h : table.Filed) :
    table.ResolvesUniquely target ↔ (table.candidates target .qualifiedName).length ≤ 1 := by
  by_cases hqualified : table.candidates target .qualifiedName = []
  · refine iff_of_true ?_ (by simp [hqualified])
    rcases h.resolve_of_unqualified hqualified with ⟨unit, hform, honly, hresolve⟩ | ⟨hform, hresolve⟩
    · constructor
      · intro found hfound
        rw [hform, honly, Except.ok.inj (hresolve.symm.trans hfound)]
      · rw [hform, honly]
        exact fun hlength => absurd hlength (lt_irrefl 1)
    · constructor
      · rw [hform, hresolve]
        intro found hfound
        split at hfound
        · cases hfound
        · next unit hunit => rw [hunit, Except.ok.inj hfound]
        · cases hfound
      · rw [hform]
        intro hlength
        split at hresolve
        · next hnil => simp [hnil] at hlength
        · next unit hunit => simp [hunit] at hlength
        · exact ⟨⟨_, hresolve⟩, fun source _ hmem => apply_ne_ok_of_resolve hresolve hmem source⟩
  · obtain ⟨hform, unit, hunit, hresolve⟩ := h.resolve_of_qualified hqualified
    constructor
    · intro hunique
      have honly := hunique.only unit hresolve
      rw [hform] at honly
      simp [honly]
    · intro hlength
      have honly : table.candidates target .qualifiedName = [unit] := by
        obtain ⟨first, hfirst⟩ := List.length_eq_one_iff.mp
          (Nat.le_antisymm hlength (List.length_pos_iff.mpr hqualified))
        rw [hfirst, List.mem_singleton] at hunit
        rw [hfirst, hunit]
      constructor
      · intro found hfound
        rw [hform, honly, Except.ok.inj (hresolve.symm.trans hfound)]
      · rw [hform, honly]
        exact fun hlength => absurd hlength (lt_irrefl 1)

/-- In the table of any instructions, with any declarations. -/
theorem fromInstructions_resolvesUniquely_iff (instructions : List CoreOp) (declarations : List (Nat × Nat))
    (target : String) :
    (fromInstructionsWithDeclarations instructions declarations).ResolvesUniquely target ↔
      ((fromInstructionsWithDeclarations instructions declarations).candidates target
        .qualifiedName).length ≤ 1 :=
  (filed_fromInstructionsWithDeclarations instructions declarations).resolvesUniquely_iff

def overloads : List CoreOp := [
  .defClass "C1" "Svc",
  .defMethod "C1" "M1" "run",
  .body "M1" "\x7ba\x7d" (some 0) (some 3),
  .defMethod "C1" "M2" "run",
  .body "M2" "\x7bb\x7d" (some 4) (some 7)]

/-- The qualified name of two overloads resolves to one of them. -/
theorem not_resolvesUniquely_overloads :
    ¬ (fromInstructionsWithDeclarations overloads []).ResolvesUniquely "Svc.run" := by
  rw [(filed_fromInstructionsWithDeclarations overloads []).resolvesUniquely_iff]
  decide +kernel

end UnitTable
end Edit
end CleanCtx
