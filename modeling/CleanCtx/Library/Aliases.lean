import Mathlib.Data.List.Induction
import Mathlib.Data.List.Nodup
import Mathlib.Logic.Function.Basic

/-!
Tables of declarations: each entry gives an identifier and the name it declares. A
map collected from a table keeps the last entry of a key; the map from names back
to identifiers gives up on a name that is declared twice.
-/
namespace CleanCtx
namespace Aliases

variable {ι ν : Type}

section

variable [DecidableEq ι]

def collect (entries : List (ι × ν)) : ι → Option ν :=
  entries.foldl (fun map entry => Function.update map entry.1 (some entry.2)) fun _ => none

theorem collect_append (entries : List (ι × ν)) (entry : ι × ν) :
    collect (entries ++ [entry]) = Function.update (collect entries) entry.1 (some entry.2) := by
  rw [collect, List.foldl_append]
  rfl

theorem mem_of_collect {entries : List (ι × ν)} {id : ι} {name : ν}
    (h : collect entries id = some name) : (id, name) ∈ entries := by
  induction entries using List.reverseRecOn with
  | nil => cases h
  | append_singleton entries entry ih =>
      rw [collect_append] at h
      by_cases hid : id = entry.1
      · rw [hid, Function.update_self, Option.some.injEq] at h
        rw [hid, ← h]
        exact List.mem_append_right _ List.mem_cons_self
      · rw [Function.update_of_ne hid] at h
        exact List.mem_append_left _ (ih h)

theorem collect_of_mem {entries : List (ι × ν)} (hids : (entries.map Prod.fst).Nodup)
    {id : ι} {name : ν} (h : (id, name) ∈ entries) : collect entries id = some name := by
  induction entries using List.reverseRecOn with
  | nil => cases h
  | append_singleton entries entry ih =>
      rw [List.map_append, List.nodup_append] at hids
      rw [collect_append]
      rcases List.mem_append.mp h with h | h
      · have hne : id ≠ entry.1 :=
          hids.2.2 id (List.mem_map_of_mem h) entry.1 List.mem_cons_self
        rw [Function.update_of_ne hne, ih hids.1 h]
      · cases List.mem_singleton.mp h
        rw [Function.update_self]

theorem collect_eq_some_iff {entries : List (ι × ν)} (hids : (entries.map Prod.fst).Nodup)
    {id : ι} {name : ν} : collect entries id = some name ↔ (id, name) ∈ entries :=
  ⟨mem_of_collect, collect_of_mem hids⟩

end

section

variable [DecidableEq ν]

/-- The map from names to identifiers; the inner `none` marks a name declared more than once. -/
def nameToAlias (entries : List (ι × ν)) : ν → Option (Option ι) :=
  entries.foldl (fun map entry =>
    Function.update map entry.2 (some (if (map entry.2).isSome then none else some entry.1)))
    fun _ => none

def soleAlias (entries : List (ι × ν)) (name : ν) : Option ι := (nameToAlias entries name).join

theorem nameToAlias_append (entries : List (ι × ν)) (entry : ι × ν) :
    nameToAlias (entries ++ [entry]) = Function.update (nameToAlias entries) entry.2
      (some (if (nameToAlias entries entry.2).isSome then none else some entry.1)) := by
  rw [nameToAlias, List.foldl_append]
  rfl

theorem mem_of_nameToAlias {entries : List (ι × ν)} {name : ν} {id : ι}
    (h : nameToAlias entries name = some (some id)) : (id, name) ∈ entries := by
  induction entries using List.reverseRecOn with
  | nil => cases h
  | append_singleton entries entry ih =>
      rw [nameToAlias_append] at h
      by_cases hname : name = entry.2
      · rw [hname, Function.update_self, Option.some.injEq] at h
        split at h
        · cases h
        · rw [hname, ← Option.some.inj h]
          exact List.mem_append_right _ List.mem_cons_self
      · rw [Function.update_of_ne hname] at h
        exact List.mem_append_left _ (ih h)

theorem isSome_nameToAlias_of_mem {entries : List (ι × ν)} {name : ν} {id : ι}
    (h : (id, name) ∈ entries) : (nameToAlias entries name).isSome = true := by
  induction entries using List.reverseRecOn with
  | nil => cases h
  | append_singleton entries entry ih =>
      rw [nameToAlias_append]
      by_cases hname : name = entry.2
      · rw [hname, Function.update_self, Option.isSome_some]
      · rw [Function.update_of_ne hname]
        refine ih ((List.mem_append.mp h).resolve_right fun hlast => hname ?_)
        rw [← List.mem_singleton.mp hlast]

theorem eq_of_nameToAlias {entries : List (ι × ν)} {name : ν} {id id' : ι}
    (h : nameToAlias entries name = some (some id)) (hmem : (id', name) ∈ entries) : id' = id := by
  induction entries using List.reverseRecOn with
  | nil => cases h
  | append_singleton entries entry ih =>
      rw [nameToAlias_append] at h
      by_cases hname : name = entry.2
      · rw [hname, Function.update_self, Option.some.injEq] at h
        split at h
        · cases h
        · rename_i hfresh
          rcases List.mem_append.mp hmem with hmem | hmem
          · exact absurd (isSome_nameToAlias_of_mem (hname ▸ hmem)) hfresh
          · rw [← Option.some.inj h, ← List.mem_singleton.mp hmem]
      · rw [Function.update_of_ne hname] at h
        refine ih h ((List.mem_append.mp hmem).resolve_right fun hlast => hname ?_)
        rw [← List.mem_singleton.mp hlast]

theorem mem_of_soleAlias {entries : List (ι × ν)} {name : ν} {id : ι}
    (h : soleAlias entries name = some id) : (id, name) ∈ entries :=
  mem_of_nameToAlias (Option.join_eq_some_iff.mp h)

theorem eq_of_soleAlias {entries : List (ι × ν)} {name : ν} {id id' : ι}
    (h : soleAlias entries name = some id) (hmem : (id', name) ∈ entries) : id' = id :=
  eq_of_nameToAlias (Option.join_eq_some_iff.mp h) hmem

end

end Aliases
end CleanCtx
