import Mathlib.Algebra.Ring.Nat
import Mathlib.Data.List.Count
import Mathlib.Data.List.Perm.Basic

/-!
Lists read group by group under a key. Two lists with the same groups hold the
same elements the same number of times; only elements of different keys may
have changed places.
-/
namespace CleanCtx

variable {α κ : Type} [DecidableEq κ]

def underKey (keyFn : α → κ) (key : κ) (l : List α) : List α :=
  l.filter fun x => keyFn x = key

def SameGroups (keyFn : α → κ) (l l' : List α) : Prop :=
  ∀ key, underKey keyFn key l = underKey keyFn key l'

variable {keyFn : α → κ} {key : κ} {l l' : List α}

theorem mem_underKey {x : α} : x ∈ underKey keyFn key l ↔ x ∈ l ∧ keyFn x = key := by
  rw [underKey, List.mem_filter, decide_eq_true_iff]

theorem underKey_append : underKey keyFn key (l ++ l') =
    underKey keyFn key l ++ underKey keyFn key l' :=
  List.filter_append ..

theorem count_underKey [DecidableEq α] (x : α) :
    (underKey keyFn (keyFn x) l).count x = l.count x :=
  List.count_filter (by simp)

theorem SameGroups.perm [DecidableEq α] (h : SameGroups keyFn l l') : l.Perm l' := by
  rw [List.perm_iff_count]
  intro x
  calc l.count x = (underKey keyFn (keyFn x) l).count x := (count_underKey x).symm
    _ = (underKey keyFn (keyFn x) l').count x := by rw [h (keyFn x)]
    _ = l'.count x := count_underKey x

theorem length_underKey_le (hkeys : (l.map keyFn).Nodup) :
    (underKey keyFn key l).length ≤ 1 := by
  have hsub : ((underKey keyFn key l).map keyFn).Sublist (l.map keyFn) :=
    List.filter_sublist.map keyFn
  have hconst : (underKey keyFn key l).map keyFn =
      List.replicate (underKey keyFn key l).length key := by
    refine List.eq_replicate_iff.mpr ⟨List.length_map .., fun k hk => ?_⟩
    obtain ⟨x, hx, rfl⟩ := List.mem_map.mp hk
    exact (mem_underKey.mp hx).2
  rw [← List.nodup_replicate (a := key), ← hconst]
  exact hkeys.sublist hsub

/-- Lists without two elements of one key are determined, group by group, by their elements. -/
theorem sameGroups_of_perm (hperm : l.Perm l') (hkeys : (l.map keyFn).Nodup) :
    SameGroups keyFn l l' := by
  intro key
  have hgroup : (underKey keyFn key l).Perm (underKey keyFn key l') := hperm.filter _
  have hlength : (underKey keyFn key l).length ≤ 1 := length_underKey_le hkeys
  match h : underKey keyFn key l, hlength with
  | [], _ =>
      rw [h] at hgroup
      exact (List.nil_perm.mp hgroup).symm
  | [x], _ =>
      rw [h] at hgroup
      exact List.singleton_perm.mp hgroup

theorem paired_iff : (∀ i < max l.length l'.length, ∃ x, l[i]? = some x ∧ l'[i]? = some x) ↔
    l = l' := by
  refine ⟨fun h => List.ext_getElem? fun i => ?_, fun h i hi => ?_⟩
  · by_cases hi : i < max l.length l'.length
    · obtain ⟨x, hx, hx'⟩ := h i hi
      rw [hx, hx']
    · rw [List.getElem?_eq_none (by omega), List.getElem?_eq_none (by omega)]
  · subst h
    rw [Nat.max_self] at hi
    exact ⟨l[i], List.getElem?_eq_getElem hi, List.getElem?_eq_getElem hi⟩

/-- Keys that are listed once each, and every key of the list among them, divide the list. -/
theorem sum_length_underKey {keys : List κ} (hnodup : keys.Nodup)
    (hcover : ∀ x ∈ l, keyFn x ∈ keys) :
    (keys.map fun key => (underKey keyFn key l).length).sum = l.length := by
  induction l with
  | nil => simp [underKey]
  | cons x l ih =>
      obtain ⟨hx, hl⟩ := List.forall_mem_cons.mp hcover
      have hone : ∀ ks : List κ, ks.Nodup →
          (ks.map fun key => (underKey keyFn key (x :: l)).length).sum =
            (ks.map fun key => (underKey keyFn key l).length).sum +
              if keyFn x ∈ ks then 1 else 0 := by
        intro ks hks
        induction ks with
        | nil => rfl
        | cons k ks ihks =>
            obtain ⟨hk, hks⟩ := List.nodup_cons.mp hks
            rw [List.map_cons, List.sum_cons, ihks hks, List.map_cons, List.sum_cons]
            by_cases hkey : keyFn x = k
            · subst hkey
              rw [if_neg hk, if_pos List.mem_cons_self, underKey, List.filter_cons_of_pos (by simp),
                List.length_cons, ← underKey]
              omega
            · rw [underKey, List.filter_cons_of_neg (by simpa using hkey), ← underKey]
              simp only [List.mem_cons, hkey, false_or]
              omega
      rw [hone keys hnodup, ih hl, if_pos hx, List.length_cons]

theorem flatMap_filter_of_nil {ι β : Type} {p : ι → Bool} {f : ι → List β} {keys : List ι}
    (h : ∀ key, p key = false → f key = []) : (keys.filter p).flatMap f = keys.flatMap f := by
  induction keys with
  | nil => rfl
  | cons key keys ih =>
      cases hp : p key with
      | true => rw [List.filter_cons_of_pos hp, List.flatMap_cons, ih, List.flatMap_cons]
      | false =>
          rw [List.filter_cons_of_neg (by simp [hp]), ih, List.flatMap_cons, h key hp,
            List.nil_append]

/-- Two listings of the keys that contribute something give the same elements. -/
theorem flatMap_perm_of_cover {ι β : Type} {keys keys' : List ι} (hnodup : keys.Nodup)
    (hnodup' : keys'.Nodup) {f : ι → List β}
    (hcover : ∀ key, f key ≠ [] → (key ∈ keys ↔ key ∈ keys')) :
    (keys.flatMap f).Perm (keys'.flatMap f) := by
  have hnil : ∀ key, (!(f key).isEmpty) = false → f key = [] := by simp
  have hkeys' : (keys'.filter fun key => !(f key).isEmpty).flatMap f = keys'.flatMap f :=
    flatMap_filter_of_nil hnil
  rw [← flatMap_filter_of_nil hnil, ← hkeys']
  refine List.Perm.flatMap_right f ?_
  refine (List.perm_ext_iff_of_nodup (hnodup.filter _) (hnodup'.filter _)).mpr fun key => ?_
  rw [List.mem_filter, List.mem_filter]
  exact and_congr_left fun hkey => hcover key (by simpa using hkey)

end CleanCtx
