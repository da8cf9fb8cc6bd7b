import Mathlib.Algebra.BigOperators.Group.Finset.Basic
import CleanCtx.Library.PositionIndex

/-!
Maps to lists, read bucket by bucket. An absent key and a key with an empty
list have the same bucket; the operations are the ones of an entry that is
created on demand.
-/
namespace CleanCtx

variable {κ β : Type} [DecidableEq κ]

def bucket (m : HashMap κ (List β)) (k : κ) : List β := (m.lookup k).getD []

/-- `entry(k).or_default().push(x)`. -/
def pushEntry (m : HashMap κ (List β)) (k : κ) (x : β) : HashMap κ (List β) :=
  m.insert k (bucket m k ++ [x])

/-- `if let Some(entries) = get_mut(k) { entries.retain(p) }`. -/
def retainAt (m : HashMap κ (List β)) (k : κ) (p : β → Bool) : HashMap κ (List β) :=
  match m.lookup k with
  | some entries => m.insert k (entries.filter p)
  | none => m

/-- `retainAt`, then `remove` when nothing is left. -/
def pruneAt (m : HashMap κ (List β)) (k : κ) (p : β → Bool) : HashMap κ (List β) :=
  match m.lookup k with
  | some entries =>
      if entries.filter p = [] then m.erase k else m.insert k (entries.filter p)
  | none => m

/-- The number of stored elements, `values().map(len).sum()`. -/
def storedCount (m : HashMap κ (List β)) : Nat := ∑ k ∈ m.keys, (bucket m k).length

def Occupied (m : HashMap κ (List β)) : Prop := ∀ k, k ∈ m ↔ bucket m k ≠ []

@[simp] theorem bucket_empty (k : κ) : bucket (∅ : HashMap κ (List β)) k = [] := rfl

theorem bucket_of_lookup {m : HashMap κ (List β)} {k : κ} {l : List β} (h : m.lookup k = some l) :
    bucket m k = l := by
  rw [bucket, h, Option.getD_some]

theorem bucket_of_notMem {m : HashMap κ (List β)} {k : κ} (h : k ∉ m) : bucket m k = [] := by
  rw [bucket, Finmap.lookup_eq_none.mpr h, Option.getD_none]

theorem mem_of_bucket {m : HashMap κ (List β)} {k : κ} {x : β} (h : x ∈ bucket m k) : k ∈ m := by
  by_contra hk
  rw [bucket_of_notMem hk] at h
  cases h

theorem bucket_insert (m : HashMap κ (List β)) (k j : κ) (l : List β) :
    bucket (m.insert k l) j = if j = k then l else bucket m j := by
  split
  · next h =>
    rw [h, bucket, Finmap.lookup_insert, Option.getD_some]
  · next h =>
    rw [bucket, Finmap.lookup_insert_of_ne _ h, bucket]

theorem bucket_erase (m : HashMap κ (List β)) (k j : κ) :
    bucket (m.erase k) j = if j = k then [] else bucket m j := by
  split
  · next h =>
    rw [h, bucket, Finmap.lookup_erase, Option.getD_none]
  · next h =>
    rw [bucket, Finmap.lookup_erase_ne h, bucket]

theorem bucket_pushEntry (m : HashMap κ (List β)) (k j : κ) (x : β) :
    bucket (pushEntry m k x) j = bucket m j ++ if j = k then [x] else [] := by
  rw [pushEntry, bucket_insert]
  split
  · next h => rw [h]
  · rw [List.append_nil]

theorem mem_bucket_pushEntry {m : HashMap κ (List β)} {k j : κ} {x y : β} :
    y ∈ bucket (pushEntry m k x) j ↔ y ∈ bucket m j ∨ (j = k ∧ y = x) := by
  rw [bucket_pushEntry, List.mem_append]
  refine or_congr_right ?_
  split
  · next h => rw [List.mem_singleton, and_iff_right h]
  · next h => exact iff_of_false List.not_mem_nil fun hy => h hy.1

section Image

variable {γ : Type} (f : β → γ) (m : HashMap κ (List β)) (k j : κ) (x : β)

theorem mem_map_pushEntry {c : γ} :
    c ∈ (bucket (pushEntry m k x) j).map f ↔
      c ∈ (bucket m j).map f ∨ (c = f x ∧ j = k) := by
  rw [bucket_pushEntry, List.map_append, List.mem_append]
  refine or_congr_right ?_
  split
  · next h => rw [List.map_singleton, List.mem_singleton, and_iff_left h]
  · next h => exact iff_of_false List.not_mem_nil fun hc => h hc.2

variable {f m} in
theorem nodup_map_pushEntry (h : ((bucket m j).map f).Nodup)
    (hnew : f x ∉ (bucket m j).map f) : ((bucket (pushEntry m k x) j).map f).Nodup := by
  rw [bucket_pushEntry]
  split
  · rw [List.map_append, List.map_singleton, ← List.concat_eq_append]
    exact h.concat hnew
  · rwa [List.append_nil]

end Image

theorem bucket_retainAt (m : HashMap κ (List β)) (k j : κ) (p : β → Bool) :
    bucket (retainAt m k p) j = if j = k then (bucket m j).filter p else bucket m j := by
  unfold retainAt
  cases h : m.lookup k with
  | none =>
      dsimp only
      split
      · next hj => rw [hj, bucket, h, Option.getD_none, List.filter_nil]
      · rfl
  | some entries =>
      rw [bucket_insert]
      split
      · next hj => rw [hj, bucket_of_lookup h]
      · rfl

theorem bucket_pruneAt (m : HashMap κ (List β)) (k j : κ) (p : β → Bool) :
    bucket (pruneAt m k p) j = if j = k then (bucket m j).filter p else bucket m j := by
  unfold pruneAt
  cases h : m.lookup k with
  | none =>
      dsimp only
      split
      · next hj => rw [hj, bucket, h, Option.getD_none, List.filter_nil]
      · rfl
  | some entries =>
      by_cases hp : entries.filter p = []
      · simp only [if_pos hp, bucket_erase]
        split
        · next hj => rw [hj, bucket_of_lookup h, hp]
        · rfl
      · simp only [if_neg hp, bucket_insert]
        split
        · next hj => rw [hj, bucket_of_lookup h]
        · rfl

theorem occupied_empty : Occupied (∅ : HashMap κ (List β)) := fun _ =>
  iff_of_false Finmap.notMem_empty fun h => h rfl

theorem Occupied.insert {m : HashMap κ (List β)} (h : Occupied m) {k : κ} {l : List β}
    (hl : l ≠ []) : Occupied (m.insert k l) := by
  intro j
  rw [Finmap.mem_insert, bucket_insert]
  split
  · next hj => exact iff_of_true (.inl hj) hl
  · next hj => exact (or_iff_right hj).trans (h j)

theorem Occupied.pushEntry {m : HashMap κ (List β)} (h : Occupied m) (k : κ) (x : β) :
    Occupied (pushEntry m k x) := h.insert (List.append_ne_nil_of_right_ne_nil _ (by simp))

theorem Occupied.erase {m : HashMap κ (List β)} (h : Occupied m) (k : κ) :
    Occupied (m.erase k) := by
  intro j
  rw [Finmap.mem_erase, bucket_erase]
  split
  · next hj => exact iff_of_false (fun hmem => hmem.1 hj) (fun hne => hne rfl)
  · next hj => exact (and_iff_right hj).trans (h j)

theorem Occupied.pruneAt {m : HashMap κ (List β)} (h : Occupied m) (k : κ) (p : β → Bool) :
    Occupied (pruneAt m k p) := by
  unfold CleanCtx.pruneAt
  cases m.lookup k with
  | none => exact h
  | some entries =>
      dsimp only
      split
      · exact h.erase k
      · next hp => exact h.insert hp

theorem Occupied.keys_eq {m m' : HashMap κ (List β)} (h : Occupied m) (h' : Occupied m')
    (hlen : ∀ k, (bucket m k).length = (bucket m' k).length) : m.keys = m'.keys := by
  ext k
  rw [Finmap.mem_keys, Finmap.mem_keys, h, h', ne_eq, ne_eq, ← List.length_eq_zero_iff, hlen,
    List.length_eq_zero_iff]

theorem Occupied.storedCount_eq {m m' : HashMap κ (List β)} (h : Occupied m) (h' : Occupied m')
    (hlen : ∀ k, (bucket m k).length = (bucket m' k).length) : storedCount m = storedCount m' := by
  rw [storedCount, storedCount, h.keys_eq h' hlen]
  exact Finset.sum_congr rfl fun k _ => hlen k

/-! The same operation at each of a list of keys. -/

theorem bucket_foldl_pruneAt (keys : List κ) (p : β → Bool) (m : HashMap κ (List β)) (j : κ) :
    bucket (keys.foldl (fun m k => pruneAt m k p) m) j =
      if j ∈ keys then (bucket m j).filter p else bucket m j := by
  induction keys generalizing m with
  | nil => rfl
  | cons k keys ih =>
      rw [List.foldl_cons, ih, bucket_pruneAt]
      by_cases hj : j = k
      · simp [hj, List.filter_filter]
      · simp [hj]

theorem occupied_foldl_pruneAt (keys : List κ) (p : β → Bool) {m : HashMap κ (List β)}
    (h : Occupied m) : Occupied (keys.foldl (fun m k => pruneAt m k p) m) := by
  induction keys generalizing m with
  | nil => exact h
  | cons k keys ih => exact ih (h.pruneAt k p)

theorem bucket_foldl_erase (keys : List κ) (p : κ → Bool) (m : HashMap κ (List β)) (j : κ) :
    bucket (keys.foldl (fun m k => if p k then m.erase k else m) m) j =
      if j ∈ keys ∧ p j = true then [] else bucket m j := by
  induction keys generalizing m with
  | nil => simp
  | cons k keys ih =>
      rw [List.foldl_cons, ih]
      by_cases hj : j = k
      · subst hj
        cases hp : p j <;> simp [bucket_erase]
      · have hbucket : bucket (if p k = true then m.erase k else m) j = bucket m j := by
          split
          · rw [bucket_erase, if_neg hj]
          · rfl
        rw [hbucket]
        simp [hj]

end CleanCtx
