import CleanCtx.Library.PositionIndex

/-!
A map of named items beside an index from names back to keys. The index is sound
when it leads to items that have the name, and complete when it has every name.
Where several items share a name it can hold only one of them, so that dropping the
name of one of them loses the others.
-/
namespace CleanCtx
namespace ReverseIndex

variable {κ ν α : Type} [DecidableEq κ] [DecidableEq ν] {name : α → ν}
  {items : HashMap κ α} {reverse : HashMap ν κ} {k : κ} {item : α}

def Sound (name : α → ν) (items : HashMap κ α) (reverse : HashMap ν κ) : Prop :=
  ∀ n k, reverse.lookup n = some k → ∃ item, items.lookup k = some item ∧ name item = n

def Complete (name : α → ν) (items : HashMap κ α) (reverse : HashMap ν κ) : Prop :=
  ∀ k item, items.lookup k = some item → name item ∈ reverse

/-- Drop the name of the item under a key. -/
def dropName (name : α → ν) (items : HashMap κ α) (reverse : HashMap ν κ) (k : κ) : HashMap ν κ :=
  match items.lookup k with
  | some item => reverse.erase (name item)
  | none => reverse

def Shared (name : α → ν) (items : HashMap κ α) (k : κ) : Prop :=
  ∃ item other found, items.lookup k = some item ∧ other ≠ k ∧ items.lookup other = some found ∧
    name found = name item

theorem lookup_dropName {n : ν} {j : κ} (h : (dropName name items reverse k).lookup n = some j) :
    reverse.lookup n = some j ∧ ∀ item, items.lookup k = some item → name item ≠ n := by
  unfold dropName at h
  split at h
  · next item hitem =>
    have hne : n ≠ name item := by
      rintro rfl
      rw [Finmap.lookup_erase] at h
      cases h
    rw [Finmap.lookup_erase_ne hne] at h
    refine ⟨h, fun found hfound heq => hne ?_⟩
    rw [← heq, Option.some.inj (hitem.symm.trans hfound)]
  · next hitem =>
    refine ⟨h, fun found hfound => ?_⟩
    rw [hitem] at hfound
    cases hfound

theorem mem_dropName {n : ν} : n ∈ dropName name items reverse k ↔
    n ∈ reverse ∧ ∀ item, items.lookup k = some item → name item ≠ n := by
  unfold dropName
  split
  · next item hitem =>
    rw [Finmap.mem_erase, and_comm, hitem]
    refine and_congr_right fun _ => ⟨fun hne found hfound heq => hne ?_, fun hall heq => ?_⟩
    · rw [← heq, Option.some.inj hfound]
    · exact hall item rfl heq.symm
  · next hitem =>
    rw [hitem]
    exact (and_iff_left nofun).symm

theorem Sound.erase (h : Sound name items reverse) (k : κ) :
    Sound name (items.erase k) (dropName name items reverse k) := by
  intro n j hj
  obtain ⟨hold, hname⟩ := lookup_dropName hj
  obtain ⟨item, hitem, rfl⟩ := h n j hold
  refine ⟨item, ?_, rfl⟩
  rw [Finmap.lookup_erase_ne]
  · exact hitem
  · rintro rfl
    exact hname item hitem rfl

theorem Sound.insert (h : Sound name items reverse) (k : κ) (new : α) :
    Sound name (items.insert k new)
      ((dropName name items reverse k).insert (name new) k) := by
  intro n j hj
  rcases HashMap.lookup_insert_iff.mp hj with ⟨rfl, rfl⟩ | ⟨-, hj⟩
  · exact ⟨new, Finmap.lookup_insert _, rfl⟩
  · obtain ⟨hold, hname⟩ := lookup_dropName hj
    obtain ⟨item, hitem, rfl⟩ := h n j hold
    refine ⟨item, ?_, rfl⟩
    rw [Finmap.lookup_insert_of_ne]
    · exact hitem
    · rintro rfl
      exact hname item hitem rfl

/-- Dropping an item keeps the index complete exactly if no other item has its name. -/
theorem complete_erase_iff (h : Complete name items reverse) :
    Complete name (items.erase k) (dropName name items reverse k) ↔ ¬ Shared name items k := by
  constructor
  · rintro hcomplete ⟨item, other, found, hitem, hne, hfound, hname⟩
    have hkept : (items.erase k).lookup other = some found := by
      rwa [Finmap.lookup_erase_ne hne]
    exact (mem_dropName.mp (hcomplete other found hkept)).2 item hitem hname.symm
  · intro hshared j found hfound
    have hne : j ≠ k := by
      rintro rfl
      rw [Finmap.lookup_erase] at hfound
      cases hfound
    rw [Finmap.lookup_erase_ne hne] at hfound
    refine mem_dropName.mpr ⟨h j found hfound, fun item hitem heq => hshared ?_⟩
    exact ⟨item, j, found, hitem, hne, hfound, heq.symm⟩

/-- Overwriting an item keeps the index complete exactly if it keeps its name or no other item
has that name. -/
theorem complete_insert_iff (h : Complete name items reverse) (new : α) :
    Complete name (items.insert k new) ((dropName name items reverse k).insert (name new) k) ↔
      ¬ (Shared name items k ∧ ∀ item, items.lookup k = some item → name item ≠ name new) := by
  constructor
  · rintro hcomplete ⟨⟨item, other, found, hitem, hne, hfound, hname⟩, hchanged⟩
    have hkept : (items.insert k new).lookup other = some found := by
      rwa [Finmap.lookup_insert_of_ne _ hne]
    rcases Finmap.mem_insert.mp (hcomplete other found hkept) with heq | hmem
    · exact hchanged item hitem (hname.symm.trans heq)
    · exact (mem_dropName.mp hmem).2 item hitem hname.symm
  · intro hgood j found hfound
    rw [Finmap.mem_insert]
    rcases HashMap.lookup_insert_iff.mp hfound with ⟨-, rfl⟩ | ⟨hne, hfound⟩
    · exact .inl rfl
    · by_cases heq : name found = name new
      · exact .inl heq
      · refine .inr (mem_dropName.mpr ⟨h j found hfound, fun item hitem hname => hgood ?_⟩)
        refine ⟨⟨item, j, found, hitem, hne, hfound, hname.symm⟩, fun other hother => ?_⟩
        rwa [← Option.some.inj (hitem.symm.trans hother), hname]

/-- Items may change as long as they keep their names. -/
theorem sound_complete_update (hitem : items.lookup k = some item) {new : α}
    (hname : name new = name item) :
    (Sound name (items.insert k new) reverse ↔ Sound name items reverse) ∧
      (Complete name (items.insert k new) reverse ↔ Complete name items reverse) := by
  have hnames : ∀ j n, (∃ found, (items.insert k new).lookup j = some found ∧ name found = n) ↔
      ∃ found, items.lookup j = some found ∧ name found = n := by
    intro j n
    by_cases hj : j = k
    · subst hj
      simp only [Finmap.lookup_insert, hitem, Option.some.injEq, exists_eq_left', hname]
    · simp only [Finmap.lookup_insert_of_ne _ hj]
  constructor
  · exact forall₂_congr fun n j => imp_congr_right fun _ => hnames j n
  · constructor
    · intro h j found hfound
      obtain ⟨other, hother, heq⟩ := (hnames j (name found)).mpr ⟨found, hfound, rfl⟩
      exact heq ▸ h j other hother
    · intro h j found hfound
      obtain ⟨other, hother, heq⟩ := (hnames j (name found)).mp ⟨found, hfound, rfl⟩
      exact heq ▸ h j other hother

def Inverse (forward : HashMap κ ν) (reverse : HashMap ν κ) : Prop :=
  ∀ k n, forward.lookup k = some n ↔ reverse.lookup n = some k

namespace Inverse

variable {forward : HashMap κ ν} {reverse : HashMap ν κ} {n : ν}

theorem empty : Inverse (∅ : HashMap κ ν) (∅ : HashMap ν κ) := fun _ _ =>
  iff_of_false (by simp) (by simp)

theorem insert (h : Inverse forward reverse) (hk : k ∉ forward) (hn : n ∉ reverse) :
    Inverse (forward.insert k n) (reverse.insert n k) := by
  intro j m
  rw [HashMap.lookup_insert_iff, HashMap.lookup_insert_iff, h]
  by_cases hj : j = k
  · subst hj
    by_cases hm : m = n
    · simp [hm]
    · have hnone : reverse.lookup m ≠ some j := fun hmem =>
        hk (Finmap.lookup_isSome.mp (Option.isSome_of_mem ((h j m).mpr hmem)))
      simp [hm, hnone]
  · by_cases hm : m = n
    · subst hm
      have hnone : reverse.lookup m ≠ some j := fun hmem =>
        hn (Finmap.lookup_isSome.mp (Option.isSome_of_mem hmem))
      simp [hj, hnone]
    · simp [hj, hm]

theorem erase (h : Inverse forward reverse) (k : κ) :
    Inverse (forward.erase k) (reverse.retain fun _ j => decide (j ≠ k)) := by
  intro j m
  rw [HashMap.lookup_retain, Option.filter_eq_some_iff, ← h]
  by_cases hj : j = k
  · subst hj
    simp [Finmap.lookup_erase]
  · simp [Finmap.lookup_erase_ne hj, hj]

end Inverse

end ReverseIndex
end CleanCtx
