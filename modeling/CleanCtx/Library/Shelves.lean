import CleanCtx.Library.PositionIndex

/-!
Members filed under owners. Members may arrive before their owner: they wait in
a queue and are filed when the owner arrives. `Located` says that an index of
places leads to the members of the owners that are present, `Queued` that the
queues hold exactly the members of the owners that are not.
-/
namespace CleanCtx

variable {ο κ lo δ : Type} [DecidableEq κ]

/-- The index leads from a member to its place, and knows every filed member. -/
structure Located (locate : Nat → Nat → lo) (owners : List ο) (members : ο → List κ)
    (locations : HashMap κ lo) : Prop where
  sound : ∀ {k i j}, locations.lookup k = some (locate i j) →
    ∃ o, owners[i]? = some o ∧ (members o)[j]? = some k
  complete : ∀ {o k}, o ∈ owners → k ∈ members o → k ∈ locations

/-- File consecutive members, the first of them at position `start`. -/
def fileFrom (place : Nat → lo) (start : Nat) (ks : List κ) (locations : HashMap κ lo) :
    HashMap κ lo :=
  (ks.zipIdx start).foldl (fun locations entry => locations.insert entry.1 (place entry.2))
    locations

theorem fileFrom_cons (place : Nat → lo) (start : Nat) (k : κ) (ks : List κ)
    (locations : HashMap κ lo) :
    fileFrom place start (k :: ks) locations =
      fileFrom place (start + 1) ks (locations.insert k (place start)) := rfl

theorem mem_fileFrom {place : Nat → lo} {start : Nat} {ks : List κ} {locations : HashMap κ lo}
    {k : κ} : k ∈ fileFrom place start ks locations ↔ k ∈ ks ∨ k ∈ locations := by
  induction ks generalizing start locations with
  | nil => simp [fileFrom]
  | cons a ks ih =>
      rw [fileFrom_cons, ih, Finmap.mem_insert, List.mem_cons]
      tauto

theorem lookup_fileFrom {place : Nat → lo} {start : Nat} {ks : List κ}
    {locations : HashMap κ lo} {k : κ} {v : lo}
    (h : (fileFrom place start ks locations).lookup k = some v) :
    (∃ j, ks[j]? = some k ∧ v = place (start + j)) ∨ locations.lookup k = some v := by
  induction ks generalizing start locations with
  | nil => exact Or.inr h
  | cons a ks ih =>
      rw [fileFrom_cons] at h
      rcases ih h with ⟨j, hj, hv⟩ | hold
      · exact Or.inl ⟨j + 1, by simpa using hj, by rw [hv]; congr 1; omega⟩
      · rcases HashMap.lookup_insert_iff.mp hold with ⟨rfl, rfl⟩ | ⟨_, hold⟩
        · exact Or.inl ⟨0, rfl, rfl⟩
        · exact Or.inr hold

namespace Located

variable {locate : Nat → Nat → lo} {owners : List ο} {members : ο → List κ}
  {locations : HashMap κ lo}

theorem empty : Located locate ([] : List ο) members ∅ where
  sound h := by simp at h
  complete h := by simp at h

/-- Filing members of the owner at one index; places that exist stay where they are. -/
theorem file (h : Located locate owners members locations)
    (hinj : ∀ {i j i' j'}, locate i j = locate i' j' → i = i' ∧ j = j')
    {owners' : List ο} {members' : ο → List κ} {i start : Nat} {ks : List κ}
    (hgrow : ∀ {i j : Nat} {o : ο} {k : κ}, owners[i]? = some o → (members o)[j]? = some k →
      owners'[i]? = some o ∧ (members' o)[j]? = some k)
    (hnew : ∀ (j : Nat) (k : κ), ks[j]? = some k →
      ∃ o, owners'[i]? = some o ∧ (members' o)[start + j]? = some k)
    (hcovered : ∀ o ∈ owners', ∀ k ∈ members' o, k ∈ ks ∨ (o ∈ owners ∧ k ∈ members o)) :
    Located locate owners' members' (fileFrom (locate i) start ks locations) where
  sound := by
    intro k i' j' hlookup
    rcases lookup_fileFrom hlookup with ⟨j, hj, hplace⟩ | hold
    · obtain ⟨rfl, rfl⟩ := hinj hplace
      exact hnew j k hj
    · obtain ⟨o, hi, hj⟩ := h.sound hold
      exact ⟨o, hgrow hi hj⟩
  complete := by
    intro o k ho hk
    rw [mem_fileFrom]
    rcases hcovered o ho k hk with hks | ⟨ho, hk⟩
    · exact Or.inl hks
    · exact Or.inr (h.complete ho hk)

/-- Filing elsewhere. -/
theorem file_other (h : Located locate owners members locations) {place : Nat → lo}
    (hne : ∀ a i j, place a ≠ locate i j) (start : Nat) (ks : List κ) :
    Located locate owners members (fileFrom place start ks locations) where
  sound := by
    intro k i j hlookup
    rcases lookup_fileFrom hlookup with ⟨_, _, hplace⟩ | hold
    · exact absurd hplace.symm (hne _ i j)
    · exact h.sound hold
  complete ho hk := mem_fileFrom.mpr (Or.inr (h.complete ho hk))

/-- A member of an owner that is present goes behind the owner's other members. -/
theorem file_member [DecidableEq ο] (h : Located locate owners members locations)
    (hinj : ∀ {i j i' j'}, locate i j = locate i' j' → i = i' ∧ j = j')
    {i : Nat} {o : ο} (ho : owners[i]? = some o) {members' : ο → List κ} {k : κ}
    (hmembers : ∀ o', members' o' = members o' ++ if o' = o then [k] else []) :
    Located locate owners members' (fileFrom (locate i) (members o).length [k] locations) := by
  refine h.file hinj (fun {i' j' o' k'} hi hj => ⟨hi, ?_⟩) (fun j k' hj => ⟨o, ho, ?_⟩)
    fun o' ho' k' hk' => ?_
  · rw [hmembers, List.getElem?_append_left (List.getElem?_eq_some_iff.mp hj).1, hj]
  · cases j with
    | zero => rw [hmembers, if_pos rfl]; simpa using hj
    | succ j => simp at hj
  · rw [hmembers] at hk'
    rcases List.mem_append.mp hk' with hk' | hk'
    · exact Or.inr ⟨ho', hk'⟩
    · split at hk'
      · exact Or.inl hk'
      · cases hk'

/-- An owner arrives with its queued members. -/
theorem file_owner (h : Located locate owners members locations)
    (hinj : ∀ {i j i' j'}, locate i j = locate i' j' → i = i' ∧ j = j') (o : ο) :
    Located locate (owners ++ [o]) members
      (fileFrom (locate owners.length) 0 (members o) locations) := by
  refine h.file hinj (fun hi hj => ⟨?_, hj⟩) (fun j k hj => ⟨o, by simp, by simpa using hj⟩)
    fun o' ho' k hk => ?_
  · rw [List.getElem?_append_left (List.getElem?_eq_some_iff.mp hi).1, hi]
  · rcases List.mem_append.mp ho' with ho' | ho'
    · exact Or.inr ⟨ho', hk⟩
    · rw [List.mem_singleton.mp ho'] at hk
      exact Or.inl hk

/-- A member of an absent owner has no place yet. -/
theorem congr_members (h : Located locate owners members locations) {members' : ο → List κ}
    (hmembers : ∀ o ∈ owners, members' o = members o) :
    Located locate owners members' locations where
  sound := by
    intro k i j hlookup
    obtain ⟨o, hi, hj⟩ := h.sound hlookup
    exact ⟨o, hi, by rw [hmembers o (List.mem_of_getElem? hi), hj]⟩
  complete := by
    intro o k ho hk
    rw [hmembers o ho] at hk
    exact h.complete ho hk

end Located

section Queues

variable [DecidableEq ο]

/-- The queues hold the members of absent owners. -/
def Queued (owners : List ο) (members : ο → List δ) (pending : HashMap ο (List δ)) : Prop :=
  ∀ o, pending.lookup o = if o ∈ owners ∨ members o = [] then none else some (members o)

namespace Queued

variable {owners : List ο} {members members' : ο → List δ} {pending : HashMap ο (List δ)}

theorem empty : Queued [] (fun _ : ο => ([] : List δ)) ∅ := by
  intro o
  simp

theorem lookup_getD (h : Queued owners members pending) {o : ο} (ho : o ∉ owners) :
    (pending.lookup o).getD [] = members o := by
  rw [h o]
  by_cases hnil : members o = [] <;> simp [ho, hnil]

theorem push (h : Queued owners members pending) {o : ο} (ho : o ∉ owners) {d : δ}
    (hmembers : ∀ o', members' o' = members o' ++ if o' = o then [d] else []) :
    Queued owners members' (pending.insert o ((pending.lookup o).getD [] ++ [d])) := by
  intro o'
  rw [h.lookup_getD ho]
  by_cases heq : o' = o
  · subst heq
    simp [hmembers, ho]
  · rw [Finmap.lookup_insert_of_ne _ heq, h o', hmembers, if_neg heq, List.append_nil]

theorem present (h : Queued owners members pending) {o : ο} (ho : o ∈ owners)
    (hmembers : ∀ o', o' ≠ o → members' o' = members o') : Queued owners members' pending := by
  intro o'
  rw [h o']
  by_cases heq : o' = o
  · subst heq
    simp [ho]
  · rw [hmembers o' heq]

theorem owner (h : Queued owners members pending) (o : ο) :
    Queued (owners ++ [o]) members (pending.erase o) := by
  intro o'
  by_cases heq : o' = o
  · subst heq
    simp
  · rw [Finmap.lookup_erase_ne heq, h o']
    simp [heq]

theorem eq_empty (h : Queued owners members pending) (hall : ∀ o, members o ≠ [] → o ∈ owners) :
    pending = ∅ := by
  refine Finmap.ext_lookup fun o => ?_
  rw [h o, Finmap.lookup_empty]
  split
  · rfl
  · rename_i hnot
    exact absurd (Or.inl (hall o fun hnil => hnot (Or.inr hnil))) hnot

end Queued

/-- One family of members: those of present owners are located, the others wait. -/
structure Filed (locate : Nat → Nat → lo) (owners : List ο) (members : ο → List (κ × δ))
    (locations : HashMap κ lo) (pending : HashMap ο (List (κ × δ))) : Prop where
  located : Located locate owners (fun o => (members o).map Prod.fst) locations
  queued : Queued owners members pending

namespace Filed

variable {locate : Nat → Nat → lo} {owners : List ο} {members members' : ο → List (κ × δ)}
  {locations : HashMap κ lo} {pending : HashMap ο (List (κ × δ))}

theorem empty : Filed locate [] (fun _ : ο => ([] : List (κ × δ))) ∅ ∅ :=
  ⟨Located.empty, Queued.empty⟩

theorem present (h : Filed locate owners members locations pending)
    (hinj : ∀ {i j i' j'}, locate i j = locate i' j' → i = i' ∧ j = j')
    {i : Nat} {o : ο} (ho : owners[i]? = some o) {d : κ × δ}
    (hmembers : ∀ o', members' o' = members o' ++ if o' = o then [d] else []) :
    Filed locate owners members' (fileFrom (locate i) (members o).length [d.1] locations)
      pending where
  located := by
    have hfile := h.located.file_member hinj ho (k := d.1)
      (show ∀ o', (members' o').map Prod.fst = _ from fun o' => by rw [hmembers]; split <;> simp)
    rwa [List.length_map] at hfile
  queued := h.queued.present (List.mem_of_getElem? ho) fun o' ho' => by simp [hmembers, ho']

theorem absent (h : Filed locate owners members locations pending) {o : ο} (ho : o ∉ owners)
    {d : κ × δ} (hmembers : ∀ o', members' o' = members o' ++ if o' = o then [d] else []) :
    Filed locate owners members' locations
      (pending.insert o ((pending.lookup o).getD [] ++ [d])) where
  located := h.located.congr_members fun o' ho' => by
    have hne : o' ≠ o := by rintro rfl; exact ho ho'
    simp [hmembers, hne]
  queued := h.queued.push ho hmembers

theorem owner (h : Filed locate owners members locations pending)
    (hinj : ∀ {i j i' j'}, locate i j = locate i' j' → i = i' ∧ j = j') (o : ο) :
    Filed locate (owners ++ [o]) members
      (fileFrom (locate owners.length) 0 ((members o).map Prod.fst) locations)
      (pending.erase o) :=
  ⟨h.located.file_owner hinj o, h.queued.owner o⟩

theorem other (h : Filed locate owners members locations pending) {place : Nat → lo}
    (hne : ∀ a i j, place a ≠ locate i j) (start : Nat) (ks : List κ) :
    Filed locate owners members (fileFrom place start ks locations) pending :=
  ⟨h.located.file_other hne start ks, h.queued⟩

end Filed
end Queues
end CleanCtx
