import CleanCtx.Mcp.PhysicalIdentity

/-!
When distinct files share an owner. Both kinds of owner are memos of first names, over the
files that paths name at present. Resolutions and deletions never bring two files under
one owner; what does is a path that a file gets while another file owns it.
-/
namespace CleanCtx
namespace Mcp
namespace Session

open FirstNames

variable {locate : String → String}

def OwnersLocated (locate : String → String) (s : Session) : Prop :=
  ∀ identity owner, s.owners.lookup identity = some owner → locate owner.semanticPath = owner.semanticPath

theorem semanticOwned_eq_some_iff {s : Session} {identity : PhysicalFileIdentity} {name : String} :
    s.semanticOwned identity = some name ↔
      ∃ owner, s.owners.lookup identity = some owner ∧ owner.semanticPath = name :=
  Option.map_eq_some_iff

section

variable (hlocate : ∀ path, locate (locate path) = locate path)
include hlocate

theorem physicalFileIdentity_locate (s : Session) (path : String) :
    s.physicalFileIdentity locate (locate path) = s.physicalFileIdentity locate path := by
  rw [physicalFileIdentity, hlocate, physicalFileIdentity]

omit hlocate in
theorem canonicalIdentityKey_of_some {s : Session} {path : String}
    {identity : PhysicalFileIdentity} (h : s.physicalFileIdentity locate path = some identity) :
    s.canonicalIdentityKey locate path = locate path := by
  rw [canonicalIdentityKey, h]
  rfl

/-- The owner of an existing file: the remembered one, else its location. -/
theorem resolveSemanticOwner_of_some {s : Session} {path : String}
    {identity : PhysicalFileIdentity} (h : s.physicalFileIdentity locate path = some identity) :
    (s.resolveSemanticOwner locate path).1 = (s.semanticOwned identity).getD (locate path) := by
  rw [resolveSemanticOwner]
  simp only [canonicalIdentityKey_of_some h, physicalFileIdentity_locate hlocate, h]
  rw [semanticOwned]
  cases s.owners.lookup identity <;> rfl

omit hlocate in
theorem resolveDurableOwner_of_some {s : Session} {path : String}
    {identity : PhysicalFileIdentity} (h : s.physicalFileIdentity locate path = some identity) :
    (s.resolveDurableOwner locate path).1 = (s.durableOwned identity).getD path := by
  rw [resolveDurableOwner]
  simp only [h]
  rw [durableOwned]
  split <;> rename_i howner <;> rw [howner] <;> rfl

/-- Owners are distinct exactly if no two files collide in either memo. -/
theorem ownersDistinct_iff {s : Session} (howners : OwnersLocated locate s) :
    s.OwnersDistinct locate ↔ Apart (s.physicalFileIdentity locate) s.semanticOwned ∧
      Apart (s.physicalFileIdentity locate) s.durableOwned := by
  have hlocated : ∀ identity name, s.semanticOwned identity = some name → locate name = name := by
    intro identity name hname
    obtain ⟨owner, howner, rfl⟩ := semanticOwned_eq_some_iff.mp hname
    exact howners identity owner howner
  rw [← answers_differ_iff locate (physicalFileIdentity_locate hlocate s) hlocated,
    ← answers_differ_iff id (fun _ => rfl) fun _ _ _ => rfl]
  constructor
  · refine fun h => ⟨fun n m i j hn hm hne => ?_, fun n m i j hn hm hne => ?_⟩
    · rw [← resolveSemanticOwner_of_some hlocate hn, ← resolveSemanticOwner_of_some hlocate hm]
      exact (h n m i j hn hm hne).1
    · have := (h n m i j hn hm hne).2
      rw [resolveDurableOwner_of_some hn, resolveDurableOwner_of_some hm] at this
      exact this
  · refine fun h n m i j hn hm hne => ⟨?_, ?_⟩
    · rw [resolveSemanticOwner_of_some hlocate hn, resolveSemanticOwner_of_some hlocate hm]
      exact h.1 n m i j hn hm hne
    · rw [resolveDurableOwner_of_some hn, resolveDurableOwner_of_some hm]
      exact h.2 n m i j hn hm hne

inductive Registered (locate : String → String) (s : Session) : Session → Prop
  | same : Registered locate s s
  | semantic {path : String} {identity : PhysicalFileIdentity}
      (hnew : s.owners.lookup identity = none)
      (hnames : s.physicalFileIdentity locate path = some identity) :
      Registered locate s
        { s with owners := s.owners.insert identity ⟨locate path, none⟩ }
  | both {path : String} {identity : PhysicalFileIdentity}
      (hnew : s.owners.lookup identity = none)
      (hnames : s.physicalFileIdentity locate path = some identity) :
      Registered locate s
        { s with owners := s.owners.insert identity ⟨locate path, some path⟩ }
  | durable {path : String} {identity : PhysicalFileIdentity} {semantic : String}
      (hold : s.owners.lookup identity = some ⟨semantic, none⟩)
      (hnames : s.physicalFileIdentity locate path = some identity) :
      Registered locate s
        { s with owners := s.owners.insert identity ⟨semantic, some path⟩ }

theorem registered_resolveSemanticOwner (s : Session) (path : String) :
    Registered locate s (s.resolveSemanticOwner locate path).2 := by
  rw [resolveSemanticOwner]
  cases hpath : s.physicalFileIdentity locate path with
  | none =>
      have hkey : s.canonicalIdentityKey locate path = path := by
        rw [canonicalIdentityKey, hpath]
        rfl
      simp only [hkey, hpath]
      exact .same
  | some identity =>
      simp only [canonicalIdentityKey_of_some hpath, physicalFileIdentity_locate hlocate, hpath]
      cases howner : s.owners.lookup identity with
      | some owner => exact .same
      | none => exact .semantic howner hpath

omit hlocate in
theorem registered_resolveDurableOwner (s : Session) (path : String) :
    Registered locate s (s.resolveDurableOwner locate path).2 := by
  rw [resolveDurableOwner]
  cases hpath : s.physicalFileIdentity locate path with
  | none => exact .same
  | some identity =>
      simp only [canonicalIdentityKey_of_some hpath]
      split
      · exact .same
      · exact .durable ‹_› hpath
      · exact .both ‹_› hpath

end

/-- Both memos keep distinct files apart. -/
def BothApart (locate : String → String) (s : Session) : Prop :=
  Apart (s.physicalFileIdentity locate) s.semanticOwned ∧
    Apart (s.physicalFileIdentity locate) s.durableOwned

theorem owned_insert_self (s : Session) (identity : PhysicalFileIdentity) (owner : PhysicalOwner) :
    semanticOwned { s with owners := s.owners.insert identity owner } identity =
        some owner.semanticPath ∧
      durableOwned { s with owners := s.owners.insert identity owner } identity =
        owner.durablePath := by
  simp only [semanticOwned, durableOwned, AList.lookup_insert]
  exact ⟨rfl, rfl⟩

theorem owned_insert_ne (s : Session) {identity other : PhysicalFileIdentity} (owner : PhysicalOwner)
    (hne : other ≠ identity) :
    semanticOwned { s with owners := s.owners.insert identity owner } other =
        s.semanticOwned other ∧
      durableOwned { s with owners := s.owners.insert identity owner } other =
        s.durableOwned other := by
  simp only [semanticOwned, durableOwned, AList.lookup_insert_ne hne, and_self]

/-- An entry may repeat what was remembered, or add a path that names the file. -/
theorem bothApart_insert {s : Session} {identity : PhysicalFileIdentity} {owner : PhysicalOwner}
    (hapart : BothApart locate s)
    (hsemantic : s.semanticOwned identity = some owner.semanticPath ∨
      (s.semanticOwned identity = none ∧
        s.physicalFileIdentity locate owner.semanticPath = some identity))
    (hdurable : s.durableOwned identity = owner.durablePath ∨
      (s.durableOwned identity = none ∧ ∃ path, s.physicalFileIdentity locate path = some identity ∧
        owner.durablePath = some path)) :
    BothApart locate { s with owners := s.owners.insert identity owner } := by
  have hself := owned_insert_self s identity owner
  refine ⟨hapart.1.resolve ?_ fun j hj => (owned_insert_ne s owner hj).1,
    hapart.2.resolve ?_ fun j hj => (owned_insert_ne s owner hj).2⟩
  · rw [hself.1]
    exact hsemantic.imp Eq.symm fun h => ⟨h.1, _, h.2, rfl⟩
  · rw [hself.2]
    exact hdurable.imp_left Eq.symm

/-- A resolution never brings two files under one owner. -/
theorem Registered.bothApart (hlocate : ∀ path, locate (locate path) = locate path)
    {s next : Session} (h : Registered locate s next) (hapart : BothApart locate s) :
    BothApart locate next := by
  cases h with
  | same => exact hapart
  | semantic hnew hnames =>
      refine bothApart_insert hapart (Or.inr ⟨?_, ?_⟩) (Or.inl ?_)
      · rw [semanticOwned, hnew, Option.map_none]
      · rw [physicalFileIdentity_locate hlocate, hnames]
      · rw [durableOwned, hnew, Option.bind_none]
  | both hnew hnames =>
      refine bothApart_insert hapart (Or.inr ⟨?_, ?_⟩) (Or.inr ⟨?_, _, hnames, rfl⟩)
      · rw [semanticOwned, hnew, Option.map_none]
      · rw [physicalFileIdentity_locate hlocate, hnames]
      · rw [durableOwned, hnew, Option.bind_none]
  | durable hold hnames =>
      refine bothApart_insert hapart (Or.inl ?_) (Or.inr ⟨?_, _, hnames, rfl⟩)
      · rw [semanticOwned, hold, Option.map_some]
      · rw [durableOwned, hold, Option.bind_some]

theorem Registered.located (hlocate : ∀ path, locate (locate path) = locate path)
    {s next : Session} (h : Registered locate s next) (howners : OwnersLocated locate s) :
    OwnersLocated locate next := by
  have hinsert : ∀ identity owner, locate owner.semanticPath = owner.semanticPath →
      OwnersLocated locate { s with owners := s.owners.insert identity owner } := by
    intro identity owner howner other found hfound
    by_cases hother : other = identity
    · rw [hother, AList.lookup_insert, Option.some.injEq] at hfound
      exact hfound ▸ howner
    · rw [AList.lookup_insert_ne hother] at hfound
      exact howners other found hfound
  cases h with
  | same => exact howners
  | semantic hnew hnames | both hnew hnames => exact hinsert _ _ (hlocate _)
  | durable hold hnames =>
      have hkept := howners _ _ hold
      exact hinsert _ _ hkept

/-- The files after a change, seen through the names. -/
theorem physicalFileIdentity_insert (s : Session) (target : String)
    (identity : PhysicalFileIdentity) (path : String) :
    physicalFileIdentity locate { s with files := s.files.insert target identity } path =
      if locate path = target then some identity else s.physicalFileIdentity locate path := by
  rw [physicalFileIdentity]
  by_cases h : locate path = target
  · rw [if_pos h, h, AList.lookup_insert]
  · rw [if_neg h, AList.lookup_insert_ne h, physicalFileIdentity]

theorem physicalFileIdentity_erase {s : Session} {gone path : String}
    {identity : PhysicalFileIdentity}
    (h : physicalFileIdentity locate { s with files := s.files.erase gone } path = some identity) :
    s.physicalFileIdentity locate path = some identity := by
  rw [physicalFileIdentity] at h
  by_cases hgone : locate path = gone
  · rw [hgone, AList.lookup_erase] at h
    cases h
  · rw [AList.lookup_erase_ne hgone] at h
    exact h

theorem BothApart.erase {s : Session} (h : BothApart locate s) (gone : String) :
    BothApart locate { s with files := s.files.erase gone } :=
  ⟨h.1.unname fun _ _ => physicalFileIdentity_erase, h.2.unname fun _ _ => physicalFileIdentity_erase⟩

/-- A name given to a file keeps all files apart exactly if the file does not clash. -/
theorem BothApart.insert_iff {s : Session} (h : BothApart locate s) {target : String}
    (htarget : locate target = target) (identity : PhysicalFileIdentity) :
    BothApart locate { s with files := s.files.insert target identity } ↔
      ¬Clash locate { s with files := s.files.insert target identity } identity := by
  have hlive : Live (physicalFileIdentity locate
      { s with files := s.files.insert target identity }) identity :=
    ⟨target, by rw [physicalFileIdentity_insert, if_pos htarget]⟩
  have hother : ∀ path other, other ≠ identity →
      physicalFileIdentity locate { s with files := s.files.insert target identity } path =
        some other → s.physicalFileIdentity locate path = some other := by
    intro path other hne hpath
    rw [physicalFileIdentity_insert] at hpath
    split at hpath
    · exact absurd (Option.some.inj hpath).symm hne
    · exact hpath
  rw [Clash, not_or]
  exact and_congr (h.1.name_iff hlive hother) (h.2.name_iff hlive hother)

/-- An invariant of every step. -/
theorem ownersLocated_step (hlocate : ∀ path, locate (locate path) = locate path) (s : Session)
    (event : Event) (next : Session) (howners : OwnersLocated locate s)
    (hstep : s.step locate event = some next) : OwnersLocated locate next := by
  cases event with
  | create path identity =>
      simp only [step] at hstep
      split at hstep
      · cases hstep
      · cases hstep
        exact howners
  | delete path =>
      simp only [step] at hstep
      split at hstep
      · cases hstep
        exact howners
      · cases hstep
  | link path target =>
      simp only [step, Option.bind_eq_bind, Option.bind_eq_some_iff] at hstep
      obtain ⟨identity, hidentity, hstep⟩ := hstep
      split at hstep
      · cases hstep
      · cases hstep
        exact howners
  | rename path target =>
      simp only [step, Option.bind_eq_bind, Option.bind_eq_some_iff] at hstep
      obtain ⟨identity, hidentity, hstep⟩ := hstep
      split at hstep
      · cases hstep
      · split at hstep <;> cases hstep <;> exact howners
  | resolveSemantic path =>
      cases hstep
      exact (registered_resolveSemanticOwner hlocate s path).located hlocate howners
  | resolveDurable path =>
      cases hstep
      exact (registered_resolveDurableOwner s path).located hlocate howners

/-- A step leaves two files under one owner exactly if it names a file that clashes. -/
theorem bothApart_step (hlocate : ∀ path, locate (locate path) = locate path) (s : Session)
    (event : Event) (next : Session) (hapart : BothApart locate s)
    (hstep : s.step locate event = some next) :
    BothApart locate next ↔ ¬NamesClashing locate s event := by
  simp only [NamesClashing, hstep, Option.some.injEq, exists_eq_left']
  cases event with
  | create path identity =>
      simp only [step] at hstep
      split at hstep
      · cases hstep
      · rename_i hguard
        cases hstep
        exact hapart.insert_iff (Classical.not_not.mp fun h => hguard (Or.inl h)) identity
  | delete path =>
      simp only [step] at hstep
      split at hstep
      · cases hstep
        simpa only [not_false_eq_true, iff_true] using hapart.erase path
      · cases hstep
  | link path target =>
      simp only [step, Option.bind_eq_bind, Option.bind_eq_some_iff] at hstep
      obtain ⟨identity, hidentity, hstep⟩ := hstep
      split at hstep
      · cases hstep
      · rename_i hguard
        cases hstep
        simp only [hidentity, Option.some.injEq, exists_eq_left']
        exact hapart.insert_iff (Classical.not_not.mp fun h => hguard (Or.inl h)) identity
  | rename path target =>
      simp only [step, Option.bind_eq_bind, Option.bind_eq_some_iff] at hstep
      obtain ⟨identity, hidentity, hstep⟩ := hstep
      simp only [hidentity, Option.some.injEq, exists_eq_left']
      split at hstep
      · cases hstep
      · rename_i hlocated
        have htarget : locate target = target := Classical.not_not.mp hlocated
        split at hstep
        · rename_i hsame
          cases hstep
          have hlive : Live (s.physicalFileIdentity locate) identity :=
            ⟨target, by rw [physicalFileIdentity, htarget, hsame]⟩
          refine iff_of_true hapart ?_
          rw [Clash, not_or, ← hapart.1.name_iff hlive fun _ _ _ h => h,
            ← hapart.2.name_iff hlive fun _ _ _ h => h]
          exact hapart
        · cases hstep
          exact (hapart.erase path).insert_iff htarget identity
  | resolveSemantic path =>
      cases hstep
      simpa only [not_false_eq_true, iff_true] using
        (registered_resolveSemanticOwner hlocate s path).bothApart hlocate hapart
  | resolveDurable path =>
      cases hstep
      simpa only [not_false_eq_true, iff_true] using
        (registered_resolveDurableOwner s path).bothApart hlocate hapart

/-- In every history, distinct files have distinct owners in every state exactly if no file is given
a name while it clashes with another one. -/
theorem ownersDistinct_throughout_iff (hlocate : ∀ path, locate (locate path) = locate path)
    (files : AList fun _ : String => PhysicalFileIdentity) (events : List Event) :
    Runs.Throughout (step locate) (OwnersDistinct locate) (start files) events ↔
      Runs.Along (step locate) (fun s event => ¬NamesClashing locate s event) (start files)
        events := by
  have hlocated : OwnersLocated locate (start files) := fun identity owner h => by
    rw [start, AList.lookup_empty] at h
    cases h
  have hnone : ∀ identity, (start files).semanticOwned identity = none ∧
      (start files).durableOwned identity = none := by
    intro identity
    rw [semanticOwned, durableOwned, start, AList.lookup_empty]
    exact ⟨rfl, rfl⟩
  have hapart : (start files).OwnersDistinct locate := by
    refine (ownersDistinct_iff hlocate hlocated).mpr ⟨?_, ?_⟩
    · rintro i j - - - ⟨name, hname, -⟩
      rw [(hnone i).1] at hname
      cases hname
    · rintro i j - - - ⟨name, hname, -⟩
      rw [(hnone i).2] at hname
      cases hname
  refine Runs.throughout_iff (ownersLocated_step hlocate) ?_ ?_ hlocated hapart events
  · intro s event next howners hdistinct hstep
    rw [ownersDistinct_iff hlocate (ownersLocated_step hlocate s event next howners hstep)]
    exact bothApart_step hlocate s event next
      ((ownersDistinct_iff hlocate howners).mp hdistinct) hstep
  · rintro s event hstuck ⟨next, hnext, -⟩
    rw [hstuck] at hnext
    cases hnext

/-- A file is created and resolved, and then another one beside it. -/
theorem ownersDistinct_throughout_created :
    Runs.Throughout (step id) (OwnersDistinct id) (start ∅)
      [.create "a" ⟨1, 1⟩, .resolveDurable "a", .create "b" ⟨1, 2⟩, .resolveDurable "b"] := by
  refine (ownersDistinct_throughout_iff (fun _ => rfl) ∅ _).mpr ?_
  have hfirst : ¬Clash id ⟨AList.insert "a" ⟨1, 1⟩ ∅, ∅⟩ ⟨1, 1⟩ := by
    rintro (h | h)
    · exact not_clashes_of_new rfl (fun j name hj => by simp [semanticOwned] at hj) h
    · exact not_clashes_of_new rfl (fun j name hj => by simp [durableOwned] at hj) h
  let owners : AList fun _ : PhysicalFileIdentity => PhysicalOwner :=
    AList.insert ⟨1, 1⟩ ⟨"a", some "a"⟩ ∅
  have hremembered : ∀ j owner, owners.lookup j = some owner → owner = ⟨"a", some "a"⟩ := by
    intro j owner hj
    by_cases hj1 : j = ⟨1, 1⟩
    · rw [hj1, AList.lookup_insert] at hj
      exact (Option.some.inj hj).symm
    · rw [AList.lookup_insert_ne hj1, AList.lookup_empty] at hj
      exact nomatch hj
  have hsecond : ¬Clash id ⟨AList.insert "b" ⟨1, 2⟩ (AList.insert "a" ⟨1, 1⟩ ∅), owners⟩
      ⟨1, 2⟩ := by
    rintro (h | h)
    · refine not_clashes_of_new rfl (fun j name hj => ?_) h
      obtain ⟨owner, howner, rfl⟩ := Option.map_eq_some_iff.mp hj
      rw [hremembered j owner howner]
      decide
    · refine not_clashes_of_new rfl (fun j name hj => ?_) h
      obtain ⟨owner, howner, hname⟩ := Option.bind_eq_some_iff.mp hj
      rw [hremembered j owner howner, Option.some.injEq] at hname
      rw [← hname]
      decide
  refine ⟨fun ⟨_, hnext, h⟩ => ?_, fun _ hnext => ?_⟩
  · cases hnext
    exact hfirst h
  cases hnext
  refine ⟨fun ⟨_, _, h⟩ => h, fun _ hnext => ?_⟩
  cases hnext
  refine ⟨fun ⟨_, hnext, h⟩ => ?_, fun _ hnext => ?_⟩
  · cases hnext
    exact hsecond h
  cases hnext
  exact ⟨fun ⟨_, _, h⟩ => h, fun _ _ => trivial⟩

/-- A file is renamed after it was resolved, and another one takes its place. -/
theorem not_ownersDistinct_renamed : ¬Runs.Throughout (step id) (OwnersDistinct id) (start ∅)
    [.create "a" ⟨1, 1⟩, .resolveSemantic "a", .rename "a" "b", .create "a" ⟨1, 2⟩] := by
  intro h
  have hlast := (((h.2 _ rfl).2 _ rfl).2 _ rfl).2 _ rfl
  exact (hlast "a" "b" ⟨1, 2⟩ ⟨1, 1⟩ rfl rfl (by decide)).1 rfl

end Session
end Mcp
end CleanCtx
