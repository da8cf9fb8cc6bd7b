import Mathlib.Order.Lattice.Nat
import Mathlib.Data.Finset.Lattice.Fold
import Mathlib.Data.Fintype.EquivFin
import CleanCtx.Library.Decimal
import CleanCtx.Library.ReverseIndex
import CleanCtx.Library.Runs

/-!
The path dictionary (`dictionary/path.rs`): aliases of files for a session. A call
that resolves a path comes with the canonical spelling that the file system gives at
that moment. The next number is one more than the greatest that is live, so that the
number of a removed path comes back when it was the greatest one.
-/
namespace CleanCtx

/-- Keys of `reverse` are canonical paths. -/
structure PathDictionary where
  forward : HashMap String String
  reverse : HashMap String String

namespace PathDictionary

def new : PathDictionary where
  forward := ∅
  reverse := ∅

def aliasName (number : UInt64) : String := String.ofList ('α' :: (Decimal.print number).toList)

/-- The number of an alias, as far as it has one. -/
def aliasNumber (name : String) : Option UInt64 :=
  match name.toList with
  | 'α' :: digits => Decimal.parse (String.ofList digits)
  | _ => none

def number (name : String) : Nat := ((aliasNumber name).map UInt64.toNat).getD 0

variable (dict : PathDictionary)

def greatest : Nat := dict.forward.keys.sup number

def nextNumber : UInt64 := UInt64.ofNat dict.greatest + 1

def getOrCreateAlias (absolutePath canonicalKey : String) : PathDictionary × String :=
  match dict.reverse.lookup absolutePath with
  | some found => (dict, found)
  | none =>
      match dict.reverse.lookup canonicalKey with
      | some found => (dict, found)
      | none =>
          let name := aliasName dict.nextNumber
          ({ forward := dict.forward.insert name canonicalKey
             reverse := dict.reverse.insert canonicalKey name }, name)

def pathForAlias (name : String) : Option String := dict.forward.lookup name

def aliasForPath (absolutePath canonicalKey : String) : Option String :=
  (dict.reverse.lookup absolutePath).or (dict.reverse.lookup canonicalKey)

def removePathAlias (name canonicalKey : String) : PathDictionary × Bool :=
  if dict.forward.lookup name ≠ some canonicalKey then (dict, false)
  else
    ({ forward := dict.forward.erase name
       reverse := dict.reverse.retain fun _ mapped => mapped ≠ name }, true)

end PathDictionary

/-- A call, with the canonical spelling of its path at that moment. -/
inductive PathCall
  | getOrCreate (absolutePath canonicalKey : String)
  | remove (name canonicalKey : String)

/-- A dictionary, and every alias that was handed out with the path it then stood for. -/
structure PathSession where
  dict : PathDictionary
  handed : List (String × String)

namespace PathSession

open PathDictionary

def new : PathSession where
  dict := .new
  handed := []

def step (s : PathSession) : PathCall → Option PathSession
  | .getOrCreate absolutePath canonicalKey =>
      let result := s.dict.getOrCreateAlias absolutePath canonicalKey
      some { dict := result.1
             handed := s.handed ++ ((result.1.pathForAlias result.2).map (result.2, ·)).toList }
  | .remove name canonicalKey =>
      some { s with dict := (s.dict.removePathAlias name canonicalKey).1 }

/-- The maps are inverse, and an alias has only ever stood for one path. -/
structure Bijective (s : PathSession) : Prop where
  inverse : ReverseIndex.Inverse s.dict.forward s.dict.reverse
  unshared : ∀ name path path', s.dict.reverse.lookup path = some name →
    s.dict.reverse.lookup path' = some name → path = path'
  once : ∀ name path path', (name, path) ∈ s.handed → (name, path') ∈ s.handed → path = path'

/-- A removal leaves an alias with a greater number; a new alias is not the last number's. -/
def KeepsGreatest (s : PathSession) : PathCall → Prop
  | .getOrCreate absolutePath canonicalKey => s.dict.reverse.lookup absolutePath = none →
      s.dict.reverse.lookup canonicalKey = none → s.dict.greatest + 1 < 2 ^ 64
  | .remove name canonicalKey => s.dict.forward.lookup name = some canonicalKey →
      ∃ other ∈ s.dict.forward, number name < number other

/-- The invariant: live pairs were handed out, and the numbers handed out are the ones up to the
greatest live one. -/
structure Allocated (s : PathSession) : Prop where
  inverse : ReverseIndex.Inverse s.dict.forward s.dict.reverse
  live : ∀ name path, s.dict.forward.lookup name = some path → (name, path) ∈ s.handed
  once : ∀ name path path', (name, path) ∈ s.handed → (name, path') ∈ s.handed → path = path'
  numbers : ∀ name path, (name, path) ∈ s.handed →
    ∃ n : UInt64, name = aliasName n ∧ 0 < n.toNat ∧ n.toNat ≤ s.dict.greatest
  used : ∀ n : UInt64, 0 < n.toNat → n.toNat ≤ s.dict.greatest →
    ∃ path, (aliasName n, path) ∈ s.handed

variable {s s' : PathSession} {call : PathCall} {name path : String}

theorem number_aliasName (n : UInt64) : number (aliasName n) = n.toNat := by
  simp [number, aliasNumber, aliasName]

theorem toNat_nextNumber {dict : PathDictionary} (h : dict.greatest + 1 < 2 ^ 64) :
    dict.nextNumber.toNat = dict.greatest + 1 := by
  rw [nextNumber, UInt64.toNat_add, UInt64.toNat_ofNat']
  change (dict.greatest % 2 ^ 64 + 1) % 2 ^ 64 = dict.greatest + 1
  omega

/-- A path without an alias gets the next one. -/
theorem step_create {absolutePath canonicalKey : String}
    (hraw : s.dict.reverse.lookup absolutePath = none)
    (hcanonical : s.dict.reverse.lookup canonicalKey = none) :
    s.step (.getOrCreate absolutePath canonicalKey) = some
      { dict := { forward := s.dict.forward.insert (aliasName s.dict.nextNumber) canonicalKey
                  reverse := s.dict.reverse.insert canonicalKey (aliasName s.dict.nextNumber) }
        handed := s.handed ++ [(aliasName s.dict.nextNumber, canonicalKey)] } := by
  have hresult : s.dict.getOrCreateAlias absolutePath canonicalKey =
      ({ forward := s.dict.forward.insert (aliasName s.dict.nextNumber) canonicalKey
         reverse := s.dict.reverse.insert canonicalKey (aliasName s.dict.nextNumber) },
        aliasName s.dict.nextNumber) := by
    rw [getOrCreateAlias, hraw, hcanonical]
  rw [step, hresult]
  dsimp only [pathForAlias]
  rw [Finmap.lookup_insert]
  rfl

theorem Allocated.bijective (h : Allocated s) : Bijective s where
  inverse := h.inverse
  unshared name path path' hpath hpath' :=
    Option.some.inj
      (((h.inverse name path).mpr hpath).symm.trans ((h.inverse name path').mpr hpath'))
  once := h.once

theorem allocated_new : Allocated new where
  inverse := .empty
  live _ _ h := by cases h
  once _ _ _ h := absurd h List.not_mem_nil
  numbers _ _ h := absurd h List.not_mem_nil
  used n hpos hle := by
    have hzero : new.dict.greatest = 0 := rfl
    omega

theorem Allocated.again (h : Allocated s) (hlive : s.dict.forward.lookup name = some path) :
    Allocated { s with handed := s.handed ++ [(name, path)] } := by
  have hsame : ∀ entry, entry ∈ s.handed ++ [(name, path)] ↔ entry ∈ s.handed := by
    intro entry
    rw [List.mem_append, List.mem_singleton]
    refine or_iff_left_of_imp ?_
    rintro rfl
    exact h.live name path hlive
  exact
    { inverse := h.inverse
      live := fun a p hp => (hsame _).mpr (h.live a p hp)
      once := fun a p q hp hq => h.once a p q ((hsame _).mp hp) ((hsame _).mp hq)
      numbers := fun a p hp => h.numbers a p ((hsame _).mp hp)
      used := fun n hpos hle => (h.used n hpos hle).imp fun _ => (hsame _).mpr }

section Create

variable (h : Allocated s) (hfits : s.dict.greatest + 1 < 2 ^ 64)
include h hfits

theorem Allocated.nextNumber_fresh : (aliasName s.dict.nextNumber, path) ∉ s.handed := by
  intro hmem
  obtain ⟨n, hname, -, hle⟩ := h.numbers _ _ hmem
  have heq := congrArg number hname
  rw [number_aliasName, number_aliasName, toNat_nextNumber hfits] at heq
  omega

theorem Allocated.nextNumber_notMem : aliasName s.dict.nextNumber ∉ s.dict.forward := by
  intro hmem
  obtain ⟨path, hpath⟩ := Option.isSome_iff_exists.mp (Finmap.lookup_isSome.mpr hmem)
  exact h.nextNumber_fresh hfits (h.live _ _ hpath)

omit h in
variable (path) in
theorem greatest_insert (reverse : HashMap String String) :
    greatest { forward := s.dict.forward.insert (aliasName s.dict.nextNumber) path, reverse } =
      s.dict.greatest + 1 := by
  have hkeys : (s.dict.forward.insert (aliasName s.dict.nextNumber) path).keys =
      insert (aliasName s.dict.nextNumber) s.dict.forward.keys := by
    ext other
    rw [Finmap.mem_keys, Finmap.mem_insert, Finset.mem_insert, Finmap.mem_keys]
  rw [greatest, hkeys, Finset.sup_insert, number_aliasName, toNat_nextNumber hfits]
  exact max_eq_left (Nat.le_succ s.dict.greatest)

theorem Allocated.create (hfresh : path ∉ s.dict.reverse) :
    Allocated
      { dict := { forward := s.dict.forward.insert (aliasName s.dict.nextNumber) path
                  reverse := s.dict.reverse.insert path (aliasName s.dict.nextNumber) }
        handed := s.handed ++ [(aliasName s.dict.nextNumber, path)] } := by
  have hgreatest := greatest_insert path hfits
    (s.dict.reverse.insert path (aliasName s.dict.nextNumber))
  refine
    { inverse := h.inverse.insert (h.nextNumber_notMem hfits) hfresh
      live := fun a p hp => ?_
      once := fun a p q hp hq => ?_
      numbers := fun a p hp => ?_
      used := fun n hpos hle => ?_ }
  · rw [List.mem_append, List.mem_singleton]
    rcases HashMap.lookup_insert_iff.mp hp with ⟨rfl, rfl⟩ | ⟨-, hp⟩
    · exact .inr rfl
    · exact .inl (h.live a p hp)
  · simp only [List.mem_append, List.mem_singleton, Prod.mk.injEq] at hp hq
    rcases hp with hp | ⟨rfl, rfl⟩
    · rcases hq with hq | ⟨rfl, rfl⟩
      · exact h.once a p q hp hq
      · exact absurd hp (h.nextNumber_fresh hfits)
    · rcases hq with hq | ⟨-, rfl⟩
      · exact absurd hq (h.nextNumber_fresh hfits)
      · rfl
  · rw [hgreatest]
    rcases List.mem_append.mp hp with hp | hp
    · obtain ⟨n, hname, hpos, hle⟩ := h.numbers a p hp
      exact ⟨n, hname, hpos, Nat.le_succ_of_le hle⟩
    · obtain ⟨rfl, -⟩ := Prod.mk.inj (List.mem_singleton.mp hp)
      have hnext := toNat_nextNumber hfits
      exact ⟨_, rfl, hnext ▸ Nat.succ_pos _, hnext.le⟩
  · rw [hgreatest] at hle
    rcases Nat.le_succ_iff.mp hle with hle | heq
    · obtain ⟨q, hq⟩ := h.used n hpos hle
      exact ⟨q, List.mem_append_left _ hq⟩
    · have hn : n = s.dict.nextNumber :=
        UInt64.toNat_inj.mp (heq.trans (toNat_nextNumber hfits).symm)
      exact ⟨path, hn ▸ List.mem_append_right _ List.mem_cons_self⟩

end Create

/-- Removing an alias while one with a greater number is live. -/
theorem Allocated.remove (h : Allocated s) {other : String} (hother : other ∈ s.dict.forward)
    (hlt : number name < number other) :
    Allocated { s with
      dict := { forward := s.dict.forward.erase name
                reverse := s.dict.reverse.retain fun _ mapped => mapped ≠ name } } := by
  have hgreatest : greatest { forward := s.dict.forward.erase name
                              reverse := s.dict.reverse.retain fun _ mapped => mapped ≠ name } =
      s.dict.greatest := by
    refine le_antisymm (Finset.sup_mono ?_) (Finset.sup_le fun found hfound => ?_)
    · rw [Finmap.keys_erase]
      exact Finset.erase_subset ..
    · have hne : other ≠ name := by
        rintro rfl
        exact Nat.lt_irrefl _ hlt
      have hkept : ∀ k ∈ s.dict.forward, k ≠ name → number k ≤
          (s.dict.forward.erase name).keys.sup number := fun k hk hkne =>
        Finset.le_sup (Finmap.mem_keys.mpr (Finmap.mem_erase.mpr ⟨hkne, hk⟩))
      by_cases heq : found = name
      · rw [heq]
        exact hlt.le.trans (hkept other hother hne)
      · exact hkept found (Finmap.mem_keys.mp hfound) heq
  exact
    { inverse := h.inverse.erase name
      live := fun a p hp => h.live a p (by
        by_cases heq : a = name
        · rw [heq, Finmap.lookup_erase] at hp
          cases hp
        · rwa [Finmap.lookup_erase_ne heq] at hp)
      once := h.once
      numbers := fun a p hp => hgreatest ▸ h.numbers a p hp
      used := fun n hpos hle => h.used n hpos (hgreatest ▸ hle) }

theorem Allocated.step (h : Allocated s) (hkeeps : s.KeepsGreatest call)
    (hstep : s.step call = some s') : Allocated s' := by
  cases call with
  | getOrCreate absolutePath canonicalKey =>
      have hagain : ∀ {path found}, s.dict.reverse.lookup path = some found →
          Allocated { s with
            handed := s.handed ++ ((s.dict.pathForAlias found).map (found, ·)).toList } := by
        intro path found hfound
        have hlive := (h.inverse found path).mpr hfound
        rw [pathForAlias, hlive]
        exact h.again hlive
      cases hraw : s.dict.reverse.lookup absolutePath with
      | some found =>
          rw [PathSession.step, getOrCreateAlias, hraw] at hstep
          exact Option.some.inj hstep ▸ hagain hraw
      | none =>
          cases hcanonical : s.dict.reverse.lookup canonicalKey with
          | some found =>
              rw [PathSession.step, getOrCreateAlias, hraw, hcanonical] at hstep
              exact Option.some.inj hstep ▸ hagain hcanonical
          | none =>
              rw [step_create hraw hcanonical] at hstep
              rw [← Option.some.inj hstep]
              exact h.create (hkeeps hraw hcanonical) (Finmap.lookup_eq_none.mp hcanonical)
  | remove name canonicalKey =>
      obtain rfl := Option.some.inj hstep
      unfold removePathAlias
      by_cases howned : s.dict.forward.lookup name = some canonicalKey
      · obtain ⟨other, hother, hlt⟩ := hkeeps howned
        rw [if_neg (not_not.mpr howned)]
        exact h.remove hother hlt
      · rw [if_pos howned]
        exact h

theorem Allocated.eq_of_number (h : Allocated s) {other : String} (hname : name ∈ s.dict.forward)
    (hother : other ∈ s.dict.forward) (heq : number name = number other) : name = other := by
  have hnumbered : ∀ {k}, k ∈ s.dict.forward → ∃ n : UInt64, k = aliasName n := by
    intro k hk
    obtain ⟨path, hpath⟩ := Option.isSome_iff_exists.mp (Finmap.lookup_isSome.mpr hk)
    exact (h.numbers k path (h.live k path hpath)).imp fun _ => And.left
  obtain ⟨n, rfl⟩ := hnumbered hname
  obtain ⟨m, rfl⟩ := hnumbered hother
  rw [number_aliasName, number_aliasName] at heq
  rw [UInt64.toNat_inj.mp heq]

/-- After the removal of the greatest number, a call hands out an alias of another path. -/
theorem Allocated.reuses (h : Allocated s) {canonicalKey : String}
    (howned : s.dict.forward.lookup name = some canonicalKey)
    (hlast : ∀ other ∈ s.dict.forward, number other ≤ number name) :
    ∃ path, ¬ Runs.Throughout PathSession.step Bijective s
      [.remove name canonicalKey, .getOrCreate path path] := by
  obtain ⟨n, rfl, hpos, hle⟩ := h.numbers name canonicalKey (h.live name canonicalKey howned)
  have hname : aliasName n ∈ s.dict.forward :=
    Finmap.lookup_isSome.mp (Option.isSome_of_mem howned)
  let removed : PathDictionary :=
    { forward := s.dict.forward.erase (aliasName n)
      reverse := s.dict.reverse.retain fun _ mapped => mapped ≠ aliasName n }
  have hbelow : removed.greatest < n.toNat := by
    refine (Finset.sup_lt_iff hpos).mpr fun other hother => ?_
    obtain ⟨hne, hmem⟩ := Finmap.mem_erase.mp (Finmap.mem_keys.mp hother)
    rw [← number_aliasName n]
    exact lt_of_le_of_ne (hlast other hmem) fun heq => hne (h.eq_of_number hmem hname heq)
  have hnext : removed.nextNumber.toNat = removed.greatest + 1 :=
    toNat_nextNumber (lt_of_le_of_lt hbelow n.toNat_lt)
  obtain ⟨owner, howner⟩ := h.used removed.nextNumber (by omega) (by omega)
  obtain ⟨path, hpath⟩ := Infinite.exists_notMem_finset (insert owner removed.reverse.keys)
  rw [Finset.mem_insert, not_or, Finmap.mem_keys] at hpath
  have hfresh : removed.reverse.lookup path = none := Finmap.lookup_eq_none.mpr hpath.2
  refine ⟨path, fun hall => hpath.1 ?_⟩
  have hremoved : PathSession.step s (.remove (aliasName n) canonicalKey) =
      some { s with dict := removed } := by
    simp only [PathSession.step, removePathAlias, howned, ne_eq, not_true_eq_false, if_false]
    rfl
  have hcreated := step_create (s := { s with dict := removed }) hfresh hfresh
  have honce := ((hall.2 _ hremoved).2 _ hcreated).once
  exact honce (aliasName removed.nextNumber) path owner (List.mem_append_right _ List.mem_cons_self)
    (List.mem_append_left _ howner)

/-- Aliases are a bijection throughout a run whose calls keep the greatest number; when such a run
goes on with the removal of the greatest number, a later call breaks it. -/
theorem bijective_throughout {calls : List PathCall}
    (hkeeps : Runs.Along step KeepsGreatest new calls) :
    Runs.Throughout step Bijective new calls ∧
      ∀ s name canonicalKey, Runs.run step new calls = some s →
        s.dict.forward.lookup name = some canonicalKey →
        (∀ other ∈ s.dict.forward, number other ≤ number name) →
        ∃ path, ¬ Runs.Throughout step Bijective new
          (calls ++ [.remove name canonicalKey, .getOrCreate path path]) := by
  have hstep : ∀ s call s', Allocated s → s.KeepsGreatest call → s.step call = some s' →
      Allocated s' := fun _ _ _ h => h.step
  refine ⟨Runs.throughout_along hstep (fun _ h => h.bijective) allocated_new hkeeps, ?_⟩
  intro s name canonicalKey hrun howned hlast
  obtain ⟨path, hpath⟩ :=
    (Runs.invariant_along hstep allocated_new hkeeps hrun).reuses howned hlast
  exact ⟨path, fun hall => hpath (Runs.throughout_append hrun hall)⟩

def firstRemoved : List PathCall :=
  [.getOrCreate "/a" "/a", .getOrCreate "/b" "/b", .remove "α1" "/a"]

theorem bijective_firstRemoved : Runs.Throughout step Bijective new firstRemoved := by
  have hkeeps : Runs.Along step KeepsGreatest new firstRemoved := by
    refine ⟨fun _ _ => by decide +kernel, fun s hs => ?_⟩
    cases hs
    refine ⟨fun _ _ => by decide +kernel, fun s hs => ?_⟩
    cases hs
    exact ⟨fun _ => ⟨"α2", by decide +kernel, by decide +kernel⟩, fun _ _ => trivial⟩
  exact (bijective_throughout hkeeps).1

/-- The only alias is removed, and comes back for another path. -/
theorem not_bijective_reused : ¬ Runs.Throughout step Bijective new
    [.getOrCreate "/a" "/a", .remove "α1" "/a", .getOrCreate "/b" "/b"] := by
  intro h
  have hlast : Bijective ((Runs.run step new
    [.getOrCreate "/a" "/a", .remove "α1" "/a", .getOrCreate "/b" "/b"]).getD new) := h.last rfl
  have heq := hlast.once "α1" "/a" "/b" (by decide +kernel) (by decide +kernel)
  revert heq
  decide

end PathSession
end CleanCtx
