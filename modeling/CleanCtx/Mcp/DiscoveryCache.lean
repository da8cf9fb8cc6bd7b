import Mathlib.Logic.Function.Basic
import CleanCtx.Library.Runs
import CleanCtx.Workspace.Index

/-!
The completion cache of hydration discovery (`mcp/discovery_cache.rs`), and sessions
in which discoveries run beside invalidations. A session also remembers, for no code
to read, when each run started and when each scope was last invalidated. A completed
discovery is recorded at the generation of that moment, whenever it started.
-/
namespace CleanCtx
namespace Mcp

inductive DiscoveryProvider
  | cbm | filesystem
  deriving DecidableEq

inductive DiscoveryMode
  | declaration | inboundReference
  deriving DecidableEq

structure DiscoveryScope where
  provider : DiscoveryProvider
  root : String
  deriving DecidableEq

structure DiscoveryKey where
  scope : DiscoveryScope
  mode : DiscoveryMode
  name : String
  semanticFidelity : Option SemanticFidelity
  deriving DecidableEq

/-- The generation of each scope that has one, and of each completed discovery. -/
structure HydrationDiscoveryCache where
  generations : DiscoveryScope → Option UInt64
  completed : DiscoveryKey → Option UInt64

namespace HydrationDiscoveryCache

def new : HydrationDiscoveryCache where
  generations _ := none
  completed _ := none

variable (cache : HydrationDiscoveryCache) (scope : DiscoveryScope) (mode : DiscoveryMode)
  (name : String) (semanticFidelity : Option SemanticFidelity)

def generation : UInt64 := (cache.generations scope).getD 0

def isCompleteFor : Bool :=
  (cache.completed { scope, mode, name, semanticFidelity }).any (· = cache.generation scope)

def isComplete : Bool := cache.isCompleteFor scope mode name none

def markCompleteFor : HydrationDiscoveryCache where
  generations := Function.update cache.generations scope (some (cache.generation scope))
  completed := Function.update cache.completed { scope, mode, name, semanticFidelity }
    (some (cache.generation scope))

def markComplete : HydrationDiscoveryCache := cache.markCompleteFor scope mode name none

def invalidateScope : HydrationDiscoveryCache :=
  match cache.generations scope with
  | some generation =>
      { cache with generations := Function.update cache.generations scope (some (generation + 1)) }
  | none => cache

def invalidateRoot (rootIdentity : String) : HydrationDiscoveryCache :=
  (cache.invalidateScope ⟨.cbm, rootIdentity⟩).invalidateScope ⟨.filesystem, rootIdentity⟩

def invalidateAll : HydrationDiscoveryCache :=
  { cache with generations := fun scope => (cache.generations scope).map (· + 1) }

def advance (covered : DiscoveryScope → Prop) [DecidablePred covered] : HydrationDiscoveryCache :=
  { cache with generations := fun scope =>
      if covered scope then (cache.generations scope).map (· + 1) else cache.generations scope }

theorem invalidateAll_eq : cache.invalidateAll = cache.advance fun _ => True := by
  simp [invalidateAll, advance]

theorem invalidateScope_eq : cache.invalidateScope scope = cache.advance (· = scope) := by
  unfold invalidateScope advance
  cases hscope : cache.generations scope with
  | none =>
      refine congrArg (HydrationDiscoveryCache.mk · cache.completed) (funext fun other => ?_)
      split
      · next heq =>
        rw [heq, hscope]
        rfl
      · rfl
  | some generation =>
      refine congrArg (HydrationDiscoveryCache.mk · cache.completed) (funext fun other => ?_)
      by_cases heq : other = scope
      · rw [heq, Function.update_self, if_pos rfl, hscope]
        rfl
      · rw [Function.update_of_ne heq, if_neg heq]

theorem invalidateRoot_eq (rootIdentity : String) :
    cache.invalidateRoot rootIdentity = cache.advance (·.root = rootIdentity) := by
  rw [invalidateRoot, invalidateScope_eq, invalidateScope_eq]
  unfold advance
  congr
  funext ⟨provider, root⟩
  cases provider with
  | cbm => simp
  | filesystem => simp

end HydrationDiscoveryCache

structure DiscoveryRun where
  key : DiscoveryKey
  startedAt : Nat

structure DiscoverySession where
  cache : HydrationDiscoveryCache
  clock : Nat
  running : List DiscoveryRun
  completed : List DiscoveryRun
  invalidatedAt : DiscoveryScope → Nat

inductive DiscoveryEvent
  | start (key : DiscoveryKey)
  | complete (run : Nat)
  | fail (run : Nat)
  | invalidateRoot (rootIdentity : String)
  | invalidateAll

namespace DiscoverySession

def new : DiscoverySession where
  cache := .new
  clock := 1
  running := []
  completed := []
  invalidatedAt _ := 0

/-- The cache is invalidated on a set of scopes. -/
def invalidated (s : DiscoverySession) (cache : HydrationDiscoveryCache)
    (covered : DiscoveryScope → Prop) [DecidablePred covered] : DiscoverySession :=
  { s with
    cache
    clock := s.clock + 1
    invalidatedAt := fun scope => if covered scope then s.clock else s.invalidatedAt scope }

def step (s : DiscoverySession) : DiscoveryEvent → Option DiscoverySession
  | .start key =>
      some { s with
             clock := s.clock + 1
             running := s.running ++ [{ key, startedAt := s.clock }] }
  | .complete i =>
      s.running[i]?.map fun run =>
        { s with
          cache := s.cache.markCompleteFor run.key.scope run.key.mode run.key.name
            run.key.semanticFidelity
          running := s.running.eraseIdx i
          completed := s.completed ++ [run] }
  | .fail i => s.running[i]?.map fun _ => { s with running := s.running.eraseIdx i }
  | .invalidateRoot rootIdentity =>
      some (s.invalidated (s.cache.invalidateRoot rootIdentity) (·.root = rootIdentity))
  | .invalidateAll => some (s.invalidated s.cache.invalidateAll fun _ => True)

/-- A discovery of the key that started after the last invalidation of its scope has completed. -/
def Discovered (s : DiscoverySession) (key : DiscoveryKey) : Prop :=
  ∃ run ∈ s.completed, run.key = key ∧ s.invalidatedAt key.scope < run.startedAt

/-- What the cache calls complete is discovered. -/
def Current (s : DiscoverySession) : Prop :=
  ∀ scope mode name semanticFidelity,
    s.cache.isCompleteFor scope mode name semanticFidelity = true →
      s.Discovered { scope, mode, name, semanticFidelity }

/-- The next generation of a scope is the one at which an old discovery is recorded. -/
def Revives (s : DiscoverySession) (covered : DiscoveryScope → Prop) : Prop :=
  ∃ key generation, covered key.scope ∧ s.cache.generations key.scope = some generation ∧
    s.cache.completed key = some (generation + 1)

/-- A run completes that started before the last invalidation of its scope, and no other run of
its key has completed since; or an invalidation brings an old generation back. -/
def Outdated (s : DiscoverySession) : DiscoveryEvent → Prop
  | .complete i => ∃ run, s.running[i]? = some run ∧
      run.startedAt ≤ s.invalidatedAt run.key.scope ∧ ¬ s.Discovered run.key
  | .invalidateRoot rootIdentity => s.Revives (·.root = rootIdentity)
  | .invalidateAll => s.Revives fun _ => True
  | _ => False

/-- Recorded scopes have a generation, and nothing lies in the future. -/
structure Timed (s : DiscoverySession) : Prop where
  tracked : ∀ key, s.cache.completed key ≠ none → s.cache.generations key.scope ≠ none
  completed : ∀ run ∈ s.completed, run.startedAt < s.clock
  running : ∀ run ∈ s.running, run.startedAt < s.clock

variable {s s' : DiscoverySession} {event : DiscoveryEvent}

theorem timed_new : Timed new where
  tracked _ h := absurd rfl h
  completed _ h := absurd h List.not_mem_nil
  running _ h := absurd h List.not_mem_nil

theorem Timed.invalidated (h : Timed s) (covered : DiscoveryScope → Prop)
    [DecidablePred covered] : Timed (s.invalidated (s.cache.advance covered) covered) where
  tracked key hkey := by
    have hold := h.tracked key hkey
    change (if covered key.scope then _ else _) ≠ none
    split
    · simpa using hold
    · exact hold
  completed run hrun := Nat.lt_succ_of_lt (h.completed run hrun)
  running run hrun := Nat.lt_succ_of_lt (h.running run hrun)

theorem Timed.step (h : Timed s) (hstep : s.step event = some s') : Timed s' := by
  cases event with
  | start key =>
      cases hstep
      refine ⟨h.tracked, fun run hrun => Nat.lt_succ_of_lt (h.completed run hrun),
        fun run hrun => ?_⟩
      rcases List.mem_append.mp hrun with hrun | hrun
      · exact Nat.lt_succ_of_lt (h.running run hrun)
      · rw [List.mem_singleton.mp hrun]
        exact Nat.lt_succ_self s.clock
  | complete i =>
      obtain ⟨run, hrun, rfl⟩ := Option.map_eq_some_iff.mp hstep
      refine ⟨fun key hkey => ?_, fun other hother => ?_,
        fun other hother => h.running other (List.eraseIdx_subset hother)⟩
      · change Function.update s.cache.generations run.key.scope _ key.scope ≠ none
        by_cases heq : key.scope = run.key.scope
        · rw [heq, Function.update_self]
          exact Option.some_ne_none _
        · rw [Function.update_of_ne heq]
          refine h.tracked key fun hnone => hkey ?_
          change Function.update s.cache.completed _ _ key = none
          rw [Function.update_of_ne, hnone]
          rintro rfl
          exact heq rfl
      · rcases List.mem_append.mp hother with hother | hother
        · exact h.completed other hother
        · rw [List.mem_singleton.mp hother]
          exact h.running run (List.mem_of_getElem? hrun)
  | fail i =>
      obtain ⟨run, hrun, rfl⟩ := Option.map_eq_some_iff.mp hstep
      exact ⟨h.tracked, h.completed, fun other hother =>
        h.running other (List.eraseIdx_subset hother)⟩
  | invalidateRoot rootIdentity =>
      cases hstep
      rw [HydrationDiscoveryCache.invalidateRoot_eq]
      exact h.invalidated _
  | invalidateAll =>
      cases hstep
      rw [HydrationDiscoveryCache.invalidateAll_eq]
      exact h.invalidated _

theorem isCompleteFor_iff {cache : HydrationDiscoveryCache} (key : DiscoveryKey) :
    cache.isCompleteFor key.scope key.mode key.name key.semanticFidelity = true ↔
      cache.completed key = some (cache.generation key.scope) := by
  rw [HydrationDiscoveryCache.isCompleteFor, Option.any_eq_true]
  simp

theorem current_iff : Current s ↔ ∀ key,
    s.cache.completed key = some (s.cache.generation key.scope) → s.Discovered key := by
  constructor
  · exact fun h key hkey => h _ _ _ _ ((isCompleteFor_iff key).mpr hkey)
  · exact fun h scope mode name semanticFidelity hcomplete =>
      h _ ((isCompleteFor_iff { scope, mode, name, semanticFidelity }).mp hcomplete)

/-- An invalidation leaves the cache current exactly if it brings no old generation back. -/
theorem Current.invalidated (hcurrent : Current s) (h : Timed s) (covered : DiscoveryScope → Prop)
    [DecidablePred covered] :
    Current (s.invalidated (s.cache.advance covered) covered) ↔ ¬ s.Revives covered := by
  have hgeneration : ∀ scope, (s.cache.advance covered).generation scope =
      ((if covered scope then (s.cache.generations scope).map (· + 1)
        else s.cache.generations scope).getD 0) := fun _ => rfl
  rw [current_iff]
  constructor
  · rintro hall ⟨key, generation, hcovered, hold, hcompleted⟩
    obtain ⟨run, hrun, -, hafter⟩ := hall key (by
      rw [DiscoverySession.invalidated, hgeneration, if_pos hcovered, hold]
      exact hcompleted)
    have hlater : s.clock < run.startedAt := by
      have hat : (s.invalidated (s.cache.advance covered) covered).invalidatedAt key.scope =
          s.clock := if_pos hcovered
      rwa [hat] at hafter
    exact absurd (h.completed run hrun) (Nat.lt_asymm hlater)
  · intro hrevives key hkey
    rw [DiscoverySession.invalidated, hgeneration] at hkey
    by_cases hcovered : covered key.scope
    · rw [if_pos hcovered] at hkey
      cases hold : s.cache.generations key.scope with
      | none =>
          refine absurd hold (h.tracked key ?_)
          exact fun hnone => Option.some_ne_none _ (hkey.symm.trans hnone)
      | some generation =>
          rw [hold] at hkey
          exact absurd ⟨key, generation, hcovered, hold, hkey⟩ hrevives
    · rw [if_neg hcovered] at hkey
      obtain ⟨run, hrun, heq, hafter⟩ := current_iff.mp hcurrent key hkey
      refine ⟨run, hrun, heq, ?_⟩
      have hat : (s.invalidated (s.cache.advance covered) covered).invalidatedAt key.scope =
          s.invalidatedAt key.scope := if_neg hcovered
      rwa [hat]

theorem generation_markCompleteFor (cache : HydrationDiscoveryCache) (key : DiscoveryKey)
    (scope : DiscoveryScope) :
    (cache.markCompleteFor key.scope key.mode key.name key.semanticFidelity).generation scope =
      cache.generation scope := by
  change (Function.update cache.generations key.scope (some (cache.generation key.scope))
    scope).getD 0 = (cache.generations scope).getD 0
  by_cases heq : scope = key.scope
  · rw [heq, Function.update_self]
    rfl
  · rw [Function.update_of_ne heq]

/-- A completion leaves the cache current exactly if it is not outdated. -/
theorem Current.complete (hcurrent : Current s) {i : Nat} {run : DiscoveryRun}
    (hrun : s.running[i]? = some run) :
    Current { s with
      cache := s.cache.markCompleteFor run.key.scope run.key.mode run.key.name
        run.key.semanticFidelity
      running := s.running.eraseIdx i
      completed := s.completed ++ [run] } ↔ ¬ s.Outdated (.complete i) := by
  have hdiscovered : ∀ (cache : HydrationDiscoveryCache) (running : List DiscoveryRun) key,
      Discovered { s with cache, running, completed := s.completed ++ [run] } key ↔
        s.Discovered key ∨ run.key = key ∧ s.invalidatedAt key.scope < run.startedAt := by
    intro cache running key
    simp only [Discovered, List.mem_append, List.mem_singleton, or_and_right, exists_or,
      exists_eq_left]
  have hnot : ¬ s.Outdated (.complete i) ↔
      s.Discovered run.key ∨ s.invalidatedAt run.key.scope < run.startedAt := by
    constructor
    · intro hgood
      by_contra hnone
      obtain ⟨hnew, hold⟩ := not_or.mp hnone
      exact hgood ⟨run, hrun, not_lt.mp hold, hnew⟩
    · rintro hgood ⟨other, hother, hle, hnew⟩
      obtain rfl := Option.some.inj (hrun.symm.trans hother)
      exact hgood.elim hnew (not_lt.mpr hle)
  rw [hnot, current_iff]
  simp only [hdiscovered, generation_markCompleteFor]
  constructor
  · intro hall
    exact (hall run.key (Function.update_self ..)).imp_right And.right
  · intro hgood key hkey
    by_cases heq : run.key = key
    · subst heq
      exact hgood.imp_right (⟨rfl, ·⟩)
    · refine .inl (current_iff.mp hcurrent key ?_)
      exact (Function.update_of_ne (Ne.symm heq) ..).symm.trans hkey

theorem Current.step (hcurrent : Current s) (h : Timed s) (hstep : s.step event = some s') :
    Current s' ↔ ¬ s.Outdated event := by
  cases event with
  | start key =>
      cases hstep
      exact iff_of_true hcurrent id
  | fail i =>
      obtain ⟨run, -, rfl⟩ := Option.map_eq_some_iff.mp hstep
      exact iff_of_true hcurrent id
  | invalidateRoot rootIdentity =>
      cases hstep
      rw [HydrationDiscoveryCache.invalidateRoot_eq]
      exact hcurrent.invalidated h _
  | invalidateAll =>
      cases hstep
      rw [HydrationDiscoveryCache.invalidateAll_eq]
      exact hcurrent.invalidated h _
  | complete i =>
      obtain ⟨run, hrun, rfl⟩ := Option.map_eq_some_iff.mp hstep
      exact hcurrent.complete hrun

/-- The cache is current throughout a session exactly if no event of it is outdated. -/
theorem current_throughout_iff (events : List DiscoveryEvent) :
    Runs.Throughout step Current new events ↔
      Runs.Along step (fun s event => ¬ s.Outdated event) new events := by
  refine Runs.throughout_iff (fun _ _ _ h => h.step) (fun _ _ _ h hcurrent => hcurrent.step h)
    (fun s event hstuck => ?_) timed_new (fun _ _ _ _ h => ?_) events
  · cases event with
    | complete i =>
        rintro ⟨run, hrun, -⟩
        have hsome : s.step (.complete i) ≠ none := by
          simp [step, hrun]
        exact hsome hstuck
    | fail i => exact id
    | start key | invalidateRoot rootIdentity | invalidateAll => cases hstuck
  · cases h

/-- A root is invalidated while a discovery of it runs. -/
def overtakenKey : DiscoveryKey where
  scope := ⟨.filesystem, "/repo"⟩
  mode := .declaration
  name := "FooService"
  semanticFidelity := some .high

def overtaken : List DiscoveryEvent :=
  [.start overtakenKey, .complete 0, .start overtakenKey, .invalidateRoot "/repo", .complete 0]

theorem not_current_overtaken : ¬ Runs.Throughout step Current new overtaken := by
  intro h
  have hlast : Current ((Runs.run step new overtaken).getD new) := h.last rfl
  obtain ⟨run, hrun, -, hafter⟩ := hlast overtakenKey.scope overtakenKey.mode overtakenKey.name
    overtakenKey.semanticFidelity (by decide +kernel)
  have hbefore : ∀ run ∈ ((Runs.run step new overtaken).getD new).completed,
      run.startedAt ≤
        ((Runs.run step new overtaken).getD new).invalidatedAt overtakenKey.scope := by
    decide +kernel
  exact absurd hafter (not_lt.mpr (hbefore run hrun))

end DiscoverySession
end Mcp
end CleanCtx
