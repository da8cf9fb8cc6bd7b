import Mathlib.Logic.Function.Basic
import CleanCtx.Library.Runs
import CleanCtx.Workspace.Index

/-!
The source cache of a session (`mcp/state/source_cache.rs`) for one file, while reads and
edits of it run beside each other. A read asks for the metadata, looks into the cache,
loads the bytes and stores them with that metadata, each under the lock or none; an edit
replaces the file and then invalidates. For no code to read, versions of the file are
numbered, an entry knows the version of its bytes, and a read the edits that were done
when it began.
-/
namespace CleanCtx
namespace Mcp

/-- `metadata.modified()` and `metadata.len()`. -/
structure FileStamp where
  mtime : Nat
  size : Nat
  deriving DecidableEq

structure FileVersion where
  content : String
  stamp : FileStamp

structure CacheEntry where
  content : String
  stamp : FileStamp
  version : Nat

/-- An absolute path keeps its spelling unless it steps up; `Path::components` drops dots. -/
def resolveCacheKey (canonicalize : String → Option String) (path : String) : String :=
  if path.toList.head? = some '/' ∧ ".." ∉ pathComponents path then path
  else (canonicalize path).getD path

/-- How far a `read_source` has come. -/
inductive ReadPhase
  | begun
  | statted (stamp : FileStamp)
  | missed (stamp : FileStamp)
  | loaded (stamp : FileStamp) (content : String) (version : Nat)
  | answered (content : String)
  | failed

/-- `after` are the edits whose invalidation was done when the read began. -/
structure Reader where
  path : String
  after : List Nat
  phase : ReadPhase

/-- The versions the file has had, the oldest first; edits by their version. -/
structure SourceSession where
  held : List FileVersion
  cache : String → Option CacheEntry
  readers : List Reader
  pending : List (String × Nat)
  completed : List Nat

inductive SourceEvent
  | start (path : String)
  | stat (reader : Nat)
  | look (reader : Nat)
  | load (reader : Nat)
  | store (reader : Nat)
  | fail (reader : Nat)
  | replace (path : String) (version : FileVersion)
  | invalidate (edit : Nat)

namespace SourceSession

def new (version : FileVersion) : SourceSession where
  held := [version]
  cache _ := none
  readers := []
  pending := []
  completed := []

def setPhase (s : SourceSession) (i : Nat) (r : Reader) (phase : ReadPhase) : SourceSession :=
  { s with readers := s.readers.set i { r with phase } }

variable (canonicalize : String → Option String) (s : SourceSession)

/-- Phase 1: an entry is valid with the metadata of the file. -/
def looked (path : String) (stamp : FileStamp) : ReadPhase :=
  match s.cache (resolveCacheKey canonicalize path) with
  | some entry => if entry.stamp = stamp then .answered entry.content else .missed stamp
  | none => .missed stamp

def insert (path : String) (entry : CacheEntry) : SourceSession :=
  { s with cache := Function.update s.cache (resolveCacheKey canonicalize path) (some entry) }

def invalidateSourceCache (path : String) : SourceSession :=
  { s with cache := Function.update s.cache (resolveCacheKey canonicalize path) none }

def step (event : SourceEvent) : Option SourceSession :=
  match event with
  | .start path => some { s with readers := s.readers ++ [⟨path, s.completed, .begun⟩] }
  | .stat i => s.readers[i]?.bind fun r =>
      match r.phase, s.held.getLast? with
      | .begun, some version => some (s.setPhase i r (.statted version.stamp))
      | _, _ => none
  | .look i => s.readers[i]?.bind fun r =>
      match r.phase with
      | .statted stamp => some (s.setPhase i r (s.looked canonicalize r.path stamp))
      | _ => none
  | .load i => s.readers[i]?.bind fun r =>
      match r.phase, s.held.getLast? with
      | .missed stamp, some version =>
          some (s.setPhase i r (.loaded stamp version.content (s.held.length - 1)))
      | _, _ => none
  | .store i => s.readers[i]?.bind fun r =>
      match r.phase with
      | .loaded stamp content version =>
          some ((s.setPhase i r (.answered content)).insert canonicalize r.path
            ⟨content, stamp, version⟩)
      | _ => none
  | .fail i => s.readers[i]?.bind fun r =>
      match r.phase with
      | .begun | .missed _ => some (s.setPhase i r .failed)
      | _ => none
  | .replace path version =>
      some { s with
             held := s.held ++ [version]
             pending := s.pending ++ [(path, s.held.length)] }
  | .invalidate i => s.pending[i]?.map fun edit =>
      { s.invalidateSourceCache canonicalize edit.1 with
        pending := s.pending.eraseIdx i
        completed := edit.2 :: s.completed }

def HeldSince (edit : Nat) (content : String) : Prop :=
  ∃ v version, edit ≤ v ∧ s.held[v]? = some version ∧ version.content = content

/-- No read is answered with bytes from before an edit that was done when it began. -/
def ServesCurrent : Prop :=
  ∀ r ∈ s.readers, ∀ content, r.phase = .answered content → ∀ e ∈ r.after, s.HeldSince e content

/-- The metadata of the file, or those with which a read that began after the edit will look. -/
def InUse (edit : Nat) (stamp : FileStamp) : Prop :=
  (∃ version, s.held.getLast? = some version ∧ version.stamp = stamp) ∨
    ∃ r ∈ s.readers, edit ∈ r.after ∧ r.phase = .statted stamp

/-- Bytes from before a completed edit come into the cache, stay in it under another spelling, or
are there already, with metadata that make them valid. -/
def Exposes : SourceEvent → Prop
  | .store i => ∃ r stamp content version, s.readers[i]? = some r ∧
      r.phase = .loaded stamp content version ∧
        ∃ e ∈ s.completed, version < e ∧ s.InUse e stamp
  | .replace _ version => ∃ key entry, s.cache key = some entry ∧ entry.stamp = version.stamp ∧
      ∃ e ∈ s.completed, entry.version < e
  | .invalidate i => ∃ edit, s.pending[i]? = some edit ∧ ∃ key entry,
      key ≠ resolveCacheKey canonicalize edit.1 ∧ s.cache key = some entry ∧
        entry.version < edit.2 ∧ s.InUse edit.2 entry.stamp
  | _ => False

/-- Entries hold the bytes of their version, and none from before a completed edit is valid. -/
structure Guarded : Prop where
  entries : ∀ key entry, s.cache key = some entry →
    (∃ version, s.held[entry.version]? = some version ∧ version.content = entry.content) ∧
      ∀ e ∈ s.completed, entry.version < e → ¬ s.InUse e entry.stamp
  loaded : ∀ r ∈ s.readers, ∀ stamp content v, r.phase = .loaded stamp content v →
    (∃ version, s.held[v]? = some version ∧ version.content = content) ∧ ∀ e ∈ r.after, e ≤ v
  pending : ∀ edit ∈ s.pending, edit.2 < s.held.length
  completed : ∀ e ∈ s.completed, e < s.held.length
  after : ∀ r ∈ s.readers, ∀ e ∈ r.after, e ∈ s.completed
  serves : s.ServesCurrent

variable {canonicalize s} {s' : SourceSession} {i : Nat} {r : Reader} {phase : ReadPhase}

theorem guarded_new (version : FileVersion) : Guarded (new version) where
  entries _ _ h := nomatch h
  loaded _ h := absurd h List.not_mem_nil
  pending _ h := absurd h List.not_mem_nil
  completed _ h := absurd h List.not_mem_nil
  after _ h := absurd h List.not_mem_nil
  serves _ h := absurd h List.not_mem_nil

/-! Moves of a read. -/

/-- A move brings no metadata into use but those of the file. -/
theorem inUse_of_setPhase
    (hstat : ∀ stamp, phase = .statted stamp →
      ∃ version, s.held.getLast? = some version ∧ version.stamp = stamp)
    {e : Nat} {stamp : FileStamp} (h : (s.setPhase i r phase).InUse e stamp) : s.InUse e stamp := by
  rcases h with hfile | ⟨other, hother, he, hphase⟩
  · exact .inl hfile
  · rcases List.mem_or_eq_of_mem_set hother with hold | rfl
    · exact .inr ⟨other, hold, he, hphase⟩
    · exact .inl (hstat stamp hphase)

theorem Guarded.setPhase (h : Guarded s) (hr : s.readers[i]? = some r)
    (hstat : ∀ stamp, phase = .statted stamp →
      ∃ version, s.held.getLast? = some version ∧ version.stamp = stamp)
    (hload : ∀ stamp content v, phase = .loaded stamp content v →
      (∃ version, s.held[v]? = some version ∧ version.content = content) ∧ ∀ e ∈ r.after, e ≤ v)
    (hanswer : ∀ content, phase = .answered content → ∀ e ∈ r.after, s.HeldSince e content) :
    Guarded (s.setPhase i r phase) := by
  have hmem : r ∈ s.readers := List.mem_of_getElem? hr
  refine ⟨fun key entry hentry => ?_, fun other hother => ?_, h.pending, h.completed,
    fun other hother => ?_, fun other hother => ?_⟩
  · obtain ⟨hheld, hstale⟩ := h.entries key entry hentry
    exact ⟨hheld, fun e he hlt huse => hstale e he hlt (inUse_of_setPhase hstat huse)⟩
  · rcases List.mem_or_eq_of_mem_set hother with hold | rfl
    · exact h.loaded other hold
    · exact hload
  · rcases List.mem_or_eq_of_mem_set hother with hold | rfl
    · exact h.after other hold
    · exact h.after r hmem
  · rcases List.mem_or_eq_of_mem_set hother with hold | rfl
    · exact h.serves other hold
    · exact hanswer

/-- What a look finds is valid, so it is not from before an edit done when the read began. -/
theorem Guarded.look (h : Guarded s) (hr : s.readers[i]? = some r) {stamp : FileStamp}
    (hphase : r.phase = .statted stamp) :
    Guarded (s.setPhase i r (s.looked canonicalize r.path stamp)) := by
  have hmem : r ∈ s.readers := List.mem_of_getElem? hr
  unfold looked
  split
  · next entry hentry =>
    split
    · next hvalid =>
      refine h.setPhase hr (fun _ hx => nomatch hx) (fun _ _ _ hx => nomatch hx) ?_
      rintro content hx e he
      cases hx
      obtain ⟨⟨version, hheld, hcontent⟩, hstale⟩ := h.entries _ entry hentry
      refine ⟨entry.version, version, ?_, hheld, hcontent⟩
      by_contra hlt
      exact hstale e (h.after r hmem e he) (Nat.lt_of_not_le hlt)
        (.inr ⟨r, hmem, he, by rw [hvalid, hphase]⟩)
    · exact h.setPhase hr (fun _ hx => nomatch hx) (fun _ _ _ hx => nomatch hx)
        fun _ hx => nomatch hx
  · exact h.setPhase hr (fun _ hx => nomatch hx) (fun _ _ _ hx => nomatch hx)
      fun _ hx => nomatch hx

theorem Guarded.insert (h : Guarded s) {path : String} {entry : CacheEntry}
    (hheld : ∃ version, s.held[entry.version]? = some version ∧ version.content = entry.content)
    (hfresh : ∀ e ∈ s.completed, entry.version < e → ¬ s.InUse e entry.stamp) :
    Guarded (s.insert canonicalize path entry) := by
  refine ⟨fun key other hother => ?_, h.loaded, h.pending, h.completed, h.after, h.serves⟩
  change Function.update s.cache _ (some entry) key = some other at hother
  by_cases hkey : key = resolveCacheKey canonicalize path
  · rw [hkey, Function.update_self] at hother
    cases hother
    exact ⟨hheld, hfresh⟩
  · rw [Function.update_of_ne hkey] at hother
    exact h.entries key other hother

theorem getElem?_concat_of_some {v : Nat} {version next : FileVersion} {held : List FileVersion}
    (h : held[v]? = some version) : (held ++ [next])[v]? = some version := by
  obtain ⟨hlt, -⟩ := List.getElem?_eq_some_iff.mp h
  rw [List.getElem?_append_left hlt, h]

theorem Guarded.replace (h : Guarded s) {path : String} {version : FileVersion}
    (hgood : ¬ s.Exposes canonicalize (.replace path version)) :
    Guarded { s with
      held := s.held ++ [version]
      pending := s.pending ++ [(path, s.held.length)] } := by
  have hlength : (s.held ++ [version]).length = s.held.length + 1 := List.length_append
  refine ⟨fun key entry hentry => ?_, fun r hr stamp content v hphase => ?_, fun edit hedit => ?_,
    fun e he => ?_, h.after, fun r hr content hphase e he => ?_⟩
  · obtain ⟨⟨old, hold, hcontent⟩, hstale⟩ := h.entries key entry hentry
    refine ⟨⟨old, getElem?_concat_of_some hold, hcontent⟩, fun e he hlt huse => ?_⟩
    rcases huse with ⟨last, hlast, hstamp⟩ | hreader
    · rw [List.getLast?_concat] at hlast
      cases hlast
      exact hgood ⟨key, entry, hentry, hstamp.symm, e, he, hlt⟩
    · exact hstale e he hlt (.inr hreader)
  · obtain ⟨⟨old, hold, hcontent⟩, hafter⟩ := h.loaded r hr stamp content v hphase
    exact ⟨⟨old, getElem?_concat_of_some hold, hcontent⟩, hafter⟩
  · rw [hlength]
    rcases List.mem_append.mp hedit with hold | hnew
    · exact Nat.lt_succ_of_lt (h.pending edit hold)
    · rw [List.mem_singleton.mp hnew]
      exact Nat.lt_succ_self _
  · rw [hlength]
    exact Nat.lt_succ_of_lt (h.completed e he)
  · obtain ⟨v, old, hle, hold, hcontent⟩ := h.serves r hr content hphase e he
    exact ⟨v, old, hle, getElem?_concat_of_some hold, hcontent⟩

theorem Guarded.invalidate (h : Guarded s) {edit : String × Nat}
    (hedit : s.pending[i]? = some edit)
    (hgood : ¬ s.Exposes canonicalize (.invalidate i)) :
    Guarded { s.invalidateSourceCache canonicalize edit.1 with
      pending := s.pending.eraseIdx i
      completed := edit.2 :: s.completed } := by
  refine ⟨fun key entry hentry => ?_, h.loaded, fun other hother =>
    h.pending other (List.eraseIdx_subset hother), fun e he => ?_,
    fun r hr e he => List.mem_cons_of_mem _ (h.after r hr e he), h.serves⟩
  · change Function.update s.cache _ none key = some entry at hentry
    by_cases hkey : key = resolveCacheKey canonicalize edit.1
    · rw [hkey, Function.update_self] at hentry
      cases hentry
    · rw [Function.update_of_ne hkey] at hentry
      obtain ⟨hheld, hstale⟩ := h.entries key entry hentry
      refine ⟨hheld, fun e he hlt huse => ?_⟩
      rcases List.mem_cons.mp he with rfl | hold
      · exact hgood ⟨edit, hedit, key, entry, hkey, hentry, hlt, huse⟩
      · exact hstale e hold hlt huse
  · rcases List.mem_cons.mp he with rfl | hold
    · exact h.pending edit (List.mem_of_getElem? hedit)
    · exact h.completed e hold

/-- A step that exposes no old bytes keeps the cache guarded. -/
theorem Guarded.step (h : Guarded s) {event : SourceEvent}
    (hgood : ¬ s.Exposes canonicalize event) (hstep : s.step canonicalize event = some s') :
    Guarded s' := by
  cases event with
  | start path =>
      cases hstep
      have hold : ∀ r ∈ s.readers ++ [⟨path, s.completed, .begun⟩],
          r ∈ s.readers ∨ r = ⟨path, s.completed, .begun⟩ := fun r hr =>
        (List.mem_append.mp hr).imp_right List.mem_singleton.mp
      refine ⟨fun key entry hentry => ?_, fun r hr => ?_, h.pending, h.completed, fun r hr => ?_,
        fun r hr => ?_⟩
      · obtain ⟨hheld, hstale⟩ := h.entries key entry hentry
        refine ⟨hheld, fun e he hlt huse => hstale e he hlt ?_⟩
        rcases huse with hfile | ⟨r, hr, hafter, hphase⟩
        · exact .inl hfile
        · obtain hr | rfl := hold r hr
          · exact .inr ⟨r, hr, hafter, hphase⟩
          · cases hphase
      · obtain hr | rfl := hold r hr
        · exact h.loaded r hr
        · exact fun _ _ _ hx => nomatch hx
      · obtain hr | rfl := hold r hr
        · exact h.after r hr
        · exact fun _ he => he
      · obtain hr | rfl := hold r hr
        · exact h.serves r hr
        · exact fun _ hx => nomatch hx
  | stat i =>
      obtain ⟨r, hr, hnext⟩ := Option.bind_eq_some_iff.mp hstep
      split at hnext
      · next version _ hlast =>
        cases hnext
        refine h.setPhase hr (fun stamp hx => ?_) (fun _ _ _ hx => nomatch hx)
          fun _ hx => nomatch hx
        cases hx
        exact ⟨version, hlast, rfl⟩
      · cases hnext
  | look i =>
      obtain ⟨r, hr, hnext⟩ := Option.bind_eq_some_iff.mp hstep
      split at hnext
      · next stamp hphase =>
        cases hnext
        exact h.look hr hphase
      · cases hnext
  | load i =>
      obtain ⟨r, hr, hnext⟩ := Option.bind_eq_some_iff.mp hstep
      split at hnext
      · next stamp version _ hlast =>
        cases hnext
        refine h.setPhase hr (fun _ hx => nomatch hx) (fun _ content v hx => ?_)
          fun _ hx => nomatch hx
        cases hx
        refine ⟨⟨version, by rw [← List.getLast?_eq_getElem?, hlast], rfl⟩, fun e he => ?_⟩
        have hlt := h.completed e (h.after r (List.mem_of_getElem? hr) e he)
        omega
      · cases hnext
  | store i =>
      obtain ⟨r, hr, hnext⟩ := Option.bind_eq_some_iff.mp hstep
      split at hnext
      · next stamp content version hphase =>
        cases hnext
        obtain ⟨hheld, hafter⟩ := h.loaded r (List.mem_of_getElem? hr) stamp content version hphase
        have hstat : ∀ other, ReadPhase.answered content = .statted other →
            ∃ version, s.held.getLast? = some version ∧ version.stamp = other :=
          fun _ hx => nomatch hx
        have hset : Guarded (s.setPhase i r (.answered content)) := by
          refine h.setPhase hr hstat (fun _ _ _ hx => nomatch hx) fun _ hx e he => ?_
          cases hx
          obtain ⟨held, hat, hcontent⟩ := hheld
          exact ⟨version, held, hafter e he, hat, hcontent⟩
        refine hset.insert hheld fun e he hlt huse => ?_
        exact hgood ⟨r, stamp, content, version, hr, hphase, e, he, hlt,
          inUse_of_setPhase hstat huse⟩
      · cases hnext
  | fail i =>
      obtain ⟨r, hr, hnext⟩ := Option.bind_eq_some_iff.mp hstep
      split at hnext <;> cases hnext <;>
        exact h.setPhase hr (fun _ hx => nomatch hx) (fun _ _ _ hx => nomatch hx)
          fun _ hx => nomatch hx
  | replace path version =>
      cases hstep
      exact h.replace hgood
  | invalidate i =>
      obtain ⟨edit, hedit, rfl⟩ := Option.map_eq_some_iff.mp hstep
      exact h.invalidate hedit hgood

/-- While no step exposes bytes from before a completed edit, no read is answered with any. -/
theorem servesCurrent_throughout (canonicalize : String → Option String) (version : FileVersion)
    (events : List SourceEvent) (hgood : Runs.Along (step canonicalize)
      (fun s event => ¬ s.Exposes canonicalize event) (new version) events) :
    Runs.Throughout (step canonicalize) ServesCurrent (new version) events :=
  Runs.throughout_along (fun _ _ _ h hgood hstep => h.step hgood hstep) (fun _ h => h.serves)
    (guarded_new version) hgood

def oldVersion : FileVersion := ⟨"old", ⟨0, 3⟩⟩

def newVersion : FileVersion := ⟨"new", ⟨0, 3⟩⟩

/-- The file is replaced and then read. -/
def readAfter : List SourceEvent :=
  [.replace "/f" newVersion, .invalidate 0, .start "/f", .stat 0, .look 0, .load 0, .store 0]

theorem servesCurrent_readAfter :
    Runs.Throughout (step fun _ => none) ServesCurrent (new oldVersion) readAfter := by
  refine servesCurrent_throughout (fun _ => none) oldVersion readAfter ?_
  refine ⟨fun ⟨_, _, hentry, _⟩ => (nomatch hentry), fun s hs => ?_⟩; cases hs
  refine ⟨fun ⟨_, _, _, _, _, hentry, _⟩ => (nomatch hentry), fun s hs => ?_⟩; cases hs
  refine ⟨id, fun s hs => ?_⟩; cases hs
  refine ⟨id, fun s hs => ?_⟩; cases hs
  refine ⟨id, fun s hs => ?_⟩; cases hs
  refine ⟨id, fun s hs => ?_⟩; cases hs
  -- What is stored is the version of the only edit.
  refine ⟨fun ⟨r, stamp, content, version, hr, hphase, e, he, hlt, _⟩ => ?_, fun _ _ => trivial⟩
  cases hr
  have hversion : version = 1 := (ReadPhase.loaded.inj hphase).2.2.symm
  rw [List.mem_singleton.mp he, hversion] at hlt
  exact absurd hlt (Nat.lt_irrefl 1)

/-- The reads of the first list load the old bytes before the edit and store them after it; those of
the second store them under a spelling that the edit does not use. -/
def lateStore : List SourceEvent :=
  [.start "/f", .stat 0, .look 0, .load 0, .replace "/f" newVersion, .invalidate 0, .store 0,
    .start "/f", .stat 1, .look 1]

def otherSpelling : List SourceEvent :=
  [.start "/./f", .stat 0, .look 0, .load 0, .store 0, .replace "/f" newVersion, .invalidate 0,
    .start "/./f", .stat 1, .look 1]

theorem not_servesCurrent : (∃ s, Runs.run (step fun _ => none) (new oldVersion) lateStore = some s ∧
      ¬ s.ServesCurrent) ∧
    ∃ s, Runs.run (step fun _ => none) (new oldVersion) otherSpelling = some s ∧
      ¬ s.ServesCurrent := by
  have hold : ∀ v version, 1 ≤ v → [oldVersion, newVersion][v]? = some version →
      version.content ≠ "old" := by
    rintro (_ | _ | v) version hv hat
    · cases hv
    · cases hat
      decide
    · cases hat
  refine ⟨⟨_, rfl, fun h => ?_⟩, ⟨_, rfl, fun h => ?_⟩⟩
  · obtain ⟨v, version, hv, hat, hcontent⟩ :=
      h ⟨"/f", [1], .answered "old"⟩ (List.mem_of_getElem? (i := 1) rfl) "old" rfl 1
        List.mem_cons_self
    exact hold v version hv hat hcontent
  · obtain ⟨v, version, hv, hat, hcontent⟩ :=
      h ⟨"/./f", [1], .answered "old"⟩ (List.mem_of_getElem? (i := 1) rfl) "old" rfl 1
        List.mem_cons_self
    exact hold v version hv hat hcontent

end SourceSession

end Mcp
end CleanCtx
