import CleanCtx.Cbm.Bridge
import CleanCtx.Library.Entries

/-!
What the operations of the bridge do to the entries of its cache. A property of entries
is a pair, for the entries in memory and for the rows on disk; the rows of a project
have to have what an entry of that project in memory has, for a row may become one.
-/
namespace CleanCtx
namespace Cbm

abbrev EntryProperty := GraphCacheKey → Answer → Prop

abbrev RowProperty := Text × Text → Answer → Prop

structure Entries (E : EntryProperty) (D : RowProperty) (b : GraphBridge) : Prop where
  memory : Every (fun key cached => E key cached.data) b.cache
  disk : ∀ disk, b.diskCache = some disk → Every (fun key row => D key row.data) disk

def Linked (E : EntryProperty) (D : RowProperty) (b : GraphBridge) : Prop :=
  ∀ project root key answer, b.projectPaths.lookup project = some root →
    D (root, GraphBridge.diskKey project key) answer → E ⟨project, key⟩ answer

/-- The two bridges know the same projects, with the same generations. -/
structure SameProjects (b b' : GraphBridge) : Prop where
  ids : b'.projectIds = b.projectIds
  paths : b'.projectPaths = b.projectPaths
  root : b'.projectRoot = b.projectRoot
  freshness : b'.freshness = b.freshness
  active : b'.project = b.project

theorem SameProjects.refl (b : GraphBridge) : SameProjects b b := ⟨rfl, rfl, rfl, rfl, rfl⟩

theorem SameProjects.trans {b b' b'' : GraphBridge} (h : SameProjects b b')
    (h' : SameProjects b' b'') : SameProjects b b'' :=
  ⟨h'.ids.trans h.ids, h'.paths.trans h.paths, h'.root.trans h.root,
    h'.freshness.trans h.freshness, h'.active.trans h.active⟩

variable {E : EntryProperty} {D : RowProperty} {b b' : GraphBridge} {m : Moment}
  {project key : Text}

namespace GraphBridge

/-! Reading. -/

theorem diskGet_entries {disk : GraphCacheStore} (h : Every (fun key row => D key row.data) disk)
    (root key : Text) : Every (fun key row => D key row.data) (diskGet m disk root key).2 := by
  unfold diskGet
  split
  · exact h
  · split
    · split
      · exact h
      · exact h.erase (root, key)
    · exact h

theorem diskGet_answer {disk : GraphCacheStore} (h : Every (fun key row => D key row.data) disk)
    {root key : Text} {answer : Answer} (ha : (diskGet m disk root key).1 = some answer) :
    D (root, key) answer := by
  unfold diskGet at ha
  split at ha
  · cases ha
  · split at ha
    · next row hrow =>
      split at ha
      · cases ha
        exact h (root, key) row hrow
      · cases ha
    · cases ha

theorem cachedValueFromDisk_same (b : GraphBridge) (m : Moment) (project key : Text) :
    SameProjects b (b.cachedValueFromDisk m project key).2 := by
  unfold cachedValueFromDisk
  split
  · split <;> exact ⟨rfl, rfl, rfl, rfl, rfl⟩
  · exact .refl b

theorem cachedValueFor_same (b : GraphBridge) (m : Moment) (project key : Text) :
    SameProjects b (b.cachedValueFor m project key).2 := by
  unfold cachedValueFor
  split
  · split
    · exact .refl b
    · have hread := cachedValueFromDisk_same
        { b with cache := b.cache.erase ⟨project, key⟩ } m project key
      exact ⟨hread.ids, hread.paths, hread.root, hread.freshness, hread.active⟩
  · exact cachedValueFromDisk_same b m project key

/-- What a lookup answers stands in memory afterwards. -/
theorem cachedValueFor_kept {b : GraphBridge} {m : Moment} {project key : Text} {answer : Answer}
    (h : (b.cachedValueFor m project key).1 = some answer) :
    ∃ expiresAt, (b.cachedValueFor m project key).2.cache.lookup ⟨project, key⟩ =
      some ⟨answer, expiresAt⟩ := by
  have hdisk : ∀ b : GraphBridge, (b.cachedValueFromDisk m project key).1 = some answer →
      ∃ expiresAt, (b.cachedValueFromDisk m project key).2.cache.lookup ⟨project, key⟩ =
        some ⟨answer, expiresAt⟩ := by
    intro b hfrom
    unfold cachedValueFromDisk at hfrom ⊢
    split at hfrom
    · split at hfrom
      · cases hfrom
        exact ⟨_, Finmap.lookup_insert _⟩
      · cases hfrom
    · cases hfrom
  unfold cachedValueFor at h ⊢
  split at h
  · next cached hcached =>
    split at h
    · next hvalid =>
      cases h
      simp only [hcached, if_pos hvalid]
      exact ⟨cached.expiresAt, rfl⟩
    · next hvalid =>
      rw [if_neg hvalid]
      exact hdisk _ h
  · exact hdisk b h

end GraphBridge

open GraphBridge

theorem Entries.cachedValueFromDisk (h : Entries E D b) (hlink : Linked E D b)
    (m : Moment) (project key : Text) :
    Entries E D (b.cachedValueFromDisk m project key).2 ∧
      ∀ answer, (b.cachedValueFromDisk m project key).1 = some answer →
        E ⟨project, key⟩ answer := by
  unfold GraphBridge.cachedValueFromDisk
  split
  · next disk root hdisk hroot =>
    have hentries := diskGet_entries (m := m) (h.disk disk hdisk) root (diskKey project key)
    have hanswer := @diskGet_answer D m disk (h.disk disk hdisk) root (diskKey project key)
    split
    · next data disk' heq =>
      rw [heq] at hentries hanswer
      have hE : E ⟨project, key⟩ data := hlink project root key data hroot (hanswer rfl)
      refine ⟨⟨h.memory.insert hE, fun d hd => ?_⟩, fun answer ha => ?_⟩
      · cases hd
        exact hentries
      · cases ha
        exact hE
    · next disk' heq =>
      rw [heq] at hentries
      refine ⟨⟨h.memory, fun d hd => ?_⟩, fun answer ha => nomatch ha⟩
      cases hd
      exact hentries
  · exact ⟨h, fun answer ha => nomatch ha⟩

/-- A lookup keeps the property, and the answer it gives has it. -/
theorem Entries.cachedValueFor (h : Entries E D b) (hlink : Linked E D b)
    (m : Moment) (project key : Text) :
    Entries E D (b.cachedValueFor m project key).2 ∧
      ∀ answer, (b.cachedValueFor m project key).1 = some answer → E ⟨project, key⟩ answer := by
  unfold GraphBridge.cachedValueFor
  split
  · next cached hcached =>
    split
    · refine ⟨h, fun answer ha => ?_⟩
      cases ha
      exact h.memory _ cached hcached
    · have herased : Entries E D { b with cache := b.cache.erase ⟨project, key⟩ } :=
        ⟨h.memory.erase _, h.disk⟩
      exact herased.cachedValueFromDisk hlink m project key
  · exact h.cachedValueFromDisk hlink m project key

/-! Writing and invalidation. -/

theorem Entries.cacheInsertFor (h : Entries E D b) {value : Answer} (hE : E ⟨project, key⟩ value)
    (hD : ∀ root, b.projectPaths.lookup project = some root →
      D (root, diskKey project key) value) (m : Moment) :
    Entries E D (b.cacheInsertFor m project key value) := by
  refine ⟨h.memory.insert hE, fun disk hdisk => ?_⟩
  obtain ⟨old, hold, rfl⟩ := Option.map_eq_some_iff.mp hdisk
  split
  · next root hroot =>
    split
    · exact h.disk old hold
    · exact (h.disk old hold).insert (hD root hroot)
  · exact h.disk old hold

theorem Entries.updateStatus (h : Entries E D b) (m : Moment) : Entries E D (b.updateStatus m) :=
  ⟨h.memory, h.disk⟩

theorem Entries.invalidateProjectCache (h : Entries E D b) (m : Moment) (project : Text) :
    Entries E D (b.invalidateProjectCache m project) := by
  refine ⟨(h.memory.retain _).mono fun _ _ => And.left, fun disk hdisk => ?_⟩
  obtain ⟨old, hold, rfl⟩ := Option.map_eq_some_iff.mp hdisk
  split
  · split
    · exact h.disk old hold
    · exact ((h.disk old hold).retain _).mono fun _ _ => And.left
  · exact h.disk old hold

/-- Nothing of a project is left when its identity resolves to itself and the disk obeys. -/
theorem Entries.invalidated {root : Text} (hid : b.resolveProjectId m project = project)
    (hroot : b.projectPaths.lookup project = some root)
    (hdisk : b.diskCache = none ∨ m.diskFails = false) :
    Entries (fun key _ => key.project ≠ project) (fun key _ => key.1 ≠ root)
      (b.invalidateProjectCache m project) := by
  refine ⟨fun key cached hkey => ?_, fun disk hsome => ?_⟩
  · rw [GraphBridge.invalidateProjectCache, hid, HashMap.lookup_retain] at hkey
    simpa [GraphCacheKey.belongsTo] using (Option.filter_eq_some_iff.mp hkey).2
  · obtain ⟨old, hold, rfl⟩ := Option.map_eq_some_iff.mp hsome
    have hobeys : m.diskFails = false := hdisk.resolve_left (by rw [hold]; exact Option.some_ne_none old)
    intro key row hkey
    rw [hid, hroot] at hkey
    simp only [hobeys, Bool.false_eq_true, if_false, HashMap.lookup_retain] at hkey
    simpa using (Option.filter_eq_some_iff.mp hkey).2

theorem Entries.invalidateSymbol (h : Entries E D b) (symbol : Text) :
    Entries E D (b.invalidateSymbol symbol) :=
  ⟨(h.memory.retain _).mono fun _ _ => And.left, h.disk⟩

theorem Entries.congr (h : Entries E D b) (hcache : b'.cache = b.cache)
    (hdisk : b'.diskCache = b.diskCache) : Entries E D b' :=
  ⟨hcache ▸ h.memory, fun disk hd => h.disk disk (hdisk ▸ hd)⟩

theorem Linked.congr (h : Linked E D b) (hpaths : b'.projectPaths = b.projectPaths) :
    Linked E D b' := by
  intro project root key answer hroot
  rw [hpaths] at hroot
  exact h project root key answer hroot

/-! The operations that only move the state of the indexing, and the lazy reindex. -/

theorem GraphBridge.ensureTracked_eq (b : GraphBridge) (m : Moment) (slug : Text) :
    ∃ states, b.ensureTracked m slug = { b with indexingState := states } := by
  unfold GraphBridge.ensureTracked
  split
  · exact ⟨_, rfl⟩
  · exact ⟨b.indexingState, rfl⟩

/-- Turning to a root changes nothing if it is the workspace root; else it becomes that, and is
registered if it was not. -/
theorem GraphBridge.setWorkspaceRoot_cases (b : GraphBridge) (m : Moment) (root : Text)
    {canon : Text} (hcanon : (m.canonicalize root).getD root = canon) :
    b.projectRoot = canon ∧ b.setWorkspaceRoot m root = b ∨
    b.projectRoot ≠ canon ∧ ∃ known states, (known = b ∧ (b.projectIds.lookup canon).isSome ∨
        known = b.insertCbmProject canon ∧ b.projectIds.lookup canon = none) ∧
      b.setWorkspaceRoot m root = { known with
        projectRoot := canon
        project := some ((b.projectIds.lookup canon).getD (cbmProjectSlug canon))
        indexingState := states } := by
  unfold GraphBridge.setWorkspaceRoot
  rw [hcanon]
  dsimp only
  split
  · next heq => exact .inl ⟨heq, rfl⟩
  · next hne =>
    refine .inr ⟨hne, ?_⟩
    split
    · next hknown =>
      obtain ⟨states, heq⟩ := ensureTracked_eq _ m _
      exact ⟨b, states, .inl ⟨rfl, hknown⟩, heq⟩
    · next hunknown =>
      obtain ⟨states, heq⟩ := ensureTracked_eq _ m _
      exact ⟨_, states, .inr ⟨rfl, Option.not_isSome_iff_eq_none.mp hunknown⟩, heq⟩

theorem GraphBridge.indexerDone_eq (b : GraphBridge) (project : Text)
    (result : Except String Unit) :
    ∃ states, b.indexerDone project result = { b with indexingState := states } := by
  cases result with
  | ok _ => exact ⟨_, rfl⟩
  | error _ => exact ⟨_, rfl⟩

theorem GraphBridge.advanceIndexed_eq (b : GraphBridge) (project : Text) (generation : Nat) :
    ∃ freshness, b.advanceIndexed project generation = { b with freshness := freshness } := by
  unfold GraphBridge.advanceIndexed
  split
  · exact ⟨_, rfl⟩
  · exact ⟨b.freshness, rfl⟩

namespace Session

def withStates (s : Session) (states : HashMap Text IndexingState) : Session :=
  { s with bridge := { s.bridge with indexingState := states } }

theorem indexingGate_eq (s : Session) (m : Moment) (project : Text) :
    ∃ states, (s.indexingGate m project).2 = s.withStates states := by
  unfold indexingGate
  dsimp only
  split
  · exact ⟨_, rfl⟩
  · split <;> exact ⟨_, rfl⟩
  · exact ⟨_, rfl⟩
  · exact ⟨_, rfl⟩

theorem otherGate_eq (s : Session) (m : Moment) (project : Text) :
    ∃ states, (s.otherGate m project).2 = s.withStates states := by
  unfold otherGate
  split
  · exact s.indexingGate_eq m project
  · exact ⟨s.bridge.indexingState, rfl⟩

theorem index_eq_ok {s s' : Session} {m : Moment} {root : Text} (h : s.index m root = .ok s') :
    s' = { s with log := .indexed root :: s.log } := by
  unfold index at h
  split at h
  · split at h
    · exact (Except.ok.inj h).symm
    · cases h
  · cases h

theorem lazyReindex_eq_ok {s s' : Session} {m : Moment} {project root : Text}
    (h : s.lazyReindex m project root = .ok s') :
    s' = ⟨(s.bridge.advanceIndexed project
        (s.bridge.freshnessOf project).dirtyGeneration).invalidateProjectCache m project,
      .indexed root :: s.log⟩ := by
  unfold lazyReindex at h
  cases hindex : s.index m root with
  | error e =>
      rw [hindex] at h
      cases h
  | ok mid =>
      rw [hindex] at h
      cases index_eq_ok hindex
      exact (Except.ok.inj h).symm

theorem reindexForFile_eq_ok {s s' : Session} {m : Moment} {file : Text}
    (h : s.reindexForFile m file = .ok s') :
    ∃ project root, s' = ⟨s.bridge.invalidateProjectCache m project, .indexed root :: s.log⟩ := by
  unfold reindexForFile at h
  split at h
  · generalize s.bridge.resolveProjectForFile m file = place at h
    obtain ⟨project, root⟩ := place
    dsimp only at h
    cases hindex : s.index m root with
    | error e =>
        rw [hindex] at h
        cases h
    | ok mid =>
        rw [hindex] at h
        cases index_eq_ok hindex
        exact ⟨project, root, (Except.ok.inj h).symm⟩
  · cases h

/-! Queries. -/

theorem fetch_log (s : Session) (m : Moment) (project key : Text) (root : Option Text)
    (query : GraphQuery) : (s.fetch m project key root query).log = s.log := by
  unfold fetch
  dsimp only
  split
  · split <;> rfl
  · split <;> rfl

theorem fetch_same (s : Session) (m : Moment) (project key : Text) (root : Option Text)
    (query : GraphQuery) : SameProjects s.bridge (s.fetch m project key root query).bridge := by
  unfold fetch
  dsimp only
  split
  · split <;> exact ⟨rfl, rfl, rfl, rfl, rfl⟩
  · split <;> exact ⟨rfl, rfl, rfl, rfl, rfl⟩

/-- What a query may insert has the property. -/
structure Admits (E : EntryProperty) (D : RowProperty) (s : Session) (project : Text)
    (root : Option Text) (query : GraphQuery) : Prop where
  entry : ∀ key data, query.cacheKey = some key →
    E ⟨project, key⟩ ⟨data, root, query, s.log.length⟩
  row : ∀ key data place, query.cacheKey = some key →
    s.bridge.projectPaths.lookup project = some place →
      D (place, GraphBridge.diskKey project key) ⟨data, root, query, s.log.length⟩

theorem fetch_entries {s : Session} {root : Option Text} {query : GraphQuery}
    (h : Entries E D s.bridge) (hadmits : Admits E D s project root query)
    (hkey : query.cacheKey = some key) (m : Moment) :
    Entries E D (s.fetch m project key root query).bridge := by
  have hinsert : ∀ data, Entries E D (s.bridge.cacheInsertFor m project key
      ⟨data, root, query, s.log.length⟩) :=
    fun data => h.cacheInsertFor (hadmits.entry key data hkey)
      (fun place hplace => hadmits.row key data place hkey hplace) m
  have hupdated : ∀ data, Entries E D ((s.bridge.updateStatus m).cacheInsertFor m project key
      ⟨data, root, query, s.log.length⟩) :=
    fun data => (hinsert data).congr rfl rfl
  unfold fetch
  dsimp only
  split
  · split
    · exact hupdated _
    · exact hupdated _
    · exact h.updateStatus m
  · split
    · exact hinsert _
    · exact h

/-- A query keeps the property of entries and the projects; what it serves stands in memory. -/
theorem ask_spec {s : Session} {root : Option Text} {query : GraphQuery}
    (h : Entries E D s.bridge) (hlink : Linked E D s.bridge)
    (hadmits : Admits E D s project root query) (m : Moment) :
    Entries E D (s.ask m project root query).bridge ∧
      SameProjects s.bridge (s.ask m project root query).bridge ∧
      ((s.ask m project root query).log = s.log ∨ ∃ key answer expiresAt,
        (s.ask m project root query).bridge.cache.lookup ⟨project, key⟩ =
            some ⟨answer, expiresAt⟩ ∧
          (s.ask m project root query).log = .served project answer.stamp :: s.log) := by
  unfold ask
  split
  · exact ⟨h, .refl s.bridge, .inl rfl⟩
  · next key hread =>
    have hkey : query.cacheKey = some key := by
      unfold keyRead at hread
      split at hread
      · cases hread
      · exact hread
    have hsame := s.bridge.cachedValueFor_same m project key
    have hentries := (h.cachedValueFor hlink m project key).1
    split
    · next answer bridge heq =>
      have hkept : ∃ expiresAt, bridge.cache.lookup ⟨project, key⟩ = some ⟨answer, expiresAt⟩ := by
        have hread := @cachedValueFor_kept s.bridge m project key answer (by rw [heq])
        rwa [heq] at hread
      obtain ⟨expiresAt, hentry⟩ := hkept
      rw [heq] at hsame hentries
      exact ⟨hentries, hsame, .inr ⟨key, answer, expiresAt, hentry, rfl⟩⟩
    · next bridge heq =>
      rw [heq] at hsame hentries
      have hadmits' : Admits E D { s with bridge } project root query :=
        ⟨hadmits.entry, fun key data place hkey hplace =>
          hadmits.row key data place hkey (by rw [← hsame.paths]; exact hplace)⟩
      exact ⟨fetch_entries hentries hadmits' hkey m,
        hsame.trans (fetch_same { s with bridge } m project key root query),
        .inl (fetch_log { s with bridge } m project key root query)⟩

/-! The gates. -/

def gateRoot (s : Session) (project : Text) : Option Text :=
  if s.bridge.project = some project then some s.bridge.projectRoot
  else s.bridge.projectPaths.lookup project

theorem ensureIndexed_cases (s : Session) (m : Moment) :
    ∃ mid states, (s.ensureIndexed m).2 = mid.withStates states ∧
      (mid = s ∧ ((s.ensureIndexed m).1 = .ok .ready →
          s.bridge.isProjectDirty s.bridge.projectStr = false) ∨
        s.lazyReindex m s.bridge.projectStr s.bridge.projectRoot = .ok mid ∧
          s.bridge.isAvailable = true) := by
  unfold ensureIndexed
  split
  · next havailable =>
    split
    · split
      · next mid hmid =>
        obtain ⟨states, hstates⟩ := mid.indexingGate_eq m mid.bridge.projectStr
        exact ⟨mid, states, hstates, .inr ⟨hmid, havailable⟩⟩
      · exact ⟨s, s.bridge.indexingState, rfl, .inl ⟨rfl, fun h => nomatch h⟩⟩
    · next hclean =>
      obtain ⟨states, hstates⟩ := s.indexingGate_eq m s.bridge.projectStr
      exact ⟨s, states, hstates, .inl ⟨rfl, fun _ => Bool.eq_false_of_not_eq_true hclean⟩⟩
  · exact ⟨s, s.bridge.indexingState, rfl, .inl ⟨rfl, fun h => nomatch h⟩⟩

/-- A gate leaves the session as it was, up to indexing states, or it reindexes the project. When
it answers that a registered project is ready without that, the project was not dirty. -/
theorem ensureIndexedFor_cases (s : Session) (m : Moment) (project : Text) :
    ∃ mid states, (s.ensureIndexedFor m project).2 = mid.withStates states ∧
      (mid = s ∧ ((s.ensureIndexedFor m project).1 = .ok .ready →
          project ∈ s.bridge.projectPaths → s.bridge.isProjectDirty project = false) ∨
        ∃ root, s.gateRoot project = some root ∧ s.lazyReindex m project root = .ok mid ∧
          s.bridge.isAvailable = true) := by
  unfold ensureIndexedFor gateRoot
  split
  · next havailable =>
    split
    · next hactive =>
      have hname : s.bridge.projectStr = project := by rw [GraphBridge.projectStr, hactive]; rfl
      obtain ⟨mid, states, hmid, ⟨hsame, hready⟩ | ⟨hreindex, -⟩⟩ := s.ensureIndexed_cases m
      · exact ⟨mid, states, hmid, .inl ⟨hsame, fun h _ => hname ▸ hready h⟩⟩
      · rw [hname] at hreindex
        exact ⟨mid, states, hmid, .inr ⟨_, rfl, hreindex, havailable⟩⟩
    · split
      · split
        · next root hroot =>
          split
          · next mid hmid =>
            obtain ⟨states, hstates⟩ := mid.otherGate_eq m project
            exact ⟨mid, states, hstates, .inr ⟨root, hroot, hmid, havailable⟩⟩
          · exact ⟨s, s.bridge.indexingState, rfl, .inl ⟨rfl, fun h => nomatch h⟩⟩
        · next hnone =>
          obtain ⟨states, hstates⟩ := s.otherGate_eq m project
          refine ⟨s, states, hstates, .inl ⟨rfl, fun _ hmem => ?_⟩⟩
          exact absurd hmem (Finmap.lookup_eq_none.mp hnone)
      · next hclean =>
        obtain ⟨states, hstates⟩ := s.otherGate_eq m project
        exact ⟨s, states, hstates, .inl ⟨rfl, fun _ _ => Bool.eq_false_of_not_eq_true hclean⟩⟩
  · exact ⟨s, s.bridge.indexingState, rfl, .inl ⟨rfl, fun h => nomatch h⟩⟩

end Session

end Cbm
end CleanCtx
