import CleanCtx.Cbm.CacheEntries

/-!
Which queries share a cache entry. An entry is kept under the project's slug and the key
of the query; on disk under the root registered for the slug, in front of both. So one
query is answered with what was cached for another exactly if the slugs of their roots
and their keys agree.
-/
namespace CleanCtx
namespace Cbm

open GraphBridge

/-! Slugs have no separator. -/

theorem staysInSlug_slugStep {out : Text × Bool} (h : ∀ c ∈ out.1, staysInSlug c = true)
    (d : Char) : ∀ c ∈ (slugStep out d).1, staysInSlug c = true := by
  have hconcat : ∀ e, staysInSlug e = true → ∀ c ∈ out.1 ++ [e], staysInSlug c = true := by
    intro e he c hc
    rcases List.mem_append.mp hc with hold | hnew
    · exact h c hold
    · rw [List.mem_singleton.mp hnew, he]
  unfold slugStep
  split
  · next hd => exact hconcat d hd
  · split
    · exact hconcat '-' (by decide)
    · split <;> exact h

theorem staysInSlug_foldl (text : Text) {out : Text × Bool}
    (h : ∀ c ∈ out.1, staysInSlug c = true) :
    ∀ c ∈ (text.foldl slugStep out).1, staysInSlug c = true := by
  induction text generalizing out with
  | nil => exact h
  | cons d text ih => exact ih (staysInSlug_slugStep h d)

theorem staysInSlug_of_mem {root : Text} {c : Char} (h : c ∈ cbmProjectSlug root) :
    staysInSlug c = true := by
  unfold cbmProjectSlug at h
  dsimp only at h
  split at h
  · have hdefault : "default".toList.all staysInSlug = true := by decide +kernel
    exact List.all_eq_true.mp hdefault c h
  · have hmem : c ∈ (root.foldl slugStep ([], false)).1 :=
      List.mem_reverse.mp ((List.dropWhile_suffix _).mem (List.mem_reverse.mp h))
    exact staysInSlug_foldl root (fun c hc => absurd hc List.not_mem_nil) c hmem

theorem colon_not_mem_slug (root : Text) : ':' ∉ cbmProjectSlug root :=
  fun h => absurd (staysInSlug_of_mem h) (by decide)

theorem diskKey_inj {project project' key key' : Text} (h : ':' ∉ project) (h' : ':' ∉ project')
    (heq : diskKey project key = diskKey project' key') : project = project' ∧ key = key' := by
  rcases List.append_eq_append_iff.mp heq with ⟨more, hmore, hrest⟩ | ⟨more, hmore, hrest⟩
  · cases more with
    | nil => exact ⟨by simpa using hmore.symm, (List.cons.inj hrest).2⟩
    | cons c more =>
        obtain ⟨rfl, -⟩ := List.cons.inj hrest
        exact absurd (hmore ▸ List.mem_append_right project List.mem_cons_self) h'
  · cases more with
    | nil => exact ⟨by simpa using hmore, (List.cons.inj hrest).2.symm⟩
    | cons c more =>
        obtain ⟨rfl, -⟩ := List.cons.inj hrest
        exact absurd (hmore ▸ List.mem_append_right project' List.mem_cons_self) h

/-! Keys. -/

/-- The queries that share a key: the two symbols of a trace are joined by a colon, and the depth of a
blast radius is no part of its key. -/
inductive SharesKey : GraphQuery → GraphQuery → Prop
  | same {query : GraphQuery} (hcached : query.cacheKey ≠ none) : SharesKey query query
  | depth (symbol : Text) (depth depth' : Nat) :
      SharesKey (.blastRadius symbol depth) (.blastRadius symbol depth')
  | trace {start target start' target' : Text} (h : start ≠ target) (h' : start' ≠ target')
      (heq : start ++ ':' :: target = start' ++ ':' :: target') :
      SharesKey (.tracePath start target) (.tracePath start' target')

def GraphQuery.mark : GraphQuery → Text
  | .symbolImportance => ['s', 'y']
  | .blastRadius _ _ => ['b', 'l']
  | .deadCode => ['d', 'e']
  | .callEdges => ['c', 'a']
  | .architecture => ['a', 'r']
  | .crossLanguageEndpoint _ => ['e', 'n']
  | .queryGraph _ => ['c', 'y']
  | .search _ => ['s', 'e']
  | .tracePath _ _ => ['t', 'r']

theorem cacheKey_tracePath {start target key : Text} :
    (GraphQuery.tracePath start target).cacheKey = some key ↔
      start ≠ target ∧ key = "trace:".toList ++ (start ++ ':' :: target) := by
  change (if start = target then none else some _) = some key ↔ _
  split
  · next heq => exact iff_of_false (fun h => nomatch h) fun h => h.1 heq
  · next hne => exact ⟨fun h => ⟨hne, (Option.some.inj h).symm⟩, fun h => congrArg some h.2.symm⟩

theorem mark_of_cacheKey {query : GraphQuery} {key : Text} (h : query.cacheKey = some key) :
    query.mark = key.take 2 := by
  cases query with
  | tracePath start target =>
      obtain ⟨-, rfl⟩ := cacheKey_tracePath.mp h
      rfl
  | _ =>
      cases h
      rfl

theorem sharesKey_iff {query query' : GraphQuery} : SharesKey query query' ↔
    ∃ key, query.cacheKey = some key ∧ query'.cacheKey = some key := by
  constructor
  · intro h
    cases h with
    | same hcached =>
        obtain ⟨key, hkey⟩ := Option.ne_none_iff_exists'.mp hcached
        exact ⟨key, hkey, hkey⟩
    | depth symbol depth depth' => exact ⟨_, rfl, rfl⟩
    | trace h h' heq =>
        exact ⟨_, cacheKey_tracePath.mpr ⟨h, rfl⟩, cacheKey_tracePath.mpr ⟨h', by rw [heq]⟩⟩
  · rintro ⟨key, hkey, hkey'⟩
    have hmark : query.mark = query'.mark :=
      (mark_of_cacheKey hkey).trans (mark_of_cacheKey hkey').symm
    -- Different operations have different marks; equal ones are compared by their arguments.
    cases query <;> cases query' <;> first
      | (simp [GraphQuery.mark] at hmark; done)
      | exact .same (by rw [hkey]; exact Option.some_ne_none key)
      | skip
    case blastRadius.blastRadius symbol depth symbol' depth' =>
      obtain rfl : symbol = symbol' :=
        List.append_cancel_left (Option.some.inj (hkey.trans hkey'.symm))
      exact .depth symbol depth depth'
    case crossLanguageEndpoint.crossLanguageEndpoint methodName methodName' =>
      obtain rfl : methodName = methodName' :=
        List.append_cancel_left (Option.some.inj (hkey.trans hkey'.symm))
      exact .same (by rw [hkey]; exact Option.some_ne_none key)
    case queryGraph.queryGraph cypher cypher' =>
      obtain rfl : cypher = cypher' :=
        List.append_cancel_left (Option.some.inj (hkey.trans hkey'.symm))
      exact .same (by rw [hkey]; exact Option.some_ne_none key)
    case search.search query query' =>
      obtain rfl : query = query' :=
        List.append_cancel_left (Option.some.inj (hkey.trans hkey'.symm))
      exact .same (by rw [hkey]; exact Option.some_ne_none key)
    case tracePath.tracePath start target start' target' =>
      obtain ⟨hne, heq⟩ := cacheKey_tracePath.mp hkey
      obtain ⟨hne', heq'⟩ := cacheKey_tracePath.mp hkey'
      exact .trace hne hne' (List.append_cancel_left (heq.symm.trans heq'))

/-! What the entries answer. -/

def Labels (project key : Text) (answer : Answer) : Prop :=
  (∀ root, answer.root = some root → cbmProjectSlug root = project) ∧
    answer.query.cacheKey = some key

def labelledEntry : EntryProperty := fun key answer => Labels key.project key.query answer

def labelledRow : RowProperty := fun place answer =>
  ∃ project key, ':' ∉ project ∧ place.2 = diskKey project key ∧ Labels project key answer

/-- Roots stand under their slugs, and entries under what they answer. -/
structure Labelled (b : GraphBridge) : Prop where
  paths : Every (fun project root => project = cbmProjectSlug root) b.projectPaths
  entries : Entries labelledEntry labelledRow b

namespace Labelled

variable {b b' : GraphBridge} {m : Moment} {s s' : Session}

theorem colon_not_mem (h : Labelled b) {project root : Text}
    (hroot : b.projectPaths.lookup project = some root) : ':' ∉ project := by
  rw [h.paths project root hroot]
  exact colon_not_mem_slug root

theorem linked (h : Labelled b) : Linked labelledEntry labelledRow b := by
  rintro project root key answer hroot ⟨project', key', hcolon, hkey, hlabels⟩
  obtain ⟨rfl, rfl⟩ := diskKey_inj (h.colon_not_mem hroot) hcolon hkey
  exact hlabels

theorem congr (h : Labelled b) (hcache : b'.cache = b.cache) (hdisk : b'.diskCache = b.diskCache)
    (hpaths : b'.projectPaths = b.projectPaths) : Labelled b' :=
  ⟨hpaths ▸ h.paths, h.entries.congr hcache hdisk⟩

theorem invalidateProjectCache (h : Labelled b) (m : Moment) (project : Text) :
    Labelled (b.invalidateProjectCache m project) :=
  ⟨h.paths, h.entries.invalidateProjectCache m project⟩

theorem ensureTracked (h : Labelled b) (m : Moment) (slug : Text) :
    Labelled (b.ensureTracked m slug) := by
  obtain ⟨states, heq⟩ := b.ensureTracked_eq m slug
  rw [heq]
  exact h.congr rfl rfl rfl

theorem insertCbmProject (h : Labelled b) (root : Text) : Labelled (b.insertCbmProject root) :=
  ⟨h.paths.insert rfl, h.entries.congr rfl rfl⟩

theorem setProject (h : Labelled b) (m : Moment) (project : Text) :
    Labelled (b.setProject m project) := by
  have hactive : Labelled { b with project := some (b.resolveProjectId m project) } :=
    h.congr rfl rfl rfl
  exact hactive.ensureTracked m _

theorem setWorkspaceRoot (h : Labelled b) (m : Moment) (root : Text) :
    Labelled (b.setWorkspaceRoot m root) := by
  unfold GraphBridge.setWorkspaceRoot
  dsimp only
  split
  · exact h
  · refine Labelled.ensureTracked ?_ m _
    split
    · exact h.congr rfl rfl rfl
    · exact (h.insertCbmProject _).congr rfl rfl rfl

theorem tryCreateWithRoots {disk : Option GraphCacheStore}
    (hdisk : ∀ rows, disk = some rows → Every (fun key row => labelledRow key row.data) rows)
    (m : Moment) (launched : Bool) (cacheTtl : Nat) (root : Text) (additional : List Text) :
    Labelled (GraphBridge.tryCreateWithRoots m launched cacheTtl disk root additional) := by
  have hroots : ∀ (roots : List Text) (b : GraphBridge), Labelled b → Labelled (roots.foldl
      (fun b extra => if (b.projectIds.lookup extra).isSome then b else b.insertCbmProject extra)
      b) := by
    intro roots
    induction roots with
    | nil => exact fun b h => h
    | cons extra roots ih =>
        intro b h
        refine ih _ ?_
        dsimp only
        split
        · exact h
        · exact h.insertCbmProject extra
  have hstart : ∀ (slugs : List Text) (b : GraphBridge), Labelled b →
      Labelled (slugs.foldl (fun b slug => b.startIndexingFor m slug) b) := by
    intro slugs
    induction slugs with
    | nil => exact fun b h => h
    | cons slug slugs ih => exact fun b h => ih _ (h.congr rfl rfl rfl)
  unfold GraphBridge.tryCreateWithRoots
  dsimp only
  split
  · refine hstart _ _ (hroots _ _ (insertCbmProject ?_ _))
    exact ⟨Every.empty, Every.empty, hdisk⟩
  · refine hroots _ _ (insertCbmProject ?_ _)
    exact ⟨Every.empty, Every.empty, hdisk⟩

theorem admits (h : Labelled s.bridge) {project : Text} {root : Option Text} {query : GraphQuery}
    (hroot : root.all (cbmProjectSlug · = project) = true) :
    Session.Admits labelledEntry labelledRow s project root query := by
  have hlabel : ∀ r, root = some r → cbmProjectSlug r = project := by
    rintro r rfl
    simpa using hroot
  exact ⟨fun key data hkey => ⟨hlabel, hkey⟩, fun key data place hkey hplace =>
    ⟨project, key, h.colon_not_mem hplace, rfl, hlabel, hkey⟩⟩

theorem askFor (h : Labelled s.bridge) {project : Text} {root : Option Text} {query : GraphQuery}
    (hask : s.askFor m project root query = some s') : Labelled s'.bridge := by
  unfold Session.askFor at hask
  split at hask
  · next hroot =>
    cases hask
    obtain ⟨hentries, hsame, -⟩ := Session.ask_spec h.entries h.linked (h.admits hroot) m
    exact ⟨hsame.paths ▸ h.paths, hentries⟩
  · cases hask

theorem lazyReindex (h : Labelled s.bridge) {project root : Text}
    (hreindex : s.lazyReindex m project root = .ok s') : Labelled s'.bridge := by
  rw [Session.lazyReindex_eq_ok hreindex]
  obtain ⟨freshness, hadvance⟩ := s.bridge.advanceIndexed_eq project
    (s.bridge.freshnessOf project).dirtyGeneration
  have hadvanced : Labelled (s.bridge.advanceIndexed project
      (s.bridge.freshnessOf project).dirtyGeneration) := by
    rw [hadvance]
    exact h.congr rfl rfl rfl
  exact hadvanced.invalidateProjectCache m project

theorem noteReady (project : Text) {gate : Except CbmError IndexingStatus × Session}
    (h : Labelled gate.2.bridge) : Labelled (Session.noteReady project gate).bridge := by
  unfold Session.noteReady
  split
  · split
    · exact h
    · exact h
  · exact h

theorem step (h : Labelled s.bridge) {event : Moment × Event}
    (hstep : s.step event = some s') : Labelled s'.bridge := by
  obtain ⟨m, event⟩ := event
  cases event with
  | markProjectDirty file =>
      cases hstep
      exact h.congr rfl rfl rfl
  | query root query => exact h.askFor hstep
  | queryGraphScoped root cypher project => exact h.askFor hstep
  | searchScoped root query project => exact h.askFor hstep
  | reindexActiveProject =>
      cases hstep
      cases hreindex : s.reindexActiveProject m with
      | ok next => exact h.lazyReindex hreindex
      | error e => exact h
  | reindexForFile file =>
      cases hstep
      cases hreindex : s.reindexForFile m file with
      | ok next =>
          obtain ⟨project, root, rfl⟩ := Session.reindexForFile_eq_ok hreindex
          exact h.invalidateProjectCache m project
      | error e => exact h
  | ensureIndexed =>
      cases hstep
      refine noteReady _ ?_
      obtain ⟨mid, states, hgate, ⟨rfl, -⟩ | ⟨hreindex, -⟩⟩ := s.ensureIndexed_cases m
      · rw [hgate]
        exact h.congr rfl rfl rfl
      · rw [hgate]
        exact (h.lazyReindex hreindex).congr rfl rfl rfl
  | ensureIndexedFor project =>
      cases hstep
      refine noteReady _ ?_
      obtain ⟨mid, states, hgate, ⟨rfl, -⟩ | ⟨root, -, hreindex, -⟩⟩ :=
        s.ensureIndexedFor_cases m project
      · rw [hgate]
        exact h.congr rfl rfl rfl
      · rw [hgate]
        exact (h.lazyReindex hreindex).congr rfl rfl rfl
  | setProject project =>
      cases hstep
      exact h.setProject m project
  | setWorkspaceRoot root =>
      cases hstep
      exact h.setWorkspaceRoot m root
  | invalidateCache =>
      cases hstep
      exact h.invalidateProjectCache m _
  | invalidateSymbol symbol =>
      cases hstep
      exact ⟨h.paths, h.entries.invalidateSymbol symbol⟩
  | indexerDone project result =>
      cases hstep
      obtain ⟨states, heq⟩ := s.bridge.indexerDone_eq project result
      rw [heq]
      exact h.congr rfl rfl rfl

end Labelled

/-- Sessions one after the other on one disk cache, which is empty at first, or without one. -/
inductive Lifetime : Session → Prop
  | create (m : Moment) (launched : Bool) (cacheTtl : Nat) {disk : Option GraphCacheStore}
      (hdisk : disk = none ∨ disk = some ∅) (root : Text) (additional : List Text) :
      Lifetime ⟨tryCreateWithRoots m launched cacheTtl disk root additional, []⟩
  | restart {s : Session} (h : Lifetime s) (m : Moment) (launched : Bool) (cacheTtl : Nat)
      (root : Text) (additional : List Text) :
      Lifetime ⟨tryCreateWithRoots m launched cacheTtl s.bridge.diskCache root additional, []⟩
  | step {s s' : Session} (h : Lifetime s) (event : Moment × Event)
      (hstep : s.step event = some s') : Lifetime s'

theorem Lifetime.labelled {s : Session} (h : Lifetime s) : Labelled s.bridge := by
  induction h with
  | create m launched cacheTtl hdisk root additional =>
      refine Labelled.tryCreateWithRoots (fun rows hrows => ?_) m launched cacheTtl root additional
      rcases hdisk with rfl | rfl
      · cases hrows
      · cases hrows
        exact Every.empty
  | restart h m launched cacheTtl root additional ih =>
      exact Labelled.tryCreateWithRoots ih.entries.disk m launched cacheTtl root additional
  | step h event hstep ih => exact ih.step hstep

/-! What a query is answered with. -/

def Event.asks : Event → Option (Text × GraphQuery)
  | .query (some root) asked => some (root, asked)
  | .queryGraphScoped (some root) cypher _ => some (root, .queryGraph cypher)
  | .searchScoped (some root) asked _ => some (root, .search asked)
  | _ => none

namespace Session

/-- What the cache answers to a query whose root, if it has one, is of the project. -/
def servedFor (s : Session) (m : Moment) (project : Text) (root : Option Text)
    (query : GraphQuery) : Option Answer :=
  if root.all (cbmProjectSlug · = project) then
    (s.keyRead query).bind fun key => (s.bridge.cachedValueFor m project key).1
  else none

def servedBy (s : Session) (event : Moment × Event) : Option Answer :=
  let m := event.1
  match event.2 with
  | .query root query => s.servedFor m s.bridge.projectStr root query
  | .queryGraphScoped root cypher project =>
      s.servedFor m (s.bridge.resolveProjectId m project) root (.queryGraph cypher)
  | .searchScoped root query project =>
      s.servedFor m (s.bridge.resolveProjectId m project) root (.search query)
  | _ => none

theorem servedFor_labels {s : Session} (h : Labelled s.bridge) {m : Moment} {project root : Text}
    {query : GraphQuery} {answer : Answer}
    (hserved : s.servedFor m project (some root) query = some answer) :
    cbmProjectSlug root = project ∧
      ∃ key, query.cacheKey = some key ∧ Labels project key answer := by
  unfold servedFor at hserved
  split at hserved
  · next hroot =>
    obtain ⟨key, hread, hanswer⟩ := Option.bind_eq_some_iff.mp hserved
    refine ⟨by simpa using hroot, key, ?_,
      (h.entries.cachedValueFor h.linked m project key).2 answer hanswer⟩
    unfold keyRead at hread
    split at hread
    · cases hread
    · exact hread
  · cases hserved

theorem servedBy_labels {s : Session} (h : Labelled s.bridge) {event : Moment × Event}
    {root : Text} {query : GraphQuery} {answer : Answer}
    (hasks : event.2.asks = some (root, query)) (hserved : s.servedBy event = some answer) :
    ∃ key, query.cacheKey = some key ∧ Labels (cbmProjectSlug root) key answer := by
  obtain ⟨m, event⟩ := event
  have hlabels : ∀ project query', (root, query') = (root, query) →
      s.servedFor m project (some root) query' = some answer →
      ∃ key, query.cacheKey = some key ∧ Labels (cbmProjectSlug root) key answer := by
    intro project query' heq hfor
    obtain ⟨rfl, key, hkey, hanswer⟩ := servedFor_labels h hfor
    obtain ⟨-, rfl⟩ := Prod.mk.inj heq
    exact ⟨key, hkey, hanswer⟩
  unfold Event.asks at hasks
  split at hasks <;> cases hasks
  · next heq =>
    cases heq
    exact hlabels _ _ rfl hserved
  · next heq =>
    cases heq
    exact hlabels _ _ rfl hserved
  · next heq =>
    cases heq
    exact hlabels _ _ rfl hserved

end Session

/-- At some time the query about the root is answered with what was cached for the other. -/
def Confuses (root : Text) (query : GraphQuery) (root' : Text) (query' : GraphQuery) : Prop :=
  ∃ s event answer, Lifetime s ∧ event.2.asks = some (root, query) ∧
    s.servedBy event = some answer ∧ answer.root = some root' ∧ answer.query = query'

/-- A moment at which no path is canonical and the process answers. -/
def answeringMoment : Moment where
  canonicalize _ := none
  instant := 0
  wall := 0
  diskFails := false
  reply := .ok .null
  clientStatus := .available

/-- A session of one root in which one query was answered. -/
def answeredSession (root : Text) (query : GraphQuery) (key : Text) : Session :=
  let b := tryCreateWithRoots answeringMoment true 1 none root []
  { bridge := (b.updateStatus answeringMoment).cacheInsertFor answeringMoment
      (cbmProjectSlug root) key ⟨.null, some root, query, 0⟩
    log := [] }

theorem Session.keyRead_of_available {s : Session} (h : s.bridge.isAvailable = true)
    (query : GraphQuery) : s.keyRead query = query.cacheKey := by
  have hskip : s.isSkipped query = false := by
    unfold Session.isSkipped
    split
    · rw [h]
      rfl
    · rfl
  rw [Session.keyRead, hskip]
  rfl

theorem lifetime_answeredSession {root key : Text} {query : GraphQuery}
    (hkey : query.cacheKey = some key) : Lifetime (answeredSession root query key) := by
  refine (Lifetime.create answeringMoment true 1 (.inl rfl) root []).step
    (answeringMoment, .query (some root) query) ?_
  have hroot : (some root).all (cbmProjectSlug · = cbmProjectSlug root) = true := by simp
  change Session.askFor _ answeringMoment (cbmProjectSlug root) (some root) query = _
  rw [Session.askFor, if_pos hroot]
  refine congrArg some ?_
  have hread : Session.keyRead
      ⟨tryCreateWithRoots answeringMoment true 1 none root [], []⟩ query = some key :=
    (Session.keyRead_of_available rfl query).trans hkey
  unfold Session.ask
  rw [hread]
  rfl

/-- Shared entries are confused: ask for the one root, then turn to the other. -/
theorem confuses_of_shared {root root' key : Text} {query query' : GraphQuery}
    (hslug : cbmProjectSlug root = cbmProjectSlug root') (hkey : query.cacheKey = some key)
    (hkey' : query'.cacheKey = some key) : Confuses root query root' query' := by
  let s := answeredSession root' query' key
  let turned : Session := { s with bridge := s.bridge.setWorkspaceRoot answeringMoment root }
  have hlife : Lifetime turned :=
    (lifetime_answeredSession hkey').step (answeringMoment, .setWorkspaceRoot root) rfl
  have hslugOf : (s.bridge.projectIds.lookup root).getD (cbmProjectSlug root) =
      cbmProjectSlug root := by
    change ([(root', cbmProjectSlug root')].lookup root).getD _ = _
    by_cases heq : root = root'
    · simp [heq]
    · have hne : (root == root') = false := beq_false_of_ne heq
      simp [List.lookup_cons, hne]
  have hturned : turned.bridge.cache = s.bridge.cache ∧ turned.bridge.isAvailable = true ∧
      turned.bridge.projectStr = cbmProjectSlug root := by
    obtain ⟨heq, hsame⟩ | ⟨-, known, states, hknown, heq⟩ :=
      s.bridge.setWorkspaceRoot_cases answeringMoment root rfl
    · have hroot : root' = root := heq
      rw [show turned.bridge = s.bridge from hsame]
      exact ⟨rfl, rfl, congrArg cbmProjectSlug hroot⟩
    · rw [show turned.bridge = _ from heq]
      obtain ⟨rfl, -⟩ | ⟨rfl, -⟩ := hknown <;> exact ⟨rfl, rfl, hslugOf⟩
  obtain ⟨hcache, havailable, hproject⟩ := hturned
  refine ⟨turned, (answeringMoment, .query (some root) query), ⟨.null, some root', query', 0⟩,
    hlife, rfl, ?_, rfl, rfl⟩
  change turned.servedFor answeringMoment turned.bridge.projectStr (some root) query = _
  have hroot : (some root).all (cbmProjectSlug · = turned.bridge.projectStr) = true := by
    simp [hproject]
  have hentry : turned.bridge.cache.lookup ⟨turned.bridge.projectStr, key⟩ =
      some ⟨⟨.null, some root', query', 0⟩, 1⟩ := by
    rw [hcache, hproject, hslug]
    exact Finmap.lookup_insert _
  rw [Session.servedFor, if_pos hroot, Session.keyRead_of_available havailable, hkey]
  change (turned.bridge.cachedValueFor answeringMoment turned.bridge.projectStr key).1 = _
  unfold GraphBridge.cachedValueFor
  rw [hentry]
  rfl

theorem confuses_iff {root root' : Text} {query query' : GraphQuery} :
    Confuses root query root' query' ↔
      cbmProjectSlug root = cbmProjectSlug root' ∧ SharesKey query query' := by
  constructor
  · rintro ⟨s, event, answer, hlife, hasks, hserved, hroot, rfl⟩
    obtain ⟨key, hkey, hlabel, hkey'⟩ := Session.servedBy_labels hlife.labelled hasks hserved
    exact ⟨(hlabel root' hroot).symm, sharesKey_iff.mpr ⟨key, hkey, hkey'⟩⟩
  · rintro ⟨hslug, hshares⟩
    obtain ⟨key, hkey, hkey'⟩ := sharesKey_iff.mp hshares
    exact confuses_of_shared hslug hkey hkey'

/-- Two queries are never confused, either way, exactly if not both the slugs of their roots and
their keys agree. -/
theorem neverConfused_iff (root : Text) (query : GraphQuery) (root' : Text)
    (query' : GraphQuery) :
    (¬ Confuses root query root' query' ∧ ¬ Confuses root' query' root query) ↔
      ¬ (cbmProjectSlug root = cbmProjectSlug root' ∧ SharesKey query query') := by
  have hsymm : Confuses root' query' root query ↔ Confuses root query root' query' := by
    simp only [confuses_iff, sharesKey_iff, eq_comm (a := cbmProjectSlug root'), and_comm]
  rw [hsymm, and_self, confuses_iff]

/-- A colon in a symbol moves the border between the two symbols of a trace, and a path that has a
dash where another has a separator has its slug. -/
theorem confuses_traces_and_roots :
    Confuses "/w".toList (.tracePath "a:b".toList "c".toList)
        "/w".toList (.tracePath "a".toList "b:c".toList) ∧
      Confuses "/a/b".toList .deadCode "/a-b".toList .deadCode := by
  refine ⟨confuses_iff.mpr ⟨rfl, ?_⟩, confuses_iff.mpr ⟨by decide, .same (by decide)⟩⟩
  exact SharesKey.trace (by decide) (by decide) rfl

end Cbm
end CleanCtx
