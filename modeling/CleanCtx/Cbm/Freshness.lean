import CleanCtx.Cbm.CacheEntries
import CleanCtx.Library.Runs

/-!
Readiness and freshness of the graph (`cbm/bridge/indexing.rs`). An edit raises the dirty
generation of its project; a gate that finds the project dirty indexes it, takes over the
generation and drops what was cached. The invariant says of every edit marked so far that
either its generation is above the indexed one, or its root was indexed since and what
the cache holds of the project was inserted since.
-/
namespace CleanCtx
namespace Cbm

open GraphBridge

/-- A list with a head splits at the head or behind it. -/
theorem cons_eq_append_cons_iff {α : Type} {x y : α} {l since earlier : List α} :
    x :: l = since ++ y :: earlier ↔ (since = [] ∧ x = y ∧ l = earlier) ∨
      ∃ rest, since = x :: rest ∧ l = rest ++ y :: earlier := by
  rw [List.cons_eq_append_iff]
  constructor
  · rintro (⟨hsince, heq⟩ | h)
    · exact .inl ⟨hsince, (List.cons.inj heq).1.symm, (List.cons.inj heq).2.symm⟩
    · exact .inr h
  · rintro (⟨hsince, heq, htail⟩ | h)
    · exact .inl ⟨hsince, by rw [heq, htail]⟩
    · exact .inr h

/-- Before a project was called ready, every edit marked for it was indexed in between, at its
root; the indexed generation covers it, and no answer of the project that was in the cache before
the edit is served after. The newest record comes first. -/
def Fresh (log : List Record) : Prop :=
  ∀ after project root n before, log = after ++ .ready project root n :: before →
    ∀ since root' g earlier, before = since ++ .marked project root' g :: earlier →
      .indexed root' ∈ since ∧ g ≤ n ∧
        ∀ stamp, .served project stamp ∈ after → earlier.length < stamp

theorem fresh_cons {x : Record} {log : List Record} (h : Fresh log)
    (hready : ∀ project root n, x = .ready project root n → ∀ since root' g earlier,
      log = since ++ .marked project root' g :: earlier → .indexed root' ∈ since ∧ g ≤ n)
    (hserved : ∀ project stamp, x = .served project stamp → ∀ after root n before,
      log = after ++ .ready project root n :: before → ∀ since root' g earlier,
      before = since ++ .marked project root' g :: earlier → earlier.length < stamp) :
    Fresh (x :: log) := by
  intro after project root n before hlog since root' g earlier hbefore
  obtain ⟨rfl, hx, rfl⟩ | ⟨rest, rfl, htail⟩ := cons_eq_append_cons_iff.mp hlog
  · obtain ⟨hindexed, hg⟩ := hready project root n hx since root' g earlier hbefore
    exact ⟨hindexed, hg, fun stamp hmem => absurd hmem List.not_mem_nil⟩
  · obtain ⟨hindexed, hg, hold⟩ := h rest project root n before htail since root' g earlier hbefore
    refine ⟨hindexed, hg, fun stamp hmem => ?_⟩
    rcases List.mem_cons.mp hmem with heq | hrest
    · exact hserved project stamp heq.symm rest root n before htail since root' g earlier hbefore
    · exact hold stamp hrest

/-- Roots and projects lead to each other, and one root is the workspace's. -/
structure Registered (b : GraphBridge) : Prop where
  slug : ∀ root project, b.projectIds.lookup root = some project → project = cbmProjectSlug root
  path : ∀ root project, b.projectIds.lookup root = some project →
    b.projectPaths.lookup project = some root
  back : ∀ project root, b.projectPaths.lookup project = some root →
    b.projectIds.lookup root = some project
  known : ∃ project, b.projectIds.lookup b.projectRoot = some project
  named : ∃ project, b.project = some project

def InsertedAfter (project root : Text) (n : Nat) (b : GraphBridge) : Prop :=
  Entries (fun key answer => key.project = project → n < answer.stamp)
    (fun place answer => place.1 = root → n < answer.stamp) b

/-- An edit whose generation is indexed was indexed since, and the cache is younger. -/
structure Trusted (s : Session) : Prop where
  registered : Registered s.bridge
  generations : ∀ project, (s.bridge.freshnessOf project).indexedGeneration ≤
    (s.bridge.freshnessOf project).dirtyGeneration
  marks : ∀ since project root g earlier, s.log = since ++ .marked project root g :: earlier →
    s.bridge.projectPaths.lookup project = some root ∧
      g ≤ (s.bridge.freshnessOf project).dirtyGeneration ∧
      (g ≤ (s.bridge.freshnessOf project).indexedGeneration →
        .indexed root ∈ since ∧ InsertedAfter project root earlier.length s.bridge)
  readiness : ∀ after project root n before, s.log = after ++ .ready project root n :: before →
    n ≤ (s.bridge.freshnessOf project).indexedGeneration ∧
      ∀ root' g, .marked project root' g ∈ before → g ≤ n
  fresh : Fresh s.log

variable {s s' : Session} {m : Moment} {b b' : GraphBridge} {project root : Text}

/-- What is read for the project comes from the rows of its root. -/
theorem insertedAfter_linked (hroot : b.projectPaths.lookup project = some root) (n : Nat) :
    Linked (fun key answer => key.project = project → n < answer.stamp)
      (fun place answer => place.1 = root → n < answer.stamp) b := by
  rintro other otherRoot key answer hother hrow rfl
  exact hrow (Option.some.inj (hother.symm.trans hroot))

theorem Registered.congr (h : Registered b) (hids : b'.projectIds = b.projectIds)
    (hpaths : b'.projectPaths = b.projectPaths)
    (hknown : ∃ project, b'.projectIds.lookup b'.projectRoot = some project)
    (hnamed : ∃ project, b'.project = some project) : Registered b' where
  slug root project hid := h.slug root project (hids ▸ hid)
  path root project hid := hpaths ▸ h.path root project (hids ▸ hid)
  back project root hroot := hids ▸ h.back project root (hpaths ▸ hroot)
  known := hknown
  named := hnamed

theorem Registered.same (h : Registered b) (hsame : SameProjects b b') : Registered b' :=
  h.congr hsame.ids hsame.paths (by rw [hsame.ids, hsame.root]; exact h.known)
    (by rw [hsame.active]; exact h.named)

/-- A change of the bridge that registers at most, moves no generation and adds no old entry. -/
theorem Trusted.bridge (h : Trusted s) (hregistered : Registered b')
    (hpaths : ∀ project root, s.bridge.projectPaths.lookup project = some root →
      b'.projectPaths.lookup project = some root)
    (hof : b'.freshnessOf = s.bridge.freshnessOf)
    (hentries : ∀ project root n, s.bridge.projectPaths.lookup project = some root →
      n < s.log.length → InsertedAfter project root n s.bridge → InsertedAfter project root n b') :
    Trusted ⟨b', s.log⟩ := by
  refine ⟨hregistered, hof ▸ h.generations, ?_, hof ▸ h.readiness, h.fresh⟩
  intro since project root g earlier hlog
  obtain ⟨hroot, hdirty, hindexed⟩ := h.marks since project root g earlier hlog
  refine ⟨hpaths project root hroot, hof ▸ hdirty, fun hg => ?_⟩
  obtain ⟨hmem, hafter⟩ := hindexed (hof ▸ hg)
  have hlength : earlier.length < s.log.length := by
    have hcount := congrArg List.length hlog
    simp only [List.length_append, List.length_cons] at hcount
    omega
  exact ⟨hmem, hentries project root earlier.length hroot hlength hafter⟩

/-- What is served is younger than every edit that was marked before a readiness answer. -/
theorem Trusted.served_young (h : Trusted s) {stamp : Nat}
    (hstamp : ∀ root n, s.bridge.projectPaths.lookup project = some root →
      InsertedAfter project root n s.bridge → n < stamp)
    {after before since earlier : List Record} {root root' : Text} {n g : Nat}
    (hlog : s.log = after ++ .ready project root n :: before)
    (hbefore : before = since ++ .marked project root' g :: earlier) : earlier.length < stamp := by
  obtain ⟨hn, hg⟩ := h.readiness after project root n before hlog
  have hle : g ≤ n := hg root' g (by rw [hbefore]; simp)
  obtain ⟨hroot, -, hindexed⟩ := h.marks (after ++ .ready project root n :: since) project root' g
    earlier (by rw [hlog, hbefore, List.append_assoc, List.cons_append])
  exact hstamp root' _ hroot (hindexed (hle.trans hn)).2

/-- Any other record than a mark or an answer of a gate is added; a served one has to be young. -/
theorem Trusted.record (h : Trusted s) {x : Record}
    (hmark : ∀ project root g, x ≠ .marked project root g)
    (hready : ∀ project root n, x ≠ .ready project root n)
    (hserved : ∀ project stamp, x = .served project stamp → ∀ root n,
      s.bridge.projectPaths.lookup project = some root →
        InsertedAfter project root n s.bridge → n < stamp) :
    Trusted { s with log := x :: s.log } := by
  refine ⟨h.registered, h.generations, ?_, ?_, fresh_cons h.fresh
    (fun project root n hx => absurd hx (hready project root n)) ?_⟩
  · intro since project root g earlier hlog
    obtain ⟨-, hx, -⟩ | ⟨rest, rfl, htail⟩ := cons_eq_append_cons_iff.mp hlog
    · exact absurd hx (hmark project root g)
    · obtain ⟨hroot, hdirty, hindexed⟩ := h.marks rest project root g earlier htail
      exact ⟨hroot, hdirty, fun hg => ⟨List.mem_cons_of_mem _ (hindexed hg).1, (hindexed hg).2⟩⟩
  · intro after project root n before hlog
    obtain ⟨-, hx, -⟩ | ⟨rest, -, htail⟩ := cons_eq_append_cons_iff.mp hlog
    · exact absurd hx (hready project root n)
    · exact h.readiness rest project root n before htail
  · intro project stamp hx after root n before hlog since root' g earlier hbefore
    exact h.served_young (hserved project stamp hx) hlog hbefore

theorem Trusted.indexed (h : Trusted s) (root : Text) :
    Trusted { s with log := .indexed root :: s.log } :=
  h.record (fun _ _ _ hx => nomatch hx) (fun _ _ _ hx => nomatch hx) fun _ _ hx => nomatch hx

theorem Trusted.served (h : Trusted s) {stamp : Nat}
    (hstamp : ∀ root n, s.bridge.projectPaths.lookup project = some root →
      InsertedAfter project root n s.bridge → n < stamp) :
    Trusted { s with log := .served project stamp :: s.log } := by
  refine h.record (fun _ _ _ hx => nomatch hx) (fun _ _ _ hx => nomatch hx) fun other _ hx => ?_
  obtain ⟨rfl, rfl⟩ := Record.served.inj hx
  exact hstamp

/-! The steps. -/

theorem Trusted.ask (h : Trusted s) (m : Moment) (project : Text) (label : Option Text)
    (query : GraphQuery) : Trusted (s.ask m project label query) := by
  have hnew : ∀ other root n, n < s.log.length →
      Session.Admits (fun key answer => key.project = other → n < answer.stamp)
        (fun place answer => place.1 = root → n < answer.stamp) s project label query :=
    fun _ _ _ hn => ⟨fun _ _ _ _ => hn, fun _ _ _ _ _ _ => hn⟩
  have htrivial : Entries (fun _ _ => True) (fun _ _ => True) s.bridge :=
    ⟨fun _ _ _ => trivial, fun _ _ _ _ _ => trivial⟩
  have hadmits : Session.Admits (fun _ _ => True) (fun _ _ => True) s project label query :=
    ⟨fun _ _ _ => trivial, fun _ _ _ _ _ => trivial⟩
  obtain ⟨-, hsame, hlog⟩ := Session.ask_spec htrivial (fun _ _ _ _ _ _ => trivial) hadmits m
  have hbridge : Trusted ⟨(s.ask m project label query).bridge, s.log⟩ := by
    refine h.bridge (h.registered.same hsame) (fun other root hroot => ?_) ?_ ?_
    · rw [hsame.paths]
      exact hroot
    · unfold freshnessOf
      rw [hsame.freshness]
    · exact fun other root n hroot hn hafter => (Session.ask_spec hafter
        (insertedAfter_linked hroot n) (hnew other root n hn) m).1
  rcases hlog with heq | ⟨key, answer, expiresAt, hentry, heq⟩
  · rw [← heq] at hbridge
    exact hbridge
  · have hserved : Trusted ⟨(s.ask m project label query).bridge,
        .served project answer.stamp :: s.log⟩ :=
      hbridge.served fun root n hroot hafter =>
        hafter.memory ⟨project, key⟩ ⟨answer, expiresAt⟩ hentry rfl
    rw [show s.ask m project label query = ⟨(s.ask m project label query).bridge,
      .served project answer.stamp :: s.log⟩ by rw [← heq]]
    exact hserved

/-- A change of the bridge that touches neither the cache nor the projects. -/
theorem Trusted.quiet (h : Trusted s) (hregistered : Registered b')
    (hpaths : b'.projectPaths = s.bridge.projectPaths)
    (hfreshness : b'.freshness = s.bridge.freshness) (hcache : b'.cache = s.bridge.cache)
    (hdisk : b'.diskCache = s.bridge.diskCache) : Trusted ⟨b', s.log⟩ := by
  refine h.bridge hregistered (fun project root hroot => hpaths ▸ hroot) ?_
    fun project root n _ _ hafter => hafter.congr hcache hdisk
  unfold freshnessOf
  rw [hfreshness]

theorem Trusted.withStates (h : Trusted s) (states : HashMap Text IndexingState) :
    Trusted (s.withStates states) :=
  h.quiet (h.registered.same ⟨rfl, rfl, rfl, rfl, rfl⟩) rfl rfl rfl rfl

theorem Trusted.invalidate (h : Trusted s) (m : Moment) (project : Text) :
    Trusted ⟨s.bridge.invalidateProjectCache m project, s.log⟩ :=
  h.bridge (h.registered.same ⟨rfl, rfl, rfl, rfl, rfl⟩) (fun _ _ hroot => hroot) rfl
    fun _ _ _ _ _ hafter => hafter.invalidateProjectCache m project

/-! Marks. -/

theorem mem_of_foldl_longest {root : Text} (roots : List Text) : ∀ best : Option Text,
    (roots.foldl (fun best root =>
      match best with
      | none => some root
      | some b => if byteLen b ≤ byteLen root then some root else some b) best) = some root →
    root ∈ roots ∨ best = some root := by
  induction roots with
  | nil => exact fun best h => .inr h
  | cons next roots ih =>
      intro best hbest
      rcases ih _ hbest with hmem | heq
      · exact .inl (List.mem_cons_of_mem _ hmem)
      · dsimp only at heq
        split at heq
        · cases heq
          exact .inl List.mem_cons_self
        · split at heq
          · cases heq
            exact .inl List.mem_cons_self
          · exact .inr heq

theorem longest_mem {roots : List Text} {root : Text} (h : longest roots = some root) :
    root ∈ roots :=
  (mem_of_foldl_longest roots none h).resolve_right (Option.some_ne_none root ·.symm)

theorem exists_lookup_of_mem {entries : List (Text × Text)} {root : Text}
    (h : root ∈ entries.map Prod.fst) : ∃ project, entries.lookup root = some project := by
  rw [← Option.ne_none_iff_exists']
  intro hnone
  obtain ⟨entry, hentry, rfl⟩ := List.mem_map.mp h
  simpa using List.lookup_eq_none_iff.mp hnone entry hentry

/-- The project of a file is registered at the root that the file is given. -/
theorem resolveProjectForFile_registered (h : Registered b) (m : Moment) (file : Text) :
    b.projectPaths.lookup (b.resolveProjectForFile m file).1 =
      some (b.resolveProjectForFile m file).2 := by
  have hknown : ∃ project,
      b.projectIds.lookup (b.resolveProjectForFile m file).2 = some project := by
    unfold resolveProjectForFile
    dsimp only
    cases hlongest : longest ((b.projectIds.map Prod.fst).filter
        (pathStartsWith ((m.canonicalize file).getD file))) with
    | none => exact h.known
    | some root => exact exists_lookup_of_mem (List.mem_filter.mp (longest_mem hlongest)).1
  obtain ⟨project, hproject⟩ := hknown
  have hname : (b.resolveProjectForFile m file).1 = project := by
    change (b.projectIds.lookup (b.resolveProjectForFile m file).2).getD b.projectStr = project
    rw [hproject]
    rfl
  rw [hname]
  exact h.path _ _ hproject

theorem freshnessOf_markDirty (b : GraphBridge) (project other : Text) :
    (b.markDirty project).freshnessOf other =
      if other = project then
        ⟨(b.freshnessOf project).dirtyGeneration + 1, (b.freshnessOf project).indexedGeneration⟩
      else b.freshnessOf other := by
  unfold markDirty
  change (Finmap.lookup other (Finmap.insert _ _ b.freshness)).getD ⟨0, 0⟩ = _
  split
  · next heq =>
    rw [heq, Finmap.lookup_insert]
    rfl
  · next hne =>
    rw [Finmap.lookup_insert_of_ne _ hne]
    rfl

theorem Trusted.mark (h : Trusted s) (m : Moment) (file : Text) :
    Trusted (s.markProjectDirty m file) := by
  have hplace := resolveProjectForFile_registered h.registered m file
  unfold Session.markProjectDirty
  generalize s.bridge.resolveProjectForFile m file = place at hplace
  obtain ⟨project, root⟩ := place
  dsimp only at hplace ⊢
  have hfresh := freshnessOf_markDirty s.bridge project
  have hindexed : ∀ other, ((s.bridge.markDirty project).freshnessOf other).indexedGeneration =
      (s.bridge.freshnessOf other).indexedGeneration := by
    intro other
    rw [hfresh]
    split
    · next heq => rw [heq]
    · rfl
  have hdirty : ∀ other, (s.bridge.freshnessOf other).dirtyGeneration ≤
      ((s.bridge.markDirty project).freshnessOf other).dirtyGeneration := by
    intro other
    rw [hfresh]
    split
    · next heq =>
      rw [heq]
      exact Nat.le_succ _
    · exact le_rfl
  have hraised : ((s.bridge.markDirty project).freshnessOf project).dirtyGeneration =
      (s.bridge.freshnessOf project).dirtyGeneration + 1 := by
    rw [hfresh, if_pos rfl]
  refine ⟨h.registered.congr rfl rfl h.registered.known h.registered.named, fun other => ?_, ?_,
    ?_, fresh_cons h.fresh (fun _ _ _ hx => nomatch hx) fun _ _ hx => nomatch hx⟩
  · rw [hindexed]
    exact (h.generations other).trans (hdirty other)
  · intro since other root' g earlier hlog
    obtain ⟨rfl, hx, rfl⟩ | ⟨rest, rfl, htail⟩ := cons_eq_append_cons_iff.mp hlog
    · obtain ⟨rfl, rfl, rfl⟩ := Record.marked.inj hx
      refine ⟨hplace, le_rfl, fun hle => ?_⟩
      rw [hraised, hindexed] at hle
      exact absurd (hle.trans (h.generations project)) (Nat.not_succ_le_self _)
    · obtain ⟨hroot, hle, hsince⟩ := h.marks rest other root' g earlier htail
      refine ⟨hroot, hle.trans (hdirty other), fun hg => ?_⟩
      rw [hindexed] at hg
      exact ⟨List.mem_cons_of_mem _ (hsince hg).1, (hsince hg).2.congr rfl rfl⟩
  · intro after other root' n before hlog
    obtain ⟨-, hx, -⟩ | ⟨rest, -, htail⟩ := cons_eq_append_cons_iff.mp hlog
    · cases hx
    · rw [hindexed]
      exact h.readiness rest other root' n before htail

/-! Reindexing. -/

theorem isProjectDirty_eq_false_iff : b.isProjectDirty project = false ↔
    (b.freshnessOf project).dirtyGeneration ≤ (b.freshnessOf project).indexedGeneration := by
  unfold isProjectDirty freshnessOf
  cases hentry : b.freshness.lookup project with
  | none => simp
  | some entry => simp

/-- The indexed generation becomes the dirty one. -/
theorem freshnessOf_advanceIndexed (b : GraphBridge) (project other : Text) :
    (b.advanceIndexed project (b.freshnessOf project).dirtyGeneration).freshnessOf other =
      if other = project then
        ⟨(b.freshnessOf project).dirtyGeneration, (b.freshnessOf project).dirtyGeneration⟩
      else b.freshnessOf other := by
  cases hentry : b.freshness.lookup project with
  | none =>
      have hof : b.freshnessOf project = ⟨0, 0⟩ := by rw [freshnessOf, hentry]; rfl
      have hsame : ∀ generation, b.advanceIndexed project generation = b := by
        intro generation
        unfold advanceIndexed
        rw [hentry]
      rw [hsame, hof]
      split
      · next heq => rw [heq, hof]
      · rfl
  | some entry =>
      have hof : b.freshnessOf project = entry := by rw [freshnessOf, hentry]; rfl
      rw [advanceIndexed, hentry, hof]
      change (Finmap.lookup other (Finmap.insert _ _ b.freshness)).getD ⟨0, 0⟩ = _
      split
      · next heq =>
        rw [heq, Finmap.lookup_insert]
        rfl
      · next hne =>
        rw [Finmap.lookup_insert_of_ne _ hne]
        rfl

theorem GraphBridge.advanceIndexed_same (b : GraphBridge) (project : Text) (generation : Nat) :
    (b.advanceIndexed project generation).projectIds = b.projectIds ∧
      (b.advanceIndexed project generation).projectPaths = b.projectPaths ∧
      (b.advanceIndexed project generation).projectRoot = b.projectRoot ∧
      (b.advanceIndexed project generation).project = b.project ∧
      (b.advanceIndexed project generation).cache = b.cache ∧
      (b.advanceIndexed project generation).diskCache = b.diskCache := by
  obtain ⟨freshness, heq⟩ := b.advanceIndexed_eq project generation
  rw [heq]
  exact ⟨rfl, rfl, rfl, rfl, rfl, rfl⟩

def Hits (b : GraphBridge) (m : Moment) (project root : Text) : Prop :=
  ∀ registered, b.projectPaths.lookup project = some registered →
    b.isProjectDirty project = true →
      registered = root ∧ b.resolveProjectId m project = project ∧
        (b.diskCache = none ∨ m.diskFails = false)

theorem Trusted.lazyReindex (h : Trusted s) (hhits : Hits s.bridge m project root)
    (hreindex : s.lazyReindex m project root = .ok s') : Trusted s' := by
  rw [Session.lazyReindex_eq_ok hreindex]
  have hfresh := freshnessOf_advanceIndexed s.bridge project
  obtain ⟨hids, hpaths, hroot, hnamed, hcache, hdisk⟩ := s.bridge.advanceIndexed_same project
    (s.bridge.freshnessOf project).dirtyGeneration
  generalize s.bridge.advanceIndexed project (s.bridge.freshnessOf project).dirtyGeneration = next
    at hfresh hids hpaths hroot hnamed hcache hdisk
  have hof : (next.invalidateProjectCache m project).freshnessOf = next.freshnessOf := rfl
  have hindexed : ∀ other, (s.bridge.freshnessOf other).indexedGeneration ≤
      (next.freshnessOf other).indexedGeneration := by
    intro other
    rw [hfresh]
    split
    · next heq =>
      rw [heq]
      exact h.generations project
    · exact le_rfl
  have hdirty : ∀ other, (next.freshnessOf other).dirtyGeneration =
      (s.bridge.freshnessOf other).dirtyGeneration := by
    intro other
    rw [hfresh]
    split
    · next heq => rw [heq]
    · rfl
  refine ⟨h.registered.congr hids hpaths ?_ ?_, fun other => ?_, ?_, ?_,
    fresh_cons h.fresh (fun _ _ _ hx => nomatch hx) fun _ _ hx => nomatch hx⟩
  · change ∃ project, next.projectIds.lookup next.projectRoot = some project
    rw [hids, hroot]
    exact h.registered.known
  · change ∃ active, next.project = some active
    rw [hnamed]
    exact h.registered.named
  · rw [hof, hfresh]
    split
    · exact le_rfl
    · exact h.generations other
  · intro since other root' g earlier hlog
    obtain ⟨-, hx, -⟩ | ⟨rest, rfl, htail⟩ := cons_eq_append_cons_iff.mp hlog
    · cases hx
    · obtain ⟨hplace, hle, hsince⟩ := h.marks rest other root' g earlier htail
      refine ⟨hpaths ▸ hplace, by rw [hof, hdirty]; exact hle, fun hg => ?_⟩
      by_cases hold : g ≤ (s.bridge.freshnessOf other).indexedGeneration
      · obtain ⟨hmem, hafter⟩ := hsince hold
        exact ⟨List.mem_cons_of_mem _ hmem,
          Entries.invalidateProjectCache (hafter.congr hcache hdisk) m project⟩
      · -- The generation was not indexed before, so the project is the one reindexed, and dirty.
        have heq : other = project := by
          by_contra hne
          rw [hof, hfresh, if_neg hne] at hg
          exact hold hg
        subst heq
        have hisDirty : s.bridge.isProjectDirty other = true := by
          rw [← Bool.not_eq_false, isProjectDirty_eq_false_iff]
          exact fun hclean => hold (hle.trans hclean)
        obtain ⟨rfl, hid, hobeys⟩ := hhits root' hplace hisDirty
        have hid' : next.resolveProjectId m other = other := by
          unfold resolveProjectId at hid ⊢
          rw [hids, hpaths]
          exact hid
        have hgone := Entries.invalidated hid' (hpaths ▸ hplace) (hdisk ▸ hobeys)
        exact ⟨List.mem_cons_self, ⟨hgone.memory.mono fun key _ hne heq => absurd heq hne,
          fun rows hrows => (hgone.disk rows hrows).mono fun place _ hne heq => absurd heq hne⟩⟩
  · intro after other root' n before hlog
    obtain ⟨-, hx, -⟩ | ⟨rest, -, htail⟩ := cons_eq_append_cons_iff.mp hlog
    · cases hx
    · obtain ⟨hn, hbefore⟩ := h.readiness rest other root' n before htail
      exact ⟨hn.trans (hindexed other), hbefore⟩

/-! Readiness. -/

theorem Trusted.ready (h : Trusted s) (hclean : s.bridge.isProjectDirty project = false)
    (root : Text) : Trusted ⟨s.bridge,
      .ready project root (s.bridge.freshnessOf project).indexedGeneration :: s.log⟩ := by
  rw [isProjectDirty_eq_false_iff] at hclean
  have hall : ∀ since root' g earlier, s.log = since ++ .marked project root' g :: earlier →
      .indexed root' ∈ since ∧ g ≤ (s.bridge.freshnessOf project).indexedGeneration := by
    intro since root' g earlier hlog
    obtain ⟨-, hle, hsince⟩ := h.marks since project root' g earlier hlog
    exact ⟨(hsince (hle.trans hclean)).1, hle.trans hclean⟩
  refine ⟨h.registered, h.generations, ?_, ?_, fresh_cons h.fresh ?_ fun _ _ hx => nomatch hx⟩
  · intro since other root' g earlier hlog
    obtain ⟨-, hx, -⟩ | ⟨rest, rfl, htail⟩ := cons_eq_append_cons_iff.mp hlog
    · cases hx
    · obtain ⟨hplace, hle, hsince⟩ := h.marks rest other root' g earlier htail
      exact ⟨hplace, hle, fun hg => ⟨List.mem_cons_of_mem _ (hsince hg).1, (hsince hg).2⟩⟩
  · intro after other root' n before hlog
    obtain ⟨-, hx, rfl⟩ | ⟨rest, -, htail⟩ := cons_eq_append_cons_iff.mp hlog
    · obtain ⟨rfl, rfl, rfl⟩ := Record.ready.inj hx
      refine ⟨le_rfl, fun root' g hmem => ?_⟩
      obtain ⟨since, earlier, hlog'⟩ := List.append_of_mem hmem
      exact (hall since root' g earlier hlog').2
    · exact h.readiness rest other root' n before htail
  · intro other root' n hx
    obtain ⟨rfl, rfl, rfl⟩ := Record.ready.inj hx
    exact hall

theorem Trusted.noteReady {gate : Except CbmError IndexingStatus × Session}
    (h : Trusted gate.2) (hclean : gate.1 = .ok .ready →
      project ∈ gate.2.bridge.projectPaths → gate.2.bridge.isProjectDirty project = false) :
    Trusted (Session.noteReady project gate) := by
  unfold Session.noteReady
  split
  · split
    · next root hroot =>
      refine h.ready (hclean rfl ?_) root
      exact Finmap.mem_of_lookup_eq_some hroot
    · exact h
  · exact h

/-! Registration. -/

theorem lookup_insertCbmProject (b : GraphBridge) (root other : Text) :
    (b.insertCbmProject root).projectIds.lookup other =
      if other = root then some (cbmProjectSlug root) else b.projectIds.lookup other := by
  have hfilter : ∀ entries : List (Text × Text),
      (entries.filter (·.1 ≠ root) ++ [(root, cbmProjectSlug root)]).lookup other =
        if other = root then some (cbmProjectSlug root) else entries.lookup other := by
    intro entries
    induction entries with
    | nil =>
        by_cases heq : other = root
        · simp [heq]
        · have hne : (other == root) = false := beq_false_of_ne heq
          simp [List.lookup_cons, hne, heq]
    | cons entry entries ih =>
        obtain ⟨key, project⟩ := entry
        by_cases hentry : key = root
        · rw [List.filter_cons_of_neg (by simpa using hentry), ih]
          split
          · rfl
          · next hne =>
            have hne' : (other == key) = false := beq_false_of_ne (hentry ▸ hne)
            simp [List.lookup_cons, hne']
        · rw [List.filter_cons_of_pos (by simpa using hentry), List.cons_append,
            List.lookup_cons, ih]
          cases hother : other == key with
          | true =>
              have heq : other = key := eq_of_beq hother
              simp [heq, hentry]
          | false => simp [List.lookup_cons, hother]
  exact hfilter b.projectIds

theorem Registered.insertCbmProject (h : Registered b)
    (hnew : b.projectIds.lookup root = none) (hslug : cbmProjectSlug root ∉ b.projectPaths) :
    Registered (b.insertCbmProject root) := by
  have hlookup := lookup_insertCbmProject b root
  have hpaths : ∀ project, (b.insertCbmProject root).projectPaths.lookup project =
      if project = cbmProjectSlug root then some root else b.projectPaths.lookup project := by
    intro project
    change Finmap.lookup project (Finmap.insert _ _ b.projectPaths) = _
    split
    · next heq => rw [heq, Finmap.lookup_insert]
    · next hne => exact Finmap.lookup_insert_of_ne _ hne
  have hother : ∀ project other, b.projectPaths.lookup project = some other →
      project ≠ cbmProjectSlug root := by
    rintro project other hplace rfl
    exact hslug (Finmap.mem_of_lookup_eq_some hplace)
  refine ⟨fun other project hid => ?_, fun other project hid => ?_, fun project other hplace => ?_,
    ?_, h.named⟩
  · rw [hlookup] at hid
    split at hid
    · next heq =>
      cases hid
      rw [heq]
    · exact h.slug other project hid
  · rw [hlookup] at hid
    rw [hpaths]
    split at hid
    · next heq =>
      cases hid
      rw [if_pos rfl, heq]
    · have hplace := h.path other project hid
      rw [if_neg (hother project other hplace), hplace]
  · rw [hpaths] at hplace
    rw [hlookup]
    split at hplace
    · next heq =>
      cases hplace
      rw [if_pos rfl, heq]
    · have hid := h.back project other hplace
      have hne : other ≠ root := by
        rintro rfl
        rw [hnew] at hid
        cases hid
      rw [if_neg hne, hid]
  · obtain ⟨project, hproject⟩ := h.known
    change ∃ project, (b.insertCbmProject root).projectIds.lookup b.projectRoot = some project
    rw [hlookup]
    split
    · exact ⟨_, rfl⟩
    · exact ⟨project, hproject⟩

/-- The root is new to the bridge, and its slug is another root's. -/
def TakesSlug (b : GraphBridge) (m : Moment) (root : Text) : Prop :=
  b.projectRoot ≠ (m.canonicalize root).getD root ∧
    b.projectIds.lookup ((m.canonicalize root).getD root) = none ∧
    cbmProjectSlug ((m.canonicalize root).getD root) ∈ b.projectPaths

theorem Trusted.setWorkspaceRoot (h : Trusted s) (hfree : ¬ TakesSlug s.bridge m root) :
    Trusted ⟨s.bridge.setWorkspaceRoot m root, s.log⟩ := by
  obtain ⟨-, heq⟩ | ⟨hne, known, states, ⟨rfl, hsome⟩ | ⟨rfl, hnone⟩, heq⟩ :=
    s.bridge.setWorkspaceRoot_cases m root rfl
  · rw [heq]
    exact h
  · rw [heq]
    exact h.quiet (h.registered.congr rfl rfl (Option.isSome_iff_exists.mp hsome) ⟨_, rfl⟩)
      rfl rfl rfl rfl
  · rw [heq]
    have hslug : cbmProjectSlug ((m.canonicalize root).getD root) ∉ s.bridge.projectPaths :=
      fun hmem => hfree ⟨hne, hnone, hmem⟩
    generalize (m.canonicalize root).getD root = canon at hne hnone hslug
    have hregistered := h.registered.insertCbmProject hnone hslug
    refine h.bridge (hregistered.congr rfl rfl ?_ ⟨_, rfl⟩) (fun project other hplace => ?_) rfl
      fun project other n _ _ hafter => hafter.congr rfl rfl
    · exact ⟨cbmProjectSlug canon, by rw [lookup_insertCbmProject, if_pos rfl]⟩
    · change Finmap.lookup project (Finmap.insert _ _ s.bridge.projectPaths) = _
      rw [Finmap.lookup_insert_of_ne, hplace]
      rintro rfl
      exact hslug (Finmap.mem_of_lookup_eq_some hplace)

theorem Trusted.setProject (h : Trusted s) (m : Moment) (project : Text) :
    Trusted ⟨s.bridge.setProject m project, s.log⟩ := by
  unfold GraphBridge.setProject
  obtain ⟨states, heq⟩ := ensureTracked_eq
    { s.bridge with project := some (s.bridge.resolveProjectId m project) } m
    (s.bridge.resolveProjectId m project)
  rw [heq]
  exact h.quiet (h.registered.congr rfl rfl h.registered.known ⟨_, rfl⟩) rfl rfl rfl rfl

/-! Runs. -/

def Answers (b : GraphBridge) (m : Moment) : Prop :=
  b.client = true ∧ ∃ data, m.reply = .ok data

/-- A due reindex does not hit its project, or a root is registered under another root's slug. -/
def Misdirects (s : Session) (event : Moment × Event) : Prop :=
  let m := event.1
  match event.2 with
  | .reindexActiveProject => Answers s.bridge m ∧
      ¬ Hits s.bridge m s.bridge.projectStr s.bridge.projectRoot
  | .ensureIndexed => s.bridge.isAvailable = true ∧ Answers s.bridge m ∧
      ¬ Hits s.bridge m s.bridge.projectStr s.bridge.projectRoot
  | .ensureIndexedFor project => s.bridge.isAvailable = true ∧ Answers s.bridge m ∧
      ∃ root, s.gateRoot project = some root ∧ ¬ Hits s.bridge m project root
  | .setWorkspaceRoot root => TakesSlug s.bridge m root
  | _ => False

theorem answers_of_lazyReindex (h : s.lazyReindex m project root = .ok s') :
    Answers s.bridge m := by
  unfold Session.lazyReindex Session.index at h
  split at h
  · next hclient =>
    split at h
    · next data hdata => exact ⟨hclient, data, hdata⟩
    · cases h
  · cases h

theorem clean_of_lazyReindex (h : s.lazyReindex m project root = .ok s') :
    s'.bridge.isProjectDirty project = false := by
  rw [Session.lazyReindex_eq_ok h, isProjectDirty_eq_false_iff]
  change ((s.bridge.advanceIndexed project _).freshnessOf project).dirtyGeneration ≤
    ((s.bridge.advanceIndexed project _).freshnessOf project).indexedGeneration
  rw [freshnessOf_advanceIndexed, if_pos rfl]

theorem Trusted.step (h : Trusted s) {event : Moment × Event} (hgood : ¬ Misdirects s event)
    (hstep : s.step event = some s') : Trusted s' := by
  obtain ⟨m, event⟩ := event
  have hask : ∀ project label query, s.askFor m project label query = some s' → Trusted s' := by
    intro project label query hask
    unfold Session.askFor at hask
    split at hask
    · cases hask
      exact h.ask m project label query
    · cases hask
  cases event with
  | markProjectDirty file =>
      cases hstep
      exact h.mark m file
  | query label query => exact hask _ label query hstep
  | queryGraphScoped label cypher project => exact hask _ label _ hstep
  | searchScoped label query project => exact hask _ label _ hstep
  | reindexActiveProject =>
      cases hstep
      cases hreindex : s.reindexActiveProject m with
      | ok next =>
          refine h.lazyReindex ?_ hreindex
          by_contra hmiss
          exact hgood ⟨answers_of_lazyReindex hreindex, hmiss⟩
      | error e => exact h
  | reindexForFile file =>
      cases hstep
      cases hreindex : s.reindexForFile m file with
      | ok next =>
          obtain ⟨project, root, rfl⟩ := Session.reindexForFile_eq_ok hreindex
          exact (h.invalidate m project).indexed root
      | error e => exact h
  | ensureIndexed =>
      cases hstep
      obtain ⟨mid, states, hgate, ⟨rfl, hready⟩ | ⟨hreindex, havailable⟩⟩ :=
        s.ensureIndexed_cases m
      · refine Trusted.noteReady (hgate ▸ h.withStates states) fun hanswer _ => ?_
        rw [hgate]
        exact hready hanswer
      · have hmid : Trusted mid := by
          refine h.lazyReindex ?_ hreindex
          by_contra hmiss
          exact hgood ⟨havailable, answers_of_lazyReindex hreindex, hmiss⟩
        refine Trusted.noteReady (hgate ▸ hmid.withStates states) fun _ _ => ?_
        rw [hgate]
        have hclean := clean_of_lazyReindex hreindex
        exact hclean
  | ensureIndexedFor project =>
      cases hstep
      obtain ⟨mid, states, hgate, ⟨rfl, hready⟩ | ⟨root, hroot, hreindex, havailable⟩⟩ :=
        s.ensureIndexedFor_cases m project
      · refine Trusted.noteReady (hgate ▸ h.withStates states) fun hanswer hmem => ?_
        rw [hgate] at hmem ⊢
        exact hready hanswer hmem
      · have hmid : Trusted mid := by
          refine h.lazyReindex ?_ hreindex
          by_contra hmiss
          exact hgood ⟨havailable, answers_of_lazyReindex hreindex, root, hroot, hmiss⟩
        refine Trusted.noteReady (hgate ▸ hmid.withStates states) fun _ _ => ?_
        rw [hgate]
        have hclean := clean_of_lazyReindex hreindex
        exact hclean
  | setProject project =>
      cases hstep
      exact h.setProject m project
  | setWorkspaceRoot root =>
      cases hstep
      exact h.setWorkspaceRoot hgood
  | invalidateCache =>
      cases hstep
      exact h.invalidate m _
  | invalidateSymbol symbol =>
      cases hstep
      exact h.bridge (h.registered.same ⟨rfl, rfl, rfl, rfl, rfl⟩) (fun _ _ hroot => hroot)
        rfl fun _ _ _ _ _ hafter => hafter.invalidateSymbol symbol
  | indexerDone project result =>
      cases hstep
      obtain ⟨states, heq⟩ := s.bridge.indexerDone_eq project result
      rw [heq]
      exact h.withStates states

/-! Creation. -/

def createdRoots (m : Moment) (projectRoot : Text) (additional : List Text) : List Text :=
  (m.canonicalize projectRoot).getD projectRoot :: additional.filterMap m.canonicalize

/-- No two roots have one slug. -/
def SlugsDiffer (roots : List Text) : Prop :=
  ∀ root ∈ roots, ∀ root' ∈ roots, cbmProjectSlug root = cbmProjectSlug root' → root = root'

theorem registered_foldl {roots : List Text} (hslugs : SlugsDiffer roots) :
    ∀ (extras : List Text) (b : GraphBridge), (∀ root ∈ extras, root ∈ roots) → Registered b →
      (∀ project root, b.projectPaths.lookup project = some root → root ∈ roots) →
      Registered (extras.foldl (fun b extra =>
        if (b.projectIds.lookup extra).isSome then b else b.insertCbmProject extra) b) := by
  intro extras
  induction extras with
  | nil => exact fun b _ h _ => h
  | cons extra extras ih =>
      intro b hextras h hknown
      have hrest := fun root hroot => hextras root (List.mem_cons_of_mem extra hroot)
      rw [List.foldl_cons]
      split
      · exact ih b hrest h hknown
      · next hsome =>
        have hnone := Option.not_isSome_iff_eq_none.mp hsome
        have hfree : cbmProjectSlug extra ∉ b.projectPaths := by
          intro hmem
          obtain ⟨root, hroot⟩ := Finmap.mem_iff.mp hmem
          have hid := h.back _ root hroot
          have heq := hslugs extra (hextras extra List.mem_cons_self) root (hknown _ root hroot)
            (h.slug root _ hid)
          rw [← heq, hnone] at hid
          cases hid
        refine ih _ hrest (h.insertCbmProject hnone hfree) fun project root hroot => ?_
        obtain ⟨-, rfl⟩ | ⟨-, hold⟩ := HashMap.lookup_insert_iff.mp hroot
        · exact hextras root List.mem_cons_self
        · exact hknown project root hold

theorem registered_tryCreate (m : Moment) (launched : Bool) (cacheTtl : Nat)
    (disk : Option GraphCacheStore) {projectRoot : Text} {additional : List Text}
    (hslugs : SlugsDiffer (createdRoots m projectRoot additional)) :
    Registered (tryCreateWithRoots m launched cacheTtl disk projectRoot additional) := by
  have hstart : ∀ (slugs : List Text) (b : GraphBridge), Registered b →
      Registered (slugs.foldl (fun b slug => b.startIndexingFor m slug) b) := by
    intro slugs
    induction slugs with
    | nil => exact fun b h => h
    | cons slug slugs ih => exact fun b h => ih _ (h.same ⟨rfl, rfl, rfl, rfl, rfl⟩)
  have hprimary : ∀ b : GraphBridge, b.projectIds = [] → b.projectPaths = ∅ →
      (∃ project, b.project = some project) → ∀ root, b.projectRoot = root →
        Registered (b.insertCbmProject root) := by
    rintro b hids hpaths hnamed root rfl
    have hlookup := lookup_insertCbmProject b b.projectRoot
    have hplace : ∀ project, (b.insertCbmProject b.projectRoot).projectPaths.lookup project =
        if project = cbmProjectSlug b.projectRoot then some b.projectRoot else none := by
      intro project
      change Finmap.lookup project (Finmap.insert _ _ b.projectPaths) = _
      split
      · next heq => rw [heq, Finmap.lookup_insert]
      · next hne => rw [Finmap.lookup_insert_of_ne _ hne, hpaths, Finmap.lookup_empty]
    have hid : ∀ root project,
        (b.insertCbmProject b.projectRoot).projectIds.lookup root = some project ↔
          root = b.projectRoot ∧ project = cbmProjectSlug b.projectRoot := by
      intro root project
      rw [hlookup, hids]
      by_cases heq : root = b.projectRoot
      · simp [heq, eq_comm]
      · simp [heq]
    refine ⟨fun root project h => ?_, fun root project h => ?_, fun project root h => ?_,
      ⟨_, (hid _ _).mpr ⟨rfl, rfl⟩⟩, hnamed⟩
    · obtain ⟨rfl, rfl⟩ := (hid root project).mp h
      rfl
    · obtain ⟨rfl, rfl⟩ := (hid root project).mp h
      rw [hplace, if_pos rfl]
    · rw [hplace] at h
      split at h
      · next heq =>
        cases h
        exact (hid _ _).mpr ⟨rfl, heq⟩
      · cases h
  have hroots := fun status => registered_foldl hslugs (additional.filterMap m.canonicalize) _
    (fun root hroot => List.mem_cons_of_mem _ hroot)
    (hprimary ⟨launched, ∅, status, cacheTtl,
      some (cbmProjectSlug ((m.canonicalize projectRoot).getD projectRoot)),
      (m.canonicalize projectRoot).getD projectRoot, disk, ∅, ∅, [], ∅⟩ rfl rfl ⟨_, rfl⟩ _ rfl)
    fun project root hroot => by
      obtain ⟨-, rfl⟩ | ⟨-, hold⟩ := HashMap.lookup_insert_iff.mp hroot
      · exact List.mem_cons_self
      · rw [Finmap.lookup_empty] at hold
        cases hold
  unfold tryCreateWithRoots
  dsimp only
  split
  · exact hstart _ _ (hroots .available)
  · exact hroots .unavailable

theorem freshness_tryCreate (m : Moment) (launched : Bool) (cacheTtl : Nat)
    (disk : Option GraphCacheStore) (projectRoot : Text) (additional : List Text) :
    (tryCreateWithRoots m launched cacheTtl disk projectRoot additional).freshness = ∅ := by
  have hroots : ∀ (extras : List Text) (b : GraphBridge), b.freshness = ∅ →
      (extras.foldl (fun b extra =>
        if (b.projectIds.lookup extra).isSome then b else b.insertCbmProject extra) b).freshness =
          ∅ := by
    intro extras
    induction extras with
    | nil => exact fun b h => h
    | cons extra extras ih =>
        intro b h
        rw [List.foldl_cons]
        split
        · exact ih b h
        · exact ih _ h
  have hstart : ∀ (slugs : List Text) (b : GraphBridge), b.freshness = ∅ →
      (slugs.foldl (fun b slug => b.startIndexingFor m slug) b).freshness = ∅ := by
    intro slugs
    induction slugs with
    | nil => exact fun b h => h
    | cons slug slugs ih => exact fun b h => ih _ h
  unfold tryCreateWithRoots
  dsimp only
  split
  · exact hstart _ _ (hroots _ _ rfl)
  · exact hroots _ _ rfl

theorem trusted_create (m : Moment) (launched : Bool) (cacheTtl : Nat)
    (disk : Option GraphCacheStore) {projectRoot : Text} {additional : List Text}
    (hslugs : SlugsDiffer (createdRoots m projectRoot additional)) :
    Trusted ⟨tryCreateWithRoots m launched cacheTtl disk projectRoot additional, []⟩ := by
  refine ⟨registered_tryCreate m launched cacheTtl disk hslugs, ?_, ?_, ?_, ?_⟩
  · intro project
    unfold freshnessOf
    rw [freshness_tryCreate, Finmap.lookup_empty]
    exact le_rfl
  · exact fun since project root g earlier hlog => by simp at hlog
  · exact fun after project root n before hlog => by simp at hlog
  · exact fun after project root n before hlog => by simp at hlog

/-- While no step misdirects a reindex, readiness answers are fresh. -/
theorem fresh_throughout (m : Moment) (launched : Bool) (cacheTtl : Nat)
    (disk : Option GraphCacheStore) (projectRoot : Text) (additional : List Text)
    (hslugs : SlugsDiffer (createdRoots m projectRoot additional)) (events : List (Moment × Event))
    (hgood : Runs.Along Session.step (fun s event => ¬ Misdirects s event)
      ⟨tryCreateWithRoots m launched cacheTtl disk projectRoot additional, []⟩ events) :
    Runs.Throughout Session.step (fun s => Fresh s.log)
      ⟨tryCreateWithRoots m launched cacheTtl disk projectRoot additional, []⟩ events :=
  Runs.throughout_along (fun _ _ _ h hstep => h.step hstep) (fun _ h => h.fresh)
    (trusted_create m launched cacheTtl disk hslugs) hgood

/-- Absolute paths are canonical, and the process answers. -/
def calmMoment : Moment where
  canonicalize path := if path.head? = some '/' then some path else none
  instant := 0
  wall := 0
  diskFails := false
  reply := .ok .null
  clientStatus := .available

def twoRoots : Session :=
  ⟨tryCreateWithRoots calmMoment true 3600 none "/a".toList ["/b".toList], []⟩

/-- A file of the second root is edited after that root was selected, and the gate is asked. -/
def editedAfter (selection : Event) : List (Moment × Event) :=
  [(calmMoment, .indexerDone "b".toList (.ok ())), (calmMoment, selection),
    (calmMoment, .markProjectDirty "/b/f".toList), (calmMoment, .ensureIndexed)]

theorem fresh_throughout_setWorkspaceRoot :
    Runs.Throughout Session.step (fun s => Fresh s.log) twoRoots
      (editedAfter (.setWorkspaceRoot "/b".toList)) := by
  refine fresh_throughout calmMoment true 3600 none "/a".toList ["/b".toList] ?_ _ ?_
  · unfold SlugsDiffer
    decide
  · refine ⟨id, fun s hs => ?_⟩
    cases hs
    refine ⟨fun htakes => absurd htakes.2.1 (by decide), fun s hs => ?_⟩
    cases hs
    refine ⟨id, fun s hs => ?_⟩
    cases hs
    refine ⟨fun hmisses => hmisses.2.2 fun registered hregistered _ => ?_, fun s hs => trivial⟩
    exact ⟨Option.some.inj (hregistered.symm.trans rfl), rfl, .inl rfl⟩

/-- Selected by name, the project is indexed at the root of the other one. -/
theorem not_fresh_setProject : ∃ s,
    Runs.run Session.step twoRoots (editedAfter (.setProject "b".toList)) = some s ∧
      ¬ Fresh s.log := by
  refine ⟨_, rfl, fun hfresh => ?_⟩
  have hindexed := (hfresh [] "b".toList "/b".toList 1 _ rfl [.indexed "/a".toList] "/b".toList 1
    [] rfl).1
  rcases List.mem_cons.mp hindexed with heq | hnil
  · exact absurd (Record.indexed.inj heq) (by decide)
  · exact absurd hnil List.not_mem_nil

end Cbm
end CleanCtx
