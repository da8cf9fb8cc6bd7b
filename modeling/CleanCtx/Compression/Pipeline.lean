import CleanCtx.Dictionary.Path
import CleanCtx.Edit.Intent

/-!
The compression of one file (`compression/pipeline.rs`) and the hash registry that it
consults (`cache.rs`). The hash of the contents is recorded before the steps that can fail.
A path is its text. The hash, the tokenizer, the parser with its queries and the rendering
of the captures are parameters; a notice is given by what its text is made of.
-/
namespace CleanCtx
namespace Compression

open Edit

/-- `fidelity as u8`. -/
def fidelityCode : Fidelity → Nat
  | .low => 0
  | .medium => 1
  | .high => 2
  | .edit => 3
  | .verbatim => 4

/-- What belongs to other crates or to the rendering of a file that was parsed. -/
structure Env (Language Captures : Type) where
  computeHash : String → String
  canonicalIdentityKey : String → String
  countTokens : String → Nat
  /-- The limit of the configuration, if there is one. -/
  checkFileSize : Option (UInt64 → Except String Unit)
  extension : String → String
  languageForExtension : String → Option Language
  runCapturePipeline : Language → String → Fidelity → Except String Captures
  render : Captures → String → Fidelity → String → String

/-- What the disk holds: a size, and the text if the file can be read. -/
structure SourceFile where
  size : UInt64
  text : Except String String

structure Call where
  file : String
  sourceOverride : Option String
  disk : Except String SourceFile
  fidelity : Fidelity

def maxFileBytes : UInt64 := 10 * 1024 * 1024

def maxRawTokenCountEntries : Nat := 10000

structure LocalStateCache where
  registry : HashMap String String
  /-- The token count of each hash, the oldest entry first. -/
  rawTokenCounts : List (String × Nat)

namespace LocalStateCache

def new : LocalStateCache := { registry := ∅, rawTokenCounts := [] }

/-- Whether the contents are not those that were seen last. -/
def updateAndVerify (cache : LocalStateCache) (cacheKey currentHash : String) :
    LocalStateCache × Bool :=
  if cache.registry.lookup cacheKey = some currentHash then (cache, false)
  else ({ cache with registry := cache.registry.insert cacheKey currentHash }, true)

def storeRawTokenCount (cache : LocalStateCache) (currentHash : String) (count : Nat) :
    LocalStateCache :=
  let kept :=
    if cache.rawTokenCounts.any (·.1 = currentHash) then
      cache.rawTokenCounts.filter (·.1 ≠ currentHash)
    else if maxRawTokenCountEntries ≤ cache.rawTokenCounts.length then
      cache.rawTokenCounts.tail
    else cache.rawTokenCounts
  { cache with rawTokenCounts := kept ++ [(currentHash, count)] }

def getRawTokenCount (cache : LocalStateCache) (currentHash : String) : Option Nat :=
  cache.rawTokenCounts.lookup currentHash

end LocalStateCache

structure Notice where
  pathAlias : String
  fidelity : Fidelity
  rawTokens : Nat
  compressedTokens : Nat
  deriving DecidableEq

inductive Answer
  | cacheHit (notice : Notice)
  | source (text : String)
  | full (output : String)
  deriving DecidableEq

structure Compressor where
  dict : PathDictionary
  cache : LocalStateCache

variable {Language Captures : Type} (env : Env Language Captures)

def readSource (call : Call) : Except String String :=
  match call.sourceOverride with
  | some source => .ok source
  | none => do
      let file ← call.disk
      match env.checkFileSize with
      | some check => check file.size
      | none =>
          if maxFileBytes < file.size then
            throw ("File too large (" ++ toString file.size ++ " bytes; max " ++
              toString maxFileBytes ++ " bytes). Use compress_workspace or the streaming " ++
              "variant for large files.")
      file.text

def cacheKey (file : String) (fidelity : Fidelity) : String :=
  file ++ "::" ++ toString (fidelityCode fidelity)

def cachedNotice (pathAlias : String) : String :=
  "// [CACHE_HIT] " ++ pathAlias ++ " unchanged. Use historic memory.\n"

def cachedAnswer (cache : LocalStateCache) (fidelity : Fidelity) (source currentHash : String)
    (pathAlias : String) : Answer :=
  if fidelity = .edit ∨ fidelity = .verbatim then .source source
  else
    .cacheHit
      { pathAlias, fidelity
        rawTokens := (cache.getRawTokenCount currentHash).getD (env.countTokens source)
        compressedTokens := env.countTokens (cachedNotice pathAlias) }

def compile (call : Call) (source : String) : Except String Captures :=
  match env.languageForExtension (env.extension call.file) with
  | none => .error ("Unsupported file extension: ." ++ env.extension call.file)
  | some language => env.runCapturePipeline language source call.fidelity

def compressFileWithSource (call : Call) (state : Compressor) :
    Except String Answer × Compressor :=
  match readSource env call with
  | .error error => (.error error, state)
  | .ok source =>
      let currentHash := env.computeHash source
      let (dict, pathAlias) :=
        state.dict.getOrCreateAlias call.file (env.canonicalIdentityKey call.file)
      let (cache, isModified) :=
        state.cache.updateAndVerify (cacheKey call.file call.fidelity) currentHash
      if isModified then
        match compile env call source with
        | .error error => (.error error, { dict, cache })
        | .ok captures =>
            (.ok (.full (env.render captures source call.fidelity pathAlias)),
              { dict, cache := cache.storeRawTokenCount currentHash (env.countTokens source) })
      else (.ok (cachedAnswer env cache call.fidelity source currentHash pathAlias), { dict, cache })

section Registry

theorem cacheKey_inj {file file' : String} {fidelity fidelity' : Fidelity} :
    cacheKey file fidelity = cacheKey file' fidelity' ↔ file = file' ∧ fidelity = fidelity' := by
  refine ⟨fun h => ?_, fun ⟨hfile, hfidelity⟩ => by rw [hfile, hfidelity]⟩
  have hlength : ∀ fidelity, (toString (fidelityCode fidelity)).toList.length = 1 := by
    intro fidelity
    cases fidelity <;> rfl
  have hchars := congrArg String.toList h
  simp only [cacheKey, String.toList_append] at hchars
  obtain ⟨hfront, hcode⟩ := List.append_inj' hchars ((hlength _).trans (hlength _).symm)
  refine ⟨String.toList_inj.mp (List.append_cancel_right hfront), ?_⟩
  revert hcode
  cases fidelity <;> cases fidelity' <;> decide

variable {cache : LocalStateCache} {key currentHash : String}

theorem updateAndVerify_lookup (cache : LocalStateCache) (key currentHash : String) :
    (cache.updateAndVerify key currentHash).1.registry.lookup key = some currentHash := by
  rw [LocalStateCache.updateAndVerify]
  split
  · next h => exact h
  · exact Finmap.lookup_insert _

theorem updateAndVerify_lookup_ne {other : String} (h : other ≠ key) :
    (cache.updateAndVerify key currentHash).1.registry.lookup other =
      cache.registry.lookup other := by
  rw [LocalStateCache.updateAndVerify]
  split
  · rfl
  · exact Finmap.lookup_insert_of_ne _ h

theorem updateAndVerify_modified :
    (cache.updateAndVerify key currentHash).2 = false ↔
      cache.registry.lookup key = some currentHash := by
  rw [LocalStateCache.updateAndVerify]
  split
  · next h => exact iff_of_true rfl h
  · next h => exact iff_of_false nofun h

end Registry

structure Entry where
  call : Call
  outcome : Except String Answer

/-- The compressor between two calls, and the calls so far, the latest one first. -/
structure Session where
  state : Compressor
  log : List Entry

namespace Session

def new (dict : PathDictionary) : Session := { state := { dict, cache := .new }, log := [] }

def step (session : Session) (call : Call) : Session :=
  let (outcome, state) := compressFileWithSource env call session.state
  { state, log := { call, outcome } :: session.log }

def run (dict : PathDictionary) (calls : List Call) : Session := calls.foldl (step env) (new dict)

end Session

section Notices

def concerning (file : String) (fidelity : Fidelity) (log : List Entry) : List Entry :=
  log.filter fun entry => entry.call.file = file ∧ entry.call.fidelity = fidelity ∧
    (readSource env entry.call).toOption.isSome

/-- Back through the notices, the contents were last answered in full, or by an error. -/
def Answered (source : String) : List Entry → Prop
  | [] => False
  | entry :: earlier =>
      readSource env entry.call = .ok source ∧
        ((∃ output, entry.outcome = .ok (.full output)) ∨
          (∃ error, entry.outcome = .error error) ∨
          (∃ notice, entry.outcome = .ok (.cacheHit notice)) ∧ Answered source earlier)

/-- A notice is given only where the last call had the same contents, and leads back to a call with
these contents that was answered in full or failed. -/
def Warranted (entry : Entry) (earlier : List Entry) : Prop :=
  ∀ notice, entry.outcome = .ok (.cacheHit notice) →
    ∃ source last rest, readSource env entry.call = .ok source ∧
      concerning env entry.call.file entry.call.fidelity earlier = last :: rest ∧
      readSource env last.call = .ok source ∧ Answered env source (last :: rest)

/-- No two of the contents have one hash. -/
def CollisionFree (calls : List Call) : Prop :=
  ∀ call ∈ calls, ∀ other ∈ calls, ∀ source found, readSource env call = .ok source →
    readSource env other = .ok found → env.computeHash source = env.computeHash found →
    source = found

/-- The registry has the hash of the last contents, and these were answered. -/
structure Recorded (calls : List Call) (session : Session) : Prop where
  calls : ∀ entry ∈ session.log, entry.call ∈ calls
  registry : ∀ file fidelity, session.state.cache.registry.lookup (cacheKey file fidelity) =
    (concerning env file fidelity session.log).head?.bind fun last =>
      (readSource env last.call).toOption.map env.computeHash
  answered : ∀ file fidelity last rest source, fidelity ≠ .edit → fidelity ≠ .verbatim →
    concerning env file fidelity session.log = last :: rest →
    readSource env last.call = .ok source → Answered env source (last :: rest)

variable {env} {calls : List Call} {session : Session} {call : Call} {entry : Entry}
  {log : List Entry} {file source : String} {fidelity : Fidelity}

theorem concerning_cons_of_error {error : String} (h : readSource env entry.call = .error error) :
    concerning env file fidelity (entry :: log) = concerning env file fidelity log := by
  rw [concerning, List.filter_cons_of_neg (by rw [h]; simp [Except.toOption])]
  rfl

theorem concerning_cons_of_ne (h : ¬(file = entry.call.file ∧ fidelity = entry.call.fidelity)) :
    concerning env file fidelity (entry :: log) = concerning env file fidelity log := by
  rw [concerning, List.filter_cons_of_neg]
  · rfl
  · intro hentry
    obtain ⟨hfile, hfidelity, -⟩ := of_decide_eq_true hentry
    exact h ⟨hfile.symm, hfidelity.symm⟩

theorem concerning_cons_self (h : readSource env entry.call = .ok source) :
    concerning env entry.call.file entry.call.fidelity (entry :: log) =
      entry :: concerning env entry.call.file entry.call.fidelity log := by
  rw [concerning, List.filter_cons_of_pos (by rw [h]; simp [Except.toOption])]
  rfl

theorem recorded_new (dict : PathDictionary) : Recorded env calls (.new dict) where
  calls _ h := absurd h List.not_mem_nil
  registry _ _ := rfl
  answered _ _ _ _ _ _ _ h := absurd h.symm (List.cons_ne_nil _ _)

/-- What the registry knows of the source of a call is what the last call had. -/
theorem Recorded.seen (h : Recorded env calls session) (hcalls : CollisionFree env calls)
    (hcall : call ∈ calls) (hsource : readSource env call = .ok source)
    (hseen : session.state.cache.registry.lookup (cacheKey call.file call.fidelity) =
      some (env.computeHash source)) :
    ∃ last rest, concerning env call.file call.fidelity session.log = last :: rest ∧
      readSource env last.call = .ok source := by
  rw [h.registry] at hseen
  cases hlog : concerning env call.file call.fidelity session.log with
  | nil =>
      rw [hlog] at hseen
      cases hseen
  | cons last rest =>
      rw [hlog, List.head?_cons, Option.bind_some] at hseen
      refine ⟨last, rest, rfl, ?_⟩
      have hlast : last ∈ session.log :=
        List.mem_of_mem_filter (hlog ▸ List.mem_cons_self :
          last ∈ concerning env call.file call.fidelity session.log)
      cases hfound : readSource env last.call with
      | error error =>
          rw [hfound] at hseen
          cases hseen
      | ok found =>
          rw [hfound] at hseen
          rw [hcalls call hcall last.call (h.calls last hlast) source found hsource hfound
            (Option.some.inj hseen).symm]

/-- What a call does that can read its source. -/
theorem compressFileWithSource_spec (hsource : readSource env call = .ok source)
    (state : Compressor) :
    (compressFileWithSource env call state).2.cache.registry =
        (state.cache.updateAndVerify (cacheKey call.file call.fidelity)
          (env.computeHash source)).1.registry ∧
      (state.cache.registry.lookup (cacheKey call.file call.fidelity) =
          some (env.computeHash source) ∧
        (∃ cache currentHash pathAlias, (compressFileWithSource env call state).1 =
          .ok (cachedAnswer env cache call.fidelity source currentHash pathAlias)) ∨
      (∃ error, (compressFileWithSource env call state).1 = .error error) ∨
      ∃ output, (compressFileWithSource env call state).1 = .ok (.full output)) := by
  rw [compressFileWithSource, hsource]
  dsimp only
  split
  · cases compile env call source with
    | error error => exact ⟨rfl, Or.inr (Or.inl ⟨error, rfl⟩)⟩
    | ok captures => exact ⟨rfl, Or.inr (Or.inr ⟨_, rfl⟩)⟩
  · next hseen =>
    exact ⟨rfl, Or.inl ⟨updateAndVerify_modified.mp (Bool.eq_false_iff.mpr hseen), _, _, _, rfl⟩⟩

theorem cachedAnswer_notice {cache : LocalStateCache} {currentHash pathAlias : String}
    {notice : Notice}
    (h : cachedAnswer env cache fidelity source currentHash pathAlias = .cacheHit notice) :
    fidelity ≠ .edit ∧ fidelity ≠ .verbatim := by
  rw [cachedAnswer] at h
  split at h
  · cases h
  · next hfidelity => exact not_or.mp hfidelity

theorem cachedAnswer_of_ne (env : Env Language Captures) (hedit : fidelity ≠ .edit) (hverbatim : fidelity ≠ .verbatim)
    (cache : LocalStateCache) (source currentHash pathAlias : String) :
    ∃ notice, cachedAnswer env cache fidelity source currentHash pathAlias = .cacheHit notice :=
  ⟨_, if_neg (not_or.mpr ⟨hedit, hverbatim⟩)⟩

theorem step_eq (session : Session) (call : Call) :
    session.step env call =
      { state := (compressFileWithSource env call session.state).2
        log := { call, outcome := (compressFileWithSource env call session.state).1 } ::
          session.log } := rfl

/-- A call whose source cannot be read leaves the registry. -/
theorem Recorded.step_unread (h : Recorded env calls session) (hcall : call ∈ calls)
    {error : String} (hsource : readSource env call = .error error) :
    Recorded env calls (session.step env call) := by
  have hentry : compressFileWithSource env call session.state = (.error error, session.state) := by
    rw [compressFileWithSource, hsource]
  rw [step_eq, hentry]
  refine ⟨List.forall_mem_cons.mpr ⟨hcall, h.calls⟩, fun file fidelity => ?_,
    fun file fidelity last rest source hedit hverbatim hlog => ?_⟩
  · rw [concerning_cons_of_error hsource]
    exact h.registry file fidelity
  · rw [concerning_cons_of_error hsource] at hlog
    exact h.answered file fidelity last rest source hedit hverbatim hlog

theorem Recorded.step (h : Recorded env calls session) (hcalls : CollisionFree env calls)
    (hcall : call ∈ calls) : Recorded env calls (session.step env call) := by
  cases hsource : readSource env call with
  | error error => exact h.step_unread hcall hsource
  | ok source =>
      obtain ⟨hregistry, houtcome⟩ := compressFileWithSource_spec hsource session.state
      rw [step_eq]
      generalize compressFileWithSource env call session.state = answer at hregistry houtcome
      obtain ⟨outcome, state⟩ := answer
      have hself : concerning env call.file call.fidelity (⟨call, outcome⟩ :: session.log) =
          ⟨call, outcome⟩ :: concerning env call.file call.fidelity session.log :=
        concerning_cons_self hsource
      have hother : ∀ file fidelity, ¬(file = call.file ∧ fidelity = call.fidelity) →
          concerning env file fidelity (⟨call, outcome⟩ :: session.log) =
            concerning env file fidelity session.log := fun _ _ hne => concerning_cons_of_ne hne
      refine ⟨List.forall_mem_cons.mpr ⟨hcall, h.calls⟩, fun file fidelity => ?_, ?_⟩
      · dsimp only at hregistry ⊢
        rw [hregistry]
        by_cases hsame : file = call.file ∧ fidelity = call.fidelity
        · obtain ⟨rfl, rfl⟩ := hsame
          rw [updateAndVerify_lookup, hself, List.head?_cons, Option.bind_some, hsource]
          rfl
        · rw [updateAndVerify_lookup_ne fun hkey => hsame (cacheKey_inj.mp hkey),
            hother file fidelity hsame]
          exact h.registry file fidelity
      · intro file fidelity last rest found hedit hverbatim hlog hfound
        dsimp only at hlog
        by_cases hsame : file = call.file ∧ fidelity = call.fidelity
        · obtain ⟨rfl, rfl⟩ := hsame
          cases hself.symm.trans hlog
          cases hsource.symm.trans hfound
          refine ⟨hsource, ?_⟩
          rcases houtcome with ⟨hseen, cache, currentHash, pathAlias, hanswer⟩ | ⟨error, herror⟩ |
            ⟨output, houtput⟩
          · obtain ⟨notice, hnotice⟩ :=
              cachedAnswer_of_ne env hedit hverbatim cache source currentHash pathAlias
            obtain ⟨last, rest, hearlier, hlast⟩ := h.seen hcalls hcall hsource hseen
            refine Or.inr (Or.inr ⟨⟨notice, hanswer.trans (congrArg Except.ok hnotice)⟩, ?_⟩)
            rw [hearlier]
            exact h.answered _ _ last rest source hedit hverbatim hearlier hlast
          · exact Or.inr (Or.inl ⟨error, herror⟩)
          · exact Or.inl ⟨output, houtput⟩
        · rw [hother file fidelity hsame] at hlog
          exact h.answered file fidelity last rest found hedit hverbatim hlog hfound

/-- The next answer is warranted. -/
theorem Recorded.warranted (h : Recorded env calls session) (hcalls : CollisionFree env calls)
    (hcall : call ∈ calls) :
    Warranted env ⟨call, (compressFileWithSource env call session.state).1⟩ session.log := by
  intro notice hnotice
  cases hsource : readSource env call with
  | error error =>
      dsimp only at hnotice
      rw [compressFileWithSource, hsource] at hnotice
      cases hnotice
  | ok source =>
      dsimp only at hnotice
      obtain ⟨-, ⟨hseen, cache, currentHash, pathAlias, hanswer⟩ | ⟨error, herror⟩ |
        ⟨output, houtput⟩⟩ := compressFileWithSource_spec hsource session.state
      · rw [hanswer] at hnotice
        obtain ⟨hedit, hverbatim⟩ := cachedAnswer_notice (Except.ok.inj hnotice)
        obtain ⟨last, rest, hearlier, hlast⟩ := h.seen hcalls hcall hsource hseen
        exact ⟨source, last, rest, rfl, hearlier, hlast,
          h.answered _ _ last rest source hedit hverbatim hearlier hlast⟩
      · rw [herror] at hnotice
        cases hnotice
      · rw [houtput] at hnotice
        cases hnotice

/-- Every answer of a log is warranted by the calls before it. -/
def WarrantedLog (env : Env Language Captures) (log : List Entry) : Prop :=
  ∀ newer entry earlier, log = newer ++ entry :: earlier → Warranted env entry earlier

theorem warrantedLog_cons (hentry : Warranted env entry log) (hlog : WarrantedLog env log) :
    WarrantedLog env (entry :: log) := by
  intro newer other earlier heq
  cases newer with
  | nil =>
      cases heq
      exact hentry
  | cons first newer =>
      cases heq
      exact hlog newer other earlier rfl

/-- In every session, a notice is given only where the last call for the path and the fidelity had
the same contents, and back through the notices these were answered in full or by an error. -/
theorem run_warranted (dict : PathDictionary) (hcalls : CollisionFree env calls) :
    WarrantedLog env (Session.run env dict calls).log := by
  have hrun : ∀ (rest : List Call) (session : Session), (∀ call ∈ rest, call ∈ calls) →
      Recorded env calls session → WarrantedLog env session.log →
      WarrantedLog env (rest.foldl (Session.step env) session).log := by
    intro rest
    induction rest with
    | nil => exact fun _ _ _ hlog => hlog
    | cons call rest ih =>
        intro session hrest hrecorded hlog
        obtain ⟨hcall, hrest⟩ := List.forall_mem_cons.mp hrest
        exact ih _ hrest (hrecorded.step hcalls hcall)
          (warrantedLog_cons (hrecorded.warranted hcalls hcall) hlog)
  exact hrun calls (.new dict) (fun _ h => h) (recorded_new dict) fun _ _ _ h => by
    simp [Session.new] at h

/-- Every file is a Rust file that parses unless it is blank, and a text is its own hash. -/
def plainEnv : Env Unit Unit where
  computeHash source := source
  canonicalIdentityKey path := path
  countTokens _ := 0
  checkFileSize := none
  extension _ := "rs"
  languageForExtension extension := if extension = "rs" then some () else none
  runCapturePipeline _ source _ := if source = "" then .error "parse error" else .ok ()
  render _ source _ _ := source

def plainCall : Call :=
  { file := "a.rs", sourceOverride := some "fn a() {}", disk := .error "", fidelity := .low }

/-- The file is blank for a while, which does not parse. -/
def blankCall : Call := { plainCall with sourceOverride := some "" }

theorem run_warranted_plain :
    WarrantedLog plainEnv
      (Session.run plainEnv .new [plainCall, plainCall, blankCall, plainCall, plainCall]).log :=
  run_warranted .new fun _ _ _ _ _ _ _ _ hhash => hhash

/-- A notice is given only where the last call had the same contents and was answered in full. -/
def AfterFull (env : Env Language Captures) (entry : Entry) (earlier : List Entry) : Prop :=
  ∀ notice, entry.outcome = .ok (.cacheHit notice) →
    ∃ source last rest output, readSource env entry.call = .ok source ∧
      concerning env entry.call.file entry.call.fidelity earlier = last :: rest ∧
      readSource env last.call = .ok source ∧ last.outcome = .ok (.full output)

/-- The third of three equal calls is answered with a notice, and so was the second. -/
theorem not_afterFull :
    ¬∀ newer entry earlier,
      (Session.run plainEnv .new [plainCall, plainCall, plainCall]).log =
        newer ++ entry :: earlier → AfterFull plainEnv entry earlier := by
  obtain ⟨third, second, first, notice, notice', hlog, hearlier, hthird, hsecond⟩ :
      ∃ third second first notice notice',
        (Session.run plainEnv .new [plainCall, plainCall, plainCall]).log =
          [third, second, first] ∧
        concerning plainEnv third.call.file third.call.fidelity [second, first] =
          [second, first] ∧
        third.outcome = .ok (.cacheHit notice) ∧ second.outcome = .ok (.cacheHit notice') :=
    ⟨_, _, _, _, _, rfl, rfl, rfl, rfl⟩
  intro h
  obtain ⟨_, last, rest, output, -, hconcerning, -, hfull⟩ :=
    h [] third [second, first] hlog notice hthird
  cases hearlier.symm.trans hconcerning
  cases hsecond.symm.trans hfull

end Notices

end Compression
end CleanCtx
