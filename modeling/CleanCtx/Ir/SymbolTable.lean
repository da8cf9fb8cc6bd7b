import CleanCtx.Library.Buckets
import CleanCtx.Library.ReverseIndex
import CleanCtx.Library.Runs

/-!
The global symbol table (`ir/symbol_table.rs`): symbols by alias, a reverse index
from original names to aliases, and the aliases of each file. The three maps are
maintained by hand. The reverse index has one alias for a name, so that it loses a
name when one of two symbols that share it is unregistered or renamed.
-/
namespace CleanCtx

inductive SymbolKind
  | «class» | method | field | interface | param | import | type
  deriving DecidableEq

def SymbolKind.prefixText : SymbolKind → String
  | .class => "C"
  | .method => "M"
  | .field => "F"
  | .interface => "I"
  | .param => "P"
  | .import => "IM"
  | .type => "T"

structure SymbolEntry where
  «alias» : String
  original : String
  kind : SymbolKind
  fileId : String
  versionFirst : UInt64
  versionLast : UInt64
  deriving DecidableEq

structure GlobalSymbolTable where
  version : UInt64
  symbols : HashMap String SymbolEntry
  reverse : HashMap String String
  fileMembers : HashMap String (List String)
  counters : HashMap SymbolKind UInt32

namespace GlobalSymbolTable

def new : GlobalSymbolTable where
  version := 0
  symbols := ∅
  reverse := ∅
  fileMembers := ∅
  counters := ∅

variable (table : GlobalSymbolTable)

def bumpVersion : GlobalSymbolTable := { table with version := table.version + 1 }

def setVersion (version : UInt64) : GlobalSymbolTable := { table with version }

def nextAlias (kind : SymbolKind) : GlobalSymbolTable × String :=
  let counter := (table.counters.lookup kind).getD 0 + 1
  ({ table with counters := table.counters.insert kind counter },
    kind.prefixText ++ toString counter)

def touch (name : String) : GlobalSymbolTable :=
  match table.symbols.lookup name with
  | some entry =>
      { table with
        symbols := table.symbols.insert name { entry with versionLast := table.version } }
  | none => table

/-- Take an alias out of the reverse index and of its file's members. -/
def forgetNames (name : String) : GlobalSymbolTable :=
  match table.symbols.lookup name with
  | some existing =>
      { table with
        reverse := table.reverse.erase existing.original
        fileMembers := retainAt table.fileMembers existing.fileId fun a => a ≠ name }
  | none => table

def register (name original : String) (kind : SymbolKind) (fileId : String) : GlobalSymbolTable :=
  let cleaned := table.forgetNames name
  touch
    { cleaned with
      reverse := cleaned.reverse.insert original name
      symbols := cleaned.symbols.insert name
        { «alias» := name, original, kind, fileId
          versionFirst := cleaned.version, versionLast := cleaned.version }
      fileMembers := pushEntry cleaned.fileMembers fileId name }
    name

def unregister (name : String) : GlobalSymbolTable × Option SymbolEntry :=
  match table.symbols.lookup name with
  | some entry => ({ table.forgetNames name with symbols := table.symbols.erase name }, some entry)
  | none => (table, none)

def clear (_table : GlobalSymbolTable) : GlobalSymbolTable := new

def get (name : String) : Option SymbolEntry := table.symbols.lookup name

def getByOriginal (original : String) : Option SymbolEntry :=
  (table.reverse.lookup original).bind table.get

def getFileSymbols (fileId : String) : List SymbolEntry :=
  (bucket table.fileMembers fileId).filterMap table.get

end GlobalSymbolTable

/-- A call that changes the table. -/
inductive SymbolCall
  | register (name original : String) (kind : SymbolKind) (fileId : String)
  | unregister (name : String)
  | touch (name : String)
  | nextAlias (kind : SymbolKind)
  | bumpVersion
  | setVersion (version : UInt64)
  | clear

namespace GlobalSymbolTable

def step (table : GlobalSymbolTable) : SymbolCall → Option GlobalSymbolTable
  | .register name original kind fileId => some (table.register name original kind fileId)
  | .unregister name => some (table.unregister name).1
  | .touch name => some (table.touch name)
  | .nextAlias kind => some (table.nextAlias kind).1
  | .bumpVersion => some table.bumpVersion
  | .setVersion version => some (table.setVersion version)
  | .clear => some table.clear

/-- The views of the symbols agree with them. -/
structure Consistent (table : GlobalSymbolTable) : Prop where
  byOriginal : ∀ name entry, table.get name = some entry →
    ∃ found, table.getByOriginal entry.original = some found ∧
      table.get found.alias = some found ∧ found.original = entry.original
  reverse : ∀ original name, table.reverse.lookup original = some name →
    ∃ entry, table.get name = some entry ∧ entry.original = original
  members : ∀ name entry, table.get name = some entry → ∀ fileId,
    (bucket table.fileMembers fileId).count name = if fileId = entry.fileId then 1 else 0

/-- The call takes the original of a live symbol from the reverse index although another live
symbol has it too. -/
def Orphans (table : GlobalSymbolTable) : SymbolCall → Prop
  | .register name original _ _ => ReverseIndex.Shared SymbolEntry.original table.symbols name ∧
      ∀ entry, table.get name = some entry → entry.original ≠ original
  | .unregister name => ReverseIndex.Shared SymbolEntry.original table.symbols name
  | _ => False

/-- What holds after any calls: only the completeness of the reverse index is missing. -/
structure Tracked (table : GlobalSymbolTable) : Prop where
  «alias» : ∀ name entry, table.symbols.lookup name = some entry → entry.alias = name
  sound : ReverseIndex.Sound SymbolEntry.original table.symbols table.reverse
  nodup : ∀ fileId, (bucket table.fileMembers fileId).Nodup
  members : ∀ fileId name, name ∈ bucket table.fileMembers fileId ↔
    ∃ entry, table.symbols.lookup name = some entry ∧ entry.fileId = fileId

def Found (table : GlobalSymbolTable) : Prop :=
  ReverseIndex.Complete SymbolEntry.original table.symbols table.reverse

variable {table : GlobalSymbolTable} {name original fileId : String} {kind : SymbolKind}

theorem Tracked.consistent_iff (h : Tracked table) : Consistent table ↔ Found table := by
  constructor
  · intro hconsistent name entry hentry
    obtain ⟨found, hfound, -⟩ := hconsistent.byOriginal name entry hentry
    obtain ⟨_, hname, -⟩ := Option.bind_eq_some_iff.mp hfound
    exact Finmap.lookup_isSome.mp (Option.isSome_of_mem hname)
  · intro hfound
    refine { byOriginal := fun name entry hentry => ?_, reverse := h.sound, members := ?_ }
    · obtain ⟨other, hother⟩ := Option.isSome_iff_exists.mp
        (Finmap.lookup_isSome.mpr (hfound name entry hentry))
      obtain ⟨found, hget, horiginal⟩ := h.sound _ _ hother
      refine ⟨found, Option.bind_eq_some_iff.mpr ⟨other, hother, hget⟩, ?_, horiginal⟩
      rw [h.alias other found hget]
      exact hget
    · intro name entry hentry fileId
      rw [List.Nodup.count (h.nodup fileId)]
      refine if_congr ((h.members fileId name).trans ⟨?_, fun heq => ⟨entry, hentry, heq.symm⟩⟩)
        rfl rfl
      rintro ⟨other, hother, rfl⟩
      rw [Option.some.inj (hentry.symm.trans hother)]

theorem tracked_new : Tracked new where
  «alias» _ _ h := by cases h
  sound _ _ h := by cases h
  nodup _ := List.nodup_nil
  members _ _ := iff_of_false List.not_mem_nil fun ⟨_, h, _⟩ => by cases h

theorem found_new : Found new := fun _ _ h => by cases h

variable (table name) in
theorem forgetNames_views : (table.forgetNames name).version = table.version ∧
    (table.forgetNames name).symbols = table.symbols ∧
    (table.forgetNames name).reverse =
      ReverseIndex.dropName SymbolEntry.original table.symbols table.reverse name := by
  unfold forgetNames ReverseIndex.dropName
  cases table.symbols.lookup name with
  | none => exact ⟨rfl, rfl, rfl⟩
  | some existing => exact ⟨rfl, rfl, rfl⟩

/-- An alias that is forgotten is in no file's list, and nothing else is forgotten. -/
theorem Tracked.bucket_forgetNames (h : Tracked table) :
    bucket (table.forgetNames name).fileMembers fileId =
      (bucket table.fileMembers fileId).filter fun a => a ≠ name := by
  have hfilter : name ∉ bucket table.fileMembers fileId →
      bucket table.fileMembers fileId =
        (bucket table.fileMembers fileId).filter fun a => a ≠ name := by
    intro hmem
    refine (List.filter_eq_self.mpr fun a ha => ?_).symm
    exact decide_eq_true fun heq => hmem (heq ▸ ha)
  unfold forgetNames
  cases hlookup : table.symbols.lookup name with
  | none =>
      refine hfilter fun hmem => ?_
      obtain ⟨entry, hentry, -⟩ := (h.members fileId name).mp hmem
      rw [hlookup] at hentry
      cases hentry
  | some existing =>
      dsimp only
      rw [bucket_retainAt]
      split
      · rfl
      · next hne =>
        refine hfilter fun hmem => hne ?_
        obtain ⟨entry, hentry, rfl⟩ := (h.members fileId name).mp hmem
        rw [Option.some.inj (hentry.symm.trans hlookup)]

/-- The entry that a registration writes. -/
def registered (table : GlobalSymbolTable) (name original : String) (kind : SymbolKind)
    (fileId : String) : SymbolEntry where
  «alias» := name
  original := original
  kind := kind
  fileId := fileId
  versionFirst := table.version
  versionLast := table.version

variable (table name original kind fileId) in
theorem register_views :
    (table.register name original kind fileId).symbols =
      table.symbols.insert name (registered table name original kind fileId) ∧
    (table.register name original kind fileId).reverse =
      (ReverseIndex.dropName SymbolEntry.original table.symbols table.reverse name).insert
        original name ∧
    (table.register name original kind fileId).fileMembers =
      pushEntry (table.forgetNames name).fileMembers fileId name := by
  obtain ⟨hversion, hsymbols, hreverse⟩ := forgetNames_views table name
  unfold register touch
  dsimp only
  rw [Finmap.lookup_insert, hversion, hsymbols, hreverse]
  exact ⟨Finmap.insert_insert .., rfl, rfl⟩

variable (table name) in
theorem unregister_views :
    (table.unregister name).1.symbols = table.symbols.erase name ∧
    (table.unregister name).1.reverse =
      ReverseIndex.dropName SymbolEntry.original table.symbols table.reverse name ∧
    (table.unregister name).1.fileMembers = (table.forgetNames name).fileMembers := by
  obtain ⟨-, -, hreverse⟩ := forgetNames_views table name
  unfold unregister
  cases hlookup : table.symbols.lookup name with
  | some entry => exact ⟨rfl, hreverse, rfl⟩
  | none =>
      refine ⟨(Finmap.ext_lookup fun other => ?_).symm, ?_, ?_⟩
      · by_cases heq : other = name
        · rw [heq, Finmap.lookup_erase, hlookup]
        · rw [Finmap.lookup_erase_ne heq]
      · rw [ReverseIndex.dropName, hlookup]
      · rw [forgetNames, hlookup]

theorem Tracked.register (h : Tracked table) (name original : String) (kind : SymbolKind)
    (fileId : String) : Tracked (table.register name original kind fileId) := by
  obtain ⟨hsymbols, hreverse, hmembers⟩ := register_views table name original fileId kind
  refine { «alias» := fun other entry hentry => ?_, sound := ?_, nodup := fun f => ?_,
           members := fun f other => ?_ }
  · rw [hsymbols] at hentry
    rcases HashMap.lookup_insert_iff.mp hentry with ⟨rfl, rfl⟩ | ⟨-, hentry⟩
    · rfl
    · exact h.alias other entry hentry
  · rw [hsymbols, hreverse]
    exact h.sound.insert name (registered table name original kind fileId)
  · have hfresh : name ∉ (bucket table.fileMembers f).filter fun a => a ≠ name := by simp
    rw [hmembers, bucket_pushEntry, h.bucket_forgetNames]
    split
    · rw [← List.concat_eq_append]
      exact ((h.nodup f).filter _).concat hfresh
    · rw [List.append_nil]
      exact (h.nodup f).filter _
  · rw [hmembers, bucket_pushEntry, h.bucket_forgetNames, hsymbols, List.mem_append,
      List.mem_filter, decide_eq_true_eq, h.members]
    by_cases heq : other = name
    · subst heq
      rw [Finmap.lookup_insert]
      by_cases hfile : f = fileId
      · simp [hfile, registered]
      · simp [hfile, registered, Ne.symm hfile]
    · rw [Finmap.lookup_insert_of_ne _ heq]
      by_cases hfile : f = fileId
      · simp [hfile, heq]
      · simp [hfile, heq]

theorem Tracked.unregister (h : Tracked table) (name : String) :
    Tracked (table.unregister name).1 := by
  obtain ⟨hsymbols, hreverse, hmembers⟩ := unregister_views table name
  refine { «alias» := fun other entry hentry => ?_, sound := ?_, nodup := fun f => ?_,
           members := fun f other => ?_ }
  · rw [hsymbols] at hentry
    by_cases heq : other = name
    · rw [heq, Finmap.lookup_erase] at hentry
      cases hentry
    · rw [Finmap.lookup_erase_ne heq] at hentry
      exact h.alias other entry hentry
  · rw [hsymbols, hreverse]
    exact h.sound.erase name
  · rw [hmembers, h.bucket_forgetNames]
    exact (h.nodup f).filter _
  · rw [hmembers, h.bucket_forgetNames, hsymbols, List.mem_filter, decide_eq_true_eq, h.members]
    by_cases heq : other = name
    · subst heq
      simp [Finmap.lookup_erase]
    · rw [Finmap.lookup_erase_ne heq, and_iff_left heq]

variable (table name) in
/-- A touched symbol keeps its names and its file. -/
theorem touch_views : (table.touch name).reverse = table.reverse ∧
    (table.touch name).fileMembers = table.fileMembers ∧
    ((table.touch name).symbols = table.symbols ∨
      ∃ entry, table.symbols.lookup name = some entry ∧ (table.touch name).symbols =
        table.symbols.insert name { entry with versionLast := table.version }) := by
  unfold touch
  cases table.symbols.lookup name with
  | none => exact ⟨rfl, rfl, .inl rfl⟩
  | some entry => exact ⟨rfl, rfl, .inr ⟨entry, rfl, rfl⟩⟩

theorem Tracked.touch (h : Tracked table) (name : String) :
    Tracked (table.touch name) ∧ (Found (table.touch name) ↔ Found table) := by
  obtain ⟨hreverse, hmembers, hsymbols | ⟨entry, hentry, hsymbols⟩⟩ :=
    touch_views table name
  · exact ⟨⟨hsymbols ▸ h.alias, hsymbols ▸ hreverse ▸ h.sound, hmembers ▸ h.nodup,
      hsymbols ▸ hmembers ▸ h.members⟩, by rw [Found, Found, hsymbols, hreverse]⟩
  · have hupdate := @ReverseIndex.sound_complete_update _ _ _ _ _ SymbolEntry.original
      table.symbols table.reverse name entry hentry { entry with versionLast := table.version } rfl
    refine ⟨{ «alias» := fun other found hfound => ?_, sound := ?_, nodup := hmembers ▸ h.nodup,
              members := fun f other => ?_ }, ?_⟩
    · rw [hsymbols] at hfound
      rcases HashMap.lookup_insert_iff.mp hfound with ⟨rfl, rfl⟩ | ⟨-, hfound⟩
      · exact h.alias other entry hentry
      · exact h.alias other found hfound
    · rw [hsymbols, hreverse]
      exact hupdate.1.mpr h.sound
    · rw [hmembers, hsymbols, h.members]
      by_cases heq : other = name
      · subst heq
        simp [hentry]
      · rw [Finmap.lookup_insert_of_ne _ heq]
    · rw [Found, hsymbols, hreverse]
      exact hupdate.2

theorem Tracked.step (h : Tracked table) {call : SymbolCall} {table' : GlobalSymbolTable}
    (hstep : table.step call = some table') : Tracked table' := by
  cases call with
  | register name original kind fileId =>
      cases hstep
      exact h.register name original kind fileId
  | unregister name =>
      cases hstep
      exact h.unregister name
  | touch name =>
      cases hstep
      exact (h.touch name).1
  | clear =>
      cases hstep
      exact tracked_new
  | nextAlias kind | bumpVersion | setVersion version =>
      cases hstep
      exact ⟨h.alias, h.sound, h.nodup, h.members⟩

/-- One call keeps every original in the reverse index exactly if it orphans none. -/
theorem Found.step (hfound : Found table) (h : Tracked table) {call : SymbolCall}
    {table' : GlobalSymbolTable} (hstep : table.step call = some table') :
    Found table' ↔ ¬ Orphans table call := by
  cases call with
  | register name original kind fileId =>
      cases hstep
      obtain ⟨hsymbols, hreverse, -⟩ := register_views table name original fileId kind
      rw [Found, hsymbols, hreverse]
      exact ReverseIndex.complete_insert_iff hfound (registered table name original kind fileId)
  | unregister name =>
      cases hstep
      obtain ⟨hsymbols, hreverse, -⟩ := unregister_views table name
      rw [Found, hsymbols, hreverse]
      exact ReverseIndex.complete_erase_iff hfound
  | touch name =>
      cases hstep
      exact iff_of_true ((h.touch name).2.mpr hfound) id
  | clear =>
      cases hstep
      exact iff_of_true found_new id
  | nextAlias kind | bumpVersion | setVersion version =>
      cases hstep
      exact iff_of_true hfound id

/-- The table is consistent throughout a run exactly if no call of the run orphans an original. -/
theorem consistent_throughout_iff (calls : List SymbolCall) :
    Runs.Throughout step Consistent new calls ↔
      Runs.Along step (fun table call => ¬ Orphans table call) new calls := by
  refine Iff.trans ?_ (Runs.throughout_iff (P := Found) (fun _ _ _ h => h.step)
    (fun _ _ _ h hfound => hfound.step h) (fun _ call h => by cases call <;> cases h)
    tracked_new found_new calls)
  exact Runs.throughout_congr (fun _ _ _ h => h.step) (fun _ h => h.consistent_iff)
    tracked_new calls

/-- Two aliases share an original; when the second one is unregistered, the first is not found. -/
def sharedOriginal : List SymbolCall :=
  [.register "C1" "Service" .class "a.ts", .register "C2" "Service" .class "b.ts",
    .unregister "C2"]

theorem not_consistent_sharedOriginal : ¬ Runs.Throughout step Consistent new sharedOriginal := by
  intro h
  have hlast : Consistent (((new.register "C1" "Service" .class "a.ts").register "C2" "Service"
    .class "b.ts").unregister "C2").1 := h.last rfl
  obtain ⟨found, hfound, -⟩ := hlast.byOriginal "C1"
    { «alias» := "C1", original := "Service", kind := .class, fileId := "a.ts"
      versionFirst := 0, versionLast := 0 } (by decide +kernel)
  have hmissing : (((new.register "C1" "Service" .class "a.ts").register "C2" "Service"
      .class "b.ts").unregister "C2").1.getByOriginal "Service" = none := by decide +kernel
  rw [hmissing] at hfound
  cases hfound

end GlobalSymbolTable
end CleanCtx
