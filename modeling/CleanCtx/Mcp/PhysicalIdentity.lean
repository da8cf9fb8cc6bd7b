import CleanCtx.Library.FirstNames
import CleanCtx.Library.Runs
import Mathlib.Data.List.AList

/-!
The owners of physical files (`mcp/state/physical_identity.rs`).

The registry remembers, by the identity of a file, the path under which it was first
resolved, and never forgets it. The file system beside it is changed from outside: files
are created, deleted, linked and renamed, and a rename onto a file replaces it, as the
edits of the tool do. The identity of a file that is gone may be given to a new one.
-/
namespace CleanCtx
namespace Mcp

structure PhysicalFileIdentity where
  filesystemId : UInt64
  fileId : UInt64
  deriving DecidableEq

structure PhysicalOwner where
  semanticPath : String
  durablePath : Option String
  deriving DecidableEq

/-- The files by location, and the registry. -/
structure Session where
  files : AList fun _ : String => PhysicalFileIdentity
  owners : AList fun _ : PhysicalFileIdentity => PhysicalOwner

namespace Session

def start (files : AList fun _ : String => PhysicalFileIdentity) : Session := ⟨files, ∅⟩

section

-- `locate` gives the location that a spelling of a path leads to.
variable (locate : String → String)

def physicalFileIdentity (s : Session) (path : String) : Option PhysicalFileIdentity :=
  s.files.lookup (locate path)

def canonicalIdentityKey (s : Session) (path : String) : String :=
  if (s.physicalFileIdentity locate path).isSome then locate path else path

def resolveSemanticOwner (s : Session) (path : String) : String × Session :=
  let canonical := s.canonicalIdentityKey locate path
  match s.physicalFileIdentity locate canonical with
  | some identity =>
      match s.owners.lookup identity with
      | some owner => (owner.semanticPath, s)
      | none => (canonical, { s with owners := s.owners.insert identity ⟨canonical, none⟩ })
  | none => (canonical, s)

def resolveDurableOwner (s : Session) (path : String) : String × Session :=
  match s.physicalFileIdentity locate path with
  | some identity =>
      match s.owners.lookup identity with
      | some ⟨_, some durable⟩ => (durable, s)
      | some ⟨semantic, none⟩ =>
          (path, { s with owners := s.owners.insert identity ⟨semantic, some path⟩ })
      | none => (path, { s with
          owners := s.owners.insert identity ⟨s.canonicalIdentityKey locate path, some path⟩ })
  | none => (path, s)

inductive Event
  | create (path : String) (identity : PhysicalFileIdentity)
  | delete (path : String)
  | link (path target : String)
  | rename (path target : String)
  | resolveSemantic (path : String)
  | resolveDurable (path : String)

/-- One change of the file system, at locations, or one resolution. A new file has an identity that
no other file has; renaming a file onto itself changes nothing. -/
def step (s : Session) : Event → Option Session
  | .create path identity =>
      if locate path ≠ path ∨ path ∈ s.files ∨ ∃ file ∈ s.files.entries, file.2 = identity then none
      else some { s with files := s.files.insert path identity }
  | .delete path =>
      if path ∈ s.files then some { s with files := s.files.erase path } else none
  | .link path target => do
      let identity ← s.files.lookup path
      if locate target ≠ target ∨ target ∈ s.files then none
      else some { s with files := s.files.insert target identity }
  | .rename path target => do
      let identity ← s.files.lookup path
      if locate target ≠ target then none
      else if s.files.lookup target = some identity then some s
      else some { s with files := (s.files.erase path).insert target identity }
  | .resolveSemantic path => some (s.resolveSemanticOwner locate path).2
  | .resolveDurable path => some (s.resolveDurableOwner locate path).2

/-- Paths that name different files now have different owners, of both kinds. -/
def OwnersDistinct (s : Session) : Prop :=
  ∀ path path' identity identity', s.physicalFileIdentity locate path = some identity →
    s.physicalFileIdentity locate path' = some identity' → identity ≠ identity' →
    (s.resolveSemanticOwner locate path).1 ≠ (s.resolveSemanticOwner locate path').1 ∧
    (s.resolveDurableOwner locate path).1 ≠ (s.resolveDurableOwner locate path').1

end

def semanticOwned (s : Session) (identity : PhysicalFileIdentity) : Option String :=
  (s.owners.lookup identity).map PhysicalOwner.semanticPath

def durableOwned (s : Session) (identity : PhysicalFileIdentity) : Option String :=
  (s.owners.lookup identity).bind PhysicalOwner.durablePath

open FirstNames

section

variable (locate : String → String)

/-- A file that has just got a name clashes with another one: one path is remembered for both, or
the path remembered for one of them names the other, for which nothing is remembered. -/
def Clash (s : Session) (identity : PhysicalFileIdentity) : Prop :=
  Clashes (s.physicalFileIdentity locate) s.semanticOwned identity ∨
    Clashes (s.physicalFileIdentity locate) s.durableOwned identity

/-- The step gives a name to a file that clashes with another one from then on. -/
def NamesClashing (s : Session) (event : Event) : Prop :=
  ∃ next, s.step locate event = some next ∧
    match event with
    | .create _ identity => next.Clash locate identity
    | .link path _ | .rename path _ => ∃ identity, s.files.lookup path = some identity ∧
        next.Clash locate identity
    | _ => False

end

end Session
end Mcp
end CleanCtx
