import CleanCtx.Diff.Differ
import CleanCtx.Library.Lists
import CleanCtx.Library.Text

/-!
The engine of the multi-file diff (`gitdiff/engine.rs`): each changed file has its
own reads and failures, and is counted once. What git and the disk answer, what
becomes of a parse and the texts of the diff and of a template are parameters. Of
the comparison of a renamed file only the body is kept. The snapshot of a source
(`diff/builder.rs`) is the first that one of the parsers gets something from.
-/
namespace CleanCtx
namespace GitDiff

open Diff

inductive FileChange
  | added (path : String)
  | deleted (path : String)
  | modified (path : String)
  | renamed (oldPath newPath : String)
  | typeChanged (path : String)
  deriving DecidableEq

def FileChange.isRenamed : FileChange → Bool
  | renamed _ _ => true
  | _ => false

/-- The answers of git, of the disk and of the parsers; an error is its text. -/
structure World where
  showFile : String → String → Except String String
  readFile : String → Except String String
  buildSnapshot : String → Except String CapturedStructure
  formatDiff : List DiffAction → String
  compressTemplate : String → String
  rust : Bool
  java : Bool
  angular : Bool

/-- The grammar that a content calls for, the ones that are there, and what each makes of a
source. -/
structure Parsers where
  detectLanguage : String → String
  enabled : String → Bool
  tryBuildWith : String → String → Except String CapturedStructure

def allParsers : List String := ["rust", "csharp", "typescript", "java"]

def emptyStructure : CapturedStructure where
  imports := []
  classes := []
  orphanFields := []
  orphanMethods := []

/-- The loop over the candidates, with the first empty result so far. A parser that fails is
passed over. -/
def tryParsers (parsers : Parsers) (source : String) :
    List String → Option CapturedStructure → Except String CapturedStructure
  | [], lastOkResult => .ok (lastOkResult.getD emptyStructure)
  | label :: rest, lastOkResult =>
      match parsers.tryBuildWith label source with
      | .error _ => tryParsers parsers source rest lastOkResult
      | .ok result =>
          if result = emptyStructure then
            tryParsers parsers source rest (lastOkResult.or (some result))
          else .ok result

def buildSnapshot (parsers : Parsers) (source : String) : Except String CapturedStructure :=
  let first := parsers.detectLanguage source
  tryParsers parsers source
    (first :: allParsers.filter fun label => label ≠ first && parsers.enabled label) none

structure Request where
  fromRef : String
  toRef : Option String
  maxFiles : Option Nat
  maxFileSize : Option Nat

structure GitDiffSummary where
  manifest : String
  fileCount : Nat
  added : Nat
  deleted : Nat
  modified : Nat
  renamed : Nat
  typeChanged : Nat
  skipped : Nat

def lineCount (content : String) : Nat := (lines content.toList).length

def extension (path : String) : String :=
  String.ofList (path.toList.reverse.takeWhile (· ≠ '.')).reverse

def isCompressible (world : World) (path : String) : Bool :=
  ["ts", "js", "tsx", "jsx", "cs"].contains (extension path) ||
    (world.rust && extension path = "rs") || (world.java && extension path = "java")

def isAngularTemplate (world : World) (path : String) : Bool :=
  world.angular && ".component.html".toList.isSuffixOf (path.toList.map Char.toLower)

def trimEnd (text : String) : String :=
  String.ofList (text.toList.reverse.dropWhile isWhiteSpace).reverse

def markedLines (mark text : String) : String :=
  String.join ((lines text.toList).map fun line => mark ++ String.ofList line ++ "\n")

/-- The body of a comparison, and an error. -/
def diffTwoContents (world : World) (fromContent toContent path : String) :
    String × Option String :=
  if isCompressible world path then
    match world.buildSnapshot fromContent with
    | .ok base =>
        match world.buildSnapshot toContent with
        | .ok cur => (trimEnd (world.formatDiff (diffSnapshots base cur)), none)
        | .error e => ("", some e)
    | .error e => ("", some e)
  else if isAngularTemplate world path then
    let fromCompressed := world.compressTemplate fromContent
    let toCompressed := world.compressTemplate toContent
    if fromCompressed = toCompressed then
      ("  ~ template unchanged (" ++ toString (lineCount fromContent) ++ " lines → " ++
        toString (lineCount toContent) ++ " lines)", none)
    else
      ("  - template (old):\n" ++ markedLines "    - " fromCompressed ++
        "  + template (new):\n" ++ markedLines "    + " toCompressed, none)
  else
    let fromLines := lineCount fromContent
    let toLines := lineCount toContent
    ("  " ++ (if fromLines < toLines then "+" else "-") ++
      toString (Nat.max fromLines toLines - Nat.min fromLines toLines) ++ " lines (" ++
      toString fromLines ++ " → " ++ toString toLines ++ ")", none)

def formatLineDelta (fromLines toLines : Nat) : String :=
  if fromLines < toLines then
    "+" ++ toString (toLines - fromLines) ++ " lines (" ++ toString fromLines ++ " → " ++
      toString toLines ++ ")"
  else
    "-" ++ toString (fromLines - toLines) ++ " lines (" ++ toString fromLines ++ " → " ++
      toString toLines ++ ")"

def renderSkeleton (snapshot : CapturedStructure) : String :=
  String.join (snapshot.imports.map fun imported => "+ import " ++ imported ++ "\n") ++
  String.join (snapshot.classes.map fun cls =>
    "+ class " ++ cls.name ++ "\n" ++
      String.join (cls.fields.map fun field => "  + field " ++ field ++ "\n") ++
      String.join (cls.methods.map fun method => "  + method " ++ method.sig ++ "\n")) ++
  String.join (snapshot.orphanFields.map fun field => "+ field " ++ field ++ "\n") ++
  String.join (snapshot.orphanMethods.map fun method => "+ method " ++ method.sig ++ "\n")

def compressAddedFile (world : World) (content path : String) : String :=
  if isAngularTemplate world path then world.compressTemplate content
  else if isCompressible world path = false then formatLineDelta 0 (lineCount content)
  else
    match world.buildSnapshot content with
    | .ok snapshot =>
        let out := renderSkeleton snapshot
        if out = "" then formatLineDelta 0 (lineCount content) else out
    | .error _ => formatLineDelta 0 (lineCount content)

/-- A line that begins with the word `import`. -/
def isImportLine (line : List Char) : Bool :=
  "import".toList.isPrefixOf line && (line.drop 6).head?.all isWhiteSpace

def countChangeMarkers (body : String) : Nat × Nat × Nat :=
  let marked (mark : Char) : Nat := (lines body.toList).countP fun line =>
    match line.dropWhile isWhiteSpace with
    | c :: rest =>
        let after := rest.dropWhile isWhiteSpace
        c = mark && !after.isEmpty && !isImportLine after
    | [] => false
  let mods := (lines body.toList).countP fun line =>
    (line.dropWhile isWhiteSpace).head? = some '~'
  (marked '+', marked '-', mods)

def sizeLimitText (max : Nat) : String := "exceeds size limit (" ++ toString max ++ " bytes)"

def checkSize (request : Request) (content : String) : Except String Unit :=
  match request.maxFileSize with
  | some max => if max < byteLen content.toList then .error (sizeLimitText max) else .ok ()
  | none => .ok ()

def currentContent (world : World) (request : Request) (path : String) : Except String String :=
  match request.toRef with
  | some reference => world.showFile reference path
  | none => world.readFile path

def readContents (world : World) (request : Request) (oldPath newPath : String) :
    Except String (String × String) := do
  let fromContent ← world.showFile request.fromRef oldPath
  checkSize request fromContent
  let toContent ← currentContent world request newPath
  checkSize request toContent
  return (fromContent, toContent)

def diffModifiedFile (world : World) (request : Request) (path : String) :
    String × Option String :=
  match readContents world request path path with
  | .ok (fromContent, toContent) => diffTwoContents world fromContent toContent path
  | .error e => ("", some e)

/-- Only the body of the comparison is kept. -/
def diffRenamedFile (world : World) (request : Request) (oldPath newPath : String) :
    Except String String := do
  let (fromContent, toContent) ← readContents world request oldPath newPath
  return (diffTwoContents world fromContent toContent newPath).1

def countsText (body : String) : String :=
  let (adds, dels, mods) := countChangeMarkers body
  "(+" ++ toString adds ++ " -" ++ toString dels ++ " ~" ++ toString mods ++ ")"

/-- One iteration of the loop over the changed files. -/
def visit (world : World) (request : Request) (summary : GitDiffSummary)
    (entry : FileChange × Nat) : GitDiffSummary :=
  let name := "FILE α" ++ toString entry.2 ++ ": "
  match entry.1 with
  | .added path =>
      match currentContent world request path with
      | .ok content =>
          match checkSize request content with
          | .error _ =>
              { summary with
                skipped := summary.skipped + 1
                manifest := summary.manifest ++ "┌ " ++ name ++ path ++
                  " (added — exceeds size limit, skipped)\n" }
          | .ok () =>
              { summary with
                added := summary.added + 1
                manifest := summary.manifest ++ "┌ " ++ name ++ path ++ " (+1 -0 ~0)\n" ++
                  compressAddedFile world content path ++ "\n" }
      | .error _ =>
          { summary with
            skipped := summary.skipped + 1
            manifest := summary.manifest ++ "┌ " ++ name ++ path ++
              " (added — content unavailable, skipped)\n" }
  | .deleted path =>
      { summary with
        deleted := summary.deleted + 1
        manifest := summary.manifest ++ "- " ++ name ++ path ++ " (deleted)\n" }
  | .modified path =>
      match diffModifiedFile world request path with
      | (_, some message) =>
          { summary with
            skipped := summary.skipped + 1
            manifest := summary.manifest ++ "┌ " ++ name ++ path ++ " (~0 -0 +0 — " ++ message ++
              ")\n" }
      | (body, none) =>
          { summary with
            modified := summary.modified + 1
            manifest := summary.manifest ++ "┌ " ++ name ++ path ++ " " ++ countsText body ++
              "\n" ++ body ++ "\n" }
  | .renamed oldPath newPath =>
      match diffRenamedFile world request oldPath newPath with
      | .ok body =>
          { summary with
            renamed := summary.renamed + 1
            manifest := summary.manifest ++ "~ " ++ name ++ oldPath ++ " → " ++ newPath ++ " " ++
              countsText body ++ "\n" ++ body ++ "\n" }
      | .error message =>
          { summary with
            skipped := summary.skipped + 1
            manifest := summary.manifest ++ "~ " ++ name ++ oldPath ++ " → " ++ newPath ++
              " (renamed — " ++ message ++ ")\n" }
  | .typeChanged path =>
      { summary with
        typeChanged := summary.typeChanged + 1
        manifest := summary.manifest ++ "~ " ++ name ++ path ++ " (type changed)\n" }

def processed (request : Request) (changes : List FileChange) : List FileChange :=
  match request.maxFiles with
  | some max => changes.take max
  | none => changes

def gitdiffWorkspace (world : World) (request : Request) (changes : List FileChange) :
    GitDiffSummary :=
  ((processed request changes).zipIdx 1).foldl (visit world request)
    { manifest := "§GITDIFF " ++ request.fromRef ++ ".." ++ request.toRef.getD "working-tree" ++
        " (" ++ toString changes.length ++ " files)\n"
      fileCount := changes.length
      added := 0, deleted := 0, modified := 0, renamed := 0, typeChanged := 0
      skipped := changes.length - (processed request changes).length }

end GitDiff
end CleanCtx
