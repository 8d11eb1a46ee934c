import Containers.Go.Disk
import Containers.Go.Values

/-!
# Builds on the host

`pkg/crossbuild/host_direct.go`. A build runs a command in the project's directory and then copies
what the command has left at the declared place to the output directory: a file byte by byte, a
directory with all that is in it, links as links.

* `validateRequest` – what a request has to be;
* `verifyFreshArtifact` – what the command has to leave;
* `copyFile`, `copyDir` – the copy. The source bounds the depth of the recursion by nothing: the
  model is given a depth, and has no result when it does not do;
* `build` – `HostDirectBackend.Build`.

What the command does to the disk, and how it ends, comes from outside. So do the sizes that the
file system gives for directories, and whether the artifact has the time of change that it had
before. Of an error of the operating system the call and the path are kept; the time of change and
the kind of a special file are left out of the errors that print them.
-/

namespace Containers.Crossbuild

open Go Go.Disk

/-- What a build is asked for. -/
structure BuildRequest where
  sourceDir : String
  buildCommand : String
  outputSubpath : String
  hostOutputDir : String
  deriving DecidableEq, Repr

/-- What a build comes to. -/
structure BuildResult where
  artifactPath : String := ""
  artifactSize : ℕ := 0
  error : Option String := none
  deriving DecidableEq, Repr

/-- The host: its kernel, and the size that it gives for a directory. -/
structure Host extends Kernel where
  dirSize : Disk → List String → ℕ

/-- **A run of the build command**: what it does to the disk, its exit code and error, and whether
the artifact has the time of change from before. -/
structure Run where
  leaves : Disk → Disk
  exitCode : ℤ := 0
  err : Option String := none
  sameTime : Bool := false

/-- An error of the operating system, up to its own words. -/
def failed (call : String) (path : Path) : String := call ++ " " ++ path.text ++ ": "

/-! ### The request -/

/-- `isWithinDir`: whether a path lies in a directory, by its text alone. -/
def isWithinDir (root target : Path) : Bool :=
  match Path.rel root target with
  | none => false
  | some es => es.head? ≠ some ".."

def BuildRequest.produced (req : BuildRequest) : Path :=
  (Path.parse req.sourceDir).join req.outputSubpath

def BuildRequest.dst (req : BuildRequest) : Path :=
  (Path.parse req.hostOutputDir).join req.produced.base

/-- `validateRequest`, with the disk on which the output directory has been made. -/
def validateRequest (k : Kernel) (d : Disk) (req : BuildRequest) : Except String Disk :=
  if req.sourceDir = "" then .error "crossbuild: BuildRequest.SourceDir is required"
  else if ¬Filepath.isAbs req.sourceDir then
    .error ("crossbuild: BuildRequest.SourceDir must be absolute, got " ++ quoted req.sourceDir)
  else if (d.stat k (Path.raw req.sourceDir)).isNone then
    .error ("crossbuild: BuildRequest.SourceDir not accessible: "
      ++ failed "stat" (Path.raw req.sourceDir))
  else if req.buildCommand = "" then .error "crossbuild: BuildRequest.BuildCommand is required"
  else if req.outputSubpath = "" then .error "crossbuild: BuildRequest.OutputSubpath is required"
  else if Filepath.isAbs req.outputSubpath then
    .error ("crossbuild: BuildRequest.OutputSubpath must be relative to SourceDir, got absolute "
      ++ "path " ++ quoted req.outputSubpath)
  else if ¬isWithinDir (Path.parse req.sourceDir) req.produced then
    .error ("crossbuild: BuildRequest.OutputSubpath " ++ quoted req.outputSubpath
      ++ " escapes SourceDir " ++ quoted req.sourceDir
      ++ " (anti-bluff: the artifact-fetch step MUST NOT read files outside the project root)")
  else if Filepath.clean req.outputSubpath = "." then
    .error ("crossbuild: BuildRequest.OutputSubpath " ++ quoted req.outputSubpath
      ++ " resolves to SourceDir itself; it MUST name "
      ++ "an artifact within SourceDir, not the whole source tree")
  else if req.hostOutputDir = "" then .error "crossbuild: BuildRequest.HostOutputDir is required"
  else
    match d.mkdirAll k (Filepath.isAbs req.hostOutputDir) (elements req.hostOutputDir).reverse with
    | none => .error ("crossbuild: HostOutputDir not creatable: "
        ++ failed "mkdir" (Path.raw req.hostOutputDir))
    | some d => .ok d

/-! ### The artifact -/

/-- The size that `Stat` gives. -/
def Host.size (h : Host) (d : Disk) (p : List String) : Entry → ℕ
  | .file bytes => bytes.length
  | .dir => h.dirSize d p
  | _ => 0

/-- `statIfExists`, as far as it is looked at: the size. -/
def statIfExists (h : Host) (d : Disk) (path : Path) : Option ℕ :=
  (d.stat h.toKernel path).map fun found => h.size d found.1 found.2

def hasContent : Entry → Bool
  | .file bytes => bytes ≠ []
  | _ => false

/-- `directoryArtifactHasContent`: there is a file with something in it. A link is not walked
into. -/
def directoryArtifactHasContent (k : Kernel) (d : Disk) (dir : Path) : Bool :=
  match d.lstat k dir with
  | some (p, .dir) => d.entries.entries.any fun entry => p <+: entry.1 && hasContent entry.2
  | _ => false

/-- `verifyFreshArtifact`, with the size of the artifact. -/
def verifyFreshArtifact (h : Host) (d : Disk) (produced : Path) (pre : Option ℕ) (sameTime : Bool) :
    Except String ℕ :=
  match d.stat h.toKernel produced with
  | none => .error ("build command succeeded but artifact missing at " ++ produced.text ++ ": "
      ++ failed "stat" produced
      ++ " (anti-bluff: a 'BUILD SUCCESSFUL' without a real artifact is a bluff)")
  | some (p, x) =>
    if h.size d p x = 0 then
      .error ("build produced a zero-byte artifact at " ++ produced.text
        ++ " (anti-bluff: empty artifact == bluff)")
    else if x = .dir ∧ ¬directoryArtifactHasContent h.toKernel d produced then
      .error ("build produced a directory artifact at " ++ produced.text
        ++ " holding zero bytes of real file content "
        ++ "(empty directory, or only zero-byte/special-file entries) — reporting an empty "
        ++ "directory as this build's fresh artifact is a bluff (anti-bluff §11.4.108)")
    else if sameTime ∧ pre = some (h.size d p x) then
      .error ("build command succeeded but artifact at " ++ produced.text
        ++ " was NOT modified by this build (identical mtime + size " ++ toString (h.size d p x)
        ++ " bytes as before the build ran) — reporting a stale, leftover artifact from a prior "
        ++ "build as this build's fresh output is a bluff (anti-bluff)")
    else .ok (h.size d p x)

/-! ### The copy -/

/-- The rest of a copy once the source is open: the destination is emptied, and then filled from the
source. -/
def copyOpened (k : Kernel) (d : Disk) (opened : Option (List String)) (src dst : Path) :
    Disk × Option String :=
  match opened with
  | none => (d, some (failed "open" src))
  | some q =>
    match d.create k dst with
    | none => (d, some (failed "open" dst))
    | some (p, d) =>
      match d.readFrom p q with
      | none => (d, some (failed "read" src))
      | some d => (d, none)

/-- `copyRegularFile`. -/
def copyRegularFile (k : Kernel) (d : Disk) (src dst : Path) : Disk × Option String :=
  copyOpened k d ((d.stat k src).map Prod.fst) src dst

/-- What stands at a path in an `os.Root`. -/
def statInRoot (k : Kernel) (d : Disk) (follow : Bool) (root : List String) (path : String) :
    Option (List String × Entry) :=
  d.found (d.walk follow (some root) k.steps root (elements path))

/-- `copyRegularFileFromRoot`. -/
def copyRegularFileFromRoot (k : Kernel) (d : Disk) (root : List String) (outputSubpath : String)
    (dst : Path) : Disk × Option String :=
  copyOpened k d ((statInRoot k d true root outputSubpath).map Prod.fst)
    (Path.raw outputSubpath) dst

def resolved (srcPath : Path) (target : String) : Path :=
  if Filepath.isAbs target then Path.parse target else srcPath.dir.join target

def escapesArtifact (root srcPath : Path) (target : String) : String :=
  "crossbuild: refusing to copy directory-artifact symlink " ++ quoted srcPath.text
    ++ ": its target " ++ quoted target ++ " escapes the artifact root " ++ quoted root.text
    ++ " (anti-bluff/security: a nested symlink inside a directory artifact "
    ++ "MUST NOT resolve outside the artifact tree)"

/-- The refusal of an entry that is no file, directory or link. -/
def specialFile (srcPath : Path) : String :=
  "crossbuild: refusing to copy directory-artifact entry " ++ quoted srcPath.text
    ++ ": it is a special file (FIFO/socket/device), not a regular file (anti-bluff/security: "
    ++ "the artifact-copy step MUST NOT open a special file — a named pipe with no writer blocks "
    ++ "the copy indefinitely)"

/-- One entry of a directory is copied. A directory is copied by `copy`. -/
def copyEntry (copy : Disk → Path → Path → Option (Disk × Option String)) (k : Kernel) (root : Path)
    (d : Disk) (srcPath dstPath : Path) : Option (Disk × Option String) :=
  match d.lstat k srcPath with
  | none => some (d, some (failed "lstat" srcPath))
  | some (_, .link target) =>
    if ¬isWithinDir root (resolved srcPath target) then
      some (d, some (escapesArtifact root srcPath target))
    else
      match d.make k dstPath (.link target) with
      | none => some (d, some (failed "symlink" dstPath))
      | some d => some (d, none)
  | some (_, .dir) => copy d srcPath dstPath
  | some (_, .special) => some (d, some (specialFile srcPath))
  | some (_, .file _) => some (copyRegularFile k d srcPath dstPath)

/-- The entries of a directory are copied, up to the first error. -/
def copyEntries (copy : Disk → Path → Path → Option (Disk × Option String)) (k : Kernel)
    (root src dst : Path) : Disk → List String → Option (Disk × Option String)
  | d, [] => some (d, none)
  | d, name :: names =>
    match copyEntry copy k root d (src.child name) (dst.child name) with
    | some (d, none) => copyEntries copy k root src dst d names
    | stopped => stopped

/-- `copyDir`. The entries are listed after the destination has been made. -/
def copyDir (k : Kernel) (root : Path) : ℕ → Disk → Path → Path → Option (Disk × Option String)
  | 0, _, _, _ => none
  | depth + 1, d, src, dst =>
    match d.stat k src with
    | none => some (d, some (failed "stat" src))
    | some _ =>
      match d.mkdirAll k dst.rooted dst.elems.reverse with
      | none => some (d, some (failed "mkdir" dst))
      | some d =>
        match d.readDir k src with
        | none => some (d, some (failed "open" src))
        | some names => copyEntries (copyDir k root depth) k root src dst d names

/-- What a copy that has failed leaves behind is removed. -/
def cleanUp (k : Kernel) (dst : Path) : Disk × Option String → Disk × Option String
  | (d, none) => (d, none)
  | (d, some err) => (d.removeAll k dst, some err)

/-- The refusal of an artifact that is not found within the project's directory. -/
def unresolved (src : Path) (sourceDir outputSubpath : String) : String :=
  "crossbuild: refusing to copy artifact " ++ quoted src.text ++ ": OutputSubpath "
    ++ quoted outputSubpath ++ " could not be resolved safely within SourceDir " ++ quoted sourceDir
    ++ ": (anti-bluff/security XB3-1: a path segment — intermediate or final — that is a symlink "
    ++ "escaping SourceDir must not be followed; the artifact-fetch step MUST NOT read files "
    ++ "outside the project root)"

def artifactIsSymlink (src : Path) : String :=
  "crossbuild: refusing to copy artifact " ++ quoted src.text
    ++ ": it is a symlink (anti-bluff/security: the artifact-fetch step MUST NOT follow a link "
    ++ "that may resolve outside the project root)"

def unopened (sourceDir : String) : String :=
  "crossbuild: opening SourceDir " ++ quoted sourceDir ++ " as a root: "

/-- `copyFile`. -/
def copyFile (k : Kernel) (depth : ℕ) (d : Disk) (sourceDir outputSubpath : String) (dst : Path) :
    Option (Disk × Option String) :=
  let src := (Path.parse sourceDir).join outputSubpath
  match d.stat k (Path.raw sourceDir) with
  | some (root, .dir) =>
    match statInRoot k d false root outputSubpath with
    | none => some (d, some (unresolved src sourceDir outputSubpath))
    | some (_, .link _) => some (d, some (artifactIsSymlink src))
    | some (_, .dir) => (copyDir k src depth d src dst).map (cleanUp k dst)
    | some _ => some (cleanUp k dst (copyRegularFileFromRoot k d root outputSubpath dst))
  | _ => some (d, some (unopened sourceDir))

/-! ### The build -/

/-- **`HostDirectBackend.Build`**, with the disk that it leaves. There is no result when the copy
goes deeper than it may. -/
def build (h : Host) (depth : ℕ) (run : Run) (d : Disk) (req : BuildRequest) :
    Option (Disk × BuildResult) :=
  match validateRequest h.toKernel d req with
  | .error err => some (d, { error := some err })
  | .ok d =>
    let pre := statIfExists h d req.produced
    let d := run.leaves d
    match run.err with
    | some err => some (d, { error := some ("build command failed (exit="
        ++ toString run.exitCode ++ "): " ++ err) })
    | none =>
      if run.exitCode ≠ 0 then
        some (d, { error := some ("build command exited " ++ toString run.exitCode) })
      else
        match verifyFreshArtifact h d req.produced pre run.sameTime with
        | .error err => some (d, { error := some err })
        | .ok size =>
          match copyFile h.toKernel depth d req.sourceDir req.outputSubpath req.dst with
          | none => none
          | some (d, some err) =>
            some (d, { error := some ("copying artifact to HostOutputDir: " ++ err) })
          | some (d, none) => some (d, { artifactPath := req.dst.text, artifactSize := size })

end Containers.Crossbuild
