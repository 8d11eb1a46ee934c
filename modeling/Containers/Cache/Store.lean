import Containers.Go.Bytes
import Containers.Go.Paths
import Containers.Go.Values
import Containers.Lib.Sections

/-!
# The image cache

`FilesystemStore` of `pkg/cache/store.go`: a directory of blobs, each under the digest of its bytes,
shared by any number of processes. `Get` and `Refresh` fetch an image into a temporary file, compare
its digest and rename it to its final name; `Verify` reads a blob again and moves it aside when the
digest has drifted. They go through a mutex of their process and through a lock file that all
processes share; a lock is given back when its process dies.

A section here is one call to the operating system, or one that touches nothing that is shared. The
directory maps names to files and the files have their bytes apart from their names, so a file that
has lost its name can still be written to. What comes from outside: the errors of the calls, what a
download delivers piece by piece, the names that `os.CreateTemp` draws, how much a read returns, and
the crash of a process at any time. The hash is a parameter. Paths are names in the directory of the
blobs, and a directory that is missing is an error of the call.

`NewFilesystemStore` removes what looks like a temporary file that was left behind.
-/

namespace Containers.Cache

open Go

/-! ### Manifests and digests -/

/-- `ImageEntry`, as far as the store reads it. -/
structure ImageEntry where
  id : String
  url : String := ""
  sha256 : String
  size : ℤ := 0

/-- `Manifest.FindByID`; no manifest is a nil one. -/
def findByID (manifest : Option (List ImageEntry)) (id : String) : Except String ImageEntry :=
  match manifest with
  | none => .error ("manifest: nil manifest (no image with id " ++ quoted id ++ ")")
  | some images =>
    match images.find? (·.id = id) with
    | some entry => .ok entry
    | none => .error ("manifest: no image with id " ++ quoted id)

def isHex (c : Char) : Bool := c.isDigit || ('a' ≤ c && c ≤ 'f')

/-- **A digest**: 64 hexadecimal digits in lower case. -/
def IsDigest (name : String) : Prop := name.toList.length = 64 ∧ ∀ c ∈ name.toList, isHex c = true

/-- `normalizeSHA256`; the words of the hex decoder are left out. -/
def normalizeSHA256 (sha : String) : Except String String :=
  let s := String.ofList (sha.toList.map Char.toLower)
  if (utf8 s).length ≠ 64 then
    .error ("invalid SHA256 " ++ quoted sha ++ ": must be 64 hex characters (got " ++
      toString (utf8 s).length ++ ")")
  else if s.toList.all isHex then .ok s
  else .error ("invalid SHA256 " ++ quoted sha ++ ": not hexadecimal")

def lockName (sha : String) : String := String.ofList (sha.toList.take 8) ++ ".lock"

def incoming (suffix : String) : String := "incoming-" ++ suffix

/-- The names that `quarantinePath` tries, one after the other. -/
def corrupt (sha : String) (k : ℕ) : String :=
  if k = 0 then sha ++ ".corrupt" else sha ++ ".corrupt." ++ toString k

/-! ### What the calls share -/

/-- **The directory of the blobs and the locks**: the file under each name, the bytes of each file,
how many files were made, the mutexes that are held with their process and image, the lock files
with the process that holds them, and the processes that have died. -/
structure Memory where
  dir : GoMap String ℕ := ∅
  data : ℕ → Bytes := fun _ => []
  files : ℕ := 0
  keymus : List (ℕ × String) := []
  flocks : String → Option ℕ := fun _ => none
  dead : List ℕ := []

namespace Memory

variable (m : Memory)

def blob (name : String) : Option Bytes := (m.dir.lookup name).map m.data

def create (name : String) : Memory :=
  { m with
    dir := m.dir.insert name m.files
    data := Function.update m.data m.files []
    files := m.files + 1 }

def write (i : ℕ) (bytes : Bytes) : Memory :=
  { m with data := Function.update m.data i (m.data i ++ bytes) }

/-- A file gets another name, in the place of the one that had it. -/
def rename (old new : String) (i : ℕ) : Memory :=
  { m with dir := (m.dir.erase old).insert new i }

def unlink (name : String) : Memory := { m with dir := m.dir.erase name }

def lock (l : String) (p : ℕ) : Memory := { m with flocks := Function.update m.flocks l (some p) }

def unlock (l : String) : Memory := { m with flocks := Function.update m.flocks l none }

def crash (p : ℕ) : Memory :=
  { m with
    dead := p :: m.dead
    flocks := fun l => if m.flocks l = some p then none else m.flocks l }

end Memory

/-! ### The sections -/

/-- The operations of a store. -/
inductive Kind where
  | get
  | refresh
  | verify
  deriving DecidableEq, Repr

/-- A call that has found its image: its process, the image and its digest. -/
structure Ctx where
  proc : ℕ
  kind : Kind
  imageID : String
  entry : ImageEntry
  sha : String

/-- A temporary file that is being filled, with what went to the hasher. -/
structure Temp where
  name : String
  file : ℕ
  hashed : Bytes

/-- Where a call is. -/
inductive Point where
  | stat
  | keyLock
  | restat
  -- `fetchAndPlace`
  | mkdir
  -- `acquireSHALock`
  | lockDir
  | lockOpen
  | flock
  | recheck
  -- `fetchToTemp`
  | request
  | create
  | copy (t : Temp)
  | sync (t : Temp)
  | close (t : Temp)
  | check (t : Temp)
  | rename (t : Temp)
  | syncDir
  /-- The temporary file is removed, and the call fails. -/
  | discard (t : Temp) (err : String)
  -- `Verify`
  | openBlob
  | read (i : ℕ) (got : Bytes)
  | compare (got : Bytes)
  | pick (got : Bytes) (k : ℕ)
  | moveAside (got : Bytes) (name : String)
  | remove (got : Bytes)
  | syncAside (got : Bytes) (removed : Bool)
  | release (r : Except String String)
  | keyUnlock (r : Except String String)

/-- Where a construction is: before it lists the directory, or with the names to remove. -/
inductive SweepPoint where
  | list
  | remove (names : List String)

/-- What is in flight. -/
inductive Frame where
  | enter (proc : ℕ) (kind : Kind) (manifest : Option (List ImageEntry)) (imageID : String)
  | call (c : Ctx) (p : Point)
  | sweep (proc : ℕ) (p : SweepPoint)
  | crash (proc : ℕ)
  | ret (proc : ℕ) (r : Except String String)

/-- What comes of reading on from a download. When it fails, some bytes may have reached the
file. -/
inductive Body where
  | more (bytes : Bytes)
  | done
  | fails (bytes : Bytes) (err : String)

/-- What comes from outside. -/
structure Answer where
  /-- The error of the call to the operating system. -/
  io : Option String := none
  /-- What the request comes to: an error, or a status. -/
  response : Except String ℕ := .ok 200
  body : Body := .done
  /-- What `os.CreateTemp` draws. -/
  suffix : String := ""
  /-- How much a read returns. -/
  size : ℕ := 0

variable (sha256 : Bytes → String) (root : String) (m : Memory) (o : Answer)

def blobsDir : String := Filepath.join (Filepath.join root "blobs") "sha256"

def blobPath (sha : String) : String := Filepath.join (blobsDir root) sha

def lockPath (sha : String) : String :=
  Filepath.join (Filepath.join root "lockfiles") (lockName sha)

def Kind.wrap (kind : Kind) (entry : ImageEntry) (err : String) : String :=
  match kind with
  | .get => err
  | .refresh => "refresh " ++ quoted entry.id ++ ": " ++ err
  | .verify => "verify " ++ quoted entry.id ++ ": " ++ err

/-- What is written before the error of a digest that is refused. -/
def Kind.refused (kind : Kind) (entry : ImageEntry) (err : String) : String :=
  match kind with
  | .get => "image " ++ quoted entry.id ++ ": " ++ err
  | .refresh | .verify => kind.wrap entry err

def Kind.first : Kind → Point
  | .get => .stat
  | .refresh | .verify => .keyLock

def enterStep (proc : ℕ) (kind : Kind) (manifest : Option (List ImageEntry)) (imageID : String) :
    Frame :=
  match findByID manifest imageID with
  | .error err => .ret proc (.error err)
  | .ok entry =>
    match normalizeSHA256 entry.sha256 with
    | .error err => .ret proc (.error (kind.refused entry err))
    | .ok sha => .call ⟨proc, kind, imageID, entry, sha⟩ kind.first

/-- What `Verify` says of a blob that has drifted. -/
def drift (c : Ctx) (got : Bytes) : String :=
  "SHA256 drift (got " ++ sha256 got ++ ", want " ++ c.sha ++ ")"

def renameErr (c : Ctx) (t : Temp) (err : String) : String :=
  "atomic rename " ++ Filepath.join (blobsDir root) t.name ++ " → " ++
    blobPath root c.sha ++ ": " ++ err

/-- The error of `os.Rename` where the temporary file is not there any more. -/
def notThere (c : Ctx) (t : Temp) : String :=
  "rename " ++ Filepath.join (blobsDir root) t.name ++ " " ++ blobPath root c.sha ++
    ": no such file or directory"

/-- Where a call goes on when it has the mutex of its image. -/
def Kind.locked : Kind → Point
  | .get => .restat
  | .refresh => .mkdir
  | .verify => .lockDir

/-- The sections of `fetchToTemp`, from the request on, and the rename. -/
def fetchStep (c : Ctx) : Point → Option (Memory × List Frame)
  | .request =>
    match o.io, o.response with
    | some err, _ => some (m, [.call c (.release (.error ("new request: " ++ err)))])
    | none, .error err =>
      some (m, [.call c (.release (.error ("fetch " ++ c.entry.url ++ ": " ++ err)))])
    | none, .ok status =>
      if status = 200 then some (m, [.call c .create])
      else some (m, [.call c
        (.release (.error ("fetch " ++ c.entry.url ++ ": HTTP " ++ toString status)))])
  | .create =>
    match o.io with
    | some err => some (m, [.call c (.release (.error ("create tempfile: " ++ err)))])
    | none =>
      -- a name that is taken is not drawn
      if incoming o.suffix ∈ m.dir then none
      else some (m.create (incoming o.suffix), [.call c (.copy ⟨incoming o.suffix, m.files, []⟩)])
  | .copy t =>
    match o.body with
    | .more bytes =>
      some (m.write t.file bytes, [.call c (.copy { t with hashed := t.hashed ++ bytes })])
    | .done => some (m, [.call c (.sync t)])
    | .fails bytes err =>
      some (m.write t.file bytes, [.call c (.discard t ("write tempfile: " ++ err))])
  | .sync t => some (m, [.call c (o.io.elim (.close t) fun err =>
      .discard t ("fsync tempfile " ++ quoted c.entry.id ++ ": " ++ err))])
  | .close t => some (m, [.call c (o.io.elim (.check t) fun err =>
      .discard t ("close tempfile " ++ quoted c.entry.id ++ ": " ++ err))])
  | .check t =>
    if sha256 t.hashed ≠ c.sha then
      some (m, [.call c (.discard t ("image " ++ quoted c.entry.id ++ ": SHA256 mismatch (got " ++
        sha256 t.hashed ++ ", want " ++ c.sha ++ ")"))])
    else if c.entry.size ≠ 0 ∧ (t.hashed.length : ℤ) ≠ c.entry.size then
      some (m, [.call c (.discard t ("image " ++ quoted c.entry.id ++ ": size mismatch (got " ++
        toString t.hashed.length ++ ", want " ++ toString c.entry.size ++ ")"))])
    else some (m, [.call c (.rename t)])
  | .rename t =>
    match o.io, m.dir.lookup t.name with
    | some err, _ => some (m, [.call c (.discard t (renameErr root c t err))])
    | none, none => some (m, [.call c (.discard t (renameErr root c t (notThere root c t)))])
    | none, some i => some (m.rename t.name c.sha i, [.call c .syncDir])
  | .syncDir => some (m, [.call c (.release (o.io.elim (.ok (blobPath root c.sha)) fun err =>
      .error ("fsync blobs dir: " ++ err)))])
  | .discard t err =>
    some (if o.io = none then m.unlink t.name else m, [.call c (.release (.error err))])
  | _ => none

/-- The sections of `Verify`, from the opening of the blob on. -/
def verifyStep (c : Ctx) : Point → Option (Memory × List Frame)
  | .openBlob =>
    match o.io, m.dir.lookup c.sha with
    | some err, _ => some (m, [.call c (.release (.error err))])
    | none, none => some (m, [.call c (.release (.error ("open " ++ blobPath root c.sha ++
        ": no such file or directory")))])
    | none, some i => some (m, [.call c (.read i [])])
  | .read i got =>
    match o.io with
    | some err => some (m, [.call c (.release (.error err))])
    | none =>
      if got.length < (m.data i).length then
        some (m, [.call c (.read i (got ++ ((m.data i).drop got.length).take (o.size + 1)))])
      else some (m, [.call c (.compare got)])
  | .compare got =>
    some (m, [.call c (if sha256 got ≠ c.sha then .pick got 0 else .release (.ok ""))])
  -- `quarantinePath`
  | .pick got k =>
    some (m, [.call c (if corrupt c.sha k ∈ m.dir ∧ o.io = none then .pick got (k + 1)
      else .moveAside got (corrupt c.sha k))])
  | .moveAside got name =>
    match o.io, m.dir.lookup c.sha with
    | none, some i => some (m.rename c.sha name i, [.call c (.syncAside got false)])
    | _, _ => some (m, [.call c (.remove got)])
  | .remove got =>
    some (if o.io = none then m.unlink c.sha else m, [.call c (.syncAside got true)])
  | .syncAside got removed =>
    some (m, [.call c (.release (.error (drift sha256 c got ++ o.io.elim "" fun err =>
      (if removed then "; post-remove dir-fsync failed: " else "; quarantine dir-fsync failed: ") ++
        err)))])
  | _ => none

def callStep (c : Ctx) : Point → Option (Memory × List Frame)
  | .stat =>
    if o.io = none ∧ c.sha ∈ m.dir then some (m, [.ret c.proc (.ok (blobPath root c.sha))])
    else some (m, [.call c .keyLock])
  | .keyLock =>
    if (c.proc, c.imageID) ∈ m.keymus then none
    else some ({ m with keymus := (c.proc, c.imageID) :: m.keymus }, [.call c c.kind.locked])
  | .restat =>
    if o.io = none ∧ c.sha ∈ m.dir then
      some (m, [.call c (.keyUnlock (.ok (blobPath root c.sha)))])
    else some (m, [.call c .mkdir])
  | .mkdir => some (m, [.call c (o.io.elim .lockDir fun err =>
      .keyUnlock (.error ("mkdir blobs: " ++ err)))])
  | .lockDir => some (m, [.call c (o.io.elim .lockOpen fun err =>
      .keyUnlock (.error ("mkdir lockfiles: " ++ err)))])
  | .lockOpen => some (m, [.call c (o.io.elim .flock fun err =>
      .keyUnlock (.error ("open lock " ++ lockPath root c.sha ++ ": " ++ err)))])
  | .flock =>
    match o.io with
    | some err =>
      some (m, [.call c (.keyUnlock (.error ("flock " ++ lockPath root c.sha ++ ": " ++ err)))])
    | none =>
      if m.flocks (lockName c.sha) = none then
        some (m.lock (lockName c.sha) c.proc,
          [.call c (if c.kind = .verify then .openBlob else .recheck)])
      else none
  | .recheck =>
    if c.kind = .get ∧ o.io = none ∧ c.sha ∈ m.dir then
      some (m, [.call c (.release (.ok (blobPath root c.sha)))])
    else some (m, [.call c .request])
  | .release r => some (m.unlock (lockName c.sha), [.call c (.keyUnlock r)])
  | .keyUnlock r =>
    some ({ m with keymus := m.keymus.erase (c.proc, c.imageID) },
      [.ret c.proc (r.mapError (c.kind.wrap c.entry))])
  | .openBlob => verifyStep sha256 root m o c .openBlob
  | .read i got => verifyStep sha256 root m o c (.read i got)
  | .compare got => verifyStep sha256 root m o c (.compare got)
  | .pick got k => verifyStep sha256 root m o c (.pick got k)
  | .moveAside got name => verifyStep sha256 root m o c (.moveAside got name)
  | .remove got => verifyStep sha256 root m o c (.remove got)
  | .syncAside got removed => verifyStep sha256 root m o c (.syncAside got removed)
  | .request => fetchStep sha256 root m o c .request
  | .create => fetchStep sha256 root m o c .create
  | .copy t => fetchStep sha256 root m o c (.copy t)
  | .sync t => fetchStep sha256 root m o c (.sync t)
  | .close t => fetchStep sha256 root m o c (.close t)
  | .check t => fetchStep sha256 root m o c (.check t)
  | .rename t => fetchStep sha256 root m o c (.rename t)
  | .syncDir => fetchStep sha256 root m o c .syncDir
  | .discard t err => fetchStep sha256 root m o c (.discard t err)

/-- `NewFilesystemStore`: `sweepStaleIncoming`. -/
def sweepStep (proc : ℕ) : SweepPoint → Memory × List Frame
  | .list =>
    (m, [if o.io = none then
        .sweep proc (.remove (m.dir.keys.filter ("incoming-".toList.isPrefixOf ·.toList)))
      else .ret proc (.ok "")])
  | .remove [] => (m, [.ret proc (.ok "")])
  | .remove (name :: names) =>
    (if o.io = none then m.unlink name else m, [.sweep proc (.remove names)])

def Frame.proc : Frame → ℕ
  | .enter proc _ _ _ | .sweep proc _ | .crash proc | .ret proc _ => proc
  | .call c _ => c.proc

def step (f : Frame) : Option (Memory × List Frame) :=
  if f.proc ∈ m.dead then none
  else
    match f with
    | .enter proc kind manifest imageID => some (m, [enterStep proc kind manifest imageID])
    | .call c p => callStep sha256 root m o c p
    | .sweep proc p => some (sweepStep m o proc p)
    | .crash proc => some (m.crash proc, [])
    | .ret _ _ => some (m, [])

/-- What is called, by a process. -/
inductive Call where
  | enter (kind : Kind) (manifest : Option (List ImageEntry)) (imageID : String)
  /-- `NewFilesystemStore`. -/
  | construct
  /-- The process dies. -/
  | crash

def Call.frame (proc : ℕ) : Call → Frame
  | .enter kind manifest imageID => .enter proc kind manifest imageID
  | .construct => .sweep proc .list
  | .crash => .crash proc

/-- **The store, section by section**: a call is made by a process. -/
def store : Sections Memory Frame Answer (ℕ × Call) where
  call _ c := c.2.frame c.1
  step := step sha256 root

end Containers.Cache
