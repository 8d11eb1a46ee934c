import Containers.Go.Disk
import Containers.Go.Text
import Containers.Remote.Types

/-!
# Where artifacts are collected

`internal/buildpkg/artifacts.go`. `DiscoverArtifacts` has a host search for finished builds and
takes the directories from what it prints; `CollectArtifacts` computes a path under the project
directory for each of them and hands both to `CopyDir`.

* `localPath_inside_iff` – when a host does not choose a place outside the project directory: what
  is left of the paths it prints goes down, or goes up and comes back.
* `collectArtifacts_home_iff` – `CopyDir` copies from this machine to the host, so what the host has
  is here afterwards if and only if it was here before.
-/

namespace Containers.Buildpkg

open Go Remote List Filepath

/-- `strings.TrimPrefix`. -/
def trimPrefix (s start : String) : String :=
  if start.toList <+: s.toList then String.ofList (s.toList.drop start.toList.length) else s

/-- A `RemoteExecutor`, on the state `ω` of the machines. -/
structure RemoteExecutor (ω : Type) where
  isReachable : ω → RemoteHost → Bool
  /-- The standard output of a command, or an error. -/
  execute : ω → RemoteHost → String → Except String String
  copyDir : ω → RemoteHost → (localDir remoteDir : String) → Option String × ω

structure ArtifactCollector where
  projectDir : String
  remoteDir : String

/-- The lines of an output, without those that are blank. -/
def outputLines (stdout : String) : List String :=
  ((stdout.toList.splitOn '\n').map fun line => String.ofList (trimSpace line)).filter (· ≠ "")

namespace ArtifactCollector

variable {ω : Type} (c : ArtifactCollector) (executor : RemoteExecutor ω)

def findCommand (component versionString : String) : String :=
  "find " ++ c.remoteDir ++ "/releases/" ++ component ++ " -name 'BUILD_INFO.json' -path '*" ++
    versionString ++ "*'"

/-- **`DiscoverArtifacts`.** -/
def discoverArtifacts (w : ω) (host : RemoteHost) (component versionString : String) :
    Except String (List String) :=
  if !executor.isReachable w host then .error ("host " ++ host.name ++ " is not reachable")
  else
    match executor.execute w host (c.findCommand component versionString) with
    | .error err => .error ("discover artifacts: " ++ err)
    | .ok stdout => .ok ((outputLines stdout).map Filepath.dir)

/-- The path of an artifact below the project directory: what follows the remote directory, or else
the last element. -/
def relPath (rp : String) : String :=
  if trimPrefix rp (c.remoteDir ++ "/") = rp then Filepath.base rp
  else trimPrefix rp (c.remoteDir ++ "/")

def localPath (rp : String) : String := Filepath.join c.projectDir (c.relPath rp)

/-- The loop of `CollectArtifacts`. -/
def collect (host : RemoteHost) : ω → List String → Option String × ω
  | w, [] => (none, w)
  | w, rp :: rps =>
    match executor.copyDir w host rp (c.localPath rp) with
    | (some err, w) => (some ("collect artifact " ++ rp ++ ": " ++ err), w)
    | (none, w) => collect host w rps

/-- **`CollectArtifacts`.** -/
def collectArtifacts (w : ω) (host : RemoteHost) (remotePaths : List String) : Option String × ω :=
  if !executor.isReachable w host then (some ("host " ++ host.name ++ " is not reachable"), w)
  else c.collect executor host w remotePaths

end ArtifactCollector

variable {c : ArtifactCollector}

/-! ### Places -/

/-- **A path is strictly inside a directory**: it is the directory, cleaned, with names below it. -/
def Inside (dir path : String) : Prop :=
  ∃ names, names ≠ [] ∧ (∀ e ∈ names, IsName e ∧ elements e = [e]) ∧
    path = (⟨(Path.parse dir).rooted, (Path.parse dir).elems ++ names⟩ : Path).text

def namesOf (dir : String) : List String := (Path.parse dir).elems.filter (· ≠ "..")

/-- **A path leads down from a directory**: cleaned, it goes up some directories, down again by the
names of just these, and on by others. At the root, going up leads nowhere; and what is joined to no
directory is to start at none. -/
def Descends (dir path : String) : Prop :=
  (dir = "" → isAbs path = false) ∧ ∃ u more, more ≠ [] ∧ (∀ e ∈ more, IsName e) ∧
    (u ≤ (namesOf dir).length ∨ isAbs dir = true) ∧ Path.follow false [] (elements path) =
      replicate u ".." ++ ((namesOf dir).drop ((namesOf dir).length - u) ++ more)

section Descent

variable {rooted : Bool} {dir path : String} {u v k : ℕ} {names more es : List String}

theorem replicate_append_inj (hnames : ∀ e ∈ names, IsName e) (hmore : ∀ e ∈ more, IsName e)
    (h : replicate u ".." ++ names = replicate v ".." ++ more) : u = v ∧ names = more := by
  have hcount : ∀ {l : List String}, (∀ e ∈ l, IsName e) → l.count ".." = 0 :=
    fun hl => count_eq_zero.mpr fun hmem => (hl _ hmem).ne_dots rfl
  obtain rfl : u = v := by
    simpa [hcount hnames, hcount hmore] using congrArg (count "..") h
  exact ⟨rfl, append_cancel_left h⟩

theorem up_append_iff (hnames : ∀ e ∈ names, IsName e) (hmore : ∀ e ∈ more, IsName e) :
    Path.up rooted u (Path.up rooted k [] ++ names) ++ es = Path.up rooted k [] ++ names ++ more ↔
      (u ≤ names.length ∨ rooted = true) ∧ es = names.drop (names.length - u) ++ more := by
  rw [Path.up_append hnames]
  split_ifs with hle
  · have hsplit : names ++ more =
        names.take (names.length - u) ++ (names.drop (names.length - u) ++ more) := by
      rw [← append_assoc, take_append_drop]
    rw [append_assoc, append_assoc, append_cancel_left_eq, hsplit, append_cancel_left_eq]
    exact ⟨fun h => ⟨.inl hle, h⟩, fun h => h.2⟩
  · rw [Nat.sub_eq_zero_of_le (Nat.le_of_not_le hle), drop_zero]
    cases rooted with
    | true => simp [Path.up_true_nil]
    | false =>
      -- Above all names there is another `..`, which is none of them.
      obtain ⟨j, hj⟩ := Nat.exists_eq_add_of_lt (Nat.lt_of_not_le hle)
      have hup : Path.up false (u - names.length) (Path.up false k []) =
          Path.up false k [] ++ ".." :: replicate j ".." := by
        rw [Path.up, Path.up, ← Function.iterate_add_apply, ← Path.up, ← Path.up, Path.up_false_nil,
          Path.up_false_nil, ← replicate_succ, ← replicate_add]
        congr 1
        omega
      rw [hup]
      refine ⟨fun h => ?_, fun h => absurd h.1 (by simpa using hle)⟩
      rw [append_assoc, append_assoc, append_cancel_left_eq] at h
      have hmem : ".." ∈ names ++ more := by rw [← h]; simp
      rcases mem_append.mp hmem with hmem | hmem
      · exact absurd rfl (hnames _ hmem).ne_dots
      · exact absurd rfl (hmore _ hmem).ne_dots

theorem elems_parse (dir : String) : (∀ e ∈ namesOf dir, IsName e) ∧
    ∃ k, (Path.parse dir).elems = Path.up (isAbs dir) k [] ++ namesOf dir := by
  obtain ⟨k, names, hnames, hfollow⟩ := Path.exists_follow (elements dir)
  have helems : (Path.parse dir).elems = Path.up (isAbs dir) k [] ++ names := hfollow _ _
  have hkeep : names.filter (· ≠ "..") = names :=
    filter_eq_self.mpr fun e he => decide_eq_true (hnames e he).1.ne_dots
  have hdrop : (Path.up (isAbs dir) k []).filter (· ≠ "..") = [] := by
    cases isAbs dir
    · simp [Path.up_false_nil]
    · simp [Path.up_true_nil]
  have heq : namesOf dir = names := by
    rw [namesOf, helems, filter_append, hdrop, hkeep, nil_append]
  rw [heq]
  exact ⟨fun e he => (hnames e he).1, k, helems⟩

theorem follow_below_iff : (∃ names, names ≠ [] ∧ (∀ e ∈ names, IsName e ∧ elements e = [e]) ∧
      (Path.parse dir).join path = ⟨(Path.parse dir).rooted, (Path.parse dir).elems ++ names⟩) ↔
    ∃ u more, more ≠ [] ∧ (∀ e ∈ more, IsName e) ∧
      (u ≤ (namesOf dir).length ∨ isAbs dir = true) ∧ Path.follow false [] (elements path) =
        replicate u ".." ++ ((namesOf dir).drop ((namesOf dir).length - u) ++ more) := by
  obtain ⟨hnames, k, helems⟩ := elems_parse dir
  obtain ⟨u, down, hdown, hfollow⟩ := Path.exists_follow (elements path)
  have hjoin : ∀ names, (Path.parse dir).join path =
      ⟨(Path.parse dir).rooted, (Path.parse dir).elems ++ names⟩ ↔
        Path.up (isAbs dir) u (Path.up (isAbs dir) k [] ++ namesOf dir) ++ down =
          Path.up (isAbs dir) k [] ++ namesOf dir ++ names := by
    intro names
    rw [← helems, ← hfollow, Path.join, Go.Path.mk.injEq]
    exact and_iff_right rfl
  have hclean := hfollow false []
  rw [Path.up_false_nil] at hclean
  constructor
  · rintro ⟨names, hne, hall, heq⟩
    have hall' := fun e he => (hall e he).1
    obtain ⟨hor, rfl⟩ := (up_append_iff hnames hall').mp ((hjoin names).mp heq)
    exact ⟨u, names, hne, hall', hor, hclean⟩
  · rintro ⟨v, more, hne, hall, hor, heq⟩
    have hright : ∀ e ∈ (namesOf dir).drop ((namesOf dir).length - v) ++ more, IsName e := by
      intro e he
      rcases mem_append.mp he with he | he
      · exact hnames e (mem_of_mem_drop he)
      · exact hall e he
    obtain ⟨rfl, hsame⟩ := replicate_append_inj (fun e he => (hdown e he).1) hright
      (hclean.symm.trans heq)
    refine ⟨more, hne, fun e he => ⟨hall e he, ?_⟩, ?_⟩
    · exact elements_of_mem (hdown e (hsame ▸ mem_append_right _ he)).2
    · exact (hjoin more).mpr ((up_append_iff hnames hall).mpr ⟨hor, hsame⟩)

theorem kept_below (hall : ∀ e ∈ names, IsName e ∧ elements e = [e]) :
    ∀ e ∈ (Path.parse dir).elems ++ names, Kept e := by
  intro e he
  rcases mem_append.mp he with he | he
  · exact Path.kept_parse dir e he
  · exact ⟨(hall e he).1.significant, (hall e he).2⟩

/-- The two cases in which `Join` follows the path from the directory. -/
theorem inside_iff_of_follows (habs : dir = "" → isAbs path = false)
    (htext : join dir path = ((Path.parse dir).join path).text) :
    Inside dir (join dir path) ↔ Descends dir path := by
  have hjoin : ∀ e ∈ ((Path.parse dir).join path).elems, Kept e :=
    Path.kept_follow (Path.kept_parse dir) fun _ => elements_of_mem
  rw [Inside, Descends, htext, ← follow_below_iff]
  constructor
  · rintro ⟨names, hne, hall, heq⟩
    exact ⟨habs, names, hne, hall, (Path.text_inj hjoin (kept_below hall)).mp heq⟩
  · rintro ⟨-, names, hne, hall, heq⟩
    exact ⟨names, hne, hall, congrArg Path.text heq⟩

/-- **A path that is joined to a directory leads inside** just when it leads down from it. -/
theorem inside_join_iff : Inside dir (join dir path) ↔ Descends dir path := by
  by_cases hdir : dir = ""
  · subst hdir
    by_cases hpath : path = ""
    · subst hpath
      constructor
      · rintro ⟨names, hne, hall, heq⟩
        have hread := (Path.read_text
          (p := ⟨(Path.parse "").rooted, (Path.parse "").elems ++ names⟩) (kept_below hall)).2
        rw [← heq] at hread
        exact absurd hread.symm hne
      · rintro ⟨-, u, more, hne, -, -, heq⟩
        have hnil : Path.follow false [] (elements "") = [] := by decide +kernel
        exact absurd (hnil.symm.trans heq) (by simp [hne])
    have hclean : join "" path = (Path.parse path).text := by
      rw [join, if_neg (by simp), if_pos hpath, ← Path.text_parse]
    cases habs : isAbs path with
    | false =>
      refine inside_iff_of_follows (fun _ => habs) (hclean.trans ?_)
      rw [Path.parse, habs]
      rfl
    | true =>
      refine ⟨?_, fun h => absurd (h.1 rfl) (by simp [habs])⟩
      rintro ⟨names, -, hall, heq⟩
      have hpaths := (Path.text_inj (Path.kept_parse path) (kept_below hall)).mp (hclean ▸ heq)
      have hroot : false = isAbs path := (congrArg Path.rooted hpaths).symm
      rw [habs] at hroot
      cases hroot
  · refine inside_iff_of_follows (fun hempty => absurd hempty hdir) ?_
    rw [join, if_pos hdir, ← Path.text_parse, Path.parse_append hdir]

end Descent

theorem relPath_below (c : ArtifactCollector) (rest : String) :
    c.relPath (c.remoteDir ++ "/" ++ rest) = rest := by
  have htrim : trimPrefix (c.remoteDir ++ "/" ++ rest) (c.remoteDir ++ "/") = rest := by
    simp [trimPrefix]
  have hne : rest ≠ c.remoteDir ++ "/" ++ rest := by
    intro heq
    have hlength := congrArg String.length heq
    simp at hlength
  rw [ArtifactCollector.relPath, htrim, if_neg hne]

theorem relPath_elsewhere (c : ArtifactCollector) {rp : String}
    (h : ¬(c.remoteDir ++ "/").toList <+: rp.toList) : c.relPath rp = Filepath.base rp := by
  rw [ArtifactCollector.relPath, trimPrefix, if_neg h, if_pos rfl]

/-- **When a host does not choose where artifacts are stored**: the local path of each artifact is
strictly inside the project directory just when what follows the remote directory in the path that
the host prints, or else its last element, leads down from there. -/
theorem localPath_inside_iff (c : ArtifactCollector) (stdout : String) :
    (∀ rp ∈ (outputLines stdout).map Filepath.dir, Inside c.projectDir (c.localPath rp)) ↔
      ∀ rp ∈ (outputLines stdout).map Filepath.dir,
        (∀ rest, rp = c.remoteDir ++ "/" ++ rest → Descends c.projectDir rest) ∧
        (¬(c.remoteDir ++ "/").toList <+: rp.toList →
        Descends c.projectDir (Filepath.base rp)) := by
  refine forall_congr' fun rp => imp_congr_right fun _ => ?_
  rw [ArtifactCollector.localPath, inside_join_iff]
  constructor
  · intro h
    refine ⟨?_, fun helse => relPath_elsewhere c helse ▸ h⟩
    rintro rest rfl
    rwa [relPath_below] at h
  · rintro ⟨hbelow, helse⟩
    by_cases hpre : (c.remoteDir ++ "/").toList <+: rp.toList
    · obtain ⟨rest, hrest⟩ := hpre
      have hrp : rp = c.remoteDir ++ "/" ++ String.ofList rest := by
        rw [← String.toList_inj]
        simpa using hrest.symm
      rw [hrp, relPath_below]
      exact hbelow _ hrp
    · rw [relPath_elsewhere c hpre]
      exact helse hpre

-- a path that goes up at the root comes out below it
example : (⟨"/", ".."⟩ : ArtifactCollector).localPath "../../x" = "/x" := by decide +kernel

/-- **A host chooses the parent directory, or the project directory itself.** -/
theorem localPath_outside :
    (outputLines "../BUILD_INFO.json\nBUILD_INFO.json").map
      (fun line => (⟨"/srv/app", "/build"⟩ : ArtifactCollector).localPath (Filepath.dir line)) =
        ["/srv", "/srv/app"] ∧ ¬Inside "/srv/app" "/srv" ∧ ¬Inside "/srv/app" "/srv/app" := by
  have hparse : Path.parse "/srv/app" = ⟨true, ["srv", "app"]⟩ := by decide +kernel
  have hbelow : ∀ path, Inside "/srv/app" path → "/srv/app/".toList <+: path.toList := by
    rintro _ ⟨names, hne, -, rfl⟩
    obtain ⟨e, names, rfl⟩ := exists_cons_of_ne_nil hne
    rw [hparse]
    simp [Path.text]
  exact ⟨by decide +kernel, fun h => absurd (hbelow _ h) (by decide),
    fun h => absurd (hbelow _ h) (by decide)⟩

/-! ### Transfers -/

/-- The files of this machine and of the host, by their paths. -/
structure Machines where
  here : String → Option (List UInt8)
  there : String → Option (List UInt8)

/-- **The contract of `CopyDir`**: it copies a directory of this machine to a path on the host. -/
structure CopiesOut (executor : RemoteExecutor Machines) : Prop where
  here : ∀ w host src dst, (executor.copyDir w host src dst).2.here = w.here
  there : ∀ w host src dst, (executor.copyDir w host src dst).1 = none → ∀ file bytes,
    w.here (src ++ "/" ++ file) = some bytes →
      (executor.copyDir w host src dst).2.there (dst ++ "/" ++ file) = some bytes

/-- All that a directory of the host holds is in a directory of this machine, which is the project
directory or inside it. -/
def Home (projectDir : String) (here there : String → Option (List UInt8)) (rp : String) : Prop :=
  ∃ dir, (dir = projectDir ∨ Inside projectDir dir) ∧ ∀ file bytes,
    there (rp ++ "/" ++ file) = some bytes → here (dir ++ "/" ++ file) = some bytes

variable {executor : RemoteExecutor Machines} {host : RemoteHost}

theorem here_collect (h : CopiesOut executor) (w : Machines) (rps : List String) :
    (c.collect executor host w rps).2.here = w.here := by
  induction rps generalizing w with
  | nil => rfl
  | cons rp rps ih =>
    have hhere := h.here w host rp (c.localPath rp)
    rcases hcopy : executor.copyDir w host rp (c.localPath rp) with ⟨_ | err, w'⟩
    · rw [hcopy] at hhere
      simp only [ArtifactCollector.collect, hcopy]
      rw [ih, hhere]
    · rw [hcopy] at hhere
      simp only [ArtifactCollector.collect, hcopy]
      exact hhere

/-- **Collecting brings nothing home**: when `CollectArtifacts` returns nil, the contents that the
listed directories had are on this machine if and only if they were there before the call. -/
theorem collectArtifacts_home_iff (c : ArtifactCollector) (executor : RemoteExecutor Machines)
    (h : CopiesOut executor) (w : Machines) (host : RemoteHost) (remotePaths : List String)
    (hnil : (c.collectArtifacts executor w host remotePaths).1 = none) :
    (∀ rp ∈ remotePaths, Home c.projectDir
      (c.collectArtifacts executor w host remotePaths).2.here w.there rp) ↔
      ∀ rp ∈ remotePaths, Home c.projectDir w.here w.there rp := by
  have hhere : (c.collectArtifacts executor w host remotePaths).2.here = w.here := by
    unfold ArtifactCollector.collectArtifacts at hnil ⊢
    split_ifs at hnil ⊢
    exact here_collect h w remotePaths
  rw [hhere]

def copier : RemoteExecutor Machines where
  isReachable _ _ := true
  execute _ _ _ := .ok ""
  copyDir w _ src dst := (none, ⟨w.here, fun path =>
    if (dst ++ "/").toList <+: path.toList then
      (w.here (src ++ "/" ++ trimPrefix path (dst ++ "/"))).or (w.there path)
    else w.there path⟩)

theorem copiesOut_copier : CopiesOut copier where
  here _ _ _ _ := rfl
  there w host src dst _ file bytes hfile := by
    have htrim : trimPrefix (dst ++ "/" ++ file) (dst ++ "/") = file := by
      simp [trimPrefix]
    simp [copier, htrim, hfile]

def builtThere (path : String) : Option (List UInt8) :=
  if path = "/build/releases/api/BUILD_INFO.json" then some [1] else none

/-- The same build on this machine, from an earlier collection. -/
def broughtHome (path : String) : Option (List UInt8) :=
  if path = "/srv/app/BUILD_INFO.json" then some [1] else none

/-- The build is here already, and so it is here when it has been collected. -/
theorem collectArtifacts_home_before :
    let run := (⟨"/srv/app", "/build"⟩ : ArtifactCollector).collectArtifacts copier
      ⟨broughtHome, builtThere⟩ { name := "gpu" } ["/build/releases/api"]
    run.1 = none ∧ ∀ rp ∈ ["/build/releases/api"], Home "/srv/app" run.2.here builtThere rp := by
  refine ⟨rfl, (collectArtifacts_home_iff ⟨"/srv/app", "/build"⟩ copier copiesOut_copier
    ⟨broughtHome, builtThere⟩ { name := "gpu" } ["/build/releases/api"] rfl).mpr ?_⟩
  refine forall_mem_singleton.mpr ⟨"/srv/app", .inl rfl, fun file bytes hfile => ?_⟩
  obtain ⟨hpath, hbytes⟩ := Option.ite_none_right_eq_some.mp hfile
  obtain rfl : file = "BUILD_INFO.json" := by
    rw [← String.toList_inj] at hpath ⊢
    simpa using hpath
  exact hbytes ▸ rfl

/-- **A build is collected, and is not here**: a file of the host that this machine lacks. -/
theorem artifacts_not_home :
    let run := (⟨"/srv/app", "/build"⟩ : ArtifactCollector).collectArtifacts copier
      ⟨fun _ => none, builtThere⟩ { name := "gpu" } ["/build/releases/api"]
    CopiesOut copier ∧ run.1 = none ∧
      ¬Home "/srv/app" run.2.here builtThere "/build/releases/api" := by
  refine ⟨copiesOut_copier, rfl, ?_⟩
  rintro ⟨dir, -, hhome⟩
  cases hhome "BUILD_INFO.json" [1] (by decide +kernel)

end Containers.Buildpkg
