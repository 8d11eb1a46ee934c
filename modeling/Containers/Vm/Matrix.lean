import Containers.Go.Disk
import Containers.Go.Values

/-!
# Where the evidence of virtual machines is kept

`pkg/vm/matrix.go`. `RunMatrix` checks a configuration and then runs a row for each target: `runOne`
boots a machine, runs the script in it, and downloads what is to be captured to paths that are made
of the directory for the evidence, the identifier of the target and a path of the configuration.
Both of them are checked on their own.

* `runMatrix_within` – the paths are in the directory for the evidence.
-/

namespace Containers.Vm

open Go List

structure VMTarget where
  id : String

structure UploadSpec where
  hostPath : String
  vmPath : String

structure CaptureSpec where
  vmPath : String
  hostSubpath : String

structure VMMatrixConfig where
  targets : List VMTarget
  uploads : List UploadSpec := []
  script : String
  captures : List CaptureSpec := []
  evidenceDir : String
  imageManifest : String
  captureScreenshotOnFailure : Bool := false

/-- What the machine of a row answers: the errors of its calls, and the exit code of the script. -/
structure VM where
  boot : Option String := none
  waitForReady : Option String := none
  /-- The error of a network profile that is not known. -/
  lookupNetworkProfile : Option String := none
  upload : UploadSpec → Option String := fun _ => none
  run : Option String × ℤ := (none, 0)
  download : CaptureSpec → Option String := fun _ => none
  /-- Whether there is a `CaptureScreenshot`, and its error. -/
  captureScreenshot : Option (Option String) := none
  teardown : Option String := none

structure VMTestResult where
  passed : Bool := false
  capturedFiles : List String := []
  screenshotPath : String := ""
  deriving DecidableEq

def VMMatrixConfig.evidence (config : VMMatrixConfig) (target : VMTarget) (name : String) :
    String :=
  Filepath.joinAll [config.evidenceDir, target.id, name]

/-- **`runOne`**, with the paths of this machine that it has something written to. -/
def runOne (vm : VM) (config : VMMatrixConfig) (target : VMTarget) : VMTestResult × List String :=
  if (vm.boot.or (vm.waitForReady.or (vm.lookupNetworkProfile.or
      (config.uploads.findSome? vm.upload)))).isSome then ({}, [])
  else
    let passed : Bool := vm.run.1 = none ∧ vm.run.2 = 0
    let captured := config.captures.filter fun c => (vm.download c).isNone
    let shot := !passed && config.captureScreenshotOnFailure && vm.captureScreenshot.isSome
    -- a machine that is not taken down fails its row, after the screenshot
    ({ passed := passed && vm.teardown.isNone
       capturedFiles := captured.map fun c => config.evidence target c.hostSubpath
       screenshotPath := if shot && vm.captureScreenshot = some none then
          Filepath.join target.id "screenshot-on-failure.ppm" else "" },
      config.captures.map (fun c => config.evidence target c.hostSubpath) ++
        if shot then [config.evidence target "screenshot-on-failure.ppm"] else [])

def escapes (path : String) : Bool :=
  let cleaned := (Filepath.clean path).toList
  cleaned = "..".toList ∨ "../".toList <+: cleaned ∨ "/".toList <+: cleaned

/-- The checks of `RunMatrix`. -/
def validate (config : VMMatrixConfig) : Option String :=
  if config.targets.isEmpty then some "VMMatrixConfig.Targets is empty"
  else if config.script = "" then some "VMMatrixConfig.Script is empty"
  else if config.evidenceDir = "" then some "VMMatrixConfig.EvidenceDir is empty"
  else if config.imageManifest = "" then some "VMMatrixConfig.ImageManifest is empty"
  else
    (config.captures.zipIdx.findSome? fun x =>
      if escapes x.1.hostSubpath then
        some ("VMMatrixConfig.Captures[" ++ toString x.2 ++ "].HostSubpath " ++
          quoted x.1.hostSubpath ++ " escapes EvidenceDir (path traversal forbidden)")
      else none).or
    (config.targets.zipIdx.findSome? fun x =>
      if escapes x.1.id then
        some ("VMMatrixConfig.Targets[" ++ toString x.2 ++ "].ID " ++ quoted x.1.id ++
          " escapes the evidence sandbox (target-id path traversal forbidden)")
      else none)

/-- **`RunMatrix`**: the machine of each row, the error of the directory and that of the images, and
the order in which the targets are taken from the queue. -/
def runMatrix (vm : ℕ → VM) (mkdirAll resolve : Option String) (order : List VMTarget)
    (config : VMMatrixConfig) : Except String (List (VMTestResult × List String)) :=
  match (validate config).or ((mkdirAll.map ("create evidence dir: " ++ ·)).or resolve) with
  | some err => .error err
  | none => .ok (order.zipIdx.map fun x => runOne (vm x.2) config x.1)

/-! ### The paths -/

theorem stays_of_escapes {path : String} (h : escapes path = false) : (Path.parse path).Stays := by
  simp only [escapes, ← Path.text_parse, decide_eq_false_iff_not, not_or] at h
  obtain ⟨hup, hbelow, hroot⟩ := h
  have hrel : (Path.parse path).rooted = false :=
    Bool.eq_false_iff.mpr fun hrooted => hroot (by simp [Path.text, hrooted])
  refine ⟨hrel, fun hhead => ?_⟩
  obtain ⟨rest, hrest⟩ := head?_eq_some_iff.mp hhead
  rcases rest with _ | ⟨next, rest⟩
  · exact hup (by simp [Path.text, hrel, hrest])
  · exact hbelow (by simp [Path.text, hrel, hrest])

theorem of_validate {config : VMMatrixConfig} (h : validate config = none) :
    config.evidenceDir ≠ "" ∧ (∀ c ∈ config.captures, escapes c.hostSubpath = false) ∧
      ∀ target ∈ config.targets, escapes target.id = false := by
  unfold validate at h
  split_ifs at h with _ _ hdir
  obtain ⟨hcaptures, htargets⟩ := Option.or_eq_none_iff.mp h
  refine ⟨hdir, fun c hc => ?_, fun target ht => ?_⟩
  · obtain ⟨i, hi⟩ := mem_iff_getElem?.mp hc
    simpa using findSome?_eq_none_iff.mp hcaptures _
      (mk_mem_zipIdx_iff_getElem?.mpr hi)
  · obtain ⟨i, hi⟩ := mem_iff_getElem?.mp ht
    simpa using findSome?_eq_none_iff.mp htargets _
      (mk_mem_zipIdx_iff_getElem?.mpr hi)

theorem within_evidence {config : VMMatrixConfig} {target : VMTarget} {name : String}
    (hdir : config.evidenceDir ≠ "") (htarget : escapes target.id = false)
    (hname : escapes name = false) : Within config.evidenceDir (config.evidence target name) := by
  obtain ⟨htarget, htargetNames⟩ := Path.join_of_stays (stays_of_escapes htarget)
    (Path.parse config.evidenceDir)
  obtain ⟨hname, hnameNames⟩ := Path.join_of_stays (stays_of_escapes hname)
    ((Path.parse config.evidenceDir).join target.id)
  refine ⟨(Path.parse target.id).elems ++ (Path.parse name).elems,
    forall_mem_append.mpr ⟨htargetNames, hnameNames⟩, ?_⟩
  rw [VMMatrixConfig.evidence, Path.joinAll_eq hdir, foldl_cons, foldl_cons, foldl_nil,
    hname, htarget, append_assoc]

theorem mem_runOne {vm : VM} {config : VMMatrixConfig} {target : VMTarget} {path : String}
    (h : path ∈ (runOne vm config target).2) :
    path = config.evidence target "screenshot-on-failure.ppm" ∨
      ∃ c ∈ config.captures, path = config.evidence target c.hostSubpath := by
  rw [runOne] at h
  split at h
  · cases h
  · rcases mem_append.mp h with hmem | hmem
    · obtain ⟨c, hc, rfl⟩ := mem_map.mp hmem
      exact .inr ⟨c, hc, rfl⟩
    · split at hmem
      · exact .inl (mem_singleton.mp hmem)
      · cases hmem

/-- **The evidence stays in its directory**: where `RunMatrix` rejects nothing, each path that a row
downloads to or has its screenshot written to is the directory for the evidence with names below
it. -/
theorem runMatrix_within (vm : ℕ → VM) (mkdirAll resolve : Option String) (order : List VMTarget)
    (config : VMMatrixConfig) (rows : List (VMTestResult × List String))
    (h : runMatrix vm mkdirAll resolve order config = .ok rows) (horder : order ~ config.targets) :
    ∀ row ∈ rows, ∀ path ∈ row.2, Within config.evidenceDir path := by
  intro row hrow path hpath
  rw [runMatrix] at h
  split at h
  · cases h
  · next hnone =>
    cases h
    obtain ⟨hdir, hcaptures, htargets⟩ := of_validate (Option.or_eq_none_iff.mp hnone).1
    obtain ⟨x, hx, rfl⟩ := mem_map.mp hrow
    have htarget := htargets _ (horder.subset (fst_mem_of_mem_zipIdx hx))
    obtain rfl | ⟨c, hc, rfl⟩ := mem_runOne hpath
    · exact within_evidence hdir htarget (by decide +kernel)
    · exact within_evidence hdir htarget (hcaptures c hc)

/-- A script that fails: its log is kept. -/
theorem runMatrix_within_debian :
    Within "../evidence/" "../evidence/debian/logs/x" := by
  have hrun : runMatrix (fun _ => { run := (none, 1), captureScreenshot := some none }) none none
      [⟨"alpine/../debian"⟩] ⟨[⟨"alpine/../debian"⟩], [], "/test.sh", [⟨"/log", "./logs//x"⟩],
        "../evidence/", "vm-images.json", true⟩ = .ok [(⟨false, ["../evidence/debian/logs/x"],
          "debian/screenshot-on-failure.ppm"⟩,
          ["../evidence/debian/logs/x", "../evidence/debian/screenshot-on-failure.ppm"])] := by
    decide +kernel
  have hwithin := runMatrix_within _ _ _ _ _ _ hrun (.refl _)
  exact hwithin _ mem_cons_self _ mem_cons_self

end Containers.Vm
