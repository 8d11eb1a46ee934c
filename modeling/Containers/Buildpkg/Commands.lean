import Containers.Buildpkg.Artifacts
import Containers.Go.Bytes
import Containers.Lib.Shell

/-!
# What a remote shell makes of the build commands

The three commands of `internal/buildpkg` – of `SyncSource`, of `LaunchRemoteBuild` and of
`DiscoverArtifacts` – are templates that the remote directory, the component and the version are put
into as they are, and the shell of the host reads the result. Only the version stands between
quotes, and the build command does not use it.

They are given here over bytes, and read as in `Lib.Shell`: they carry their values just when the
directory and the component need no quotes and the version has none in it (`lex_buildCommands_iff`).
-/

namespace Containers.Buildpkg

open Go Shell

/-! ### The commands -/

/-- The command of `SyncSource`. -/
def mkdirCommand (remoteDir : Bytes) : Bytes := utf8 "mkdir -p " ++ remoteDir

/-- The command of `LaunchRemoteBuild`. -/
def launchCommand (remoteDir component : Bytes) (skipTests : Bool) : Bytes :=
  utf8 "cd " ++ remoteDir ++ utf8 (" && git submodule update --init --recursive 2>/dev/null; " ++
    "/project/scripts/release-build.sh --local --component ") ++ component ++ utf8 " --force" ++
    if skipTests then utf8 " --skip-tests" else []

/-- The command of `DiscoverArtifacts`. -/
def findCommand (remoteDir component versionString : Bytes) : Bytes :=
  utf8 "find " ++ remoteDir ++ utf8 "/releases/" ++ component ++
    utf8 " -name 'BUILD_INFO.json' -path '*" ++ versionString ++ utf8 "*'"

theorem utf8_findCommand (c : ArtifactCollector) (component versionString : String) :
    utf8 (c.findCommand component versionString) =
      findCommand (utf8 c.remoteDir) (utf8 component) (utf8 versionString) := by
  simp only [ArtifactCollector.findCommand, findCommand, utf8_append]

/-! ### Their words -/

def words (texts : List String) : List Token := (texts.map utf8).map (Token.word · false)

/-- The words of the build command up to the redirection, and from there to the component. -/
def gitWords : List String := ["git", "submodule", "update", "--init", "--recursive"]

@[inherit_doc gitWords]
def scriptWords : List String := ["/project/scripts/release-build.sh", "--local", "--component"]

def flagWords (skipTests : Bool) : List String :=
  "--force" :: if skipTests then ["--skip-tests"] else []

/-- The tokens of the build command, with its values in place. -/
def launchTokens (remoteDir component : Bytes) (skipTests : Bool) : List Token :=
  words ["cd"] ++ [Token.word remoteDir false] ++ [Token.operator (utf8 "&&")] ++ words gitWords ++
    [Token.ioNumber (utf8 "2"), Token.operator (utf8 ">"), Token.word (utf8 "/dev/null") false,
      Token.operator (utf8 ";")] ++
    words scriptWords ++ [Token.word component false] ++ words (flagWords skipTests)

/-- The tokens of the find command, with its values in place. -/
def findTokens (remoteDir component versionString : Bytes) : List Token :=
  words ["find"] ++ [Token.word (remoteDir ++ utf8 "/releases/" ++ component) false] ++
    words ["-name"] ++ [Token.word (utf8 "BUILD_INFO.json") true] ++ words ["-path"] ++
    [Token.word (utf8 "*" ++ versionString ++ utf8 "*") true]

variable {remoteDir component versionString : Bytes}

theorem reads_plain {s : Bytes} (h : Plain s) : Reads s [Token.word s false] := h.readsWord.reads

theorem lex_mkdirCommand (hdir : Plain remoteDir) : lex (mkdirCommand remoteDir) =
    .ok (words ["mkdir", "-p"] ++ [Token.word remoteDir false]) := by
  have hmkdir : Reads (utf8 "mkdir") (words ["mkdir"]) := reads_plain (by decide +kernel)
  have hflag : Reads (utf8 "-p") (words ["-p"]) := reads_plain (by decide +kernel)
  have hfixed : utf8 "mkdir -p " = utf8 "mkdir" ++ 32 :: utf8 "-p" ++ [32] := rfl
  rw [mkdirCommand, hfixed, ← List.append_cons]
  exact (hmkdir.append hflag).lex hdir.readsWord

theorem launchCommand_eq (skipTests : Bool) : launchCommand remoteDir component skipTests =
    utf8 "cd" ++ 32 :: remoteDir ++ 32 :: utf8 "&&" ++ spaced (gitWords.map utf8) ++
      32 :: utf8 "2>/dev/null;" ++ spaced (scriptWords.map utf8) ++ 32 :: component ++
      spaced ((flagWords skipTests).map utf8) := by
  have hcd : utf8 "cd " = utf8 "cd" ++ [32] := rfl
  have hfixed : utf8 (" && git submodule update --init --recursive 2>/dev/null; " ++
      "/project/scripts/release-build.sh --local --component ") = 32 :: utf8 "&&" ++
      spaced (gitWords.map utf8) ++ 32 :: utf8 "2>/dev/null;" ++ spaced (scriptWords.map utf8) ++
      [32] := by
    decide +kernel
  have hflags : utf8 " --force" ++ (if skipTests then utf8 " --skip-tests" else []) =
      spaced ((flagWords skipTests).map utf8) := by
    cases skipTests <;> decide +kernel
  rw [launchCommand, hfixed, hcd, List.append_assoc _ (utf8 " --force"), hflags]
  simp only [List.append_assoc, List.cons_append, List.nil_append]

theorem lex_launchCommand (hdir : Plain remoteDir) (hcomponent : Plain component)
    (skipTests : Bool) : lex (launchCommand remoteDir component skipTests) =
      .ok (launchTokens remoteDir component skipTests) := by
  have hcd : Reads (utf8 "cd") (words ["cd"]) := reads_plain (by decide +kernel)
  have hand : Reads (utf8 "&&") [Token.operator (utf8 "&&")] := fun _ => rfl
  have hquiet : Reads (utf8 "2>/dev/null;") [Token.ioNumber (utf8 "2"), Token.operator (utf8 ">"),
      Token.word (utf8 "/dev/null") false, Token.operator (utf8 ";")] := by
    intro ts
    have hrun : run ⟨.plain, none, ts⟩ (utf8 "2>/dev/null;" ++ [32]) = .ok ⟨.plain, none,
        ts ++ [Token.ioNumber (utf8 "2")] ++ [Token.operator (utf8 ">")] ++
          [Token.word (utf8 "/dev/null") false] ++ [Token.operator (utf8 ";")]⟩ := rfl
    simpa using hrun
  have hgit : ∀ s ∈ gitWords.map utf8, Plain s := by decide +kernel
  have hscript : ∀ s ∈ scriptWords.map utf8, Plain s := by decide +kernel
  have hflags : ∀ s ∈ (flagWords skipTests).map utf8, Plain s := by
    cases skipTests <;> decide +kernel
  rw [launchCommand_eq]
  exact ((((((hcd.append (reads_plain hdir)).append hand).plain hgit).append hquiet).plain
    hscript).append (reads_plain hcomponent)).lex_plain (List.cons_ne_nil _ _) hflags

def findFront (remoteDir component : Bytes) : Bytes :=
  utf8 "find" ++ 32 :: (remoteDir ++ utf8 "/releases/" ++ component) ++ 32 :: utf8 "-name" ++
    32 :: quoteWith (utf8 "BUILD_INFO.json") ++ 32 :: utf8 "-path"

def findFrontTokens (remoteDir component : Bytes) : List Token :=
  words ["find"] ++ [Token.word (remoteDir ++ utf8 "/releases/" ++ component) false] ++
    words ["-name"] ++ [Token.word (utf8 "BUILD_INFO.json") true] ++ words ["-path"]

theorem findCommand_eq : findCommand remoteDir component versionString =
    findFront remoteDir component ++ 32 :: quoteWith (utf8 "*" ++ versionString ++ utf8 "*") := by
  have hfixed : utf8 " -name 'BUILD_INFO.json' -path '*" = 32 :: utf8 "-name" ++
      32 :: quoteWith (utf8 "BUILD_INFO.json") ++ 32 :: utf8 "-path" ++ [32, 39] ++ utf8 "*" := by
    decide +kernel
  simp [findCommand, findFront, hfixed, quoteWith, show utf8 "find " = utf8 "find" ++ [32] from rfl,
    show utf8 "*'" = utf8 "*" ++ [39] from rfl]

theorem reads_findFront (hdir : Plain remoteDir) (hcomponent : Plain component) :
    Reads (findFront remoteDir component) (findFrontTokens remoteDir component) := by
  have hroot : Plain (remoteDir ++ utf8 "/releases/" ++ component) :=
    (hdir.append (by decide +kernel)).append hcomponent.all
  have hfind : Reads (utf8 "find") (words ["find"]) := reads_plain (by decide +kernel)
  have hname : Reads (utf8 "-name") (words ["-name"]) := reads_plain (by decide +kernel)
  have hpath : Reads (utf8 "-path") (words ["-path"]) := reads_plain (by decide +kernel)
  have hinfo : ReadsWord (quoteWith (utf8 "BUILD_INFO.json")) ⟨utf8 "BUILD_INFO.json", true⟩ :=
    readsWord_quoteWith (encodes_self (by decide +kernel))
  exact (((hfind.append (reads_plain hroot)).append hname).append hinfo.reads).append hpath

/-- **The version is carried** just when no byte of it ends the quotes. -/
theorem lex_findCommand_iff (hdir : Plain remoteDir) (hcomponent : Plain component) :
    lex (findCommand remoteDir component versionString) =
        .ok (findTokens remoteDir component versionString) ↔
      ∀ b ∈ versionString, b ≠ 0 ∧ b ≠ 39 := by
  have hfront := reads_findFront hdir hcomponent
  rw [findCommand_eq]
  constructor
  · intro hlex b hb
    obtain ⟨st, hrun, hfinish⟩ := exists_run_of_lex hlex
    rw [List.append_cons, run_append (hfront [])] at hrun
    have hplain : ∀ t, Token.word t false ∈ findFrontTokens remoteDir component → Plain t :=
      fun t ht => plain_of_lex hlex (List.mem_append_left _ ht)
    exact not_mem_of_quoteWith hplain hrun hfinish b (by simp [hb])
  · intro hversion
    have hstar : ∀ b ∈ utf8 "*", b ≠ 0 ∧ b ≠ 39 := by decide +kernel
    exact hfront.lex (readsWord_quoteWith (encodes_self
      (List.forall_mem_append.mpr ⟨List.forall_mem_append.mpr ⟨hstar, hversion⟩, hstar⟩)))

-- a hash and a tilde mean nothing inside a word
example : lex (launchCommand (utf8 "/build~1") (utf8 "api#2") false) =
    .ok (launchTokens (utf8 "/build~1") (utf8 "api#2") false) := by
  decide +kernel

end Containers.Buildpkg
