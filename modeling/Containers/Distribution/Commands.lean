import Containers.Distribution.Types
import Containers.Go.Bytes
import Containers.Lib.Shell

/-!
# What a remote shell makes of the rendered commands

The two commands a distributor sends to a remote host are rendered as *text*, and the login shell of
that host reads the text anew. Runtime, container name and image come from configuration and
registries, so they are arbitrary byte strings, and whatever is in them must reach the runtime as
one argument each.

The builders of `pkg/distribution` are translated here over the bytes they really work on (`Raw`); a
command of the distributor is rendered by them (`RemoteCommand.text`). What the shell makes of their
output is the reading of `Lib.Shell`: the intended argument vector, the redirection and the fallback
the removal ends in, and nothing else (`lex_buildRemoteCommands`).
-/

namespace Containers.Distribution

open Go Shell

namespace Raw

/-! ### The builders, byte by byte -/

/-- A port mapping as it comes from outside: its protocol is any byte string. -/
structure PortMapping where
  hostPort : ℤ := 0
  containerPort : ℤ := 0
  protocol : Bytes := []

/-- `shellQuote`: single quotes around, with every embedded one closed, escaped and
reopened. -/
def shellQuote (s : Bytes) : Bytes :=
  utf8 "'" ++ s.flatMap (fun b => if b = 39 then utf8 "'\\''" else [b]) ++ utf8 "'"

/-- The protocol of a published port; an unknown one is refused. The names that are let
through are ASCII and no character beyond ASCII lowers to one of their letters, so it is
enough to lower the ASCII letters. -/
def publishProtocol (protocol : Bytes) : Option Bytes :=
  if toLowerAscii protocol = [] ∨ toLowerAscii protocol = utf8 "tcp" then some (utf8 "tcp")
  else if toLowerAscii protocol = utf8 "udp" then some (utf8 "udp")
  else if toLowerAscii protocol = utf8 "sctp" then some (utf8 "sctp")
  else none

/-- The publish flag of one port; a mapping without a container port or with an unknown
protocol has none. -/
def publishFlag (p : PortMapping) : Bytes :=
  if p.containerPort ≤ 0 then []
  else match publishProtocol p.protocol with
    | none => []
    | some proto =>
      if p.hostPort > 0 then
        utf8 " -p " ++ decimal p.hostPort ++ utf8 ":" ++ decimal p.containerPort ++ utf8 "/" ++
          proto
      else utf8 " -p " ++ decimal p.containerPort ++ utf8 "/" ++ proto

/-- `buildPublishFlags`. -/
def buildPublishFlags (ports : List PortMapping) : Bytes :=
  ports.foldl (fun b p => b ++ publishFlag p) []

/-- `buildRemoteRemoveCommand`. -/
def buildRemoteRemoveCommand (rt name : Bytes) : Bytes :=
  shellQuote rt ++ utf8 " rm -f " ++ shellQuote name ++ utf8 " 2>/dev/null || true"

/-- `buildRemoteRunCommand`. -/
def buildRemoteRunCommand (rt name image : Bytes) (ports : List PortMapping) : Bytes :=
  shellQuote rt ++ utf8 " run -d --name " ++ shellQuote name ++ buildPublishFlags ports ++
    utf8 " " ++ shellQuote image

/-! ### What is intended -/

/-- The argument of the `-p` option of a mapping: the ports, with the host port only if there
is one, and the protocol. A mapping without a positive container port or with a protocol
that is not allowed has none. -/
def PortMapping.argument (p : PortMapping) : Option Bytes :=
  if 0 < p.containerPort then
    (publishProtocol p.protocol).map fun proto =>
      (if 0 < p.hostPort then decimal p.hostPort ++ utf8 ":" else []) ++
        decimal p.containerPort ++ utf8 "/" ++ proto
  else none

/-- The publish options of a list of mappings, in their order. -/
def publishOptions (ports : List PortMapping) : List Bytes :=
  (ports.filterMap PortMapping.argument).flatMap fun a => [utf8 "-p", a]

def bare (s : Bytes) : Token := .word s false

def quoted (s : Bytes) : Token := .word s true

/-! ### Its words -/

variable {s : Bytes}

/-- **A quoted value is one word**, whatever its bytes, and the word is the value. -/
theorem readsWord_shellQuote (h : 0 ∉ s) : ReadsWord (shellQuote s) ⟨s, true⟩ := by
  have hbyte : ∀ b ∈ s, Encodes (if b = 39 then utf8 "'\\''" else [b]) [b] := by
    intro b hb
    split_ifs with hquote
    · rw [hquote]
      exact encodes_escapedQuote
    · refine encodes_self fun b' hb' => ?_
      rw [List.mem_singleton] at hb'
      subst hb'
      exact ⟨fun hzero => h (hzero ▸ hb), hquote⟩
  have henc := Encodes.flatMap hbyte
  rw [List.flatMap_singleton'] at henc
  exact readsWord_quoteWith henc

/-- A text of the bytes publish arguments are made of: digits, the two separators, the
letters of the protocols. -/
def Publishable (s : Bytes) : Prop := ∀ b ∈ s, (48 ≤ b ∧ b ≤ 57) ∨ b ∈ utf8 ":/tcpuds"

theorem Publishable.append {t : Bytes} (hs : Publishable s) (ht : Publishable t) :
    Publishable (s ++ t) := by
  intro b hb
  rcases List.mem_append.mp hb with hb | hb
  · exact hs b hb
  · exact ht b hb

theorem publishable_decimal {n : ℤ} (h : 0 < n) : Publishable (decimal n) :=
  fun b hb => Or.inl ((decimal_digits h).2 b hb)

theorem publishable_of_forall (h : ∀ b ∈ s, b ∈ utf8 ":/tcpuds") : Publishable s :=
  fun b hb => Or.inr (h b hb)

theorem publishable_publishProtocol {protocol proto : Bytes}
    (h : publishProtocol protocol = some proto) : Publishable proto := by
  unfold publishProtocol at h
  split_ifs at h <;> cases h <;> exact publishable_of_forall (by decide +kernel)

theorem Publishable.begins_of_mem (h : Publishable s) : ∀ b ∈ s, begins b := by
  intro b hb
  rcases h b hb with ⟨hlo, hhi⟩ | hb
  · obtain ⟨n, hlo', hhi', rfl⟩ : ∃ n, 48 ≤ n ∧ n ≤ 57 ∧ UInt8.ofNat n = b :=
      ⟨b.toNat, hlo, hhi, UInt8.ofNat_toNat⟩
    interval_cases n <;> decide
  · have hall : ∀ b ∈ utf8 ":/tcpuds", begins b := by decide +kernel
    exact hall b hb

/-- **A publish argument is one word** as it is written. -/
theorem plain_argument {p : PortMapping} {a : Bytes} (h : p.argument = some a) : Plain a := by
  obtain ⟨hport, h⟩ := Option.ite_none_right_eq_some.mp h
  obtain ⟨proto, hproto, rfl⟩ := Option.map_eq_some_iff.mp h
  refine .of_forall (by simp [(decimal_digits hport).1]) (Publishable.begins_of_mem ?_)
  have hhost : Publishable (if 0 < p.hostPort then decimal p.hostPort ++ utf8 ":" else []) := by
    split_ifs with hhost
    · exact (publishable_decimal hhost).append (publishable_of_forall (by decide +kernel))
    · exact publishable_of_forall (by decide +kernel)
  exact ((hhost.append (publishable_decimal hport)).append
    (publishable_of_forall (by decide +kernel))).append (publishable_publishProtocol hproto)

/-! ### Its lines -/

theorem publishFlag_eq (p : PortMapping) :
    publishFlag p = spaced (p.argument.elim [] fun a => [utf8 "-p", a]) := by
  unfold publishFlag PortMapping.argument
  by_cases hport : p.containerPort ≤ 0
  · rw [if_pos hport, if_neg (not_lt.mpr hport)]
    rfl
  · rw [if_neg hport, if_pos (not_le.mp hport)]
    cases publishProtocol p.protocol with
    | none => rfl
    | some proto =>
      by_cases hhost : p.hostPort > 0
      · simp [hhost, spaced, show utf8 " -p " = 32 :: utf8 "-p" ++ [32] from rfl]
      · simp [hhost, spaced, show utf8 " -p " = 32 :: utf8 "-p" ++ [32] from rfl]

theorem buildPublishFlags_eq (ports : List PortMapping) :
    buildPublishFlags ports = spaced (publishOptions ports) := by
  -- the builder appends to what it has, so the statement is about any beginning
  have hacc : ∀ b : Bytes, ports.foldl (fun b p => b ++ publishFlag p) b
      = b ++ spaced (publishOptions ports) := by
    induction ports with
    | nil => simp [publishOptions, spaced]
    | cons p ports ih =>
      intro b
      have hcons : publishOptions (p :: ports)
          = (p.argument.elim [] fun a => [utf8 "-p", a]) ++ publishOptions ports := by
        cases h : p.argument with
        | none => simp [publishOptions, h]
        | some a => simp [publishOptions, h]
      rw [List.foldl_cons, ih, publishFlag_eq, hcons, spaced, spaced, spaced, List.flatMap_append,
        List.append_assoc]
  exact hacc []

theorem plain_of_mem_publishOptions {ports : List PortMapping} (hs : s ∈ publishOptions ports) :
    Plain s := by
  obtain ⟨a, ha, hs⟩ := List.mem_flatMap.mp hs
  obtain ⟨p, _, hp⟩ := List.mem_filterMap.mp ha
  rcases List.mem_cons.mp hs with rfl | hs
  · decide +kernel
  · rw [List.mem_singleton.mp hs]
    exact plain_argument hp

/-- **The run command** is the runtime, the fixed words, the name, the publish options and
the image. -/
theorem lex_buildRemoteRunCommand {rt name image : Bytes} (hrt : 0 ∉ rt) (hname : 0 ∉ name)
    (himage : 0 ∉ image) (ports : List PortMapping) :
    lex (buildRemoteRunCommand rt name image ports)
      = .ok (quoted rt :: [bare (utf8 "run"), bare (utf8 "-d"), bare (utf8 "--name")]
          ++ [quoted name] ++ (publishOptions ports).map bare ++ [quoted image]) := by
  have hfixed : ∀ s ∈ [utf8 "run", utf8 "-d", utf8 "--name"], Plain s := by decide +kernel
  have hline : buildRemoteRunCommand rt name image ports = shellQuote rt ++
      spaced [utf8 "run", utf8 "-d", utf8 "--name"] ++ 32 :: shellQuote name ++
      spaced (publishOptions ports) ++ 32 :: shellQuote image := by
    rw [buildRemoteRunCommand, buildPublishFlags_eq]
    simp [spaced, show utf8 " run -d --name " = 32 :: utf8 "run" ++ 32 :: utf8 "-d"
      ++ 32 :: utf8 "--name" ++ [32] from rfl, show utf8 " " = [32] from rfl]
  rw [hline]
  exact ((((readsWord_shellQuote hrt).reads.plain hfixed).append
    (readsWord_shellQuote hname).reads).plain fun _ => plain_of_mem_publishOptions).lex
      (readsWord_shellQuote himage)

/-- **The remove command** is the runtime, the fixed words and the name, with the redirection
and the fallback that the builder writes. -/
theorem lex_buildRemoteRemoveCommand {rt name : Bytes} (hrt : 0 ∉ rt) (hname : 0 ∉ name) :
    lex (buildRemoteRemoveCommand rt name)
      = .ok [quoted rt, bare (utf8 "rm"), bare (utf8 "-f"), quoted name, .ioNumber (utf8 "2"),
          .operator (utf8 ">"), bare (utf8 "/dev/null"), .operator (utf8 "||"),
          bare (utf8 "true")] := by
  have hfixed : ∀ s ∈ [utf8 "rm", utf8 "-f"], Plain s := by decide +kernel
  have hquiet : Reads (utf8 "2>/dev/null ||") [.ioNumber (utf8 "2"), .operator (utf8 ">"),
      bare (utf8 "/dev/null"), .operator (utf8 "||")] := by
    intro ts
    have hrun : run ⟨.plain, none, ts⟩ (utf8 "2>/dev/null ||" ++ [32]) = .ok ⟨.plain, none,
        ts ++ [.ioNumber (utf8 "2")] ++ [.operator (utf8 ">")] ++ [bare (utf8 "/dev/null")]
          ++ [.operator (utf8 "||")]⟩ := rfl
    simpa using hrun
  have htrue : ReadsWord (utf8 "true") ⟨utf8 "true", false⟩ := fun _ => rfl
  have hline : buildRemoteRemoveCommand rt name = shellQuote rt ++ spaced [utf8 "rm", utf8 "-f"] ++
      32 :: shellQuote name ++ 32 :: utf8 "2>/dev/null ||" ++ 32 :: utf8 "true" := by
    simp [buildRemoteRemoveCommand, spaced,
      show utf8 " rm -f " = 32 :: utf8 "rm" ++ 32 :: utf8 "-f" ++ [32] from rfl,
      show utf8 " 2>/dev/null || true" = 32 :: utf8 "2>/dev/null ||" ++ 32 :: utf8 "true" from rfl]
  rw [hline]
  exact ((((readsWord_shellQuote hrt).reads.plain hfixed).append
    (readsWord_shellQuote hname).reads).append hquiet).lex htrue

/-- **The remote commands carry no injection**: whatever bytes the runtime, the name, the
image and the protocols are made of, the shell of the remote host reads the two commands as
the intended argument vectors – each value one word, each publishable mapping one `-p` with
its argument, in order – and finds no operator in them but the redirection and the fallback
of the removal. -/
theorem lex_buildRemoteCommands (rt name image : Bytes) (ports : List PortMapping)
    (hrt : 0 ∉ rt) (hname : 0 ∉ name) (himage : 0 ∉ image) :
    lex (buildRemoteRunCommand rt name image ports)
        = .ok (quoted rt :: [bare (utf8 "run"), bare (utf8 "-d"), bare (utf8 "--name")]
            ++ [quoted name] ++ (publishOptions ports).map bare ++ [quoted image]) ∧
      lex (buildRemoteRemoveCommand rt name)
        = .ok [quoted rt, bare (utf8 "rm"), bare (utf8 "-f"), quoted name, .ioNumber (utf8 "2"),
            .operator (utf8 ">"), bare (utf8 "/dev/null"), .operator (utf8 "||"),
            bare (utf8 "true")] :=
  ⟨lex_buildRemoteRunCommand hrt hname himage ports, lex_buildRemoteRemoveCommand hrt hname⟩

/-- A runtime that tries to add a command of its own, a name with a quote in it, an image
with a newline, and three mappings of which the second has no known protocol. -/
theorem lex_buildRemoteCommands_hostile :
    lex (buildRemoteRunCommand (utf8 "docker;touch /pwn") (utf8 "it's $HOME") (utf8 "a\nb")
        [⟨8080, 80, utf8 "TCP"⟩, ⟨1, 2, utf8 "tcp;id"⟩, ⟨0, 53, utf8 "udp"⟩])
      = .ok [quoted (utf8 "docker;touch /pwn"), bare (utf8 "run"), bare (utf8 "-d"),
          bare (utf8 "--name"), quoted (utf8 "it's $HOME"), bare (utf8 "-p"),
          bare (utf8 "8080:80/tcp"), bare (utf8 "-p"), bare (utf8 "53/udp"),
          quoted (utf8 "a\nb")] :=
  (lex_buildRemoteCommands (utf8 "docker;touch /pwn") (utf8 "it's $HOME") (utf8 "a\nb")
    [⟨8080, 80, utf8 "TCP"⟩, ⟨1, 2, utf8 "tcp;id"⟩, ⟨0, 53, utf8 "udp"⟩]
    (by decide) (by decide) (by decide)).1

end Raw

/-! ### The commands of the distributor -/

def rawMapping (p : Scheduler.PortMapping) : Raw.PortMapping :=
  ⟨p.hostPort, p.containerPort, utf8 p.protocol⟩

def RemoteCommand.text : RemoteCommand → Bytes
  | .remove rt name => Raw.buildRemoteRemoveCommand (utf8 rt) (utf8 name)
  | .run rt name image ports =>
    Raw.buildRemoteRunCommand (utf8 rt) (utf8 name) (utf8 image) (ports.map rawMapping)

end Containers.Distribution
