import Containers.Go.Values
import Containers.Lib.Sections
import Mathlib.Data.List.TakeWhile

/-!
# Booting emulators

`AndroidEmulator.Boot` of `pkg/emulator/android.go`, with boots that overlap, as `RunMatrix` makes
them when it works on several rows at a time. A boot lists the emulators that `adb devices` knows,
launches one more, and then lists again and again until a serial appears that was not there before;
the row goes on with the port that it found and tears the emulator at that port down at its end.

The emulators are processes of their own: each registers under a console port that no other has,
some time after its launch, and stays there until it is torn down. What comes from outside: when and
under which port they register, the errors of the commands, the states that `adb devices` shows,
which of several new serials a `range` over a map meets first, the end of the time limit, and what
comes of a teardown. The reset of the adb server, the reaping of processes after a failure and the
command lines are left out.

Two boots that list before either emulator has registered both take the other's serial for a new one
(`port_shared`). Boots whose searches do not overlap find different devices (`devices_apart`).
-/

namespace Containers.Emulator

open Go ThreadSystem Sections List AList Option

variable {avd : String}

/-! ### The listing -/

/-- `fmt.Sscanf` with `%d`: a sign and a run of digits, whatever comes after them. -/
def scanInt : List Char → Option ℤ
  | '-' :: cs => atoi ('-' :: cs.takeWhile Char.isDigit)
  | '+' :: cs => atoi ('+' :: cs.takeWhile Char.isDigit)
  | cs => atoi (cs.takeWhile Char.isDigit)

/-- The console port that a line of `adb devices` shows: its first field is a serial of an
emulator. -/
def serialOf (line : String) : Option ℤ :=
  if "emulator-".toList.isPrefixOf line.toList then
    (scanInt ((line.toList.takeWhile (!·.isWhitespace)).drop "emulator-".length)).filter (0 < ·)
  else none

/-- `emulatorSerials`, of the lines that `adb devices` has written. -/
def emulatorSerials (lines : List String) : List ℤ := lines.filterMap serialOf

/-- **The emulators**: those that are registered, by console port, each with its number, and how
many were launched. A port is a number that a socket can have. -/
structure Memory where
  devices : GoMap ℤ ℕ
  launched : ℕ
  range : ∀ port ∈ devices, 0 < port ∧ port < 65536

namespace Memory

def start : Memory := ⟨∅, 0, by simp⟩

variable (m : Memory)

def register (port : ℤ) (k : ℕ) (hport : 0 < port ∧ port < 65536) : Memory :=
  { m with
    devices := m.devices.insert port k
    range := by
      intro p hp
      rcases (AList.mem_insert _).mp hp with rfl | hp
      · exact hport
      · exact m.range p hp }

def unregister (port : ℤ) : Memory :=
  { m with
    devices := m.devices.erase port
    range := fun p hp => m.range p (AList.mem_erase.mp hp).2 }

def launch : Memory := { m with launched := m.launched + 1 }

end Memory

/-! ### The sections -/

/-- What a boot returns. -/
structure BootResult where
  started : Bool
  consolePort : ℤ := 0
  adbPort : ℤ := 0
  error : Option String := none
  deriving DecidableEq, Repr

def BootResult.found (port : ℤ) : BootResult :=
  { started := true, consolePort := port, adbPort := port + 1 }

/-- Where a boot is. -/
inductive BootPoint where
  | before
  | launch (before : List ℤ)
  | discover (before : List ℤ)

/-- What is in flight. -/
inductive Frame where
  | boot (avd : String) (p : BootPoint)
  /-- An emulator that was launched and has not registered yet. -/
  | emulator (k : ℕ)
  /-- A row whose boot has returned this port: it installs, tests and tears down there. -/
  | row (avd : String) (port : ℤ)
  /-- A boot that has failed. -/
  | failed (avd : String) (r : BootResult)

/-- What comes from outside. -/
structure Answer where
  /-- `adb devices` fails. -/
  listingFails : Bool := false
  /-- The state that a listing shows for an emulator. -/
  state : ℤ → String := fun _ => "device"
  /-- The network aliases that a listing shows beside the emulators. -/
  aliases : List ℕ := []
  /-- The launch fails with this error. -/
  start : Option String := none
  /-- Which of the new serials is met first. -/
  pick : ℕ := 0
  /-- The search has used up its time. -/
  late : Bool := false
  /-- The context of the caller is done. -/
  cancelled : Option String := none
  /-- The port under which an emulator registers. -/
  port : ℤ := 5554
  /-- A teardown gets rid of its emulator. -/
  killed : Bool := true

variable (m : Memory) (o : Answer)

/-- What `adb devices` writes. -/
def adbDevices : List String :=
  "List of devices attached" ::
    m.devices.keys.map (fun port => "emulator-" ++ toString port ++ "\t" ++ o.state port) ++
    o.aliases.map (fun port => "localhost:" ++ toString port ++ "\tdevice")

def listing : Option (List ℤ) :=
  if o.listingFails then none else some (emulatorSerials (adbDevices m o))

def newSerials (before : List ℤ) : List ℤ := ((listing m o).getD []).filter (· ∉ before)

/-- `Boot`. -/
def bootStep (avd : String) : BootPoint → Option (Memory × List Frame)
  -- a listing that fails is the empty one
  | .before => some (m, [.boot avd (.launch ((listing m o).getD []))])
  | .launch before =>
    match o.start with
    | some err => some (m, [.failed avd
        { started := false, error := some ("emulator launch failed: " ++ err) }])
    | none => some (m.launch, [.boot avd (.discover before), .emulator m.launched])
  -- `discoverNewSerial`, one turn of its loop
  | .discover before =>
    if o.late then
      some (m, [.failed avd { started := true, error := some ("emulator port discovery failed: " ++
        "no new emulator serial appeared in adb devices within 1m0s") }])
    else if newSerials m o before = [] then
      match o.cancelled with
      | some err => some (m, [.failed avd
          { started := true, error := some ("emulator port discovery failed: " ++
            "emulator port discovery cancelled: " ++ err) }])
      | none => some (m, [.boot avd (.discover before)])
    else (newSerials m o before)[o.pick]?.map fun port => (m, [.row avd port])

def step : Frame → Option (Memory × List Frame)
  | .boot avd p => bootStep m o avd p
  | .emulator k =>
    if hport : o.port ∉ m.devices ∧ 0 < o.port ∧ o.port < 65536 then
      some (m.register o.port k hport.2, [])
    else none
  | .row _ port => some (if o.killed then m.unregister port else m, [])
  | .failed _ _ => some (m, [])

/-- **Boots of emulators**, any number of them at any time. -/
def boots : Sections Memory Frame Answer String where
  call _ avd := .boot avd .before
  step := step

/-! ### What a listing shows -/

variable {m o}

theorem scanInt_digits {n : ℕ} (hn : n < 2 ^ 63) :
    scanInt (toString (n : ℤ)).toList = some (n : ℤ) := by
  have hdigit : ∀ c ∈ (toString (n : ℤ)).toList, c.isDigit = true :=
    fun c => isDigit_of_mem_toString (Int.natCast_nonneg n)
  have hall : (toString (n : ℤ)).toList.takeWhile Char.isDigit = (toString (n : ℤ)).toList :=
    takeWhile_eq_self_iff.mpr hdigit
  -- no sign is printed
  have hsign : ∀ c, c.isDigit = false → ∀ cs, (toString (n : ℤ)).toList ≠ c :: cs := by
    intro c hc cs heq
    have hhead := hdigit c (heq ▸ mem_cons_self)
    rw [hc] at hhead
    cases hhead
  rw [scanInt]
  · rw [hall, atoi_toString hn]
  · exact hsign '-' rfl
  · exact hsign '+' rfl

theorem serialOf_emulator {port : ℤ} (hport : 0 < port ∧ port < 65536) (state : String) :
    serialOf ("emulator-" ++ toString port ++ "\t" ++ state) = some port := by
  obtain ⟨n, rfl⟩ := Int.eq_ofNat_of_zero_le hport.1.le
  have hdigits : ∀ c ∈ (toString (n : ℤ)).toList, (!c.isWhitespace) = true := by
    intro c hc
    have hdigit := isDigit_of_mem_toString (Int.natCast_nonneg n) hc
    rw [Char.isWhitespace]
    have hne : ∀ d : Char, d.isDigit = false → c ≠ d := by
      rintro d hd rfl
      rw [hdigit] at hd
      cases hd
    simp [hne ' ' rfl, hne '\t' rfl, hne '\r' rfl, hne '\n' rfl]
  have hfield : ("emulator-" ++ toString (n : ℤ) ++ "\t" ++ state).toList.takeWhile
      (!·.isWhitespace) = "emulator-".toList ++ (toString (n : ℤ)).toList := by
    have hspace : ("\t" ++ state).toList.takeWhile (!·.isWhitespace) = [] := by
      rw [String.toList_append]
      rfl
    rw [String.append_assoc, String.toList_append, String.toList_append, append_assoc,
      takeWhile_append_of_pos (all_eq_true.mp (by decide +kernel)),
      takeWhile_append_of_pos hdigits, hspace, append_nil]
  have hstart : "emulator-".toList.isPrefixOf
      ("emulator-" ++ toString (n : ℤ) ++ "\t" ++ state).toList = true := by
    rw [List.isPrefixOf_iff_prefix, String.append_assoc, String.append_assoc, String.toList_append]
    exact prefix_append _ _
  have hscan : scanInt (toString (n : ℤ)).toList = some (n : ℤ) := scanInt_digits (by omega)
  have hdrop : ("emulator-".toList ++ (toString (n : ℤ)).toList).drop "emulator-".length =
      (toString (n : ℤ)).toList := drop_left
  rw [serialOf, if_pos hstart, hfield, hdrop, hscan, filter_some, if_pos]
  exact decide_eq_true hport.1

theorem serialOf_alias (port : ℕ) :
    serialOf ("localhost:" ++ toString port ++ "\tdevice") = none := by
  rw [serialOf]
  simp

/-- **A listing shows the registered ports.** -/
theorem mem_emulatorSerials {port : ℤ} :
    port ∈ emulatorSerials (adbDevices m o) ↔ port ∈ m.devices := by
  rw [emulatorSerials, mem_filterMap]
  constructor
  · rintro ⟨line, hline, hserial⟩
    rcases mem_append.mp hline with hline | hline
    · rcases mem_cons.mp hline with rfl | hline
      · have hheader : serialOf "List of devices attached" = none := by decide +kernel
        rw [hheader] at hserial
        cases hserial
      · obtain ⟨p, hp, rfl⟩ := mem_map.mp hline
        rw [serialOf_emulator (m.range p (mem_keys.mpr hp))] at hserial
        cases hserial
        exact mem_keys.mpr hp
    · obtain ⟨n, -, rfl⟩ := mem_map.mp hline
      rw [serialOf_alias] at hserial
      cases hserial
  · intro hport
    refine ⟨_, mem_append_left _ (mem_cons_of_mem _ (mem_map.mpr ⟨port, ?_, rfl⟩)),
      serialOf_emulator (m.range port hport) _⟩
    exact mem_keys.mp hport

/-! ### Searches that do not overlap -/

variable {m' : Memory} {f : Frame} {A B F made : List Frame}

def Frame.port : Frame → Option ℤ
  | .row _ port => some port
  | _ => none

/-- The serials that a boot has listed before it searches for a new one. -/
def Frame.search : Frame → Option (List ℤ)
  | .boot _ (.launch before) | .boot _ (.discover before) => some before
  | _ => none

/-- A boot takes its first listing while no other searches, and the listing does not fail. -/
def Apart : Condition Memory Frame Answer
  | _, F, .boot _ .before, o => o.listingFails = false ∧ ∀ g ∈ F, g.search = none
  | _, _, _, _ => True

/-- **The rows have devices of their own**, and who searches knows them. -/
structure Searched (m : Memory) (F : List Frame) : Prop where
  nodup : (F.filterMap Frame.port).Nodup
  registered : ∀ port ∈ F.filterMap Frame.port, port ∈ m.devices
  one : (F.filterMap Frame.search).length ≤ 1
  known : ∀ before ∈ F.filterMap Frame.search, ∀ port ∈ F.filterMap Frame.port, port ∈ before

theorem Searched.of_subperm {F' : List Frame} (h : Searched m F)
    (hports : (F'.filterMap Frame.port).Subperm (F.filterMap Frame.port))
    (hsearch : (F'.filterMap Frame.search).Subperm (F.filterMap Frame.search))
    (hdevices : ∀ port ∈ F'.filterMap Frame.port, port ∈ m.devices → port ∈ m'.devices) :
    Searched m' F' where
  nodup := nodup_of_subperm hports h.nodup
  registered port hport := hdevices port hport (h.registered port (hports.subset hport))
  one := hsearch.length_le.trans h.one
  known before hbefore port hport :=
    h.known before (hsearch.subset hbefore) port (hports.subset hport)

theorem Searched.of_fewer (h : Searched m (A ++ f :: B))
    (hports : (made.filterMap Frame.port).Subperm f.port.toList)
    (hsearch : (made.filterMap Frame.search).Subperm f.search.toList)
    (hdevices : ∀ port ∈ m.devices, port ∈ m'.devices) : Searched m' (A ++ (made ++ B)) :=
  h.of_subperm (held_subperm A B hports) (held_subperm A B hsearch)
    fun port _ => hdevices port

theorem searched_before (h : Searched m (A ++ Frame.boot avd .before :: B))
    (hlisting : o.listingFails = false)
    (hnone : ∀ g ∈ A ++ Frame.boot avd .before :: B, g.search = none) :
    Searched m (A ++ ([Frame.boot avd (.launch ((listing m o).getD []))] ++ B)) := by
  have hports : ((A ++ ([Frame.boot avd (.launch ((listing m o).getD []))] ++ B)).filterMap
      Frame.port).Perm ((A ++ Frame.boot avd .before :: B).filterMap Frame.port) :=
    held_same_perm A B rfl
  have hsearch := held_made_perm A B
    [Frame.boot avd (.launch ((listing m o).getD []))] Frame.search
  have hidle : (A ++ B).filterMap Frame.search = [] :=
    filterMap_eq_nil_iff.mpr (forall_mem_others hnone)
  rw [hidle] at hsearch
  refine ⟨hports.nodup_iff.mpr h.nodup, fun port hport => ?_, ?_,
    fun before hbefore port hport => ?_⟩
  · exact h.registered port (hports.mem_iff.mp hport)
  · exact hsearch.length_eq.le
  · cases mem_singleton.mp (hsearch.mem_iff.mp hbefore)
    rw [listing, hlisting]
    exact mem_emulatorSerials.mpr (h.registered port (hports.mem_iff.mp hport))

theorem searched_found {before : List ℤ} {port : ℤ}
    (h : Searched m (A ++ Frame.boot avd (.discover before) :: B)) (hport : port ∈ m.devices)
    (hnew : port ∉ before) : Searched m (A ++ ([Frame.row avd port] ++ B)) := by
  have hports := held_perm A B (.boot avd (.discover before)) Frame.port
  have hports' := held_made_perm A B [Frame.row avd port] Frame.port
  have hsearch := held_perm A B (.boot avd (.discover before)) Frame.search
  have hsearch' := held_made_perm A B [Frame.row avd port] Frame.search
  -- the search that ends was the only one
  have hidle : (A ++ B).filterMap Frame.search = [] := by
    have hone := hsearch.length_eq ▸ h.one
    exact eq_nil_of_length_eq_zero (by simpa [Frame.search] using hone)
  have hfree : port ∉ (A ++ B).filterMap Frame.port := fun hmem =>
    hnew (h.known before (hsearch.mem_iff.mpr mem_cons_self) port (hports.mem_iff.mpr hmem))
  refine ⟨nodup_held_new A B h.nodup rfl hfree, fun p hp => ?_, ?_, fun b hb => ?_⟩
  · rcases mem_cons.mp (hports'.mem_iff.mp hp) with rfl | hp
    · exact hport
    · exact h.registered p (hports.mem_iff.mpr hp)
  · rw [hsearch'.length_eq, hidle]
    exact Nat.zero_le 1
  · rw [hidle] at hsearch'
    exact absurd (hsearch'.mem_iff.mp hb) not_mem_nil

theorem searched_row {port : ℤ} (h : Searched m (A ++ Frame.row avd port :: B)) :
    Searched (m.unregister port) (A ++ ([] ++ B)) := by
  have hother := not_mem_held A B h.nodup rfl
  refine h.of_subperm (held_subperm A B (nil_subperm))
    (held_subperm A B (nil_subperm)) fun p hp hmem => mem_erase.mpr ⟨?_, hmem⟩
  rintro rfl
  exact hother hp

/-- **Every section keeps the devices apart** if the searches do not overlap. -/
theorem searched_step (h : Searched m (A ++ f :: B)) (hapart : Apart m (A ++ f :: B) f o)
    (hstep : step m o f = some (m', made)) : Searched m' (A ++ (made ++ B)) := by
  cases f with
  | boot avd p =>
    cases p with
    | before =>
      cases hstep
      exact searched_before h hapart.1 hapart.2
    | launch before =>
      rw [step, bootStep] at hstep
      split at hstep <;> cases hstep
      · exact h.of_fewer nil_subperm nil_subperm fun _ => id
      · exact h.of_fewer nil_subperm (Subperm.refl _) fun _ => id
    | discover before =>
      rw [step, bootStep] at hstep
      split_ifs at hstep with hlate hnone
      · cases hstep
        exact h.of_fewer nil_subperm nil_subperm fun _ => id
      · rcases hcancelled : o.cancelled with _ | err
        · rw [hcancelled] at hstep
          cases hstep
          exact h.of_fewer nil_subperm (Subperm.refl _) fun _ => id
        · rw [hcancelled] at hstep
          cases hstep
          exact h.of_fewer nil_subperm nil_subperm fun _ => id
      · obtain ⟨port, hpick, heq⟩ := map_eq_some_iff.mp hstep
        cases heq
        obtain ⟨hlisted, hnew⟩ := mem_filter.mp (mem_of_getElem? hpick)
        refine searched_found h ?_ (of_decide_eq_true hnew)
        rw [listing] at hlisted
        split_ifs at hlisted
        · cases hlisted
        · exact mem_emulatorSerials.mp hlisted
  | emulator k =>
    rw [step] at hstep
    split_ifs at hstep
    cases hstep
    exact h.of_fewer nil_subperm nil_subperm fun p hp => (mem_insert _).mpr (.inr hp)
  | row avd port =>
    cases hstep
    split_ifs
    · exact searched_row h
    · exact h.of_fewer nil_subperm nil_subperm fun _ => id
  | failed avd r =>
    cases hstep
    exact h.of_fewer nil_subperm nil_subperm fun _ => id

/-! ### An emulator has one port -/

/-- The number of an emulator that has not registered yet. -/
def Frame.number : Frame → Option ℕ
  | .emulator k => some k
  | _ => none

/-- **An emulator registers once.** -/
structure Numbered (m : Memory) (F : List Frame) : Prop where
  nodup : (F.filterMap Frame.number).Nodup
  launched : ∀ k ∈ F.filterMap Frame.number, k < m.launched
  absent : ∀ k ∈ F.filterMap Frame.number, ∀ port, m.devices.lookup port ≠ some k
  bound : ∀ port k, m.devices.lookup port = some k → k < m.launched
  inj : ∀ port port' k, m.devices.lookup port = some k → m.devices.lookup port' = some k →
    port = port'

theorem Numbered.of_fewer (h : Numbered m (A ++ f :: B))
    (hnumber : (made.filterMap Frame.number).Subperm f.number.toList)
    (hlaunched : m'.launched = m.launched)
    (hdevices : ∀ port k, m'.devices.lookup port = some k → m.devices.lookup port = some k) :
    Numbered m' (A ++ (made ++ B)) := by
  have hsub := held_subperm A B hnumber
  refine ⟨nodup_of_subperm hsub h.nodup, fun k hk => ?_, fun k hk port hport => ?_,
    fun port k hport => ?_, fun port port' k hport hport' => ?_⟩
  · rw [hlaunched]
    exact h.launched k (hsub.subset hk)
  · exact h.absent k (hsub.subset hk) port (hdevices port k hport)
  · rw [hlaunched]
    exact h.bound port k (hdevices port k hport)
  · exact h.inj port port' k (hdevices port k hport) (hdevices port' k hport')

theorem numbered_launch {before : List ℤ}
    (h : Numbered m (A ++ Frame.boot avd (.launch before) :: B)) :
    Numbered m.launch
      (A ++ ([Frame.boot avd (.discover before), Frame.emulator m.launched] ++ B)) := by
  have hbefore := held_perm A B (.boot avd (.launch before)) Frame.number
  have hafter := held_made_perm A B
    [Frame.boot avd (.discover before), Frame.emulator m.launched] Frame.number
  have hold : ∀ k ∈ (A ++ B).filterMap Frame.number,
      k ∈ (A ++ Frame.boot avd (.launch before) :: B).filterMap Frame.number :=
    fun k => hbefore.mem_iff.mpr
  refine ⟨hafter.nodup_iff.mpr (nodup_cons.mpr ⟨fun hk => ?_, hbefore.nodup_iff.mp h.nodup⟩),
    fun k hk => ?_, fun k hk port hport => ?_, fun port k hport => ?_, h.inj⟩
  · exact absurd (h.launched _ (hold _ hk)) (lt_irrefl _)
  · rcases mem_cons.mp (hafter.mem_iff.mp hk) with rfl | hk
    · exact Nat.lt_succ_self _
    · exact Nat.lt_succ_of_lt (h.launched k (hold k hk))
  · rcases mem_cons.mp (hafter.mem_iff.mp hk) with rfl | hk
    · exact absurd (h.bound port _ hport) (lt_irrefl _)
    · exact h.absent k (hold k hk) port hport
  · exact Nat.lt_succ_of_lt (h.bound port k hport)

theorem numbered_register {k : ℕ} {port : ℤ} (h : Numbered m (A ++ Frame.emulator k :: B))
    (hport : 0 < port ∧ port < 65536) : Numbered (m.register port k hport) (A ++ ([] ++ B)) := by
  have hbefore := held_perm A B (.emulator k) Frame.number
  obtain ⟨hother, hnodup⟩ := nodup_cons.mp (hbefore.nodup_iff.mp h.nodup)
  have hmem : k ∈ (A ++ Frame.emulator k :: B).filterMap Frame.number :=
    hbefore.mem_iff.mpr mem_cons_self
  -- what a port reads afterwards
  have hlookup : ∀ p k', (m.register port k hport).devices.lookup p = some k' →
      p = port ∧ k' = k ∨ p ≠ port ∧ m.devices.lookup p = some k' :=
    fun _ _ => GoMap.lookup_insert_iff.mp
  refine ⟨hnodup, fun k' hk' => ?_, fun k' hk' p hp => ?_, fun p k' hp => ?_,
    fun p p' k' hp hp' => ?_⟩
  · exact h.launched k' (hbefore.mem_iff.mpr (mem_cons_of_mem _ hk'))
  · rcases hlookup p k' hp with ⟨-, rfl⟩ | ⟨-, hp⟩
    · exact hother hk'
    · exact h.absent k' (hbefore.mem_iff.mpr (mem_cons_of_mem _ hk')) p hp
  · rcases hlookup p k' hp with ⟨-, rfl⟩ | ⟨-, hp⟩
    · exact h.launched k' hmem
    · exact h.bound p k' hp
  · rcases hlookup p k' hp with ⟨hport', rfl⟩ | ⟨-, hold⟩
    · rcases hlookup p' k' hp' with ⟨hport'', -⟩ | ⟨-, hold'⟩
      · rw [hport', hport'']
      · exact absurd hold' (h.absent k' hmem p')
    · rcases hlookup p' k' hp' with ⟨-, rfl⟩ | ⟨-, hold'⟩
      · exact absurd hold (h.absent k' hmem p)
      · exact h.inj p p' k' hold hold'

theorem numbered_step (h : Numbered m (A ++ f :: B)) (hstep : step m o f = some (m', made)) :
    Numbered m' (A ++ (made ++ B)) := by
  cases f with
  | boot avd p =>
    cases p with
    | before =>
      cases hstep
      exact h.of_fewer nil_subperm rfl fun _ _ => id
    | launch before =>
      rw [step, bootStep] at hstep
      split at hstep <;> cases hstep
      · exact h.of_fewer nil_subperm rfl fun _ _ => id
      · exact numbered_launch h
    | discover before =>
      rw [step, bootStep] at hstep
      split_ifs at hstep with hlate hnone
      · cases hstep
        exact h.of_fewer nil_subperm rfl fun _ _ => id
      · rcases hcancelled : o.cancelled with _ | err <;> rw [hcancelled] at hstep <;>
          cases hstep <;> exact h.of_fewer nil_subperm rfl fun _ _ => id
      · obtain ⟨port, -, heq⟩ := map_eq_some_iff.mp hstep
        cases heq
        exact h.of_fewer nil_subperm rfl fun _ _ => id
  | emulator k =>
    rw [step] at hstep
    split_ifs at hstep
    cases hstep
    exact numbered_register h _
  | row avd port =>
    cases hstep
    split_ifs
    · exact h.of_fewer nil_subperm rfl fun _ _ hp => (GoMap.lookup_erase_iff.mp hp).2
    · exact h.of_fewer nil_subperm rfl fun _ _ => id
  | failed avd r =>
    cases hstep
    exact h.of_fewer nil_subperm rfl fun _ _ => id

/-! ### Runs -/

/-- The emulators that are there at first have different numbers. -/
structure Memory.Distinct (m : Memory) : Prop where
  bound : ∀ port k, m.devices.lookup port = some k → k < m.launched
  inj : ∀ port port' k, m.devices.lookup port = some k → m.devices.lookup port' = some k →
    port = port'

theorem Memory.distinct_start : Memory.start.Distinct where
  bound port k hport := by cases hport
  inj port port' k hport := by cases hport

/-- **The devices are kept apart in every run** in which the searches do not overlap. -/
theorem searched_of_reached {m₀ : Memory} {s : State Memory Frame} (hm₀ : m₀.Distinct)
    (h : boots.Reached Apart m₀ s) : Searched s.memory s.frames ∧ Numbered s.memory s.frames := by
  refine h.induction (I := fun m F => Searched m F ∧ Numbered m F) ?_ ?_ ?_
  · refine ⟨⟨nodup_nil, ?_, Nat.zero_le 1, ?_⟩, ⟨nodup_nil, ?_, ?_, hm₀.bound, hm₀.inj⟩⟩
    · exact forall_mem_nil _
    · exact forall_mem_nil _
    · exact forall_mem_nil _
    · exact forall_mem_nil _
  · rintro m F avd ⟨hsearched, hnumbered⟩
    have hports := held_call (.boot avd .before) Frame.port F rfl
    have hsearch := held_call (.boot avd .before) Frame.search F rfl
    have hnumber := held_call (.boot avd .before) Frame.number F rfl
    refine ⟨⟨?_, ?_, ?_, ?_⟩, ⟨?_, ?_, ?_, hnumbered.bound, hnumbered.inj⟩⟩
    · exact hports ▸ hsearched.nodup
    · exact hports ▸ hsearched.registered
    · exact hsearch ▸ hsearched.one
    · exact hports ▸ hsearch ▸ hsearched.known
    · exact hnumber ▸ hnumbered.nodup
    · exact hnumber ▸ hnumbered.launched
    · exact hnumber ▸ hnumbered.absent
  · rintro m A f B o m' made ⟨hsearched, hnumbered⟩ hapart hstep
    exact ⟨searched_step hsearched hapart hstep, numbered_step hnumbered hstep⟩

def Frame.result (f : Frame) : Option BootResult := f.port.map BootResult.found

instance (m : Memory) (F : List Frame) (f : Frame) (o : Answer) : Decidable (Apart m F f o) :=
  match f with
  | .boot _ .before =>
    inferInstanceAs (Decidable (o.listingFails = false ∧ ∀ g ∈ F, g.search = none))
  | .boot _ (.launch _) | .boot _ (.discover _) | .emulator _ | .row _ _ | .failed _ _ =>
    .isTrue trivial

def inTurn : List (Action (ℕ × Answer) String) :=
  [.call "api33", .step 0 (0, {}), .step 0 (0, {}), .step 0 (1, {}), .step 0 (0, {}),
    .call "api34", .step 1 (0, {}), .step 1 (0, {}), .step 1 (1, { port := 5556 }), .step 1 (0, {})]

/-- Two boots that list before either emulator has registered. -/
def atOnce : List (Action (ℕ × Answer) String) :=
  [.call "api33", .call "api34", .step 0 (0, {}), .step 1 (0, {}), .step 0 (0, {}), .step 1 (0, {}),
    .step 0 (1, {}), .step 1 (1, { port := 5556 }), .step 0 (0, { pick := 1 }),
    .step 1 (0, { pick := 1 })]

/-- **Boots get devices of their own**: of the rows that are on their devices, no two have the same
console port or ADB port, and the emulators at their ports are different ones – in every run,
whatever emulators are there at first, in which a boot takes its first listing, which does not fail,
while no other boot is between its first listing and its discovery. -/
theorem devices_apart {m₀ : Memory} {s : State Memory Frame} (hm₀ : m₀.Distinct)
    (h : boots.Reached Apart m₀ s) :
    (s.frames.filterMap Frame.result).Pairwise fun r r' =>
      r.consolePort ≠ r'.consolePort ∧ r.adbPort ≠ r'.adbPort ∧
      ∃ k k', s.memory.devices.lookup r.consolePort = some k ∧
        s.memory.devices.lookup r'.consolePort = some k' ∧ k ≠ k' := by
  obtain ⟨hsearched, hnumbered⟩ := searched_of_reached hm₀ h
  have hresults : s.frames.filterMap Frame.result =
      (s.frames.filterMap Frame.port).map BootResult.found := by
    rw [map_filterMap]
    rfl
  rw [hresults, pairwise_map]
  refine hsearched.nodup.imp_of_mem fun {p p'} hp hp' hne => ⟨hne, fun heq => hne ?_, ?_⟩
  · exact add_right_cancel heq
  · obtain ⟨k, hk⟩ := isSome_iff_exists.mp (lookup_isSome.mpr (hsearched.registered p hp))
    obtain ⟨k', hk'⟩ :=
      isSome_iff_exists.mp (lookup_isSome.mpr (hsearched.registered p' hp'))
    exact ⟨k, k', hk, hk', fun heq => hne (hnumbered.inj p p' k hk (heq ▸ hk'))⟩

/-- Two boots, the second one after the first has found its device. -/
theorem devices_apart_two : ∃ s, boots.Reached Apart .start s ∧
    s.frames.filterMap Frame.result = [.found 5554, .found 5556] ∧ (5554 : ℤ) ≠ 5556 := by
  obtain ⟨s, hs, hresults⟩ : ∃ s, boots.Reached Apart .start s ∧
      s.frames.filterMap Frame.result = [.found 5554, .found 5556] :=
    Reached.of_run inTurn (by decide +kernel)
  have happart := devices_apart Memory.distinct_start hs
  rw [hresults] at happart
  exact ⟨s, hs, hresults, (pairwise_pair.mp happart).1⟩

/-- **Two boots that search at the same time find the same device**: both list before either
emulator has registered, and when both have, both meet the same new serial first. -/
theorem port_shared : ∃ s, boots.Reached anyhow .start s ∧ s.memory.devices.keys = [5556, 5554] ∧
    s.frames.filterMap Frame.result = [.found 5554, .found 5554] := by
  exact Reached.of_run atOnce (by decide +kernel)

end Containers.Emulator
