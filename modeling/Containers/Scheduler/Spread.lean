import Containers.Scheduler.Candidates
import Containers.Scheduler.Concurrent

/-!
# Spreading stays balanced

Under `spread`, the placement counts of any two eligible hosts differ by at most one, in every state
that calls of `Schedule` and `ScheduleBatch` can reach, however their placements interleave
(`spread_balanced`) – as long as no count has passed the largest `int`. A placement more, and the
fullest host counts as the emptiest (`spread_unbalanced_wrapped`).

The step is the whole argument: a placement counts on a host that no other has fewer containers than
(`scheduleSpread_least`), and adding one there keeps the balance (`Balanced.place`). That it is one
placement at a time, under the lock, is what lets the counts the selection reads be the counts the
placement changes; that a batch deducts capacity from its own copy does not matter, because
deducting keeps the keys and `spread` reads nothing else of the snapshots.
-/

namespace Containers.Scheduler

open Go Remote List

variable {sys : System}

/-! ### Balance -/

/-- **Balanced**: no count has wrapped, and any two differ by at most one. -/
structure Balanced (names : List String) (placements : String → ℤ) : Prop where
  nonneg : ∀ x ∈ names, 0 ≤ placements x
  close : ∀ x ∈ names, ∀ y ∈ names, placements x ≤ placements y + 1

/-- **Every count can still be raised**: none is the largest `int`. -/
def Room (names : List String) (placements : String → ℤ) : Prop :=
  ∀ x ∈ names, placements x < 2 ^ 63 - 1

theorem place_of_room {s : DefaultScheduler} {hostName : String} (hpos : 0 ≤ s.placements hostName)
    (hroom : s.placements hostName < 2 ^ 63 - 1) (x : String) :
    (s.place hostName).placements x =
      s.placements x + if hostName ≠ "" ∧ x = hostName then 1 else 0 := by
  rw [DefaultScheduler.place_placements]
  split_ifs with hx
  · rw [hx.2]
    exact wrapInt64_of_mem (by omega) (by omega)
  · rw [add_zero]

/-- **A placement on a least loaded host keeps the balance.** -/
theorem Balanced.place {names : List String} {s : DefaultScheduler} {hostName : String}
    (h : Balanced names s.placements) (hroom : Room names s.placements)
    (hmem : hostName ∈ names) (hleast : ∀ y ∈ names, s.placements hostName ≤ s.placements y) :
    Balanced names (s.place hostName).placements := by
  have hcount := place_of_room (h.nonneg _ hmem) (hroom _ hmem)
  refine ⟨fun x hx => ?_, fun x hx y hy => ?_⟩
  · have := h.nonneg x hx
    rw [hcount]
    split_ifs <;> omega
  · have hxy := h.close x hx y hy
    rw [hcount, hcount]
    by_cases hplaced : hostName ≠ "" ∧ x = hostName
    · -- the host that gains one was at most as loaded as `y`
      have := hleast y hy
      rw [if_pos hplaced, hplaced.2]
      split_ifs <;> omega
    · rw [if_neg hplaced]
      split_ifs <;> omega

/-! ### Calls that offer a fixed set of hosts -/

/-- **A call offers the hosts `names`** to requests without labels: they are the local
host and the listed hosts that were probed. -/
structure Offers (opts : Options) (names : List String) (snapshots : Snapshots)
    (hosts : List RemoteHost) (reqs : List ContainerRequirements) : Prop where
  labelFree : ∀ req ∈ reqs, req.labels = ∅
  mem_iff : ∀ x, x ∈ opts.localHostName :: (hostsPresentInSnapshots snapshots hosts).map (·.name) ↔
    x ∈ names

/-- An action of a run in which the eligible hosts are `names` and nothing is released. -/
def Action.Offers (opts : Options) (names : List String) : Action → Prop
  | .schedule snapshots hosts req => Scheduler.Offers opts names snapshots hosts [req]
  | .scheduleBatch snapshots hosts reqs => Scheduler.Offers opts names snapshots hosts reqs
  | .place _ => True
  | .release _ => False

variable {P : Platform} {opts : Options} {names : List String} {snapshots : Snapshots}
  {hosts : List RemoteHost} {req : ContainerRequirements} {reqs : List ContainerRequirements}

theorem Offers.mem_allNames_iff (h : Offers opts names snapshots hosts (req :: reqs)) (x : String) :
    x ∈ allNames opts (hostsPresentInSnapshots snapshots hosts) req ↔ x ∈ names := by
  have hmatch : ∀ labels : Labels, labelsMatch labels req.labels = true := by
    intro labels
    rw [h.labelFree req mem_cons_self]
    rfl
  rw [← h.mem_iff x]
  simp [allNames, hmatch]

theorem hostsPresentInSnapshots_batchStep (b : BatchState) (hosts : List RemoteHost)
    (req : ContainerRequirements) :
    hostsPresentInSnapshots (batchStep P hosts b req).working hosts =
      hostsPresentInSnapshots b.working hosts := by
  have hmem : ∀ name : String, name ∈ (batchStep P hosts b req).working ↔ name ∈ b.working := by
    intro name
    rw [batchStep]
    split
    · exact mem_deductAt P
    · exact Iff.rfl
  simp only [hostsPresentInSnapshots, hmem]

/-- **One placement of a spreading batch** counts on a least loaded of the hosts. -/
theorem batchStep_spread {b : BatchState} (hs : b.sched.opts.strategy = .spread)
    (hoffers : Offers b.sched.opts names b.working hosts (req :: reqs)) :
    ∃ x ∈ names, (∀ y ∈ names, b.sched.placements x ≤ b.sched.placements y) ∧
      (batchStep P hosts b req).sched.placements = (b.sched.place x).placements := by
  have hchoice : (scheduleOne P b.sched b.working hosts req).1.hostName =
      (scheduleSpread P b.sched.opts (hostsPresentInSnapshots b.working hosts) req
        b.sched.placements).hostName := by
    simp only [scheduleOne, floorScore_hostName, strategyDecision, hs]
  have hleast : ∀ y ∈ names, _ := fun y hy =>
    scheduleSpread_least (P := P) b.sched.placements ((hoffers.mem_allNames_iff y).mpr hy)
  have hlocal := (hoffers.mem_iff _).mp mem_cons_self
  refine ⟨_, (hoffers.mem_allNames_iff _).mp (hleast _ hlocal).1, fun y hy => (hleast y hy).2, ?_⟩
  rw [← hchoice]
  funext x
  rw [DefaultScheduler.place_placements]
  exact DefaultScheduler.place_placements _ _ x

theorem Offers.batchStep {b : BatchState}
    (h : Offers opts names b.working hosts (req :: reqs)) :
    Offers opts names (batchStep P hosts b req).working hosts reqs where
  labelFree r hr := h.labelFree r (mem_cons_of_mem req hr)
  mem_iff := by
    rw [hostsPresentInSnapshots_batchStep]
    exact h.mem_iff

/-! ### Whole runs -/

/-- What holds of a system whose calls all spread over `names`. -/
structure Spreading (opts : Options) (names : List String) (sys : System) : Prop where
  opts_eq : sys.sched.opts = opts
  offers : ∀ c ∈ sys.inFlight, Offers opts names c.working c.hosts c.pending
  balanced : Balanced names sys.sched.placements

theorem Spreading.start (h : Spreading opts names sys) {c : InFlight}
    (hc : Offers opts names c.working c.hosts c.pending) :
    Spreading opts names { sys with inFlight := sys.inFlight ++ [c] } where
  opts_eq := h.opts_eq
  offers d hd := by
    rcases mem_append.mp hd with hd | hd
    · exact h.offers d hd
    · rw [mem_singleton.mp hd]
      exact hc
  balanced := h.balanced

theorem Spreading.place (hs : opts.strategy = .spread) (h : Spreading opts names sys)
    (hroom : Room names sys.sched.placements) (i : ℕ) :
    Spreading opts names (sys.place P i) := by
  rcases sys.place_cases (P := P) i with hidle | ⟨c, hc, req, rest, hpending, hplace⟩
  · rwa [hidle]
  · have hoffers := h.offers c hc
    rw [hpending] at hoffers
    have hopts := h.opts_eq
    subst hopts
    obtain ⟨x, hx, hleast, hcounts⟩ := batchStep_spread (P := P)
      (b := ⟨sys.sched, c.working, c.decisions⟩) hs hoffers
    rw [hplace]
    refine ⟨batchStep_opts P _ _ _, fun d hd => ?_, ?_⟩
    · -- the calls in flight are the others, and this one with a request less
      rcases mem_or_eq_of_mem_set hd with hd | rfl
      · exact h.offers d hd
      · exact hoffers.batchStep
    · rw [hcounts]
      exact h.balanced.place hroom hx hleast

theorem Spreading.step (hs : opts.strategy = .spread) (h : Spreading opts names sys)
    (hroom : Room names sys.sched.placements) {a : Action} (ha : a.Offers opts names) :
    Spreading opts names (System.step P sys a) := by
  cases a with
  | schedule snapshots hosts req => exact h.start ha
  | scheduleBatch snapshots hosts reqs => exact h.start ha
  | place i => exact h.place hs hroom i
  | release hostName => exact absurd ha id

/-- **A run that leaves every count room keeps spreading**: what is asked of the counts is asked
before each step, not of the state the run ends in. -/
theorem Spreading.run (hs : opts.strategy = .spread) {actions : List Action}
    (hactions : ∀ a ∈ actions, a.Offers opts names) (h : Spreading opts names sys)
    (hroom : ∀ earlier, earlier <+: actions → earlier ≠ actions →
      Room names (System.run P sys earlier).sched.placements) :
    Spreading opts names (System.run P sys actions) := by
  induction actions generalizing sys with
  | nil => exact h
  | cons a actions ih =>
    have hnow : Room names sys.sched.placements := hroom [] nil_prefix (cons_ne_nil a actions).symm
    refine ih (fun b hb => hactions b (mem_cons_of_mem a hb))
      (h.step hs hnow (hactions a mem_cons_self)) fun earlier hearlier hne => ?_
    exact hroom (a :: earlier) (cons_prefix_cons.mpr ⟨rfl, hearlier⟩) fun heq =>
      hne (cons_injective heq)

/-- **Spreading stays balanced.** From empty placement counts, with the same eligible
hosts offered to every call and requests without labels, the placement counts of any two
of them differ by at most one after every interleaving of the placements of `Schedule`
and `ScheduleBatch` calls, as long as no count was the largest `int` before a step. -/
theorem spread_balanced (P : Platform) (opts : Options) (hs : opts.strategy = .spread)
    (names : List String) (actions : List Action) (hactions : ∀ a ∈ actions, a.Offers opts names)
    (hroom : ∀ earlier, earlier <+: actions → earlier ≠ actions → ∀ x ∈ names,
      (System.run P (System.initial opts) earlier).sched.placements x < 2 ^ 63 - 1) :
    ∀ x ∈ names, ∀ y ∈ names,
      (System.run P (System.initial opts) actions).sched.placements x ≤
        (System.run P (System.initial opts) actions).sched.placements y + 1 := by
  have hinit : Spreading opts names (System.initial opts) :=
    ⟨rfl, forall_mem_nil _, fun _ _ => le_refl 0, fun _ _ _ _ => Int.zero_le_ofNat 1⟩
  exact (hinit.run hs hactions hroom).balanced.close

/-- The remote host and the local one, as every call below is offered them. -/
def bothProbed : Snapshots := GoMap.ofList [("h1", some {})]

/-- Two calls that overlap: a batch of two containers is interrupted by a single one. -/
def overlapping : List Action :=
  [.scheduleBatch bothProbed [{ name := "h1" }] [{ name := "a" }, { name := "b" }],
    .place 0, .schedule bothProbed [{ name := "h1" }] { name := "c" }, .place 1, .place 0]

theorem offers_bothProbed (hreqs : ∀ req ∈ reqs, req.labels = ∅) :
    Offers { strategy := .spread } ["local", "h1"] bothProbed [{ name := "h1" }] reqs :=
  ⟨hreqs, fun _ => Iff.rfl⟩

/-- Of the three containers, the local host gets two and the remote host one. -/
theorem spread_balanced_overlapping :
    let counts := (System.run Platform.reference (System.initial { strategy := .spread })
      overlapping).sched.placements
    counts "local" = 2 ∧ counts "h1" = 1 ∧ counts "local" ≤ counts "h1" + 1 := by
  refine ⟨by decide +kernel, by decide +kernel, ?_⟩
  refine spread_balanced Platform.reference { strategy := .spread } rfl ["local", "h1"]
    overlapping ?_ ?_ "local" (by simp) "h1" (by simp)
  · intro a ha
    simp only [overlapping, mem_cons, not_mem_nil, or_false] at ha
    rcases ha with rfl | rfl | rfl | rfl | rfl
    · exact offers_bothProbed (by simp)
    · trivial
    · exact offers_bothProbed (by simp)
    · trivial
    · trivial
  · intro earlier hearlier _
    have hall : ∀ p ∈ overlapping.inits, ∀ x ∈ ["local", "h1"], (System.run Platform.reference
        (System.initial { strategy := .spread }) p).sched.placements x < 2 ^ 63 - 1 := by
      decide +kernel
    exact hall earlier ((mem_inits _ _).mpr hearlier)

/-! ### Beyond the largest count -/

/-- A batch over the two hosts that has placed `n` containers on each. -/
structure Level (n : ℤ) (b : BatchState) : Prop where
  opts_eq : b.sched.opts = { strategy := .spread }
  offers : Offers { strategy := .spread } ["local", "h1"] b.working [{ name := "h1" }] [{}]
  placements_local : b.sched.placements "local" = n
  placements_h1 : b.sched.placements "h1" = n

theorem batchStep_pair {b : BatchState} (hopts : b.sched.opts = { strategy := .spread })
    (hoffers : Offers { strategy := .spread } ["local", "h1"] b.working [{ name := "h1" }] [{}]) :
    let b' := batchStep P [{ name := "h1" }] b {}
    (b.sched.placements "local" ≤ b.sched.placements "h1" ∧
        b'.sched.placements "local" = wrapInt64 (b.sched.placements "local" + 1) ∧
        b'.sched.placements "h1" = b.sched.placements "h1" ∨
      b.sched.placements "h1" ≤ b.sched.placements "local" ∧
        b'.sched.placements "h1" = wrapInt64 (b.sched.placements "h1" + 1) ∧
        b'.sched.placements "local" = b.sched.placements "local") ∧
    b'.sched.opts = { strategy := .spread } ∧
      Offers { strategy := .spread } ["local", "h1"] b'.working [{ name := "h1" }] [{}] := by
  intro b'
  refine ⟨?_, (batchStep_opts ..).trans hopts, ⟨hoffers.labelFree, ?_⟩⟩
  · obtain ⟨x, hx, hleast, hcounts⟩ := batchStep_spread (P := P) (b := b) (by rw [hopts])
      (by rwa [hopts])
    rw [hcounts]
    simp only [DefaultScheduler.place_placements]
    simp only [mem_cons, not_mem_nil, or_false] at hx
    rcases hx with rfl | rfl
    · exact .inl ⟨hleast _ (by simp), by simp, by simp⟩
    · exact .inr ⟨hleast _ (by simp), by simp, by simp⟩
  · rw [hostsPresentInSnapshots_batchStep]
    exact hoffers.mem_iff

theorem Level.twice {b : BatchState} {n : ℤ} (h : Level n b) (hpos : 0 ≤ n)
    (hn : n < 2 ^ 63 - 1) :
    Level (n + 1) ([{}, {}].foldl (batchStep P [{ name := "h1" }]) b) := by
  have hword : wrapInt64 (n + 1) = n + 1 := wrapInt64_of_mem (by omega) (by omega)
  obtain ⟨hfirst, hopts, hoffers⟩ := batchStep_pair (P := P) h.opts_eq h.offers
  obtain ⟨hsecond, hopts', hoffers'⟩ := batchStep_pair (P := P) hopts hoffers
  rw [h.placements_local, h.placements_h1, hword] at hfirst
  refine ⟨hopts', hoffers', ?_, ?_⟩ <;> rw [foldl_cons, foldl_cons, foldl_nil]
  all_goals
    rcases hfirst with ⟨-, hl, hh⟩ | ⟨-, hh, hl⟩ <;> rw [hl, hh, hword] at hsecond <;> omega

theorem level_replicate (n : ℕ) (hn : n < 2 ^ 63) :
    Level n ((replicate (2 * n) {}).foldl (batchStep P [{ name := "h1" }])
      ⟨newScheduler { strategy := .spread }, bothProbed, []⟩) := by
  induction n with
  | zero => exact ⟨rfl, offers_bothProbed (by simp), rfl, rfl⟩
  | succ n ih =>
    have h := (ih (by omega)).twice (P := P) (by omega) (by omega)
    rw [← foldl_append] at h
    rw [Nat.cast_succ, Nat.mul_succ, replicate_add]
    exact h

/-- **The balance ends with the words**: a batch that has placed 2⁶³ - 1 containers on each of
the two hosts places one more, and the host that gets it counts the fewest from there on. -/
theorem spread_unbalanced_wrapped :
    ∃ actions, (∀ a ∈ actions, a.Offers { strategy := .spread } ["local", "h1"]) ∧
      ∃ x ∈ ["local", "h1"], ∃ y ∈ ["local", "h1"],
        (System.run Platform.reference (System.initial { strategy := .spread })
          actions).sched.placements y + 1 <
        (System.run Platform.reference (System.initial { strategy := .spread })
          actions).sched.placements x := by
  obtain ⟨M, hM⟩ : ∃ M : ℕ, M = 2 ^ 63 - 1 := ⟨_, rfl⟩
  have hwrap : wrapInt64 (M + 1) = -2 ^ 63 := by
    rw [hM]
    decide
  have hlevel := level_replicate (P := Platform.reference) M (by omega)
  obtain ⟨hlast, -⟩ := batchStep_pair (P := Platform.reference) hlevel.opts_eq hlevel.offers
  rw [hlevel.placements_local, hlevel.placements_h1, hwrap] at hlast
  refine ⟨.scheduleBatch bothProbed [{ name := "h1" }] (replicate (2 * M + 1) {}) ::
    replicate (2 * M + 1) (.place 0), ?_, ?_⟩
  · intro a ha
    rcases mem_cons.mp ha with rfl | ha
    · exact offers_bothProbed fun req hreq => eq_of_mem_replicate hreq ▸ rfl
    · rw [eq_of_mem_replicate ha]
      trivial
  · obtain ⟨working, hrun⟩ := run_scheduleBatch (P := Platform.reference)
      (System.initial { strategy := .spread }) bothProbed [{ name := "h1" }]
      (replicate (2 * M + 1) {})
    have hsched : (System.run Platform.reference (System.initial { strategy := .spread })
        (.scheduleBatch bothProbed [{ name := "h1" }] (replicate (2 * M + 1) {}) ::
          replicate (2 * M + 1) (.place 0))).sched =
        (batchStep Platform.reference [{ name := "h1" }] ((replicate (2 * M) {}).foldl
          (batchStep Platform.reference [{ name := "h1" }])
          ⟨newScheduler { strategy := .spread }, bothProbed, []⟩) {}).sched := by
      rw [length_replicate, scheduleBatch_sched, replicate_succ', foldl_append] at hrun
      rw [replicate_succ']
      exact congrArg System.sched hrun
    rw [hsched]
    rcases hlast with ⟨-, hl, hh⟩ | ⟨-, hh, hl⟩
    · exact ⟨"h1", by simp, "local", by simp, by rw [hl, hh]; omega⟩
    · exact ⟨"local", by simp, "h1", by simp, by rw [hl, hh]; omega⟩

end Containers.Scheduler
