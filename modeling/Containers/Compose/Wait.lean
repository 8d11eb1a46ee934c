import Containers.Go.Values

/-!
# Waiting for compose services

`Up` of `pkg/compose/orchestrator.go` with `waitForServices`, its fallback for a podman-compose that
has no `--wait`: poll the status of the project until the services that were asked for are ready,
the deadline has passed or the context is done.

What comes from outside is a list of polls: what the status command reports, whether the deadline
has passed by then, and whether the context is done before the next tick. A wait that is given too
few polls is still waiting.

A report is cut down to the requested services before it is looked at, and a service that has no
entry in it is not missed (`ready_without_db`). So a wait returns nil at the first report in which
some requested service has an entry and all such entries are ready (`wait_eq_nil_iff`), and all
services are up exactly if that report lists every one of them (`wait_means_all_iff`).
-/

namespace Containers.Compose

open Go List

/-- `ServiceStatus`: one container of a report. -/
structure ServiceStatus where
  name : String
  state : String
  health : String := ""
  deriving DecidableEq, Repr

/-- `ComposeProject`. -/
structure ComposeProject where
  name : String := ""
  file : String := ""
  profile : String := ""
  services : List String := []
  deriving DecidableEq, Repr

/-- The options of an `Up`. -/
structure UpOptions where
  detach : Bool := true
  removeOrphans : Bool := false
  buildFirst : Bool := false
  forceRecreate : Bool := false
  noRecreate : Bool := false
  timeout : ℤ := 0
  wait : Bool := false
  waitTimeout : ℤ := 0

/-- `projectArgs`. -/
def ComposeProject.args (project : ComposeProject) : List String :=
  (if project.file ≠ "" then ["-f", project.file] else []) ++
  (if project.name ≠ "" then ["--project-name", project.name] else []) ++
  (if project.profile ≠ "" then ["--profile", project.profile] else [])

/-- The arguments of the command of an `Up`. Podman-compose has no `--wait`. -/
def upArgs (isPodmanCompose : Bool) (project : ComposeProject) (cfg : UpOptions) : List String :=
  project.args ++ ["up"] ++
  (if cfg.detach then ["-d"] else []) ++
  (if cfg.removeOrphans then ["--remove-orphans"] else []) ++
  (if cfg.buildFirst then ["--build"] else []) ++
  (if cfg.forceRecreate then ["--force-recreate"] else []) ++
  (if cfg.noRecreate then ["--no-recreate"] else []) ++
  (if cfg.timeout > 0 then ["--timeout", toString cfg.timeout] else []) ++
  (if cfg.wait ∧ ¬isPodmanCompose then
    "--wait" :: (if cfg.waitTimeout > 0 then ["--wait-timeout", toString cfg.waitTimeout] else [])
  else []) ++
  project.services

/-! ### Readiness -/

def ServiceStatus.Ready (s : ServiceStatus) : Prop :=
  s.state = "running" ∧ s.health ≠ "starting" ∧ s.health ≠ "unhealthy"

instance (s : ServiceStatus) : Decidable s.Ready :=
  inferInstanceAs (Decidable (_ ∧ _ ∧ _))

/-- `servicesReady`. -/
def servicesReady (statuses : List ServiceStatus) : Bool :=
  statuses ≠ [] ∧ ∀ s ∈ statuses, s.Ready

/-- `filterStatusesByServices`: no services are all services. -/
def filterStatusesByServices (statuses : List ServiceStatus) (services : List String) :
    List ServiceStatus :=
  if services = [] then statuses else statuses.filter fun s => s.name ∈ services

/-- `summarizeStatuses`. -/
def summarizeStatuses (statuses : List ServiceStatus) : String :=
  if statuses = [] then "no services reported"
  else String.intercalate ", " (statuses.map fun s =>
    if s.health ≠ "" then s.name ++ "=" ++ s.state ++ "/" ++ s.health else s.name ++ "=" ++ s.state)

/-! ### The wait -/

/-- One turn of the wait, as far as it comes from outside. -/
structure Poll where
  status : Except String (List ServiceStatus)
  /-- The deadline has passed when the report is in. -/
  late : Bool := false
  /-- The error of the context, if it is done before the next tick. -/
  done : Option String := none

/-- What a turn has against the services, or nothing when they are ready. -/
def Poll.lastErr (services : List String) (poll : Poll) : Option String :=
  match poll.status with
  | .error err => some err
  | .ok statuses =>
    let relevant := filterStatusesByServices statuses services
    if servicesReady relevant then none
    else some ("services not ready: " ++ summarizeStatuses relevant)

/-- A whole number of seconds, as `time.Duration` prints it. -/
def durationText (seconds : ℕ) : String :=
  let h := seconds / 3600
  let m := seconds / 60 % 60
  (if h ≠ 0 then toString h ++ "h" else "") ++ (if h ≠ 0 ∨ m ≠ 0 then toString m ++ "m" else "") ++
    toString (seconds % 60) ++ "s"

/-- The timeout of a wait: 120 seconds unless one is given. -/
def waitSeconds (timeoutSecs : ℤ) : ℕ := if timeoutSecs > 0 then timeoutSecs.toNat else 120

/-- **`waitForServices`**: the error it returns, or nothing yet. -/
def waitForServices (services : List String) (timeoutSecs : ℤ) :
    List Poll → Option (Option String)
  | [] => none
  | poll :: polls =>
    match poll.lastErr services with
    | none => some none
    | some err =>
      if poll.late then
        some (some ("timed out after " ++ durationText (waitSeconds timeoutSecs) ++
          " waiting for services to be ready: " ++ err))
      else
        match poll.done with
        | some ctxErr => some (some ("context canceled waiting for services: " ++ ctxErr))
        | none => waitForServices services timeoutSecs polls

/-- **`Up`**: what the command came to, and the wait. -/
def up (isPodmanCompose : Bool) (run : List String → Option String) (project : ComposeProject)
    (cfg : UpOptions) (polls : List Poll) : Option (Option String) :=
  match run (upArgs isPodmanCompose project cfg) with
  | some err => some (some err)
  | none =>
    if cfg.wait ∧ isPodmanCompose then waitForServices project.services cfg.waitTimeout polls
    else some none

/-! ### What a wait has seen -/

variable {services : List String} {timeoutSecs : ℤ} {polls : List Poll}

/-- **A turn the wait accepts**: the part of the report that it looks at is ready. -/
def Poll.Accepted (services : List String) (poll : Poll) : Prop :=
  ∃ statuses, poll.status = .ok statuses ∧
    servicesReady (filterStatusesByServices statuses services) = true

/-- **A turn the wait goes on after**: not accepted, in time, and with the context not done. -/
def Poll.Passed (services : List String) (poll : Poll) : Prop :=
  ¬poll.Accepted services ∧ poll.late = false ∧ poll.done = none

theorem lastErr_eq_none_iff {poll : Poll} :
    poll.lastErr services = none ↔ poll.Accepted services := by
  rw [Poll.lastErr, Poll.Accepted]
  rcases poll.status with err | statuses
  · simp
  · simp

theorem mem_filterStatuses (hne : services ≠ []) {statuses : List ServiceStatus}
    {s : ServiceStatus} :
    s ∈ filterStatusesByServices statuses services ↔ s ∈ statuses ∧ s.name ∈ services := by
  rw [filterStatusesByServices, if_neg hne, mem_filter, decide_eq_true_eq]

/-- **A wait returns nil** at the first turn it accepts, if it has gone on up to there. -/
theorem wait_eq_nil_iff : waitForServices services timeoutSecs polls = some none ↔
    ∃ pre poll post, polls = pre ++ poll :: post ∧ (∀ p ∈ pre, p.Passed services) ∧
      poll.Accepted services := by
  induction polls with
  | nil => simp [waitForServices]
  | cons poll polls ih =>
    rw [waitForServices]
    by_cases hacc : poll.Accepted services
    · rw [lastErr_eq_none_iff.mpr hacc]
      exact iff_of_true rfl ⟨[], poll, polls, rfl, forall_mem_nil _, hacc⟩
    · obtain ⟨err, herr⟩ := Option.ne_none_iff_exists'.mp (mt lastErr_eq_none_iff.mp hacc)
      -- a turn that is not accepted is passed, or ends the wait with an error
      have hpass : (∃ pre p post, poll :: polls = pre ++ p :: post ∧
          (∀ q ∈ pre, q.Passed services) ∧ p.Accepted services) ↔
          (poll.late = false ∧ poll.done = none) ∧ ∃ pre p post, polls = pre ++ p :: post ∧
            (∀ q ∈ pre, q.Passed services) ∧ p.Accepted services := by
        constructor
        · rintro ⟨pre, p, post, heq, hpre, hp⟩
          cases pre with
          | nil =>
            cases heq
            exact absurd hp hacc
          | cons q pre =>
            cases heq
            obtain ⟨hq, hpre⟩ := forall_mem_cons.mp hpre
            exact ⟨hq.2, pre, p, post, rfl, hpre, hp⟩
        · rintro ⟨hgo, pre, p, post, rfl, hpre, hp⟩
          exact ⟨poll :: pre, p, post, rfl, forall_mem_cons.mpr ⟨⟨hacc, hgo⟩, hpre⟩, hp⟩
      rw [hpass, ← ih, herr]
      cases poll.late <;> cases poll.done <;> simp

theorem wait_eq_none_iff :
    waitForServices services timeoutSecs polls = none ↔ ∀ p ∈ polls, p.Passed services := by
  induction polls with
  | nil => simp [waitForServices]
  | cons poll polls ih =>
    rw [waitForServices, forall_mem_cons, ← ih]
    by_cases hacc : poll.Accepted services
    · rw [lastErr_eq_none_iff.mpr hacc]
      simp [Poll.Passed, hacc]
    · obtain ⟨err, herr⟩ := Option.ne_none_iff_exists'.mp (mt lastErr_eq_none_iff.mp hacc)
      rw [herr]
      cases hlate : poll.late <;> cases hdone : poll.done <;> simp [Poll.Passed, *]

theorem accepted_unique {pre pre' post post' : List Poll} {poll poll' : Poll}
    (heq : pre ++ poll :: post = pre' ++ poll' :: post') (hpre : ∀ p ∈ pre, p.Passed services)
    (hpoll : poll.Accepted services) (hpre' : ∀ p ∈ pre', p.Passed services)
    (hpoll' : poll'.Accepted services) : poll = poll' := by
  induction pre generalizing pre' with
  | nil =>
    cases pre' with
    | nil => exact (cons.inj heq).1
    | cons p pre' =>
      cases heq
      exact absurd hpoll (hpre' _ mem_cons_self).1
  | cons p pre ih =>
    cases pre' with
    | nil =>
      cases heq
      exact absurd hpoll' (hpre _ mem_cons_self).1
    | cons p' pre' =>
      obtain ⟨rfl, htail⟩ := cons.inj heq
      exact ih htail (fun q hq => hpre q (mem_cons_of_mem p hq)) fun q hq =>
        hpre' q (mem_cons_of_mem p hq)

/-- **The services are up in a report**: each of them appears in it, and all its containers are
running and neither starting nor unhealthy. -/
def AllUp (services : List String) (statuses : List ServiceStatus) : Prop :=
  ∀ service ∈ services, (∃ s ∈ statuses, s.name = service) ∧ ∀ s ∈ statuses, s.name = service →
    s.state = "running" ∧ s.health ≠ "starting" ∧ s.health ≠ "unhealthy"

theorem allUp_iff (hne : services ≠ []) {statuses : List ServiceStatus} :
    AllUp services statuses ↔
      servicesReady (filterStatusesByServices statuses services) = true ∧
        ∀ service ∈ services, ∃ s ∈ statuses, s.name = service := by
  obtain ⟨service, hservice⟩ := exists_mem_of_ne_nil _ hne
  simp only [servicesReady, decide_eq_true_eq]
  constructor
  · intro h
    obtain ⟨s, hs, hname⟩ := (h service hservice).1
    refine ⟨⟨ne_nil_of_mem ((mem_filterStatuses hne).mpr ⟨hs, hname ▸ hservice⟩), ?_⟩,
      fun service hservice => (h service hservice).1⟩
    intro s hs
    obtain ⟨hs, hname⟩ := (mem_filterStatuses hne).mp hs
    exact (h _ hname).2 s hs rfl
  · rintro ⟨⟨-, hready⟩, hall⟩ service hservice
    refine ⟨hall service hservice, ?_⟩
    rintro s hs rfl
    exact hready s ((mem_filterStatuses hne).mpr ⟨hs, hservice⟩)

/-- **Waiting means waiting for all** – a wait for some services that returns nil has seen one
report in which they are all up – if and only if the first report that the wait accepts, the one
before which nothing has ended it, lists every one of them. -/
theorem wait_means_all_iff (hne : services ≠ []) :
    (waitForServices services timeoutSecs polls = some none →
      ∃ pre poll post statuses, polls = pre ++ poll :: post ∧
        waitForServices services timeoutSecs pre = none ∧ poll.status = .ok statuses ∧
        AllUp services statuses) ↔
    ∀ pre poll post statuses, polls = pre ++ poll :: post → (∀ p ∈ pre, p.Passed services) →
      poll.status = .ok statuses →
      servicesReady (filterStatusesByServices statuses services) = true →
      ∀ service ∈ services, ∃ s ∈ statuses, s.name = service := by
  constructor
  · rintro h pre poll post statuses rfl hpre hstatus hready
    have hacc : poll.Accepted services := ⟨statuses, hstatus, hready⟩
    obtain ⟨pre', poll', post', statuses', heq, hwait, hstatus', hup⟩ :=
      h (wait_eq_nil_iff.mpr ⟨pre, poll, post, rfl, hpre, hacc⟩)
    have hready' := (allUp_iff hne).mp hup
    have hpre' : ∀ p ∈ pre', p.Passed services := wait_eq_none_iff.mp hwait
    cases accepted_unique heq hpre hacc hpre' ⟨statuses', hstatus', hready'.1⟩
    cases hstatus.symm.trans hstatus'
    exact hready'.2
  · intro h hnil
    obtain ⟨pre, poll, post, rfl, hpre, statuses, hstatus, hready⟩ := wait_eq_nil_iff.mp hnil
    exact ⟨pre, poll, post, statuses, rfl, wait_eq_none_iff.mpr hpre, hstatus,
      (allUp_iff hne).mpr ⟨hready, h pre poll post statuses rfl hpre hstatus hready⟩⟩

/-- Two services, the second one starting at first and then missing in no report. -/
theorem wait_means_all_web_db :
    let polls : List Poll :=
      [⟨.ok [⟨"web", "starting", ""⟩], false, none⟩,
        ⟨.ok [⟨"web", "running", ""⟩, ⟨"db", "running", "healthy"⟩], false, none⟩]
    waitForServices ["web", "db"] 0 polls = some none ∧
    ∃ pre poll post statuses, polls = pre ++ poll :: post ∧
      waitForServices ["web", "db"] 0 pre = none ∧ poll.status = .ok statuses ∧
      AllUp ["web", "db"] statuses := by
  intro polls
  have hnil : waitForServices ["web", "db"] 0 polls = some none := by decide +kernel
  refine ⟨hnil, (wait_means_all_iff (by simp)).mpr ?_ hnil⟩
  rintro pre poll post statuses (heq : [_, _] = _) hpre hstatus hready
  rcases pre with - | ⟨p, - | ⟨q, pre⟩⟩
  · -- the first report is not accepted, although it leaves db out
    cases heq
    cases hstatus
    exact absurd hready (by decide +kernel)
  · cases heq
    cases hstatus
    decide
  · simp at heq

/-- **A service that is not reported is not missed**: web and db are asked for, no report lists db,
and both the wait and the `Up` that waits return nil. -/
theorem ready_without_db : ∃ polls : List Poll,
    waitForServices ["web", "db"] 0 polls = some none ∧
    up true (fun _ => none) { services := ["web", "db"] } { wait := true } polls = some none ∧
    ∀ poll ∈ polls, ∀ statuses, poll.status = .ok statuses → ∀ s ∈ statuses, s.name ≠ "db" := by
  refine ⟨[⟨.ok [⟨"web", "running", ""⟩], false, none⟩], by decide +kernel, by decide +kernel, ?_⟩
  intro poll hpoll statuses hstatus s hs
  cases mem_singleton.mp hpoll
  cases hstatus
  cases mem_singleton.mp hs
  decide

example : durationText (waitSeconds 0) = "2m0s" := by decide +kernel

end Containers.Compose
