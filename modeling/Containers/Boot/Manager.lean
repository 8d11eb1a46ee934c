import Containers.Boot.Types

/-!
# The boot manager

`pkg/boot/manager.go`: the phases of `BootAll` – discovery, compose groups, distribution of remote
endpoints, the remote ones that are left, health checks – and the rollback of a boot that failed or
was cancelled, as programs over the seams.

What one phase leaves to the next are the results so far, the counters of the summary, and what a
rollback would have to undo (`Booting`). The summary gets its results only at the end: one that is
returned for a cancelled context has none.
-/

namespace Containers.Boot

open Go

/-- `BootManager`: the endpoints by name, and which collaborators are configured. -/
structure BootManager where
  endpoints : GoMap String ServiceEndpoint
  orchestrator : Bool := false
  healthChecker : Bool := false
  discoverer : Bool := false
  distributor : Bool := false

/-- A boot under way: `bm.results`, the counters, and what it brought up. -/
structure Booting where
  results : GoMap String BootResult := ∅
  started : ℤ := 0
  remote : ℤ := 0
  discovered : ℤ := 0
  failed : ℤ := 0
  skipped : ℤ := 0
  booted : List ComposeProject := []
  distributed : Bool := false

namespace Booting

def record (b : Booting) (name : String) (r : BootResult) : Booting :=
  { b with results := b.results.insert name r }

def status (b : Booting) (name : String) : Option Status := (b.results.lookup name).map (·.status)

end Booting

variable (bm : BootManager)

namespace BootManager

/-- `bm.endpoints[name]`. -/
def endpoint (name : String) : ServiceEndpoint := bm.endpoints.index {} name

/-- The names of the endpoints, in the order of one walk. -/
def rangeEndpoints : Act (List String) := do
  let order ← seam (.range bm.endpoints.keys)
  pure order.1

/-! ### Discovery -/

def discoveryTarget (name : String) : DiscoveryTarget where
  name := name
  host := (bm.endpoint name).host
  port := (bm.endpoint name).port
  method := (bm.endpoint name).discoveryMethod
  timeout := (bm.endpoint name).discoveryTimeout

/-- One endpoint in the discovery phase: a disabled one is skipped, and one that is found is
recorded. -/
def discoverOne (b : Booting) (name : String) : Act Booting :=
  if !(bm.endpoint name).enabled then
    pure { b.record name { status := .skipped } with skipped := b.skipped + 1 }
  else if (bm.endpoint name).discoveryEnabled && bm.discoverer then do
    match ← seam (.discover (bm.discoveryTarget name)) with
    | .ok true =>
        pure { b.record name { status := .discovered } with discovered := b.discovered + 1 }
    | .ok false | .error _ => pure b
  else pure b

/-- **Phase 1.** -/
def discoveryPhase (b : Booting) : Act Booting := do
  let names ← bm.rangeEndpoints
  names.foldlM bm.discoverOne b

/-! ### Compose groups -/

def grouped (name : String) : Bool :=
  (bm.endpoint name).composeFile ≠ "" && (bm.endpoint name).enabled

/-- `groupByCompose`: the names of the enabled endpoints of each compose file. -/
def groupByCompose (names : List String) : GoMap String (List String) :=
  names.foldl (fun groups name =>
    if !bm.grouped name then groups
    else
      groups.insert (bm.endpoint name).composeFile
        (groups.index [] (bm.endpoint name).composeFile ++ [name])) ∅

def firstProfile (names : List String) : String :=
  ((names.map fun name => (bm.endpoint name).profile).find? (· ≠ "")).getD ""

def failGroup (err : String) (b : Booting) (name : String) : Booting :=
  { b.record name { status := .failed, error := some err } with failed := b.failed + 1 }

/-- An endpoint of a group that came up; one that has a result keeps it. -/
def startGroup (b : Booting) (name : String) : Booting :=
  if name ∈ b.results then b
  else if (bm.endpoint name).remote then
    { b.record name { status := .remote } with remote := b.remote + 1 }
  else { b.record name { status := .started } with started := b.started + 1 }

def composeGroup (groups : GoMap String (List String)) (b : Booting) (file : String) :
    Act Booting := do
  let group := groups.index [] file
  let walked ← seam (.range group)
  let project : ComposeProject := ⟨file, bm.firstProfile walked.1⟩
  match ← seam (.up project) with
  | some err =>
    let names ← seam (.range group)
    pure (names.1.foldl (failGroup err) b)
  | none =>
    let names ← seam (.range group)
    pure (names.1.foldl bm.startGroup { b with booted := b.booted ++ [project] })

/-- **Phase 2.** -/
def composePhase (b : Booting) : Act Booting := do
  let names ← bm.rangeEndpoints
  let groups := bm.groupByCompose names
  let files ← seam (.range groups.keys)
  if !bm.orchestrator then pure b else files.1.foldlM (bm.composeGroup groups) b

/-! ### Distribution -/

def toDistribute (b : Booting) (name : String) : Bool :=
  name ∉ b.results && ((bm.endpoint name).remote && (bm.endpoint name).enabled)

def notDeployed (distErr : Option String) (name : String) (deployed total : ℕ) : String :=
  distErr.getD ("boot: remote endpoint " ++ quoted name ++ " not deployed (" ++ toString deployed ++
    "/" ++ toString total ++ " deployed)")

/-- The outcome of the distribution for the endpoint at index `i`: the first `deployed` are
distributed, the others have failed. -/
def attributeDeployed (distErr : Option String) (deployed total : ℕ) (b : Booting)
    (x : String × ℕ) :
    Booting :=
  if x.1 ∈ b.results then b
  else if x.2 < deployed then
    { b.record x.1 { status := .distributed } with remote := b.remote + 1 }
  else
    { b.record x.1 { status := .failed, error := notDeployed distErr x.1 deployed total } with
      failed := if (bm.endpoint x.1).required then b.failed + 1 else b.failed }

/-- **Phase 2.5.** The count that the distributor reports is brought between zero and the number of
endpoints. -/
def distributePhase (b : Booting) : Act Booting :=
  if !bm.distributor then pure b
  else do
    let names ← bm.rangeEndpoints
    let remoteNames := names.filter (bm.toDistribute b)
    if remoteNames = [] then pure b
    else do
      let r ← seam (.distribute remoteNames)
      let deployed := min r.1.toNat remoteNames.length
      pure (remoteNames.zipIdx.foldl (bm.attributeDeployed r.2 deployed remoteNames.length)
        { b with distributed := true })

def leaveRemote (b : Booting) (name : String) : Booting :=
  if name ∈ b.results then b
  else if (bm.endpoint name).remote then
    { b.record name { status := .remote } with remote := b.remote + 1 }
  else b

def remotePhase (b : Booting) : Act Booting := do
  let names ← bm.rangeEndpoints
  pure (names.foldl bm.leaveRemote b)

/-! ### Health -/

def healthTarget (name : String) : HealthTarget where
  name := name
  host := (bm.endpoint name).host
  port := (bm.endpoint name).port
  url := (bm.endpoint name).url
  type := (bm.endpoint name).healthType
  path := (bm.endpoint name).healthPath
  timeout := (bm.endpoint name).timeout
  required := (bm.endpoint name).required

/-- **`HealthCheckAll`**: the errors of the enabled endpoints that are not healthy. -/
def healthCheckAll : Act (GoMap String String) :=
  if !bm.healthChecker then pure ∅
  else do
    let order ← bm.rangeEndpoints
    let names := order.filter fun name => (bm.endpoint name).enabled
    let results ← seam (.checkAll (names.map bm.healthTarget))
    pure ((names.zip results.1).foldl (fun errors x =>
      if x.2.healthy then errors else errors.insert x.1 ("health check failed: " ++ x.2.error)) ∅)

/-- Take an endpoint out of the counter that it was counted in. -/
def uncount (b : Booting) (name : String) : Booting :=
  match b.status name with
  | some .started => { b with started := b.started - 1 }
  | some .remote | some .distributed => { b with remote := b.remote - 1 }
  | some .discovered => { b with discovered := b.discovered - 1 }
  | some .failed | some .skipped | none => b

/-- An endpoint that is not healthy fails if it is required and has not failed before. -/
def failHealth (errors : GoMap String String) (b : Booting) (name : String) : Booting :=
  if !(bm.endpoint name).required || b.status name = some .failed then b
  else
    { (uncount b name).record name { status := .failed, error := errors.lookup name } with
      failed := b.failed + 1 }

/-- **Phase 3.** -/
def healthPhase (b : Booting) : Act Booting :=
  if !bm.healthChecker then pure b
  else do
    let errors ← bm.healthCheckAll
    let names ← seam (.range errors.keys)
    pure (names.1.foldl (bm.failHealth errors) b)

/-! ### The whole -/

/-- `rollback`: undo the distribution, then take the compose groups down in reverse order. Errors
are logged only. -/
def rollback (b : Booting) : Act Unit := do
  if b.distributed && bm.distributor then do
    let _ ← seam .undistribute
  if bm.orchestrator then
    b.booted.reverse.foldlM (fun _ project => do let _ ← seam (.down project)) ()

/-- One compose group is taken down; the first error is kept. -/
def downGroup (groups : GoMap String (List String)) (first : Option String) (file : String) :
    Act (Option String) := do
  let walked ← seam (.range (groups.index [] file))
  let err ← seam (.down ⟨file, bm.firstProfile walked.1⟩)
  pure (first.or err)

def downGroups (first : Option String) : Act (Option String) := do
  let names ← bm.rangeEndpoints
  let groups := bm.groupByCompose names
  let files ← seam (.range groups.keys)
  if !bm.orchestrator then pure first else files.1.foldlM (bm.downGroup groups) first

/-- **`Shutdown`.** -/
def shutdown : Act (Option String) :=
  if bm.distributor then seam .undistribute >>= bm.downGroups else bm.downGroups none

/-- What a `BootAll` returns. -/
structure Report where
  summary : BootSummary
  err : Option String

/-- The counters of a boot, as a summary without results. -/
def summaryOf (b : Booting) (results : GoMap String BootResult) : BootSummary where
  results := results
  started := b.started
  remote := b.remote
  discovered := b.discovered
  failed := b.failed
  skipped := b.skipped

def cancelled (b : Booting) (err : String) : Act Report := do
  bm.rollback b
  pure ⟨summaryOf b ∅, some err⟩

def conclude (b : Booting) : Act Report :=
  if (summaryOf b b.results).hasFailures then do
    bm.rollback b
    pure ⟨summaryOf b b.results, some ("boot: " ++ toString b.failed ++ " service(s) failed")⟩
  else pure ⟨summaryOf b b.results, none⟩

/-- **`BootAll`.** -/
def bootAll : Act Report := do
  let b ← bm.discoveryPhase {}
  match ← seam (.ctxErr .discovery) with
  | some err => bm.cancelled b err
  | none =>
    let b ← bm.composePhase b
    match ← seam (.ctxErr .compose) with
    | some err => bm.cancelled b err
    | none =>
      let b ← bm.distributePhase b
      let b ← bm.remotePhase b
      match ← seam (.ctxErr .distribution) with
      | some err => bm.cancelled b err
      | none =>
        let b ← bm.healthPhase b
        bm.conclude b

end BootManager

end Containers.Boot
