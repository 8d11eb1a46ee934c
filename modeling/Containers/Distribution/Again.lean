import Containers.Distribution.Tunnels
import Containers.Network.TunnelManager
import Containers.Volume.Manager

/-!
# Distributing once more

A distributor together with the two managers its wiring goes through: the volume manager of
`pkg/volume` and the tunnel manager of `pkg/network`. Their states are what their earlier calls have
left (`volumesAfter`, `tunnelsAfter`), and what they answer is what these states decide
(`withManagers`).

A second `Distribute` of the same containers to the same hosts finds the volumes of the first one
registered, and a name is mounted once. So where the first one has mounted a volume the second one
fails – `Distribute` is not idempotent – and where it has mounted none, and tunnels nothing, the
second one leaves everything as it was (`distribute_again_iff`). What it tunnels it tunnels anew.
-/

namespace Containers.Distribution

open Go Remote Scheduler Network Volume DefaultDistributor Prog List

variable {S : History → Event Outcome → Prop} {reqs : List ContainerRequirements}
  {d : DefaultDistributor} {plan : PlacementPlan} {t₀ : History} {w : Wiring}

/-! ### The composed system -/

/-- What the two managers find in the world at each point of a history, and the allocator the
tunnel manager was configured with. -/
structure World where
  mounters : History → Mounters
  machine : History → Machine
  allocator : PortAllocator

section Composed

variable (W : World)

/-- **The registry of the volume manager** after a history in which nobody but the distributor
called it. -/
def volumesAfter : History → DefaultVolumeManager
  | [] => {}
  | ⟨.mount v, _⟩ :: t => ((volumesAfter t).mount (W.mounters t) v).2
  | ⟨.unmount name, _⟩ :: t => ((volumesAfter t).unmount (W.mounters t) name).2
  | ⟨.unmountAll, _⟩ :: t => ((volumesAfter t).unmountAll (W.mounters t)).2
  | _ :: t => volumesAfter t

/-- **The tunnels of the tunnel manager** after such a history. -/
def tunnelsAfter : History → DefaultTunnelManager
  | [] => { allocator := W.allocator }
  | ⟨.createTunnel hostName spec, _⟩ :: t =>
    ((tunnelsAfter t).createTunnel (W.machine t) hostName spec).2
  | ⟨.closeTunnel localPort, _⟩ :: t => ((tunnelsAfter t).closeTunnel localPort).2
  | ⟨.closeAllTunnels, _⟩ :: t => (tunnelsAfter t).closeAll.2
  | _ :: t => tunnelsAfter t

/-- An environment in which the volume and the tunnel manager are these two. -/
def withManagers (env : Env) : Env := fun t c =>
  match c with
  | .mount v => ((volumesAfter W t).mount (W.mounters t) v).1
  | .unmount name => ((volumesAfter W t).unmount (W.mounters t) name).1
  | .unmountAll => ((volumesAfter W t).unmountAll (W.mounters t)).1
  | .createTunnel hostName spec =>
    ((tunnelsAfter W t).createTunnel (W.machine t) hostName spec).1
  | .closeTunnel localPort => ((tunnelsAfter W t).closeTunnel localPort).1
  | .closeAllTunnels => (tunnelsAfter W t).closeAll.1
  | c => env t c

def tunnelCount (t : History) : ℕ := (tunnelsAfter W t).tunnels.keys.length

end Composed

def entryOf (x : PlacementDecision) : DistributedContainer :=
  { requirement := x.requirement, hostName := x.hostName, state := .deploying }

/-- The ports of a container that are tunnelled: those with a container port, of a container
on a remote host. -/
def tunnelledPorts (opts : Options) (dc : DistributedContainer) : List PortMapping :=
  if normHost dc.hostName = "local" then []
  else (wiredPorts opts dc).filter fun p => 0 < p.containerPort

/-- The volumes of a container that are mounted: those of a container on a remote host. -/
def mountedVolumes (opts : Options) (dc : DistributedContainer) : List VolumeMount :=
  if normHost dc.hostName = "local" then [] else wiredVolumes opts dc

def AllRunning (d : DefaultDistributor) : Prop := ∀ dc ∈ d.containers, dc.state = .running

instance (d : DefaultDistributor) : Decidable (AllRunning d) :=
  inferInstanceAs (Decidable (∀ dc ∈ d.containers, dc.state = .running))

variable {W : World} {env : Env} {opts : Options} {t t' : History} {dc : DistributedContainer}

/-- The assumption that all answers are those of the composed system. -/
def AnsweredBy (W : World) (env : Env) : History → Event Outcome → Prop :=
  fun t e => e.outcome = withManagers W env t e.call

/-! ### Calls to others -/

theorem NotWiring.managers_cons {c : SeamCall} (h : NotWiring c) (o : Outcome c) :
    volumesAfter W (⟨c, o⟩ :: t) = volumesAfter W t ∧
      tunnelsAfter W (⟨c, o⟩ :: t) = tunnelsAfter W t := by
  cases c with
  | createTunnel | closeTunnel | closeAllTunnels | mount | unmount | unmountAll => exact absurd h id
  | _ => exact ⟨rfl, rfl⟩

theorem wp_managers_eq {α : Type} {act : Act α} (h : act.Only NotWiring) (t : History) :
    act.wp S (fun _ t' => volumesAfter W t' = volumesAfter W t ∧
      tunnelsAfter W t' = tunnelsAfter W t) t :=
  h.wp (R := fun t t' => volumesAfter W t' = volumesAfter W t ∧
      tunnelsAfter W t' = tunnelsAfter W t) (fun _ => ⟨rfl, rfl⟩)
    (fun _ _ _ o hc hR => ⟨(hc.managers_cons o).1.trans hR.1, (hc.managers_cons o).2.trans hR.2⟩) t

/-! ### What a wiring that succeeds has done -/

/-- From `t` to `t'` the container was wired: no registered volume was forgotten, each of its
volumes was not registered before and is now, and each of its tunnelled ports has a tunnel
more. -/
structure Wired (W : World) (volumes : List VolumeMount) (ports : ℕ) (t t' : History) : Prop where
  kept : ∀ name ∈ (volumesAfter W t).mounts, name ∈ (volumesAfter W t').mounts
  mounted : ∀ v ∈ volumes,
    v.name ∉ (volumesAfter W t).mounts ∧ v.name ∈ (volumesAfter W t').mounts
  opened : tunnelCount W t' = tunnelCount W t + ports

theorem Wired.of_eq (hvolumes : volumesAfter W t' = volumesAfter W t)
    (htunnels : tunnelsAfter W t' = tunnelsAfter W t) : Wired W [] 0 t t' where
  kept name h := hvolumes ▸ h
  mounted v hv := absurd hv not_mem_nil
  opened := by rw [tunnelCount, htunnels]; rfl

theorem Wired.trans {vs vs' : List VolumeMount} {n n' : ℕ} {t'' : History} (h : Wired W vs n t t')
    (h' : Wired W vs' n' t' t'') : Wired W (vs ++ vs') (n + n') t t'' where
  kept name hname := h'.kept name (h.kept name hname)
  mounted v hv := by
    rcases mem_append.mp hv with hv | hv
    · exact ⟨(h.mounted v hv).1, h'.kept _ (h.mounted v hv).2⟩
    · exact ⟨fun hold => (h'.mounted v hv).1 (h.kept _ hold), (h'.mounted v hv).2⟩
  opened := by rw [h'.opened, h.opened, Nat.add_assoc]

theorem wp_wireTunnel_wired {done : List PortMapping} {p : PortMapping} (hsame : SameEntry dc w.dc)
    (hw : w.error = none → Wired W [] (done.filter fun p => 0 < p.containerPort).length t₀ t) :
    (wireTunnel w p).wp (AnsweredBy W env) (fun w' t' => SameEntry dc w'.dc ∧ (w'.error = none →
      Wired W [] ((done ++ [p]).filter fun p => 0 < p.containerPort).length t₀ t')) t := by
  rw [wireTunnel]
  split_ifs with hskip
  · refine ⟨hsame, fun herr => ?_⟩
    have hport : ¬0 < p.containerPort := by
      rw [herr] at hskip
      simpa using hskip
    rw [filter_append, filter_cons_of_neg (by simpa using hport), filter_nil,
      append_nil]
    exact hw herr
  · refine wp_seam fun result hresult => ?_
    cases result with
    | error err =>
      rw [wp_bind]
      exact wp_of_forall (fun _ _ => ⟨hsame, fun herr => absurd herr (by simp)⟩) _
    | ok info =>
      refine ⟨hsame, fun herr => ?_⟩
      have hport : 0 < p.containerPort := by
        rw [show w.error = none from herr] at hskip
        simpa using hskip
      have hone : Wired W [] 1 t
          (⟨.createTunnel w.dc.hostName (tunnelSpec w.dc p), .ok info⟩ :: t) :=
        ⟨fun _ h => h, forall_mem_nil _,
          DefaultTunnelManager.length_tunnels_createTunnel hresult.symm⟩
      rw [filter_append, length_append,
        filter_cons_of_pos (by simpa using hport)]
      exact (hw herr).trans hone

theorem wp_wireVolume_wired {done : List VolumeMount} {ports : ℕ} {v : VolumeMount}
    (hw : w.error = none → Wired W done ports t₀ t) :
    (wireVolume w v).wp (AnsweredBy W env)
      (fun w' t' => w'.error = none → Wired W (done ++ [v]) ports t₀ t') t := by
  rw [wireVolume]
  by_cases hskip : w.error.isSome = true
  · rw [if_pos hskip]
    exact fun herr => absurd hskip (by simp [herr])
  · rw [if_neg hskip]
    -- the host that is filled in does not change the name
    obtain ⟨v', hv', hname⟩ : ∃ v', (if v.hostName = "" then { v with hostName := w.dc.hostName }
        else v) = v' ∧ v'.name = v.name := by
      refine ⟨_, rfl, ?_⟩
      split_ifs <;> rfl
    rw [hv']
    refine wp_seam fun result hresult => ?_
    cases result with
    | some err =>
      rw [wp_bind]
      refine wp_of_forall (fun _ t₁ => ?_) _
      rw [wp_bind]
      exact wp_of_forall (fun _ _ herr => absurd herr (by simp)) t₁
    | none =>
      intro herr
      have hmount := DefaultVolumeManager.mount_eq_none
        (show ((volumesAfter W t).mount (W.mounters t) v').1 = none from hresult.symm)
      have hone : Wired W [v] 0 t (⟨.mount v', none⟩ :: t) := by
        refine ⟨fun _ => DefaultVolumeManager.mem_mount, fun v₁ hv₁ => ?_, rfl⟩
        rw [mem_singleton.mp hv₁, ← hname]
        exact hmount
      exact (hw herr).trans hone

/-- **What a wiring that succeeds has done.** -/
theorem wp_wireTunnelsAndVolumes_wired (dc : DistributedContainer) (t : History) :
    (wireTunnelsAndVolumes opts dc).wp (AnsweredBy W env) (fun r t' => r.2 = none →
      Wired W (mountedVolumes opts dc) (tunnelledPorts opts dc).length t t') t := by
  rw [wireTunnelsAndVolumes, mountedVolumes, tunnelledPorts]
  split_ifs with hlocal
  · exact fun _ => Wired.of_eq rfl rfl
  · refine (wp_foldlM (fun done (w : Wiring) t' => SameEntry dc w.dc ∧ (w.error = none →
        Wired W [] (done.filter fun p => 0 < p.containerPort).length t t'))
      ⟨⟨rfl, rfl⟩, fun _ => Wired.of_eq rfl rfl⟩
      fun done p _ w t' _ hw => wp_wireTunnel_wired hw.1 hw.2).bind ?_
    rintro w t₁ ⟨hsame, hw⟩
    -- the volumes asked for are those of the entry as it was
    have hvolumes : wiredVolumes opts w.dc = wiredVolumes opts dc := by
      rw [wiredVolumes, wiredVolumes, hsame.1, hsame.2]
    rw [hvolumes, wp_bind]
    generalize ((wiredPorts opts dc).filter fun p => 0 < p.containerPort).length = ports at hw ⊢
    exact (wp_foldlM (fun done (w : Wiring) t' => w.error = none → Wired W done ports t t')
      hw fun done v _ w t' _ => wp_wireVolume_wired).mono fun w t' hw => hw

/-! ### Rounds that leave everything running -/

theorem wp_startContainer_configured (dc : DistributedContainer) (t : History) :
    (startContainer opts dc).wp S (fun err _ => err = none → Configured opts dc.place) t := by
  rw [startContainer]
  split_ifs with hlocal
  · rw [deployLocal]
    split_ifs with hrt
    · exact fun h => absurd h (by simp)
    · rw [configured_of_local (normHost_eq_local_iff.mpr hlocal)]
      exact wp_of_forall (fun _ _ _ => by simpa using hrt) t
  · rw [deployRemote, configured_of_remote (mt normHost_eq_local_iff.mp hlocal)]
    split_ifs with hexec hmgr
    · exact fun h => absurd h (by simp)
    · exact fun h => absurd h (by simp)
    · exact wp_of_forall (fun _ _ _ => ⟨by simpa using hexec, by simpa using hmgr⟩) t

/-- What it means that the turn of a decision has left its container running. -/
structure Turned (W : World) (opts : Options) (x : PlacementDecision) (t t' : History) : Prop where
  placed : x.score ≠ 0
  configured : Configured opts (entryOf x).place
  wired : Wired W (mountedVolumes opts (entryOf x)) (tunnelledPorts opts (entryOf x)).length t t'

theorem wp_deployDecision_turned (r : Round) (x : PlacementDecision) (t : History) :
    (deployDecision opts r x).wp (AnsweredBy W env) (fun r' t' => ∃ dc,
      r'.containers = r.containers ++ [dc] ∧ (dc.state = .running → Turned W opts x t t')) t := by
  refine wp_seam fun cancelled _ => ?_
  have hfail : ∀ (r : Round) dc err t', ∃ dc', (r.fail dc err).containers = r.containers ++ [dc'] ∧
      (dc'.state = .running → Turned W opts x t t') :=
    fun r dc err t' => ⟨_, rfl, fun h => absurd h (by simp)⟩
  cases cancelled with
  | some err => exact hfail _ _ _ _
  | none =>
    split_ifs with hscore
    · exact hfail _ _ _ _
    · rw [wp_bind, deployContainer, wp_bind]
      refine ((wp_startContainer_configured (entryOf x) _).and
        (wp_managers_eq (W := W) onlyNotWiring_startContainer _)).mono ?_
      rintro err t₁ ⟨hconf, hstart⟩
      cases err with
      | some text => exact fun _ _ => hfail _ _ _ _
      | none =>
        refine (wp_wireTunnelsAndVolumes_wired (entryOf x) t₁).bind ?_
        rintro ⟨dc, err⟩ t₂ hwired
        cases err with
        | some text =>
          rw [wp_bind]
          refine wp_of_forall (fun tdErr t₃ => ?_) t₂
          cases tdErr with
          | none => exact fun _ _ => hfail _ _ _ _
          | some tdText => exact fun _ _ _ _ => hfail _ _ _ _
        | none =>
          refine ⟨_, rfl, fun _ => ⟨hscore, hconf rfl, ?_⟩⟩
          have hbefore : Wired W [] 0 t t₁ := Wired.of_eq hstart.1 hstart.2
          have hall := hbefore.trans (hwired rfl)
          rwa [nil_append, Nat.zero_add] at hall

/-- **The rule for rounds that leave everything running**: a property of the decisions done
and of the managers that every successful turn carries on holds after such a round. -/
theorem wp_distribute_running (hsched : d.opts.scheduler = true)
    (hplan : env t (.scheduleBatch reqs) = .ok plan)
    (J : List PlacementDecision → DefaultVolumeManager → ℕ → Prop)
    (hinit : J [] (volumesAfter W t) (tunnelCount W t))
    (hturn : ∀ done x t₁ t₂, x ∈ plan.decisions → J done (volumesAfter W t₁) (tunnelCount W t₁) →
      Turned W d.opts x t₁ t₂ → J (done ++ [x]) (volumesAfter W t₂) (tunnelCount W t₂)) :
    (d.distribute reqs).wp (AnsweredBy W env) (fun r t' => AllRunning r.1 →
      J plan.decisions (volumesAfter W t') (tunnelCount W t')) t := by
  rw [distribute, if_neg (by simp [hsched])]
  refine wp_seam fun result hresult => ?_
  obtain rfl : result = .ok plan := hresult.trans hplan
  have hfirst : J [] (volumesAfter W (⟨.scheduleBatch reqs, .ok plan⟩ :: t))
      (tunnelCount W (⟨.scheduleBatch reqs, .ok plan⟩ :: t)) := hinit
  refine (wp_foldlM (fun done (r : Round) t' => (∀ dc ∈ r.containers, dc.state = .running) →
      J done (volumesAfter W t') (tunnelCount W t')) (fun _ => hfirst)
    fun done x rest r t₁ hl hr => ?_).bind fun r t₁ hr => ?_
  · refine (wp_deployDecision_turned r x t₁).mono ?_
    rintro r' t₂ ⟨dc, hcs, hturned⟩ hall
    rw [hcs] at hall
    have hx : x ∈ plan.decisions := hl ▸ mem_append_right _ mem_cons_self
    exact hturn done x t₁ t₂ hx (hr fun dc' hdc' => hall dc' (mem_append_left _ hdc'))
      (hturned (hall dc (mem_append_right _ mem_cons_self)))
  · refine (wp_managers_eq (W := W) (onlyNotWiring_reconcileRelocations _ _ _) t₁).bind ?_
    rintro _ t₂ ⟨hvolumes, htunnels⟩ hall
    rw [hvolumes, tunnelCount, htunnels]
    exact hr hall

/-! ### Rounds with nothing to wire -/

theorem foldlM_wireTunnel_eq_pure {ports : List PortMapping} (h : ∀ p ∈ ports, ¬0 < p.containerPort)
    (w : Wiring) : ports.foldlM wireTunnel w = pure w := by
  induction ports with
  | nil => rfl
  | cons p ports ih =>
    have hskip : wireTunnel w p = pure w := by
      rw [wireTunnel, if_pos (by simpa using Or.inr (h p mem_cons_self))]
    rw [foldlM_cons, hskip]
    exact ih fun p' hp' => h p' (mem_cons_of_mem p hp')

theorem wireTunnelsAndVolumes_eq_pure (hports : tunnelledPorts opts dc = [])
    (hvolumes : mountedVolumes opts dc = []) :
    wireTunnelsAndVolumes opts dc = pure (dc, none) := by
  rw [wireTunnelsAndVolumes]
  rw [tunnelledPorts] at hports
  rw [mountedVolumes] at hvolumes
  split_ifs at hports hvolumes ⊢ with hlocal
  · rfl
  · have hnone : ∀ p ∈ wiredPorts opts dc, ¬0 < p.containerPort := by
      simpa using filter_eq_nil_iff.mp hports
    rw [foldlM_wireTunnel_eq_pure hnone]
    show ((wiredVolumes opts dc).foldlM wireVolume { dc := dc } >>= fun w => pure (w.dc, w.error))
      = pure (dc, none)
    rw [hvolumes]
    rfl

theorem wp_startContainer_flawless (hS : ∀ t e, S t e → NotWiring e.call → Flawless e)
    (hconf : Configured opts dc.place) (t : History) :
    (startContainer opts dc).wp S (fun err _ => err = none) t := by
  rw [startContainer]
  split_ifs with hlocal
  · rw [configured_of_local (normHost_eq_local_iff.mpr hlocal)] at hconf
    rw [deployLocal, if_neg (by simp [hconf])]
    intro err herr
    cases err with
    | none => rfl
    | some text => exact absurd (hS _ _ herr trivial).1 id
  · rw [configured_of_remote (mt normHost_eq_local_iff.mp hlocal)] at hconf
    rw [deployRemote, if_neg (by simp [hconf.1]), if_neg (by simp [hconf.2])]
    refine wp_seam fun found hfound => ?_
    cases found with
    | none => exact absurd (hS _ _ hfound trivial).1 id
    | some host =>
      refine wp_seam fun removed _ => ?_
      refine wp_seam fun result hresult => ?_
      cases result with
      | error text => exact absurd (hS _ _ hresult trivial).1 id
      | ok r =>
        have hexit : r.exitCode = 0 := (hS _ _ hresult trivial).1
        dsimp only
        rw [if_neg (not_not.mpr hexit)]
        rfl

/-- **A turn with nothing to wire** leaves its container running and the managers alone. -/
theorem wp_deployDecision_unwired (hS : ∀ t e, S t e → NotWiring e.call → Flawless e) (r : Round)
    {x : PlacementDecision} (hscore : x.score ≠ 0) (hconf : Configured opts (entryOf x).place)
    (hports : tunnelledPorts opts (entryOf x) = [])
    (hvolumes : mountedVolumes opts (entryOf x) = []) (t : History) :
    (deployDecision opts r x).wp S (fun r' t' => (∃ dc, r'.containers = r.containers ++ [dc] ∧
      dc.state = .running) ∧ volumesAfter W t' = volumesAfter W t ∧
      tunnelsAfter W t' = tunnelsAfter W t) t := by
  rw [deployDecision]
  refine wp_seam fun cancelled hcancelled => ?_
  cases cancelled with
  | some err => exact absurd (hS _ _ hcancelled trivial).2 id
  | none =>
    rw [if_neg hscore, wp_bind, deployContainer, wp_bind]
    refine ((wp_startContainer_flawless hS hconf _).and
      (wp_managers_eq (W := W) onlyNotWiring_startContainer _)).mono ?_
    rintro err t₁ ⟨rfl, hstart⟩
    have hpure := wireTunnelsAndVolumes_eq_pure hports hvolumes
    rw [entryOf] at hpure
    rw [hpure]
    exact ⟨⟨_, rfl, rfl⟩, hstart⟩

/-- **A round with nothing to wire** leaves everything running and the managers alone. -/
theorem wp_distribute_unwired (henv : ∀ t c, NotWiring c → Flawless ⟨c, env t c⟩)
    (hsched : d.opts.scheduler = true) (hplan : env t (.scheduleBatch reqs) = .ok plan)
    (hready : ∀ x ∈ plan.decisions, x.score ≠ 0 ∧ Configured d.opts (entryOf x).place)
    (hports : ∀ x ∈ plan.decisions, tunnelledPorts d.opts (entryOf x) = [])
    (hvolumes : ∀ x ∈ plan.decisions, mountedVolumes d.opts (entryOf x) = []) :
    (d.distribute reqs).wp (AnsweredBy W env) (fun r t' => AllRunning r.1 ∧
      volumesAfter W t' = volumesAfter W t ∧ tunnelsAfter W t' = tunnelsAfter W t) t := by
  have hS : ∀ t e, AnsweredBy W env t e → NotWiring e.call → Flawless e := by
    intro t e he hcall
    obtain ⟨c, o⟩ := e
    obtain rfl : o = withManagers W env t c := he
    cases c with
    | createTunnel | closeTunnel | closeAllTunnels | mount | unmount | unmountAll =>
      exact absurd hcall id
    | _ => exact henv t _ hcall
  rw [distribute, if_neg (by simp [hsched])]
  refine wp_seam fun result hresult => ?_
  obtain rfl : result = .ok plan := hresult.trans hplan
  have hfirst : (∀ dc ∈ ([] : List DistributedContainer), dc.state = .running) ∧
      volumesAfter W (⟨.scheduleBatch reqs, .ok plan⟩ :: t) = volumesAfter W t ∧
      tunnelsAfter W (⟨.scheduleBatch reqs, .ok plan⟩ :: t) = tunnelsAfter W t :=
    ⟨by simp, rfl, rfl⟩
  refine (wp_foldlM (fun _ (r : Round) t' => (∀ dc ∈ r.containers, dc.state = .running) ∧
      volumesAfter W t' = volumesAfter W t ∧ tunnelsAfter W t' = tunnelsAfter W t) hfirst
    fun done x rest r t₁ hl hr => ?_).bind fun r t₁ hr => ?_
  · have hx : x ∈ plan.decisions := hl ▸ mem_append_right _ mem_cons_self
    refine (wp_deployDecision_unwired (W := W) hS r (hready x hx).1 (hready x hx).2 (hports x hx)
      (hvolumes x hx) t₁).mono ?_
    rintro r' t₂ ⟨⟨dc, hcs, hrunning⟩, hvol, htun⟩
    refine ⟨fun dc' hdc' => ?_, hvol.trans hr.2.1, htun.trans hr.2.2⟩
    rw [hcs] at hdc'
    rcases mem_append.mp hdc' with hdc' | hdc'
    · exact hr.1 dc' hdc'
    · exact mem_singleton.mp hdc' ▸ hrunning
  · refine (wp_managers_eq (W := W) (onlyNotWiring_reconcileRelocations _ _ _) t₁).bind ?_
    rintro _ t₂ ⟨hvol, htun⟩
    exact ⟨hr.1, hvol.trans hr.2.1, htun.trans hr.2.2⟩

/-! ### Once more -/

theorem wp_distribute_opts (t : History) :
    (d.distribute reqs).wp S (fun r _ => r.1.opts = d.opts) t := by
  rw [distribute]
  split_ifs
  · exact rfl
  · refine wp_seam fun result _ => ?_
    cases result with
    | error err => exact rfl
    | ok plan =>
      rw [wp_bind]
      refine wp_of_forall (fun r t₁ => ?_) _
      rw [wp_bind]
      exact wp_of_forall (fun _ _ => rfl) t₁

/-- **When a `Distribute` can be repeated.** The managers are the two of the module, every
other call succeeds, and a `Distribute`, begun in any state, has left every container running.
A second one of the same requirements that gets the same decisions, and has no port to tunnel,
leaves every container running as well, with the same registered mounts and as many open
tunnels, if and only if no container on a remote host has a volume to mount. -/
theorem distribute_again_iff (W : World) (env : Env)
    (henv : ∀ t c, NotWiring c → Flawless ⟨c, env t c⟩) (d : DefaultDistributor) (t : History)
    (hsched : d.opts.scheduler = true) (reqs : List ContainerRequirements)
    (plan plan' : PlacementPlan) (d₁ d₂ : DefaultDistributor) (t₁ t₂ : History)
    (report report' : Report) (hplan : env t (.scheduleBatch reqs) = .ok plan)
    (hfirst : (d.distribute reqs).run (withManagers W env) t = ((d₁, report), t₁))
    (hrunning : AllRunning d₁) (hplan' : env t₁ (.scheduleBatch reqs) = .ok plan')
    (hsame : plan'.decisions = plan.decisions)
    (hsecond : (d₁.distribute reqs).run (withManagers W env) t₁ = ((d₂, report'), t₂))
    (hports : ∀ x ∈ plan.decisions, tunnelledPorts d.opts (entryOf x) = []) :
    (AllRunning d₂ ∧ volumesAfter W t₂ = volumesAfter W t₁ ∧ tunnelCount W t₂ = tunnelCount W t₁) ↔
      ∀ x ∈ plan.decisions, mountedVolumes d.opts (entryOf x) = [] := by
  have hanswered : ∀ t c, AnsweredBy W env t ⟨c, withManagers W env t c⟩ := fun _ _ => rfl
  have hopts : d₁.opts = d.opts := by
    have hwp : (d.distribute reqs).wp (AnsweredBy W env) (fun r _ => r.1.opts = d.opts) t :=
      wp_distribute_opts t
    have h := hwp.of_run_answered (withManagers W env) hanswered
    rwa [hfirst] at h
  -- after the first round everything could be started, and its volumes are registered
  have hafter : ∀ x ∈ plan.decisions, (x.score ≠ 0 ∧ Configured d.opts (entryOf x).place) ∧
      ∀ v ∈ mountedVolumes d.opts (entryOf x), v.name ∈ (volumesAfter W t₁).mounts := by
    have h := (wp_distribute_running (W := W) hsched hplan (fun done vm _ => ∀ x ∈ done,
        (x.score ≠ 0 ∧ Configured d.opts (entryOf x).place) ∧
        ∀ v ∈ mountedVolumes d.opts (entryOf x), v.name ∈ vm.mounts) (by simp)
      fun done x s s' _ hdone hturned => ?_).of_run_answered (withManagers W env) hanswered
    · rw [hfirst] at h
      exact h hrunning
    · intro y hy
      rcases mem_append.mp hy with hy | hy
      · exact ⟨(hdone y hy).1, fun v hv => hturned.wired.kept _ ((hdone y hy).2 v hv)⟩
      · rw [mem_singleton.mp hy]
        exact ⟨⟨hturned.placed, hturned.configured⟩, fun v hv => (hturned.wired.mounted v hv).2⟩
  rw [← hsame] at hafter hports ⊢
  rw [← hopts] at hafter hports hsched ⊢
  constructor
  · -- a registered volume cannot be mounted again, so its container is not running
    rintro ⟨hall, -⟩ x hx
    rw [eq_nil_iff_forall_not_mem]
    intro v hv
    have h := (wp_distribute_running (W := W) hsched hplan'
      (fun done vm _ => v.name ∈ vm.mounts ∧ x ∉ done) ⟨(hafter x hx).2 v hv, not_mem_nil⟩
      fun done y s s' _ hdone hturned => ?_).of_run_answered (withManagers W env) hanswered
    · rw [hsecond] at h
      exact (h hall).2 hx
    · refine ⟨hturned.wired.kept _ hdone.1, fun hmem => ?_⟩
      rcases mem_append.mp hmem with hmem | hmem
      · exact hdone.2 hmem
      · rw [← mem_singleton.mp hmem] at hturned
        exact (hturned.wired.mounted v hv).1 hdone.1
  · intro hvolumes
    have h := (wp_distribute_unwired (W := W) henv hsched hplan' (fun x hx => (hafter x hx).1)
      hports hvolumes).of_run_answered (withManagers W env) hanswered
    rw [hsecond] at h
    exact ⟨h.1, h.2.1, by rw [tunnelCount, h.2.2]; rfl⟩

/-- A world in which every host is known, every port is free, and every remote command
succeeds. -/
def calm : World where
  mounters _ :=
    { getHost := fun name => .ok (some { name := name })
      mount := fun _ _ => none
      unmount := fun _ _ => none }
  machine _ :=
    { getHost := fun name => .ok (some { name := name })
      available := fun _ => true
      start := fun _ _ => none }
  allocator := newPortAllocator 20000 30000

/-- A distributor with both managers, and these volumes for every container. -/
def wiring (volumes : List VolumeMount) : DefaultDistributor :=
  { opts := { remoteOnly with
      tunnelManager := true
      volumeManager := true
      volumeMountsFor := some fun _ _ => volumes } }

/-- One `Distribute` in this world. -/
abbrev once (volumes : List VolumeMount) (plan : List PlacementDecision) :
    (DefaultDistributor × Report) × History :=
  ((wiring volumes).distribute (plan.map (·.requirement))).run
    (withManagers calm (flawlessly [plan, plan])) []

abbrev twice (volumes : List VolumeMount) (plan : List PlacementDecision) :
    (DefaultDistributor × Report) × History :=
  ((once volumes plan).1.1.distribute (plan.map (·.requirement))).run
    (withManagers calm (flawlessly [plan, plan])) (once volumes plan).2

/-- `web` on one host and a database on another, without volumes. -/
abbrev webAndDb : List PlacementDecision :=
  [webOn "A", { requirement := { name := "db", image := "postgres" }, hostName := "B", score := 1 }]

/-- Both are distributed twice. -/
theorem distribute_again_web :
    AllRunning (once [] webAndDb).1.1 ∧ AllRunning (twice [] webAndDb).1.1 ∧
      (twice [] webAndDb).1.1.containers.length = 2 ∧
      volumesAfter calm (twice [] webAndDb).2 = volumesAfter calm (once [] webAndDb).2 ∧
      tunnelCount calm (twice [] webAndDb).2 = tunnelCount calm (once [] webAndDb).2 := by
  have hfirst : AllRunning (once [] webAndDb).1.1 := by decide +kernel
  obtain ⟨hrunning, hvolumes, htunnels⟩ :=
    (distribute_again_iff calm (flawlessly [webAndDb, webAndDb])
    (fun t c _ => flawlessly_answers _ t c) (wiring []) [] rfl (webAndDb.map (·.requirement))
    _ _ _ _ _ _ _ _ rfl rfl hfirst rfl rfl rfl (by decide +kernel)).mpr (by decide +kernel)
  exact ⟨hfirst, hrunning, by decide +kernel, hvolumes, htunnels⟩

/-- **A `Distribute` cannot be repeated as it is.** Every command succeeds, and `web` runs on
`A` with a volume; distributed there once more it fails, because the volume is mounted. With a
port in place of the volume it runs, and there are two tunnels where there was one. -/
theorem distribute_not_again :
    (AllRunning (once [{ name := "data", remotePath := "/data" }] [webOn "A"]).1.1 ∧
      ¬AllRunning (twice [{ name := "data", remotePath := "/data" }] [webOn "A"]).1.1 ∧
      (twice [{ name := "data", remotePath := "/data" }] [webOn "A"]).1.1.containers.map (·.error)
        = ["mount volume data for web: mount \"data\" already exists"]) ∧
    AllRunning (once [] [portedOn "A"]).1.1 ∧ AllRunning (twice [] [portedOn "A"]).1.1 ∧
      tunnelCount calm (once [] [portedOn "A"]).2 = 1 ∧
      tunnelCount calm (twice [] [portedOn "A"]).2 = 2 := by
  decide +kernel

end Containers.Distribution
