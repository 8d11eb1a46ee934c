import Containers.Distribution.Tracking

/-!
# Whose tunnels are open

A distributor opens a tunnel per port of a container it has deployed, and writes the local end into
the entry of that container. A tunnel is known by its local end, under which it is closed; which
tunnels are open is a function of the history (`openTunnels`), and those the tracked containers know
of is one of the tracked list (`trackedTunnels`).

The two go apart, also when every call succeeds. Only a wiring that fails and `Undistribute` ever
close a tunnel; a container that is redeployed, moves or is dropped leaves its tunnels open, and the
entry that knew of them is replaced (`openTunnels_outlive_containers`). And of two ports with the
same tunnel port only the later one is written down. Apart from that they agree
(`openTunnels_iff_tracked`): in every run in which a `Distribute` or `Rebalance` finds no tracked
container with a tunnel, and the ports of a container have distinct tunnel ports.
-/

namespace Containers.Distribution

open Go Remote Scheduler Network Volume DefaultDistributor Prog List AList

variable {d : DefaultDistributor} {c : SeamCall} {done : List PortMapping} {t₀ : History}
  {w : Wiring} {r : Round}

/-! ### Open and tracked tunnels -/

/-- **The tunnels that are open** after a history, by their local ends. -/
def openTunnels : History → List String
  | [] => []
  | ⟨.createTunnel _ spec, .ok info⟩ :: t => localEnd spec.remotePort info :: openTunnels t
  | ⟨.closeTunnel localPort, none⟩ :: t => (openTunnels t).filter (· ≠ localPort)
  | ⟨.closeAllTunnels, none⟩ :: _ => []
  | _ :: t => openTunnels t

def tunnelEnds (dc : DistributedContainer) : List String := dc.tunnelPorts.entries.map (·.2)

/-- The local ends of the tunnels of all containers tracked as running or migrating. -/
def trackedTunnels (containers : List DistributedContainer) : List String :=
  (containers.filter fun dc => stateNeedsTeardown dc.state).flatMap tunnelEnds

/-- The ports of a container that are tunnelled have distinct tunnel ports. -/
def TunnelPortsDistinct (req : ContainerRequirements) : Prop :=
  ((req.ports.filter fun p => 0 < p.containerPort).map tunnelPort).Nodup

instance (req : ContainerRequirements) : Decidable (TunnelPortsDistinct req) :=
  inferInstanceAs (Decidable (Nodup _))

def Flawless (e : Event Outcome) : Prop :=
  Succeeds e ∧ match e with
  | ⟨.ctxErr, some _⟩ | ⟨.scheduleBatch _, .error _⟩ | ⟨.createTunnel _ _, .error _⟩ => False
  | ⟨.closeTunnel _, some _⟩ | ⟨.closeAllTunnels, some _⟩ => False
  | ⟨.mount _, some _⟩ | ⟨.unmount _, some _⟩ | ⟨.unmountAll, some _⟩ => False
  | _ => True

/-- The containers of a plan have distinct tunnel ports each. -/
def PlansTunnelsDistinct (e : Event Outcome) : Prop :=
  match e with
  | ⟨.scheduleBatch _, .ok plan⟩ => ∀ x ∈ plan.decisions, TunnelPortsDistinct x.requirement
  | _ => True

def Undisturbed : History → Event Outcome → Prop :=
  fun _ e => Flawless e ∧ PlansTunnelsDistinct e

def TunnelsTracked (containers : List DistributedContainer) (t : History) : Prop :=
  ∀ l, l ∈ openTunnels t ↔ l ∈ trackedTunnels containers

/-! ### Calls that wire nothing -/

/-- **The calls that neither open nor close a tunnel, nor mount or unmount a volume.** -/
def NotWiring : SeamCall → Prop
  | .createTunnel _ _ | .closeTunnel _ | .closeAllTunnels => False
  | .mount _ | .unmount _ | .unmountAll => False
  | _ => True

variable {opts : Options} {t t' : History} {dc : DistributedContainer}
  {S : History → Event Outcome → Prop}

theorem NotWiring.openTunnels_cons (h : NotWiring c) (o : Outcome c) :
    openTunnels (⟨c, o⟩ :: t) = openTunnels t := by
  cases c with
  | createTunnel | closeTunnel | closeAllTunnels => exact absurd h id
  | _ => rfl

theorem wp_openTunnels_eq {α : Type} {act : Act α} (h : act.Only NotWiring) (t : History) :
    act.wp S (fun _ t' => openTunnels t' = openTunnels t) t :=
  h.wp (R := fun t t' => openTunnels t' = openTunnels t) (fun _ => rfl)
    (fun _ _ _ o hc => (hc.openTunnels_cons o).trans) t

theorem onlyNotWiring_seam (h : NotWiring c) : (seam c).Only NotWiring :=
  only_perform h

theorem onlyNotWiring_startContainer : (startContainer opts dc).Only NotWiring := by
  rw [startContainer, deployLocal, deployRemote]
  split_ifs
  · exact only_pure _
  · exact onlyNotWiring_seam trivial
  · exact only_pure _
  · exact only_pure _
  · refine (onlyNotWiring_seam (c := .getHost dc.hostName) trivial).bind fun found => ?_
    cases found with
    | none => exact only_pure _
    | some host =>
      refine (onlyNotWiring_seam (c := .execute host _) trivial).bind fun _ =>
        (onlyNotWiring_seam (c := .execute host _) trivial).bind fun result => ?_
      cases result with
      | error err => exact only_pure _
      | ok r =>
        dsimp only
        split_ifs
        · exact only_pure _
        · exact only_pure _

/-- **Tearing a container down closes none of its tunnels**, and unmounts none of its
volumes. -/
theorem onlyNotWiring_teardownContainer : (teardownContainer opts dc).Only NotWiring := by
  rw [teardownContainer]
  split_ifs
  · exact only_pure _
  · exact (onlyNotWiring_seam (c := .localStop _) trivial).bind fun _ =>
      (onlyNotWiring_seam (c := .localRemove _) trivial).bind fun _ => only_pure _
  · exact only_pure _
  · exact only_pure _
  · refine (onlyNotWiring_seam (c := .getHost dc.hostName) trivial).bind fun found => ?_
    cases found with
    | none => exact only_pure _
    | some host =>
      refine (onlyNotWiring_seam (c := .execute host _) trivial).bind fun result => ?_
      cases result with
      | error err => exact only_pure _
      | ok r => exact only_pure _

theorem onlyNotWiring_reconcileRelocations (prev current : List DistributedContainer)
    (deployed : List String) :
    (reconcileRelocations opts prev current deployed).Only NotWiring := by
  refine only_foldlM (fun _ old => ?_) _ _
  rw [reconcileOne]
  split_ifs
  · exact only_pure _
  · refine onlyNotWiring_teardownContainer.bind fun err => ?_
    cases err with
    | none => exact only_pure _
    | some err => exact onlyNotWiring_seam (c := .log _) trivial

theorem onlyNotWiring_undistributeLoop (containers : List DistributedContainer) :
    (containers.foldlM (undistributeOne opts) []).Only NotWiring := by
  refine only_foldlM (fun errs old => ?_) _ _
  rw [undistributeOne]
  split_ifs
  · exact only_pure _
  · refine onlyNotWiring_teardownContainer.bind fun err => ?_
    cases err with
    | none => exact only_pure _
    | some err => exact (onlyNotWiring_seam (c := .log _) trivial).bind fun _ => only_pure _

theorem Asks.notWiring (h : Asks c) : NotWiring c := by
  cases c <;> trivial

/-! ### Wiring -/

/-- How far the wiring of `dc` has come when the ports `done` have had their turn: nothing
failed, the entry knows no other ports, and the tunnels opened since `t₀` are those of the
entry. -/
structure TunnelLoop (dc : DistributedContainer) (t₀ : History) (done : List PortMapping)
    (w : Wiring) (t : History) : Prop where
  noError : w.error = none
  same : SameEntry dc w.dc
  ports : ∀ k ∈ w.dc.tunnelPorts, k ∈ (done.filter fun p => 0 < p.containerPort).map tunnelPort
  opened : ∀ l, l ∈ openTunnels t ↔ l ∈ openTunnels t₀ ∨ l ∈ tunnelEnds w.dc

theorem tunnelEnds_insert {k l : String} (h : k ∉ dc.tunnelPorts) :
    tunnelEnds { dc with tunnelPorts := dc.tunnelPorts.insert k l } = l :: tunnelEnds dc := by
  rw [tunnelEnds, entries_insert_of_notMem h]
  rfl

theorem wp_wireTunnel_loop {rest : List PortMapping} {p : PortMapping}
    (hdistinct : (((done ++ p :: rest).filter fun p => 0 < p.containerPort).map
      tunnelPort).Nodup) (hw : TunnelLoop dc t₀ done w t) :
    (wireTunnel w p).wp Undisturbed (fun w' t' => TunnelLoop dc t₀ (done ++ [p]) w' t') t := by
  rw [wireTunnel, hw.noError]
  by_cases hport : p.containerPort ≤ 0
  · -- a mapping without a container port has no tunnel
    rw [if_pos (by simpa using hport)]
    refine ⟨hw.noError, hw.same, fun k hk => ?_, hw.opened⟩
    rw [filter_append, map_append]
    exact mem_append_left _ (hw.ports k hk)
  · rw [if_neg (by simpa using hport)]
    refine wp_seam fun result hresult => ?_
    cases result with
    | error err => exact absurd hresult.1.2 id
    | ok info =>
      have hpos : 0 < p.containerPort := not_le.mp hport
      have hfilter : (done ++ [p]).filter (fun p => 0 < p.containerPort)
          = done.filter (fun p => 0 < p.containerPort) ++ [p] := by
        simp [hpos]
      -- the tunnel port is none of those before it
      have hnew : tunnelPort p ∉ w.dc.tunnelPorts := by
        intro hmem
        rw [filter_append, filter_cons_of_pos (by simpa using hpos), map_append] at hdistinct
        exact (nodup_append.mp hdistinct).2.2 _ (hw.ports _ hmem) _ mem_cons_self rfl
      refine ⟨rfl, hw.same, ?_, ?_⟩
      · intro k hk
        rw [hfilter, map_append, mem_append]
        rcases (mem_insert _).mp hk with rfl | hk
        · exact Or.inr mem_cons_self
        · exact Or.inl (hw.ports k hk)
      · intro l
        rw [tunnelEnds_insert hnew, openTunnels, mem_cons, mem_cons, hw.opened]
        exact or_left_comm

theorem wp_wireVolume_loop {m : VolumeMount} (hw : TunnelLoop dc t₀ done w t) :
    (wireVolume w m).wp Undisturbed (fun w' t' => TunnelLoop dc t₀ done w' t') t := by
  rw [wireVolume, hw.noError]
  refine wp_seam fun err herr => ?_
  cases err with
  | some text => exact absurd herr.1.2 id
  | none => exact ⟨rfl, hw.same, hw.ports, hw.opened⟩

/-- **What wiring opens is what the entry knows of**, and with nothing to wire it opens
nothing. -/
theorem wp_wireTunnelsAndVolumes_tunnels (hdistinct : TunnelPortsDistinct dc.requirement)
    (hempty : dc.tunnelPorts = ∅) (t : History) :
    (wireTunnelsAndVolumes opts dc).wp Undisturbed (fun r t' => r.2 = none ∧
      (∀ l, l ∈ openTunnels t' ↔ l ∈ openTunnels t ∨ l ∈ tunnelEnds r.1) ∧
      (opts.tunnelManager = false → tunnelEnds r.1 = [])) t := by
  have hends : tunnelEnds dc = [] := by rw [tunnelEnds, hempty]; rfl
  rw [wireTunnelsAndVolumes]
  split_ifs with hlocal
  · exact ⟨rfl, fun l => by simp [hends], fun _ => hends⟩
  · have hwired : ((wiredPorts opts dc).filter fun p => 0 < p.containerPort).map tunnelPort
        |>.Nodup := by
      rw [wiredPorts]
      split_ifs
      · exact hdistinct
      · exact nodup_nil
    refine (wp_foldlM (TunnelLoop dc t)
      ⟨rfl, ⟨rfl, rfl⟩, fun k hk => ?_, fun l => by simp [hends]⟩
      fun done p rest w t' hl hw => ?_).bind fun w t' hw => ?_
    · rw [hempty] at hk
      exact absurd hk (notMem_empty k)
    · exact wp_wireTunnel_loop (hl ▸ hwired) hw
    · refine (wp_foldlM (fun _ w => TunnelLoop dc t (wiredPorts opts dc) w) hw
        fun _ m _ w t' _ => wp_wireVolume_loop).bind fun w t' hw => ?_
      refine ⟨hw.noError, hw.opened, fun hno => ?_⟩
      -- without a tunnel manager no port is wired, so the entry has none
      have hports := hw.ports
      rw [wiredPorts, hno, Bool.and_false] at hports
      rw [tunnelEnds, map_eq_nil_iff, eq_nil_iff_forall_not_mem]
      intro e he
      exact absurd (hports e.1 (mem_keys.mpr (mem_map_of_mem he))) not_mem_nil

/-- **A deployment opens the tunnels its entry knows of** when it succeeds, and none when it
does not. -/
theorem wp_deployContainer_tunnels (hdistinct : TunnelPortsDistinct dc.requirement)
    (hempty : dc.tunnelPorts = ∅) (t : History) :
    (deployContainer opts dc).wp Undisturbed (fun r t' =>
      (∀ l, l ∈ openTunnels t' ↔ l ∈ openTunnels t ∨ r.2 = none ∧ l ∈ tunnelEnds r.1) ∧
      (opts.tunnelManager = false → r.2 = none → tunnelEnds r.1 = [])) t := by
  refine (wp_openTunnels_eq onlyNotWiring_startContainer t).bind fun err t₁ hstart => ?_
  cases err with
  | some text => exact ⟨fun l => by simp [hstart], by simp⟩
  | none =>
    refine (wp_wireTunnelsAndVolumes_tunnels hdistinct hempty t₁).bind ?_
    rintro ⟨dc', err⟩ t₂ ⟨rfl, hopened, hnone⟩
    exact ⟨fun l => by simp [hopened, hstart], fun hno _ => hnone hno⟩

/-! ### Distributing -/

theorem trackedTunnels_append_running (cs : List DistributedContainer) (dc : DistributedContainer)
    (h : stateNeedsTeardown dc.state = true) :
    trackedTunnels (cs ++ [dc]) = trackedTunnels cs ++ tunnelEnds dc := by
  simp [trackedTunnels, h]

theorem trackedTunnels_append_failed (cs : List DistributedContainer) (dc : DistributedContainer)
    (h : stateNeedsTeardown dc.state = false) :
    trackedTunnels (cs ++ [dc]) = trackedTunnels cs := by
  simp [trackedTunnels, h]

/-- What the deploy loop keeps: the tunnels are those of the entries so far, and there are
none without a tunnel manager. -/
structure TunnelRound (opts : Options) (containers : List DistributedContainer) (t : History) :
    Prop where
  tracked : TunnelsTracked containers t
  none_without_manager : opts.tunnelManager = false → openTunnels t = []

theorem TunnelRound.fail (h : TunnelRound opts r.containers t)
    (hsame : ∀ l, l ∈ openTunnels t' ↔ l ∈ openTunnels t) (dc : DistributedContainer)
    (err : String) : TunnelRound opts (r.fail dc err).containers t' where
  tracked l := by
    rw [Round.fail, trackedTunnels_append_failed _ _ rfl, hsame]
    exact h.tracked l
  none_without_manager hno := by
    rw [eq_nil_iff_forall_not_mem]
    intro l hl
    rw [hsame, h.none_without_manager hno] at hl
    exact not_mem_nil hl

theorem wp_deployDecision_tunnels {x : PlacementDecision}
    (hdistinct : TunnelPortsDistinct x.requirement) (hr : TunnelRound opts r.containers t) :
    (deployDecision opts r x).wp Undisturbed
      (fun r' t' => TunnelRound opts r'.containers t') t := by
  rw [deployDecision]
  refine wp_seam fun cancelled hcancelled => ?_
  cases cancelled with
  | some err => exact absurd hcancelled.1.2 id
  | none =>
    split_ifs
    · refine hr.fail (fun l => ?_) _ _
      rw [NotWiring.openTunnels_cons (c := .ctxErr) trivial]
    · refine (wp_deployContainer_tunnels hdistinct rfl _).bind ?_
      rintro ⟨dc, err⟩ t' ⟨hopened, hno⟩
      cases err with
      | some text =>
        intro _ _
        refine hr.fail (fun l => ?_) _ _
        rw [NotWiring.openTunnels_cons (c := .log _) trivial, hopened,
          NotWiring.openTunnels_cons (c := .ctxErr) trivial]
        simp
      | none =>
        refine ⟨fun l => ?_, fun hnot => ?_⟩
        · rw [Round.succeed, trackedTunnels_append_running _ _ rfl, hopened, mem_append]
          exact or_congr (hr.tracked l) (by simp [tunnelEnds])
        · rw [eq_nil_iff_forall_not_mem]
          intro l hl
          rw [hopened, NotWiring.openTunnels_cons (c := .ctxErr) trivial,
            hr.none_without_manager hnot, hno hnot rfl] at hl
          simp at hl

/-- **A `Distribute` that finds no tracked tunnel** tracks the tunnels it opens. -/
theorem wp_distribute_tunnels (hd : TunnelRound d.opts d.containers t)
    (hclean : trackedTunnels d.containers = []) (reqs : List ContainerRequirements) :
    (d.distribute reqs).wp Undisturbed
      (fun r t' => r.1.opts = d.opts ∧ TunnelRound d.opts r.1.containers t') t := by
  have hnone : openTunnels t = [] := by
    rw [eq_nil_iff_forall_not_mem]
    intro l hl
    rw [hd.tracked, hclean] at hl
    exact not_mem_nil hl
  rw [distribute]
  split_ifs
  · exact ⟨rfl, hd⟩
  · refine wp_seam fun result hresult => ?_
    cases result with
    | error err => exact absurd hresult.1.2 id
    | ok plan =>
      have hinit : TunnelRound d.opts [] (⟨.scheduleBatch reqs, .ok plan⟩ :: t) := by
        refine ⟨fun l => ?_, fun _ => hnone⟩
        rw [NotWiring.openTunnels_cons (c := .scheduleBatch reqs) trivial, hnone]
        exact Iff.rfl
      refine (wp_foldlM (fun _ (r : Round) => TunnelRound d.opts r.containers) hinit
        fun done x rest r t' hl hr => ?_).bind fun r t' hr => ?_
      · have hx : x ∈ plan.decisions := hl ▸ mem_append_right _ mem_cons_self
        exact wp_deployDecision_tunnels (hresult.2 x hx) hr
      · -- the reconciliation closes no tunnel
        refine (wp_openTunnels_eq (onlyNotWiring_reconcileRelocations _ _ _) t').bind
          fun _ t'' hsame => ⟨rfl, fun l => ?_, fun hno => ?_⟩
        · rw [hsame]
          exact hr.tracked l
        · rw [hsame]
          exact hr.none_without_manager hno

/-! ### The other operations -/

theorem wp_undistribute_tunnels (hd : TunnelRound d.opts d.containers t) :
    d.undistribute.wp Undisturbed
      (fun d' t' => d'.opts = d.opts ∧ TunnelRound d.opts d'.containers t') t := by
  -- nothing is tracked afterwards, so all there is to show is that no tunnel is open
  have hgone : ∀ {t' : History}, openTunnels t' = [] → TunnelRound d.opts [] t' := fun h =>
    ⟨fun l => by rw [h]; exact Iff.rfl, fun _ => h⟩
  refine (wp_openTunnels_eq (onlyNotWiring_undistributeLoop _) t).bind fun errs t₁ hloop => ?_
  have hclosed : (closeTunnels d.opts).wp Undisturbed
      (fun _ t₂ => openTunnels t₂ = []) t₁ := by
    rw [closeTunnels]
    split_ifs with hmanager
    · refine wp_seam fun err herr => ?_
      cases err with
      | some text => exact absurd herr.1.2 id
      | none => rfl
    · exact hloop.trans (hd.none_without_manager (by simpa using hmanager))
  refine hclosed.bind fun _ t₂ ht₂ => ?_
  have hkept : (unmountVolumes d.opts).wp Undisturbed
      (fun _ t₃ => openTunnels t₃ = []) t₂ := by
    rw [unmountVolumes]
    split_ifs
    · exact wp_seam fun _ _ => ht₂
    · exact ht₂
  refine hkept.bind fun _ t₃ ht₃ => ?_
  exact fun _ _ => ⟨rfl, hgone ht₃⟩

theorem tunnelEnds_markMigrating (affected : List String) (dc : DistributedContainer) :
    stateNeedsTeardown (markMigrating affected dc).state
        = stateNeedsTeardown dc.state ∧
      tunnelEnds (markMigrating affected dc) = tunnelEnds dc := by
  rw [markMigrating]
  split_ifs with h
  · exact ⟨by rw [h.2]; rfl, rfl⟩
  · exact ⟨rfl, rfl⟩

theorem trackedTunnels_markMigrating (affected : List String) (cs : List DistributedContainer) :
    trackedTunnels (cs.map (markMigrating affected)) = trackedTunnels cs := by
  induction cs with
  | nil => rfl
  | cons dc cs ih =>
    obtain ⟨hstate, hends⟩ := tunnelEnds_markMigrating affected dc
    simp only [trackedTunnels, map_cons, filter_cons, hstate] at ih ⊢
    split_ifs
    · rw [flatMap_cons, flatMap_cons, hends, ih]
    · exact ih

theorem wp_checkAndFailover_tunnels (hd : TunnelRound d.opts d.containers t) :
    d.checkAndFailover.wp S
      (fun r t' => r.1.opts = d.opts ∧ TunnelRound d.opts r.1.containers t') t := by
  refine (wp_checkAndFailover_asks (R := fun t t' => openTunnels t' = openTunnels t)
    (fun _ => rfl) (fun _ _ _ o hc => (hc.notWiring.openTunnels_cons o).trans) t).mono ?_
  rintro ⟨d', report⟩ t' ⟨hsame, affected, rfl⟩
  refine ⟨rfl, fun l => ?_, fun hno => ?_⟩
  · rw [hsame, trackedTunnels_markMigrating]
    exact hd.tracked l
  · rw [hsame]
    exact hd.none_without_manager hno

/-- The condition under which a step keeps the tunnels of the tracked containers: a
`Distribute` or `Rebalance` finds no tracked container with a tunnel. -/
def FindsNoTunnel (d : DefaultDistributor) : Op → Prop
  | .distribute _ | .rebalance => trackedTunnels d.containers = []
  | .undistribute | .checkAndFailover => True

theorem wp_act_tunnels (hd : d.opts = opts ∧ TunnelRound opts d.containers t) (op : Op)
    (hclean : FindsNoTunnel d op) :
    (op.act d).wp Undisturbed
    (fun d' t' => d'.opts = opts ∧ TunnelRound opts d'.containers t') t := by
  obtain ⟨rfl, hd⟩ := hd
  cases op with
  | distribute reqs =>
    rw [Op.act, wp_bind]
    exact wp_distribute_tunnels hd hclean reqs
  | rebalance =>
    rw [Op.act, wp_bind, DefaultDistributor.rebalance]
    split_ifs
    · exact ⟨rfl, hd⟩
    · exact wp_distribute_tunnels hd hclean _
  | undistribute => exact wp_undistribute_tunnels hd
  | checkAndFailover =>
    rw [Op.act, wp_bind]
    exact wp_checkAndFailover_tunnels hd

/-! ### Histories -/

/-- **The open tunnels are those of the tracked containers** after every sequence of
operations in which every call succeeds, the containers of each plan have distinct tunnel
ports, and every `Distribute` and `Rebalance` finds no tracked container with a tunnel. -/
theorem openTunnels_iff_tracked (env : Env) (opts : Options) (ops : List Op)
    (hflawless : ∀ e ∈ (after env opts ops).2, Flawless e)
    (hports : ∀ e ∈ (after env opts ops).2, PlansTunnelsDistinct e)
    (hclean : ∀ pre op post, ops = pre ++ op :: post → FindsNoTunnel (after env opts pre).1 op)
    (pre post : List Op) (hpre : ops = pre ++ post) :
    TunnelsTracked (after env opts pre).1.containers (after env opts pre).2 := by
  subst hpre
  have hS : Trace.Holds Undisturbed (after env opts pre).2 :=
    Trace.holds_of_forall fun e he => ⟨hflawless e (mem_after_of_mem he post),
      hports e (mem_after_of_mem he post)⟩
  have hinv := after_induction_of (K := FindsNoTunnel)
    ⟨rfl, fun l => Iff.rfl, fun _ => rfl⟩ (fun d t op hd => wp_act_tunnels hd op) env pre hS
    fun pre' op post' heq => hclean pre' op (post' ++ post)
      (by rw [heq, append_assoc, cons_append])
  exact hinv.2.tracked

/-- An environment in which every call succeeds, plans come one after the other, and every
tunnel gets a local port of its own. -/
def flawlessly (plans : List (List PlacementDecision)) : Env := fun t c =>
  match c with
  | .scheduleBatch _ =>
    .ok { decisions := plans.getD (t.countP fun e => match e.call with
      | .scheduleBatch _ => true
      | _ => false) [] }
  | .getHost name => some ⟨{ name := name }, (rfl : name = name)⟩
  | .execute _ _ => .ok {}
  | .isReachable _ => true
  | .createTunnel hostName spec =>
    .ok (some ⟨{ spec with localPort := toString (20000 + t.countP fun e => match e.call with
      | .createTunnel _ _ => true
      | _ => false) }, hostName⟩)
  | .ctxErr | .localStart _ | .localStop _ | .localRemove _ => none
  | .closeTunnel _ | .closeAllTunnels | .mount _ | .unmount _ | .unmountAll => none
  | .log _ | .undistributeReturns _ => ()

theorem flawlessly_answers (plans : List (List PlacementDecision)) (t : History) (c : SeamCall) :
    Flawless ⟨c, flawlessly plans t c⟩ := by
  cases c with
  | execute host command =>
    cases command with
    | run => exact ⟨rfl, trivial⟩
    | remove => exact ⟨trivial, trivial⟩
  | _ => exact ⟨trivial, trivial⟩

theorem flawlessly_flawless (plans : List (List PlacementDecision)) (opts : Options)
    (ops : List Op) : ∀ e ∈ (after (flawlessly plans) opts ops).2, Flawless e :=
  (after_answered _ opts ops).forall_of_answered (flawlessly_answers plans)

/-- A distributor over remote hosts that tunnels the ports of its containers. -/
def tunnelling : Options := { remoteOnly with tunnelManager := true }

def ported : ContainerRequirements := { web with ports := [{ containerPort := 80 }] }

def portedOn (hostName : String) : PlacementDecision :=
  { requirement := ported, hostName := hostName, score := 1 }

def resolver : ContainerRequirements :=
  { name := "dns", ports := [{ containerPort := 53 }, { containerPort := 53, protocol := "udp" }] }

/-- The operations `ops`, with these plans. -/
abbrev flawlessRun (plans : List (List PlacementDecision)) (ops : List Op) :
    DefaultDistributor × History := after (flawlessly plans) tunnelling ops

/-- The container is deployed, taken down, and deployed elsewhere. -/
theorem openTunnels_iff_tracked_taken_down :
    let run := flawlessRun [[portedOn "A"], [portedOn "B"]]
      [.distribute [ported], .undistribute, .distribute [ported]]
    TunnelsTracked run.1.containers run.2 ∧ openTunnels run.2 = ["20001"] := by
  refine ⟨openTunnels_iff_tracked _ _ [.distribute [ported], .undistribute, .distribute [ported]]
    (flawlessly_flawless _ _ _) ?_ ?_ _ [] rfl, by decide +kernel⟩
  · refine (after_answered _ _ _).forall_of_answered fun t c => ?_
    cases c with
    | scheduleBatch reqs =>
      intro x hx
      have hplan : x = portedOn "A" ∨ x = portedOn "B" := by
        change x ∈ [[portedOn "A"], [portedOn "B"]].getD _ [] at hx
        generalize t.countP _ = rounds at hx
        rcases rounds with _ | _ | rounds
        · exact Or.inl (mem_singleton.mp hx)
        · exact Or.inr (mem_singleton.mp hx)
        · exact absurd hx not_mem_nil
      rcases hplan with rfl | rfl
      · decide
      · decide
    | _ => trivial
  · intro pre op post hops
    rcases pre with _ | ⟨a, _ | ⟨b, _ | ⟨c, pre⟩⟩⟩
    all_goals simp only [nil_append, cons_append, cons.injEq] at hops
    · obtain ⟨rfl, -⟩ := hops
      rfl
    · obtain ⟨-, rfl, -⟩ := hops
      trivial
    · obtain ⟨rfl, rfl, rfl, -⟩ := hops
      exact rfl
    · exact absurd hops.2.2.2 (by simp)

/-- Tunnels outlive their containers in a run: one is open that is not tracked. -/
def Leaves (l : String) (run : DefaultDistributor × History) : Prop :=
  l ∈ openTunnels run.2 ∧ l ∉ trackedTunnels run.1.containers

instance (l : String) (run : DefaultDistributor × History) : Decidable (Leaves l run) :=
  inferInstanceAs (Decidable (_ ∧ _))

/-- **Tunnels outlive their containers.** Every call succeeds, and still: the container moves
from `A` to `B`, or is deployed to `A` once more, or is dropped, and the tunnel opened for it
at first stays open and is no longer tracked; and of the two tunnels to port 53, opened by a
single `Distribute`, only the second is. -/
theorem openTunnels_outlive_containers :
    (∀ plans ops, ∀ e ∈ (flawlessRun plans ops).2, Flawless e) ∧
    (∀ l run, Leaves l run → ¬TunnelsTracked run.1.containers run.2) ∧
    Leaves "20000" (flawlessRun [[portedOn "A"], [portedOn "B"]]
      [.distribute [ported], .distribute [ported]]) ∧
    Leaves "20000" (flawlessRun [[portedOn "A"], [portedOn "A"]]
      [.distribute [ported], .rebalance]) ∧
    Leaves "20000" (flawlessRun [[portedOn "A"], []] [.distribute [ported], .distribute []]) ∧
    Leaves "20000" (flawlessRun [[{ requirement := resolver, hostName := "A", score := 1 }]]
      [.distribute [resolver]]) := by
  refine ⟨fun plans => flawlessly_flawless plans _, ?_, by decide +kernel,
    by decide +kernel, by decide +kernel, by decide +kernel⟩
  rintro l run ⟨hopen, htracked⟩ h
  exact htracked ((h l).mp hopen)

end Containers.Distribution
