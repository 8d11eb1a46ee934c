import Containers.Lifecycle.Leases

/-!
# The idle timer and the leases

The idle timer reads the count of leases and then lets `Stop` do the rest. What comes between is not
covered: a lease that is granted there is pulled away (`idle_down_under_lease`). If no lease is
granted between the timer's look at the count and the moment the `Down` is issued, none is held then
(`no_lease_at_idle_down`): the count is exact as long as it has not wrapped, and only a grant adds
to the leases that are held.
-/

namespace Containers.Lifecycle

open Sections List

variable {M : DefaultManager} {m m' : Memory} {o : Option String} {n : String}
  {A B used made F : List Frame}

/-! ### The `Stop`s of the idle timer -/

/-- A `Stop` of the service that its idle timer has called and that has not issued its
`Down`. -/
def Frame.idleDue (n : String) : Frame → Bool
  | .stop n' true (.enter) | .stop n' true (.quiet _ _) | .stop n' true (.down _) => n' = n
  | _ => false

/-- The idle timer of the service, about to look at the count. -/
def Frame.looksAt (m : Memory) (n : String) : Frame → Bool
  | .fire t => m.timers[t]?.any (·.service = n)
  | _ => false

/-- **The condition**: no lease of the service is granted between the idle timer's look at the
count and the moment the `Down` of its `Stop` is issued, and fewer than 2³¹ are counted when it
looks. -/
def GrantsInTime (n : String) : Condition := fun m F f _ =>
  (f = .acquire n .grant → ∀ g ∈ F, g.idleDue n = false) ∧
    (f.looksAt m n = true → m.unreleased n + F.countP (·.counts n) < 2 ^ 31)

instance (F : List Frame) (f : Frame) : Decidable (GrantsInTime n m F f o) :=
  inferInstanceAs (Decidable (_ ∧ _))

theorem not_idleDue_of_call {c : Call} {f : Frame} (h : call m c = some [f]) :
    f.idleDue n = false := by
  rcases opening_of_call h <;> rfl

theorem Keeps.unreleased (h : Keeps m m') (n : String) : m'.unreleased n = m.unreleased n := by
  rw [Memory.unreleased, h.leases, Memory.unreleased]

theorem LeaseInv.unreleased_le {l : ℕ} {lease : Lease} {p : ReleasePoint}
    (h : LeaseInv M m (A ++ ([Frame.release l p] ++ B))) (hlease : m.leases[l]? = some lease)
    (hstep : Lifecycle.releaseStep m l lease p = some (m', made)) (n : String) :
    m'.unreleased n ≤ m.unreleased n := by
  have hstage : p ≠ .enter → lease.stage = p.stage := by
    intro hp
    have hmap := h.stage l p (by simp) hp
    rw [hlease] at hmap
    exact Option.some.inj hmap
  have hset : ∀ {x : LeaseStage},
      ({ lease with stage := x }.Unreleased n → lease.Unreleased n) →
      (m.leases.set l { lease with stage := x }).countP (·.Unreleased n)
        ≤ m.leases.countP (·.Unreleased n) := by
    intro x hx
    have hadd := countP_set_add (q := (·.Unreleased n)) hlease { lease with stage := x }
    simp only [decide_eq_true_eq] at hadd
    split_ifs at hadd with hold hnew hnew
    · omega
    · omega
    · exact absurd (hx hnew) hold
    · omega
  cases p with
  | enter =>
    cases hheld : lease.stage <;> simp only [Lifecycle.releaseStep, hheld] at hstep <;> cases hstep
    · exact hset fun hx => ⟨hx.1, .inl hheld⟩
    · exact le_rfl
  | slot =>
    cases hstep
    exact hset fun hx => ⟨hx.1, .inr (.inl (hstage (by simp)))⟩
  | uncount =>
    cases hstep
    exact hset fun hx => absurd hx.2 (by simp)
  | readIdle =>
    cases hstep
    exact le_rfl
  | touch timer =>
    cases hstep
    exact hset fun hx => absurd hx.2 (by simp)

/-- A thread that is due to issue a `Down` for the idle timer was due before, or has just looked
and seen that no lease is counted. -/
theorem idleDue_of_turn (hturn : Turn M m o used m' made) {g : Frame} (hg : g ∈ made)
    (hdue : g.idleDue n = true) : (∃ u ∈ used, u.idleDue n = true) ∨
      ¬0 < (m.entry n).activeLeases ∧ ∃ f ∈ used.head?, f.looksAt m n = true := by
  cases turnStep_of_turn hturn with
  | @stop n' idle p q _ hstep =>
    cases mem_singleton.mp hg
    refine .inl ⟨_, mem_singleton_self _, ?_⟩
    cases idle with
    | false => cases hdue
    | true =>
      have hn : decide (n' = n) = true := by
        cases q <;> first | exact hdue | cases hdue
      cases p with
      | enter | quiet | down => exact hn
      | downing found =>
        cases hstep
        cases hdue
      | write found err => cases err <;> cases hstep
  | @fire t timer _ htimer hstep =>
    rw [fireStep] at hstep
    split_ifs at hstep with hbusy <;> cases hstep
    cases mem_singleton.mp hg
    have hn : timer.service = n := of_decide_eq_true hdue
    subst hn
    refine .inr ⟨fun hpos => hbusy (.inr (.inr hpos)), .fire t, rfl, ?_⟩
    simp [Frame.looksAt, htimer]
  | startCall | acquireCall | shutdown =>
    rcases mem_cons.mp hg with rfl | hg
    · cases hdue
    · cases mem_singleton.mp hg
      cases hdue
  | leave => cases hg
  | _ =>
    cases mem_singleton.mp hg
    cases hdue

theorem LeaseInv.unreleased_le_of_turn (h : LeaseInv M m (A ++ (used ++ B)))
    (hturn : Turn M m o used m' made) (hgrant : used ≠ [.acquire n .grant]) :
    m'.unreleased n ≤ m.unreleased n := by
  cases turnStep_of_turn hturn with
  | start hstep | startRet hstep => exact ((keeps_of_startStep hstep).unreleased n).le
  | stop hstep | stopRet hstep => exact ((keeps_of_stopStep hstep).1.unreleased n).le
  | acquire hstep | acquireCall hstep =>
    have hleases := (beside_of_acquireStep hstep).2.1.resolve_left fun hp => by
      cases hp <;> cases hstep
    rw [Memory.unreleased, hleases, Memory.unreleased]
  | @acquireRet n' _ _ _ hstep =>
    rcases (beside_of_acquireStep hstep).2.1 with rfl | hleases
    · cases hstep
      have hn : n' ≠ n := by
        rintro rfl
        exact hgrant rfl
      simp [Memory.unreleased, Lease.Unreleased, hn]
    · rw [Memory.unreleased, hleases, Memory.unreleased]
  | release hlease hstep | releaseRet hlease hstep => exact h.unreleased_le hlease hstep n
  | fire _ hstep | fireRet _ hstep => exact ((keeps_of_fireStep hstep).1.unreleased n).le
  | startCall | shutdown | shutdownRet | depRet | bootRet | nextStop | leave => exact le_rfl

/-! ### The result -/

/-- **The idle timer pulls a service from under nobody**, in every run in which no lease of the
service is granted between the timer's look at the count and the moment the `Down` of its `Stop`
is issued, and fewer than 2³¹ leases are counted at the look: when the `Down` is about to be
issued, every lease that was granted has been released. -/
theorem no_lease_at_idle_down (M : DefaultManager) (n : String) (s : State)
    (h : Reached M (GrantsInTime n) s) (found : ServiceState)
    (hdown : .stop n true (.down found) ∈ s.frames) : s.memory.unreleased n = 0 := by
  have hinv : LeaseInv M s.memory s.frames ∧
      ∀ g ∈ s.frames, g.idleDue n = true → s.memory.unreleased n = 0 := by
    refine frames_induction h (I := fun m F => LeaseInv M m F ∧
      ∀ g ∈ F, g.idleDue n = true → m.unreleased n = 0) ⟨leaseInv_initial, forall_mem_nil _⟩ ?_ ?_
    · intro m F c f hinv hc
      exact ⟨hinv.1.call hc, forall_mem_call hinv.2 fun hdue =>
        absurd hdue (by simp [not_idleDue_of_call hc])⟩
    · intro m A B used o m' made hinv hC hturn
      refine ⟨hinv.1.turn hturn, fun g hg hdue => ?_⟩
      by_cases hgrant : used = [.acquire n .grant]
      · -- nobody is due when the lease is granted, and a grant makes nobody due
        subst hgrant
        rcases mem_after.mp hg with hg | hg
        · cases hturn with
          | step hstep =>
            cases hstep
            cases mem_singleton.mp hg
            cases hdue
        · exact absurd hdue (by simp [forall_mem_rest ((hC _ rfl).1 rfl) g hg])
      · refine Nat.le_zero.mp
          ((hinv.1.unreleased_le_of_turn hturn hgrant).trans (Nat.le_zero.mpr ?_))
        have hdue' : (∃ u ∈ A ++ (used ++ B), u.idleDue n = true) ∨
            ¬0 < (m.entry n).activeLeases ∧ ∃ f ∈ used.head?, f.looksAt m n = true := by
          rcases mem_after.mp hg with hg | hg
          · refine (idleDue_of_turn hturn hg hdue).imp_left ?_
            rintro ⟨u, hu, hud⟩
            exact ⟨u, mem_after.mpr (.inl hu), hud⟩
          · exact .inl ⟨g, mem_after.mpr (.inr hg), hdue⟩
        rcases hdue' with ⟨u, hu, hud⟩ | ⟨hzero, f, hf, hlook⟩
        · exact hinv.2 u hu hud
        · have hlt := (hC f hf).2 hlook
          rw [hinv.1.count n, Int32.lt_iff_toInt_lt, Int32.toInt_ofNat_of_lt hlt,
            Int32.toInt_zero] at hzero
          omega
  exact hinv.2 _ hdown (by simp [Frame.idleDue])

/-- The server is used, released, and the timer expires: the `Down` comes with no lease held. -/
theorem no_lease_at_idle_down_web :
    ∃ s, Reached (oneService web) (GrantsInTime "web") s ∧
      .stop "web" true (.down .running) ∈ s.frames ∧ s.memory.leases.length = 1 ∧
      s.memory.unreleased "web" = 0 := by
  obtain ⟨s, hs, hdown, hlength⟩ : ∃ s, Reached (oneService web) (GrantsInTime "web") s ∧
      .stop "web" true (.down .running) ∈ s.frames ∧ s.memory.leases.length = 1 :=
    ThreadSystem.Reach.exists_of_runMeeting
      (.call (.start "web") :: steps 0 10 ++ .call (.acquire "web") :: steps 1 8 ++
        .call (.release 0) :: steps 2 6 ++ .call (.expire 0) :: steps 3 3) (by decide +kernel)
  exact ⟨s, hs, hdown, hlength,
    no_lease_at_idle_down (oneService web) "web" s hs .running hdown⟩

/-- **The idle timer can pull a service from under a lease**: it finds no lease counted and
calls `Stop`, an `Acquire` is granted a lease before `Stop` has taken the lock, and the `Down` is
issued while that lease is held. -/
theorem idle_down_under_lease :
    ∃ s, Reached (oneService web) Anyhow s ∧ (oneService web).Composes "web" ∧
      .stop "web" true (.down .running) ∈ s.frames ∧ s.memory.leases = [⟨"web", .held⟩] := by
  obtain ⟨s, hs, hdown, hheld⟩ : ∃ s, Reached (oneService web) Anyhow s ∧
      .stop "web" true (.down .running) ∈ s.frames ∧
      s.memory.leases = [⟨"web", .held⟩] :=
    ThreadSystem.Reach.exists_of_runMeeting
      (.call (.start "web") :: steps 0 10 ++ .call (.expire 0) :: steps 1 1 ++
        .call (.acquire "web") :: steps 2 8 ++ steps 1 2) (by decide +kernel)
  exact ⟨s, hs, by decide, hdown, hheld⟩

end Containers.Lifecycle
