import Containers.Lifecycle.Timers
import Containers.Lifecycle.Lazy
import Containers.Lifecycle.Leases
import Containers.Lifecycle.Stopped

/-!
# The idle timer of a running service

While a service that idles is `running`, one timer should be armed for it, and while it is `stopped`
none. What matters for this is its *watch* (`Watch`): its state, the timer that is kept for it,
those that are armed, and the frames that are about to change this: a boot that has written
`running` and has not armed the timer, a `Stop` under way, and a `Stop` that the timer itself has
called. `Tick` says what can happen to a watch, and `WatchInv` is the invariant.

Four things break it: a boot that fails may write `stopped` over a later one that is `running`; a
`Stop` whose `Down` fails writes `running` and leaves the timer stopped; a `Start` may take the lead
from a `Stop` under way, which then writes `stopped` over it; and a boot installs the timer in a
section after the one that writes `running`, so a whole `Stop` may come in between
(`monitoring_astray`). The property holds in the runs without these (`armed_of_running`).
-/

namespace Containers.Lifecycle

open Sections List ThreadSystem

variable {n' : String} {idle : Bool} {g : Frame} {M : DefaultManager} {m m' : Memory}
  {o : Option String} {n : String} {A B used made F : List Frame} {p : StartPoint} {f : Frame}
  {op t : ℕ} {c : Call}

/-! ### The watch over a service -/

/-- A boot that has made the service `running`, and has not armed its timer. -/
def Frame.arms (n : String) : Frame → Bool
  | .start n' (.monitor _) | .start n' (.arm _ _) => n' = n
  | _ => false

@[simp] theorem arms_monitor : (Frame.start n (.monitor op)).arms n = true :=
  decide_eq_true rfl

@[simp] theorem arms_arm : (Frame.start n (.arm op t)).arms n = true :=
  decide_eq_true rfl

@[simp] theorem arms_stop {p : StopPoint} : (Frame.stop n' idle p).arms n = false := rfl

/-- What matters for the timer of a service: the boots that are to arm it, the `Stop`s that have
made the service `stopping`, and those that its timer has called. -/
def Frame.watches (n : String) : Frame → Bool
  | .stop n' true .enter => n' = n
  | f => f.arms n || f.stops n

theorem watches_start :
    (Frame.start n' p).watches n = (Frame.start n' p).arms n := Bool.or_false _

theorem watches_stop_enter : (Frame.stop n' false .enter).watches n = false :=
  Bool.and_false _

theorem watches_stop {p : StopPoint} (hp : p ≠ .enter) :
    (Frame.stop n' idle p).watches n = decide (n' = n) := by
  cases p with
  | enter => exact absurd rfl hp
  | quiet | down | downing | write => cases idle <;> exact Bool.and_true _

theorem startsOrStops_of_watches (h : f.watches n = true) : f.startsOrStops n = true := by
  rcases f with ⟨n', p⟩ | ⟨n', idle, p⟩ | _ | _ | _ | _ | _
  · rw [watches_start] at h
    cases p <;> first | exact h | cases h
  · by_cases hp : p = .enter
    · subst hp
      cases idle with
      | false => cases watches_stop_enter.symm.trans h
      | true => exact h
    · rwa [watches_stop hp] at h
  all_goals cases h

/-- **What matters for the timer of a service.** -/
structure Watch where
  state : ServiceState
  ctrl : Option ℕ
  armed : Set ℕ
  frames : List Frame

def watch (n : String) (m : Memory) (F : List Frame) : Watch where
  state := (m.entry n).state
  ctrl := (m.entry n).idleCtrl
  armed := {t | t ∈ m.armed n}
  frames := F.filter (·.watches n)

/-- **What can happen to it.** `idles` says whether the service has an idle timeout. -/
inductive Tick (n : String) (idles : Prop) (w : Watch) : Watch → Prop
  | quiet : Tick n idles w w
  | lead (hstate : w.state = .stopped ∨ w.state = .stopping)
      (hnone : ∀ g ∈ w.frames, g.stops n = false) : Tick n idles w { w with state := .starting }
  /-- A boot fails, or is cancelled. -/
  | settle (hstate : w.state ≠ .running) : Tick n idles w { w with state := .stopped }
  | commit {A B : List Frame} {op : ℕ} (hstate : w.state = .starting) (hw : w.frames = A ++ B) :
      Tick n idles w { w with state := .running, frames := A ++ Frame.start n (.monitor op) :: B }
  | monitor {A B : List Frame} {op t : ℕ} (hw : w.frames = A ++ Frame.start n (.monitor op) :: B) :
      Tick n idles w { w with ctrl := some t, frames := A ++ Frame.start n (.arm op t) :: B }
  | noMonitor {A B : List Frame} {op : ℕ} (hw : w.frames = A ++ Frame.start n (.monitor op) :: B)
      (hidles : ¬idles) : Tick n idles w { w with frames := A ++ B }
  | arm {A B : List Frame} {op t : ℕ} (hw : w.frames = A ++ Frame.start n (.arm op t) :: B) :
      Tick n idles w { w with armed := insert t w.armed, frames := A ++ B }
  | stop {A B X : List Frame} {idle : Bool} {found : ServiceState}
      (hnone : ∀ g ∈ w.frames, g.arms n = false) (hw : w.frames = A ++ (X ++ B)) :
      Tick n idles w
        { w with state := .stopping, frames := A ++ Frame.stop n idle (.quiet found w.ctrl) :: B }
  /-- A `Stop` that the timer has called finds the service stopped. -/
  | spent {A B : List Frame} (hstate : idles → w.state = .stopped)
      (hw : w.frames = A ++ Frame.stop n true .enter :: B) :
      Tick n idles w { w with frames := A ++ B }
  | still {A B : List Frame} {idle : Bool} {found : ServiceState} {timer : Option ℕ}
      (hw : w.frames = A ++ Frame.stop n idle (.quiet found timer) :: B) :
      Tick n idles w { w with armed := {t | t ∈ w.armed ∧ timer ≠ some t},
                              frames := A ++ Frame.stop n idle (.down found) :: B }
  | proceed {A B : List Frame} {idle : Bool} {p p' : StopPoint}
      (hp : ∀ found timer, p ≠ .quiet found timer) (hp' : p' ≠ .enter ∧ p ≠ .enter)
      (hw : w.frames = A ++ Frame.stop n idle p :: B) :
      Tick n idles w { w with frames := A ++ Frame.stop n idle p' :: B }
  | write {A B : List Frame} {idle : Bool} {found : ServiceState}
      (hw : w.frames = A ++ Frame.stop n idle (.write found none) :: B) :
      Tick n idles w { w with state := .stopped, frames := A ++ B }
  | fire {A B : List Frame} {t : ℕ} (hw : w.frames = A ++ B) :
      Tick n idles w { w with armed := {t' | t' ∈ w.armed ∧ t' ≠ t},
                              frames := A ++ Frame.stop n true .enter :: B }

/-! ### The invariant -/

/-- **The invariant.** -/
structure WatchInv (n : String) (idles : Prop) (w : Watch) : Prop where
  /-- No timer is armed but the one that is kept for the service. -/
  own : ∀ t ∈ w.armed, w.ctrl = some t
  /-- While one is armed, the service is `running`, or a `Stop` is about to stop it. -/
  kept : ∀ t ∈ w.armed,
    w.state = .running ∨ ∃ idle found, .stop n idle (.quiet found (some t)) ∈ w.frames
  /-- One boot at most is to arm the timer. -/
  alone : w.frames.countP (·.arms n) ≤ 1
  arming : ∀ g ∈ w.frames, g.arms n = true → w.state = .running ∧ w.armed = ∅
  holds : ∀ op t, .start n (.arm op t) ∈ w.frames → w.ctrl = some t
  halted : ∀ g ∈ w.frames, g.stops n = true → w.state = .stopping ∨ w.state = .stopped
  /-- A service that is `running` has its timer, or is to have it, or its timer has fired. -/
  watched : idles → w.state = .running →
    (∃ g ∈ w.frames, g.arms n = true) ∨ w.armed.Nonempty ∨ .stop n true .enter ∈ w.frames

section Tick

variable {idles : Prop} {w w' : Watch} {state : ServiceState} {ctrl : Option ℕ} {armed : Set ℕ}

theorem watchInv_of_no_arms (harms : ∀ g ∈ w.frames, g.arms n = false) (hstate : w.state ≠ .running)
    (hown : ∀ t ∈ w.armed, w.ctrl = some t)
    (hkept : ∀ t ∈ w.armed, ∃ idle found, .stop n idle (.quiet found (some t)) ∈ w.frames)
    (hhalted : ∀ g ∈ w.frames, g.stops n = true → w.state = .stopping ∨ w.state = .stopped) :
    WatchInv n idles w where
  own := hown
  kept t ht := .inr (hkept t ht)
  alone := by
    rw [countP_eq_zero.mpr fun g hg => by simp [harms g hg]]
    exact Nat.zero_le 1
  arming g hg h := absurd h (by simp [harms g hg])
  holds op t hg := absurd (harms _ hg) (by simp)
  halted := hhalted
  watched _ h := absurd h hstate

theorem watchInv_initial (idles : Prop) : WatchInv n idles ⟨.stopped, none, ∅, []⟩ :=
  watchInv_of_no_arms (by simp) (by simp) (by simp) (by simp) (by simp)

theorem WatchInv.no_arms (hw : WatchInv n idles w) (hstate : w.state ≠ .running) :
    ∀ g ∈ w.frames, g.arms n = false := by
  intro g hg
  by_contra harms
  exact hstate (hw.arming g hg (by simpa using harms)).1

theorem WatchInv.no_stops (hw : WatchInv n idles w)
    (hstate : w.state = .running ∨ w.state = .starting) : ∀ g ∈ w.frames, g.stops n = false := by
  intro g hg
  by_contra hstops
  rcases hw.halted g hg (by simpa using hstops) with h | h <;> rcases hstate with h' | h' <;>
    cases h.symm.trans h'

theorem WatchInv.armed_eq_empty (hw : WatchInv n idles w) (hstate : w.state ≠ .running)
    (hnone : ∀ g ∈ w.frames, g.stops n = false) : w.armed = ∅ := by
  refine Set.eq_empty_of_forall_notMem fun t ht => ?_
  rcases hw.kept t ht with h | ⟨idle, found, hquiet⟩
  · exact hstate h
  · have hstops := hnone _ hquiet
    rw [stops_stop (by simp)] at hstops
    cases hstops

theorem WatchInv.set_state (hw : WatchInv n idles w) (hrunning : w.state ≠ .running)
    (hstate : state ≠ .running)
    (hhalted : ∀ g ∈ w.frames, g.stops n = true → state = .stopping ∨ state = .stopped) :
    WatchInv n idles { w with state := state } :=
  watchInv_of_no_arms (hw.no_arms hrunning) hstate hw.own
    (fun t ht => (hw.kept t ht).resolve_left hrunning) hhalted

theorem WatchInv.lead (hw : WatchInv n idles w) (hstate : w.state = .stopped ∨ w.state = .stopping)
    (hnone : ∀ g ∈ w.frames, g.stops n = false) :
    WatchInv n idles { w with state := .starting } := by
  have hrunning : w.state ≠ .running := by
    rcases hstate with h | h <;> rw [h] <;> simp
  exact hw.set_state hrunning (by simp) fun g hg hstops => absurd hstops (by simp [hnone g hg])

theorem WatchInv.commit (hw : WatchInv n idles ⟨.starting, ctrl, armed, A ++ B⟩) :
    WatchInv n idles ⟨.running, ctrl, armed, A ++ Frame.start n (.monitor op) :: B⟩ := by
  have harms := hw.no_arms (by simp)
  have hstops := hw.no_stops (.inr rfl)
  have hempty := hw.armed_eq_empty (by simp) hstops
  constructor
  · exact hw.own
  · exact fun _ _ => .inl rfl
  · rw [perm_middle.countP_eq, countP_cons_of_pos arms_monitor,
      countP_eq_zero.mpr fun g hg => by simp [harms g hg]]
  · exact fun _ _ _ => ⟨rfl, hempty⟩
  · intro op' t hg
    rcases mem_before.mp hg with hg | hg
    · cases hg
    · exact absurd (harms _ hg) (by simp)
  · intro g hg hstop
    rcases mem_before.mp hg with rfl | hg
    · cases hstop
    · exact absurd hstop (by simp [hstops g hg])
  · exact fun _ _ => .inl ⟨_, mem_subject, by simp⟩

theorem WatchInv.monitor
    (hw : WatchInv n idles ⟨state, ctrl, armed, A ++ Frame.start n (.monitor op) :: B⟩) :
    WatchInv n idles ⟨state, some t, armed, A ++ Frame.start n (.arm op t) :: B⟩ := by
  obtain ⟨hrunning, hempty⟩ := hw.arming _ mem_subject (by simp)
  have hothers := others_of_alone hw.alone (by simp)
  constructor
  · intro t' ht'
    exact absurd (hempty ▸ ht') (Set.notMem_empty _)
  · exact fun _ _ => .inl hrunning
  · rw [perm_middle.countP_eq, countP_cons_of_pos arms_arm,
      countP_eq_zero.mpr fun g hg => by simp [hothers g hg]]
  · exact fun _ _ _ => ⟨hrunning, hempty⟩
  · intro op' t' hg
    rcases mem_before.mp hg with hg | hg
    · cases hg
      rfl
    · exact absurd (hothers _ hg) (by simp)
  · intro g hg hstop
    rcases mem_before.mp hg with rfl | hg
    · cases hstop
    · exact hw.halted g (mem_of_mem_rest hg) hstop
  · exact fun _ _ => .inl ⟨_, mem_subject, by simp⟩

theorem WatchInv.arm {old : Set ℕ} (hw : WatchInv n idles ⟨state, ctrl, old, A ++ g :: B⟩)
    (hg : g.arms n = true) (howned : ∀ t ∈ armed, ctrl = some t) (hdone : idles → armed.Nonempty) :
    WatchInv n idles ⟨state, ctrl, armed, A ++ B⟩ := by
  have hothers := others_of_alone hw.alone hg
  constructor
  · exact howned
  · exact fun _ _ => .inl (hw.arming g mem_subject hg).1
  · rw [countP_eq_zero.mpr fun g hg => by simp [hothers g hg]]
    exact Nat.zero_le 1
  · exact fun g' hg' harms => absurd harms (by simp [hothers g' hg'])
  · exact fun op t hg' => hw.holds op t (mem_of_mem_rest hg')
  · exact fun g' hg' => hw.halted g' (mem_of_mem_rest hg')
  · exact fun hidles _ => .inr (.inl (hdone hidles))

theorem WatchInv.stop {X : List Frame} {found : ServiceState}
    (hw : WatchInv n idles ⟨state, ctrl, armed, A ++ (X ++ B)⟩)
    (hnone : ∀ g ∈ A ++ (X ++ B), g.arms n = false) :
    WatchInv n idles
      ⟨.stopping, ctrl, armed, A ++ Frame.stop n idle (.quiet found ctrl) :: B⟩ := by
  refine watchInv_of_no_arms (forall_mem_before rfl (forall_mem_rest hnone))
    (by simp) hw.own (fun t ht => ⟨idle, found, mem_before.mpr (.inl ?_)⟩) fun _ _ _ => .inl rfl
  rw [show ctrl = some t from hw.own t ht]

theorem WatchInv.restop {Y : List Frame} {old : ServiceState} {armed' : Set ℕ}
    (hw : WatchInv n idles ⟨old, ctrl, armed, A ++ g :: B⟩) (hg : g.stops n = true)
    (hY : ∀ y ∈ Y, y.arms n = false) (hstate : state = old ∨ state = .stopped)
    (harmed : ∀ t ∈ armed', t ∈ armed ∧ ∀ idle found, g ≠ .stop n idle (.quiet found (some t))) :
    WatchInv n idles ⟨state, ctrl, armed', A ++ (Y ++ B)⟩ := by
  have hhalted := hw.halted g mem_subject hg
  have hrunning : old ≠ .running := by
    rcases hhalted with h | h <;> exact fun h' => by cases h.symm.trans h'
  have hstate' : state = .stopping ∨ state = .stopped := by
    rcases hstate with rfl | rfl
    · exact hhalted
    · exact .inr rfl
  refine watchInv_of_no_arms
    (forall_mem_made (forall_mem_others (hw.no_arms hrunning)) hY) ?_
    (fun t ht => hw.own t (harmed t ht).1) (fun t ht => ?_) fun _ _ _ => hstate'
  · rcases hstate' with h | h <;> exact fun h' => by cases h.symm.trans h'
  · obtain ⟨idle, found, hquiet⟩ := (hw.kept t (harmed t ht).1).resolve_left hrunning
    have hquiet' := (mem_before.mp hquiet).resolve_left fun h => (harmed t ht).2 idle found h.symm
    exact ⟨idle, found, mem_after.mpr (.inr hquiet')⟩

theorem WatchInv.spent (hstate : idles → state = .stopped)
    (hw : WatchInv n idles ⟨state, ctrl, armed, A ++ Frame.stop n true .enter :: B⟩) :
    WatchInv n idles ⟨state, ctrl, armed, A ++ B⟩ := by
  constructor
  · exact hw.own
  · intro t ht
    refine (hw.kept t ht).imp_right ?_
    rintro ⟨idle, found, hquiet⟩
    exact ⟨idle, found, (mem_before.mp hquiet).resolve_left (by simp)⟩
  · have halone := hw.alone
    rw [perm_middle.countP_eq] at halone
    exact halone
  · exact fun g hg => hw.arming g (mem_of_mem_rest hg)
  · exact fun op t hg => hw.holds op t (mem_of_mem_rest hg)
  · exact fun g hg => hw.halted g (mem_of_mem_rest hg)
  · intro hidles h
    cases (hstate hidles).symm.trans h

theorem WatchInv.fire (hw : WatchInv n idles ⟨state, ctrl, armed, A ++ B⟩) :
    WatchInv n idles
      ⟨state, ctrl, {t' | t' ∈ armed ∧ t' ≠ t}, A ++ Frame.stop n true .enter :: B⟩ := by
  have hother : ∀ {g}, g ∈ A ++ Frame.stop n true .enter :: B → g ≠ .stop n true .enter →
      g ∈ A ++ B := fun hg => (mem_before.mp hg).resolve_left
  constructor
  · exact fun t' ht' => hw.own t' ht'.1
  · intro t' ht'
    refine (hw.kept t' ht'.1).imp_right ?_
    rintro ⟨idle, found, hquiet⟩
    exact ⟨idle, found, mem_of_mem_rest hquiet⟩
  · rw [perm_middle.countP_eq]
    exact hw.alone
  · intro g hg harms
    obtain ⟨hrunning, hempty⟩ := hw.arming g (hother hg (by rintro rfl; cases harms)) harms
    refine ⟨hrunning, Set.eq_empty_of_forall_notMem fun t' ht' => ?_⟩
    exact Set.notMem_empty t' (hempty ▸ ht'.1)
  · exact fun op t' hg => hw.holds op t' (hother hg (by simp))
  · intro g hg hstops
    exact hw.halted g (hother hg (by rintro rfl; simp [Frame.stops] at hstops)) hstops
  · exact fun _ _ => .inr (.inr mem_subject)

/-- **The invariant is kept.** -/
theorem WatchInv.tick (hw : WatchInv n idles w) (h : Tick n idles w w') : WatchInv n idles w' := by
  obtain ⟨state, ctrl, armed, frames⟩ := w
  cases h with
  | quiet => exact hw
  | lead hstate hnone => exact hw.lead hstate hnone
  | settle hstate => exact hw.set_state hstate (by simp) fun _ _ _ => .inr rfl
  | commit hstate hframes =>
    cases hstate
    subst hframes
    exact hw.commit
  | monitor hframes =>
    subst hframes
    exact hw.monitor
  | noMonitor hframes hidles =>
    subst hframes
    exact hw.arm (by simp) hw.own fun h => absurd h hidles
  | @arm A B op t hframes =>
    subst hframes
    refine hw.arm (by simp) (fun t' ht' => ?_) fun _ => ⟨t, .inl rfl⟩
    rcases ht' with rfl | ht'
    · exact hw.holds op t' mem_subject
    · exact hw.own t' ht'
  | stop hnone hframes =>
    subst hframes
    exact hw.stop hnone
  | spent hstate hframes =>
    subst hframes
    exact hw.spent hstate
  | @still A B idle found timer hframes =>
    subst hframes
    refine hw.restop (Y := [.stop n idle (.down found)]) (stops_stop (by simp)) (by simp)
      (.inl rfl) fun t ht => ⟨ht.1, fun idle' found' h => ht.2 ?_⟩
    cases h
    rfl
  | @proceed A B idle p p' hp hp' hframes =>
    subst hframes
    refine hw.restop (Y := [.stop n idle p']) (stops_stop hp'.2) (by simp) (.inl rfl)
      fun t ht => ⟨ht, fun idle' found' h => ?_⟩
    cases h
    exact hp _ _ rfl
  | write hframes =>
    subst hframes
    exact hw.restop (Y := []) (stops_stop (by simp)) (by simp) (.inr rfl) fun t ht => ⟨ht, by simp⟩
  | fire hframes =>
    subst hframes
    exact hw.fire

end Tick

/-! ### The simulation -/

def DefaultManager.idleTimeout (M : DefaultManager) (n : String) : ℤ :=
  (M.services.lookup n).elim 0 ServiceSpec.idleTimeout

abbrev watched (n : String) (F : List Frame) : List Frame := F.filter (·.watches n)

theorem watched_eq_nil (hnone : ∀ f ∈ F, f.startsOrStops n = false) : watched n F = [] := by
  refine filter_eq_nil_iff.mpr fun f hf hwatches => ?_
  cases (hnone f hf).symm.trans (startsOrStops_of_watches hwatches)

theorem watch_append : watch n m (A ++ (F ++ B)) = ⟨(m.entry n).state, (m.entry n).idleCtrl,
    {t | t ∈ m.armed n}, watched n A ++ (watched n F ++ watched n B)⟩ := by
  rw [watch, filter_append, filter_append]

theorem watch_eq (state : ServiceState) {ctrl : Option ℕ} {armed : Set ℕ}
    (hstate : (m.entry n).state = state) (hctrl : (m.entry n).idleCtrl = ctrl)
    (harmed : ∀ t, t ∈ m.armed n ↔ t ∈ armed) :
    watch n m (A ++ (F ++ B)) =
      ⟨state, ctrl, armed, watched n A ++ (watched n F ++ watched n B)⟩ := by
  subst hstate hctrl
  rw [watch_append, show {t | t ∈ m.armed n} = armed from Set.ext harmed]

theorem Tick.of_unwatched {idles : Prop} (hstate : (m'.entry n).state = (m.entry n).state)
    (harmed : (m'.entry n).idleCtrl = (m.entry n).idleCtrl ∧ ∀ t, t ∈ m'.armed n ↔ t ∈ m.armed n)
    (hused : watched n used = []) (hmade : watched n made = []) :
    Tick n idles (watch n m (A ++ (used ++ B))) (watch n m' (A ++ (made ++ B))) := by
  rw [watch_eq _ hstate harmed.1 harmed.2, watch_append, hused, hmade]
  exact .quiet

theorem Tick.of_same {idles : Prop} (hused : watched n used = []) (hmade : watched n made = []) :
    Tick n idles (watch n m (A ++ (used ++ B))) (watch n m (A ++ (made ++ B))) :=
  .of_unwatched rfl ⟨rfl, fun _ => Iff.rfl⟩ hused hmade

/-- **The condition**: a boot that fails writes this only while it is the latest, no `Down` fails,
a `Start` takes the lead only while no `Stop` is under way, and a `Stop` sets out only while no
boot is about to arm the timer. -/
def KeepsWatch (n : String) : Condition := fun m F f o =>
  (∀ op ∈ f.failing n, (m.entry n).startOp = some op) ∧ ((f.downing n).isSome → o = none) ∧
    (Leads n (view n m F) f → ∀ g ∈ F, g.stops n = false) ∧
    (Halts n (view n m F) f → ∀ g ∈ F, g.arms n = false)

instance (F : List Frame) (f : Frame) : Decidable (KeepsWatch n m F f o) :=
  inferInstanceAs (Decidable (_ ∧ _ ∧ _ ∧ _))

/-- No `Stop` has a `Down` that has failed. -/
def Downed (n : String) (v : View) : Prop := ∀ g ∈ v.flight, g.undowned n = false

theorem Downed.not_undowned (h : Downed n (view n m F)) (hf : f ∈ F) : f.undowned n = false := by
  by_contra hundowned
  have hstops : f.stops n = true := by
    rcases f with _ | ⟨n', idle, _ | _ | _ | _ | ⟨found, _ | err⟩⟩ | _ | _ | _ | _ | _ <;>
      first
      | exact absurd rfl hundowned
      | simpa [Frame.undowned, Frame.stops] using hundowned
  exact hundowned (h f (mem_filter.mpr ⟨hf, by rw [hstops, Bool.or_true]⟩))

theorem Downed.move {v v' : View} (hv : Downed n v) (hdown : (f.downing n).isSome → o = none)
    (h : Move M n v f o v') : Downed n v' := by
  -- one frame in flight is replaced by another
  have hnew : ∀ {A B : List Frame} {g : Frame}, (∀ g' ∈ A ++ B, g' ∈ v.flight) →
      g.undowned n = false → ∀ g' ∈ A ++ g :: B, g'.undowned n = false := by
    intro A B g hmem hg g' hg'
    rcases mem_before.mp hg' with rfl | hg'
    · exact hg
    · exact hv g' (hmem g' hg')
  cases h with
  | quiet | fresh => exact hv
  | lead hf hstate hflight => exact hnew (fun g hg => hflight ▸ hg) rfl
  | advance hf hflight => exact hnew (fun g => hflight ▸ mem_of_mem_rest) rfl
  | fail hf hflight | commit hflight | write hf hflight =>
    exact fun g hg => hv g (hflight ▸ mem_of_mem_rest hg)
  | stop hf hstate hflight => exact hnew (fun g hg => hflight ▸ hg) rfl
  | proceed hf hflight hproceed =>
    refine hnew (fun g => hflight ▸ mem_of_mem_rest) ?_
    cases hproceed with
    | quiet | down | noDown => rfl
    | downing =>
      rw [hdown (by simp [hf, Frame.downing])]
      rfl

theorem watched_call (h : call m c = some [f]) : watched n [f] = [] := by
  rcases opening_of_call h <;> first | rfl | simp [watches_stop_enter]

theorem watched_start (hp : (Frame.start n p).arms n = false) : watched n [.start n p] = [] := by
  simp [watches_start, hp]

theorem watched_arms (hp : (Frame.start n p).arms n = true) :
    watched n [.start n p] = [.start n p] := by
  simp [watches_start, hp]

theorem watch_modify {f : ServiceEntry → ServiceEntry} (hf : ∀ e, (f e).idleCtrl = e.idleCtrl) :
    watch n (m.modify n f) F = { watch n m F with state := (f (m.entry n)).state } := by
  have harmed : ∀ t, t ∈ (m.modify n f).armed n ↔ t ∈ m.armed n := fun t =>
    mem_armed_of_timers_eq rfl
  simp only [watch, entry_modify, hf, harmed]

theorem watch_setState {state : ServiceState} :
    watch n (m.setState n state) F = { watch n m F with state := state } :=
  watch_modify fun _ => rfl

theorem watch_create :
    watch n { m.modify n fun e => { e with idleCtrl := some m.timers.length } with
      timers := m.timers ++ [{ service := n }] } F =
        { watch n m F with ctrl := some m.timers.length } := by
  have hentry : (m.modify n fun e => { e with idleCtrl := some m.timers.length }).entry n =
      { m.entry n with idleCtrl := some m.timers.length } := entry_modify
  have harmed : ∀ t,
      t ∈ Memory.armed { m.modify n fun e => { e with idleCtrl := some m.timers.length } with
        timers := m.timers ++ [{ service := n }] } n ↔ t ∈ m.armed n :=
        fun t => mem_armed_create rfl
  simp only [watch, hentry, harmed]

theorem mem_bootsOf (hp : p.boots = true) (hmem : .start n p ∈ F) :
    p.op ∈ bootsOf n (view n m F).flight :=
  mem_filterMap.mpr
    ⟨.start n p, mem_filter.mpr ⟨hmem, by simp [Frame.boots, hp]⟩, bootOf_start hp⟩

theorem elsewhere_of_startStep (h : startStep M m o n p = some (m', made))
    (htimed : Timed m (A ++ ([Frame.start n p] ++ B))) (hp : (Frame.start n p).arms n = false) :
    (m'.entry n).idleCtrl = (m.entry n).idleCtrl ∧ ∀ t, t ∈ m'.armed n ↔ t ∈ m.armed n := by
  refine (timerTurn_of_startStep h).elsewhere htimed ?_ ?_ (by simp)
  · intro f hf t ht
    cases mem_singleton.mp hf
    cases p <;> cases ht
    simp [Frame.arms] at hp
  · intro op hop
    cases mem_singleton.mp hop
    simp [Frame.arms] at hp

theorem tick_of_startStep (h : startStep M m o n p = some (m', made))
    (htimed : Timed m (A ++ ([Frame.start n p] ++ B)))
    (hboot : BootInv n (view n m (A ++ ([Frame.start n p] ++ B))))
    (hC : KeepsWatch n m (A ++ ([Frame.start n p] ++ B)) (.start n p) o) :
    Tick n (0 < M.idleTimeout n) (watch n m (A ++ ([Frame.start n p] ++ B)))
      (watch n m' (A ++ (made ++ B))) := by
  have hself : Frame.start n p ∈ A ++ ([Frame.start n p] ++ B) :=
    mem_append_right _ (mem_cons_self ..)
  have helsewhere := elsewhere_of_startStep h htimed
  -- while the latest boot is not over, the service is not `running`
  have hrunning : p.boots = true → (m.entry n).startOp = some p.op → (m.entry n).state ≠ .running :=
    fun hp hop hrunning => hboot.running hrunning p.op hop (mem_bootsOf hp hself)
  cases startStep_cases h with
  | missing | already | orphaned | told | finish | call =>
    exact .of_unwatched rfl (helsewhere rfl) (watched_start rfl) rfl
  | follow | ready | noUp | upFailed | noCheck | superseded | up =>
    exact .of_unwatched rfl (helsewhere rfl) (watched_start rfl) (watched_start rfl)
  | check =>
    refine .of_unwatched ?_ (helsewhere rfl) (watched_start rfl) (watched_start rfl)
    split_ifs <;> rfl
  | healthy | unhealthy =>
    exact .of_unwatched (by rw [entry_modify]) (helsewhere rfl) (watched_start rfl)
      (watched_start rfl)
  | lead hspec hstate =>
    have hnone : ∀ g ∈ (watch n m (A ++ ([Frame.start n .enter] ++ B))).frames, g.stops n = false :=
      fun g hg => hC.2.2.1 ⟨rfl, hstate⟩ g (mem_filter.mp hg).1
    have hlead : ((m.lead n).entry n).state = .starting := by rw [entry_lead, if_pos rfl]
    rw [watch_append] at hnone ⊢
    rw [watch_eq _ hlead (helsewhere rfl).1 (helsewhere rfl).2]
    exact .lead hstate hnone
  | fail =>
    rw [watch_setState, watch_append, watch_append]
    exact .settle (hrunning rfl (hC.1 _ (if_pos rfl)))
  | cancelled hop =>
    rw [watch_modify, watch_append, watch_append]
    · exact .settle (hrunning rfl hop)
    · exact fun _ => rfl
  | @own op hop hstate =>
    rw [watch_setState, watch_append, watched_start rfl, watch_append, watched_arms (by simp)]
    exact .commit hstate rfl
  | @monitor op =>
    rw [watch_create, watch_append, watched_arms (by simp), watch_append, watched_arms (by simp)]
    exact .monitor rfl
  | @noMonitor op =>
    have hidles : ¬0 < M.idleTimeout n := by
      intro hidles
      rw [startStep, if_pos (by exact hidles)] at h
      cases (Prod.mk.inj (Option.some.inj h)).2
    rw [watch_append, watched_arms (by simp), watch_append]
    exact .noMonitor rfl hidles
  | @arm op t =>
    have harmed : ∀ t', t' ∈ m.armed n ∨ n = n ∧ t' = t ↔ t' ∈ insert t {t | t ∈ m.armed n} := by
      simp [or_comm]
    rw [watch_append, watched_arms (by simp), watch_eq _ rfl rfl fun t' => (mem_armed_arm
      (htimed.frames _ hself n t rfl) rfl).trans (harmed t')]
    exact .arm rfl

/-! ### The steps of a `Stop` -/

theorem watched_due : watched n [.stop n true .enter] = [.stop n true .enter] :=
  filter_cons_of_pos (decide_eq_true rfl)

theorem watched_stops {p : StopPoint} (hp : p ≠ .enter) :
    watched n [.stop n idle p] = [.stop n idle p] := by
  refine filter_cons_of_pos ?_
  rw [watches_stop hp]
  exact decide_eq_true rfl

theorem tick_of_stopStep {p : StopPoint} (h : stopStep M m o n idle p = some (m', made))
    (htimed : Timed m (A ++ ([Frame.stop n idle p] ++ B)))
    (hdowned : Downed n (view n m (A ++ ([Frame.stop n idle p] ++ B))))
    (hC : KeepsWatch n m (A ++ ([Frame.stop n idle p] ++ B)) (.stop n idle p) o) :
    Tick n (0 < M.idleTimeout n) (watch n m (A ++ ([Frame.stop n idle p] ++ B)))
      (watch n m' (A ++ (made ++ B))) := by
  have hself : Frame.stop n idle p ∈ A ++ ([Frame.stop n idle p] ++ B) :=
    mem_append_right _ (mem_cons_self ..)
  cases p with
  | enter =>
    -- nothing to stop
    have hspent : ∀ err, (0 < M.idleTimeout n → (m.entry n).state = .stopped) →
        Tick n (0 < M.idleTimeout n) (watch n m (A ++ ([Frame.stop n idle .enter] ++ B)))
          (watch n m (A ++ ([Frame.ret err] ++ B))) := by
      intro err hstate
      rcases idle with _ | _
      · exact .of_same (by simp [watches_stop_enter]) rfl
      · rw [watch_append, watch_append, watched_due]
        exact .spent hstate rfl
    rw [stopStep] at h
    split_ifs at h with hspec hstate <;> cases h
    · exact hspent _ fun _ => hstate
    · have hnone : ∀ g ∈ (watch n m (A ++ ([Frame.stop n idle .enter] ++ B))).frames,
          g.arms n = false :=
        fun g hg => hC.2.2.2 ⟨by cases idle <;> simp, hstate⟩ g (mem_filter.mp hg).1
      rw [watch_append] at hnone ⊢
      rw [watch_setState, watch_append,
        watched_stops (p := .quiet (m.entry n).state (m.entry n).idleCtrl) (by simp)]
      exact .stop hnone rfl
    · refine hspent _ fun hidles => ?_
      rw [DefaultManager.idleTimeout, AList.lookup_eq_none.mpr hspec] at hidles
      exact absurd hidles (lt_irrefl _)
  | quiet found timer =>
    cases h
    have harmed : ∀ t, t ∈ (timer.elim m fun t => { m with
        timers := m.timers.modify t fun t => { t with stopped := true } }).armed n ↔
          t ∈ {t | t ∈ m.armed n ∧ timer ≠ some t} := by
      intro t
      rcases timer with _ | t'
      · simp
      · exact (mem_armed_stop rfl).trans (by simp [eq_comm])
    rw [watch_append, watched_stops (by simp),
      watch_eq (m.entry n).state (by cases timer <;> rfl) (by cases timer <;> rfl) harmed,
      watched_stops (by simp)]
    exact .still rfl
  | down found =>
    cases h
    have hp : (if M.Composes n then .downing found else .write found none) ≠ StopPoint.enter := by
      split_ifs <;> simp
    rw [watch_append, watched_stops (by simp), watch_append, watched_stops hp]
    exact .proceed (by simp) ⟨hp, by simp⟩ rfl
  | downing found =>
    cases h
    have hnote : ∀ t, t ∈ (if o.isNone then m.note n .down else m).armed n ↔ t ∈ m.armed n :=
      fun t => mem_armed_of_timers_eq (by split_ifs <;> rfl)
    rw [watch_append, watched_stops (by simp),
      watch_eq (m.entry n).state (by split_ifs <;> rfl) (by split_ifs <;> rfl) hnote,
      watched_stops (by simp)]
    exact .proceed (by simp) (by simp) rfl
  | write found err =>
    rcases err with _ | err
    · cases h
      rw [watch_modify, watch_append, watched_stops (by simp), watch_append]
      · exact .write rfl
      · exact fun _ => rfl
    · exact absurd (hdowned.not_undowned hself) (by simp [Frame.undowned])

/-! ### The steps of others -/

theorem watched_of_ne (hn : n' ≠ n) :
    (∀ p, watched n [.start n' p] = []) ∧ ∀ idle p, watched n [.stop n' idle p] = [] :=
  ⟨fun _ => watched_eq_nil (by simp [Frame.startsOrStops, hn]),
    fun _ _ => watched_eq_nil (by simp [Frame.startsOrStops, hn])⟩

theorem startsOrStops_of_timer (h : f.timer = some (n, t)) : f.startsOrStops n = true := by
  rcases f with ⟨n', _ | _ | _ | _ | _ | _ | _ | _ | _ | _ | _⟩ |
    ⟨n', idle, _ | ⟨found, _ | _⟩ | _ | _ | _⟩ | _ | _ | _ | _ | _ <;> cases h
  · exact decide_eq_true rfl
  · exact decide_eq_true rfl

theorem tick_of_turn (hturn : Turn M m o used m' made) (htimed : Timed m (A ++ (used ++ B)))
    (hboot : BootInv n (view n m (A ++ (used ++ B))))
    (hdowned : Downed n (view n m (A ++ (used ++ B))))
    (hC : ∀ f ∈ used.head?, KeepsWatch n m (A ++ (used ++ B)) f o) :
    Tick n (0 < M.idleTimeout n) (watch n m (A ++ (used ++ B)))
      (watch n m' (A ++ (made ++ B))) := by
  have helsewhere := (timerTurn_of_turn hturn).elsewhere (n := n) htimed
  -- a step of a frame that holds no timer of the service
  have hapart : ∀ {f : Frame}, used = [f] → f.startsOrStops n = false →
      (∀ t, f ≠ .fire t) → (m'.entry n).state = (m.entry n).state → watched n made = [] →
      Tick n (0 < M.idleTimeout n) (watch n m (A ++ (used ++ B)))
        (watch n m' (A ++ (made ++ B))) := by
    rintro f rfl hf hfire hstate hmade
    refine .of_unwatched hstate (helsewhere ?_ (fun op hop => ?_) fun t ht => ?_)
      (watched_eq_nil (by simp [hf])) hmade
    · intro g hg t ht
      cases mem_singleton.mp hg
      cases hf.symm.trans (startsOrStops_of_timer ht)
    · cases mem_singleton.mp hop
      simp [Frame.startsOrStops] at hf
    · exact absurd (mem_singleton.mp ht).symm (hfire t)
  cases turnStep_of_turn hturn with
  | @start n' _ _ _ hstep | @startRet n' _ _ _ hstep =>
    by_cases hn : n' = n
    · subst hn
      exact tick_of_startStep hstep htimed hboot (hC _ rfl)
    · refine hapart rfl (decide_eq_false hn) (by simp) ?_ ?_
      · rw [entry_of_startStep_of_ne hn hstep]
      · first | rfl | exact (watched_of_ne hn).1 _
  | @startCall n' =>
    by_cases hn : n' = n
    · subst hn
      exact tick_of_startStep rfl htimed hboot (hC _ rfl)
    · exact hapart rfl (decide_eq_false hn) (by simp) rfl rfl
  | @stop n' _ _ _ _ hstep | @stopRet n' _ _ _ _ hstep =>
    by_cases hn : n' = n
    · subst hn
      exact tick_of_stopStep hstep htimed hdowned (hC _ rfl)
    · refine hapart rfl (decide_eq_false hn) (by simp)
        (unseen_of_stopStep_of_ne hn hstep).1.state ?_
      first | rfl | exact (watched_of_ne hn).2 _ _
  | acquire hstep | acquireCall hstep | acquireRet hstep =>
    exact hapart rfl rfl (by simp) ((beside_of_acquireStep hstep).1.state n) rfl
  | release _ hstep | releaseRet _ hstep =>
    exact hapart rfl rfl (by simp) ((beside_of_releaseStep hstep).1.state n) rfl
  | @fire t timer _ htimer hstep =>
    rw [fireStep] at hstep
    split_ifs at hstep <;> cases hstep
    by_cases hn : timer.service = n
    · subst hn
      rw [watch_append,
        watch_eq _ rfl rfl fun t' => mem_armed_stop (set_timer_eq_modify htimer), watched_due]
      exact .fire rfl
    · refine .of_unwatched rfl (helsewhere (by simp [Frame.timer]) (by simp) ?_) rfl
        ((watched_of_ne hn).2 _ _)
      rintro t' ht' ⟨timer', htimer', hservice⟩
      cases mem_singleton.mp ht'
      cases htimer.symm.trans htimer'
      exact hn hservice
  | fireRet _ hstep =>
    rw [fireStep] at hstep
    split_ifs at hstep <;> cases hstep
    exact .of_same rfl rfl
  | shutdown => exact .of_same rfl (filter_cons_of_neg (by simp [watches_stop_enter]))
  | depRet hp =>
    refine .of_same rfl ?_
    rcases hp with ⟨-, rfl⟩ | ⟨text, rfl⟩ <;> rfl
  | bootRet => exact .of_unwatched rfl ⟨rfl, fun _ => Iff.rfl⟩ rfl rfl
  | shutdownRet | nextStop | leave => exact .of_same rfl rfl

/-! ### Every run -/

/-- **What holds in every state that is reached.** -/
structure Monitored (M : DefaultManager) (n : String) (m : Memory) (F : List Frame) : Prop where
  timed : Timed m F
  boot : BootInv n (view n m F)
  downed : Downed n (view n m F)
  watch : WatchInv n (0 < M.idleTimeout n) (watch n m F)

theorem Monitored.call (h : Monitored M n m F) (hc : call m c = some [f]) :
    Monitored M n m (F ++ [f]) := by
  have hwatch : Lifecycle.watch n m (F ++ [f]) = Lifecycle.watch n m F := by
    rw [Lifecycle.watch, filter_append, show filter _ [f] = _ from watched_call hc,
      append_nil]
    rfl
  refine ⟨⟨h.timed.ctrl, forall_mem_call h.timed.frames fun n' t ht => ?_⟩, ?_, ?_, ?_⟩
  · rcases opening_of_call hc <;> cases ht
  · rw [view_call hc]
    exact h.boot
  · rw [view_call hc]
    exact h.downed
  · rw [hwatch]
    exact h.watch

theorem Monitored.turn (h : Monitored M n m (A ++ (used ++ B)))
    (hC : ∀ f ∈ used.head?, KeepsWatch n m (A ++ (used ++ B)) f o)
    (hturn : Turn M m o used m' made) : Monitored M n m' (A ++ (made ++ B)) := by
  obtain ⟨f, hf, hmove⟩ := move_of_turn (n := n) (A := A) (B := B) hturn
  have hcond := hC f hf
  refine ⟨h.timed.turn (timerTurn_of_turn hturn), ?_, h.downed.move hcond.2.1 hmove,
    h.watch.tick (tick_of_turn hturn h.timed h.boot h.downed hC)⟩
  refine h.boot.move ⟨hcond.1, fun hundowned => ?_⟩ hmove
  -- a `Stop` whose `Down` has failed would be in flight
  have hmem : f ∈ A ++ (used ++ B) := by
    obtain ⟨rest, rfl⟩ := head?_eq_some_iff.mp hf
    simp
  rw [h.downed.not_undowned hmem] at hundowned
  cases hundowned

theorem monitored_of_reached {s : State} (h : Reached M (KeepsWatch n) s) :
    Monitored M n s.memory s.frames := by
  refine frames_induction h (I := Monitored M n) ?_ (fun _ _ _ _ hI => hI.call)
    fun _ _ _ _ _ _ _ hI => hI.turn
  refine ⟨timed_initial, bootInv_initial, forall_mem_nil _, ?_⟩
  have hinit : watch n {} [] = ⟨.stopped, none, ∅, []⟩ := by
    simp [watch, Memory.armed]
  exact hinit ▸ watchInv_initial _

theorem nodup_armed : (m.armed n).Nodup := nodup_range.filter _

/-- **Idle monitoring follows the running state.** Once no `Start` and no `Stop` of it is in
flight, a service that idles and is `running` has one armed timer, its own, and one that is
`stopped` has none: in every run in which a boot that fails writes this only while it is the
latest, no `Down` fails, a `Start` takes the lead only while no `Stop` is in flight, and a `Stop`
sets out only while no boot is about to arm the timer. -/
theorem armed_of_running (M : DefaultManager) (n : String) (s : State)
    (h : Reached M (KeepsWatch n) s) (hnone : ∀ f ∈ s.frames, f.startsOrStops n = false) :
    (0 < M.idleTimeout n → (s.memory.entry n).state = .running →
      ∃ t, s.memory.armed n = [t] ∧ (s.memory.entry n).idleCtrl = some t) ∧
    ((s.memory.entry n).state = .stopped → s.memory.armed n = []) := by
  have hinv := (monitored_of_reached h).watch
  have hframes : (watch n s.memory s.frames).frames = [] := watched_eq_nil hnone
  constructor
  · intro hidles hrunning
    have harmed : (watch n s.memory s.frames).armed.Nonempty := by
      rcases hinv.watched hidles hrunning with ⟨g, hg, -⟩ | harmed | hstop
      · rw [hframes] at hg
        cases hg
      · exact harmed
      · rw [hframes] at hstop
        cases hstop
    obtain ⟨t, ht⟩ := harmed
    have hctrl := hinv.own t ht
    refine ⟨t, perm_singleton.mp ?_, hctrl⟩
    refine (perm_ext_iff_of_nodup nodup_armed (nodup_singleton t)).mpr fun t' => ?_
    rw [mem_singleton]
    constructor
    · exact fun ht' => Option.some.inj ((hinv.own t' ht').symm.trans hctrl)
    · rintro rfl
      exact ht
  · intro hstopped
    have hempty := hinv.armed_eq_empty (by simp [watch, hstopped]) (by simp [hframes])
    refine eq_nil_iff_forall_not_mem.mpr fun t ht => ?_
    exact Set.eq_empty_iff_forall_notMem.mp hempty t ht

/-- `web` is started, stopped and started again. -/
theorem armed_of_running_web :
    ∃ s, Reached (oneService web) (KeepsWatch "web") s ∧
      (s.memory.entry "web").state = .running ∧ ∃ t, s.memory.armed "web" = [t] := by
  obtain ⟨s, hs, hrunning, hnone⟩ : ∃ s, Reached (oneService web) (KeepsWatch "web") s ∧
      (s.memory.entry "web").state = .running ∧
      ∀ f ∈ s.frames, f.startsOrStops "web" = false :=
    Reach.exists_of_runMeeting
      (.call (.start "web") :: steps 0 10 ++ .call (.stop "web") :: steps 1 6 ++
        .call (.start "web") :: steps 2 10) (by decide +kernel)
  obtain ⟨t, ht, -⟩ :=
    (armed_of_running (oneService web) "web" s hs hnone).1 (by decide +kernel) hrunning
  exact ⟨s, hs, hrunning, t, ht⟩

/-- **A service can be `running` with no timer armed, and `stopped` with one.** In the first run
the `Down` of a `Stop` fails when the timer is stopped already; in the second a whole `Stop`
comes between the section of a boot that writes `running` and the one that installs the timer. -/
theorem monitoring_astray :
    (∃ s, Reached (oneService web) Anyhow s ∧ s.frames = [] ∧
      0 < (oneService web).idleTimeout "web" ∧ (s.memory.entry "web").state = .running ∧
      s.memory.armed "web" = []) ∧
    ∃ s, Reached (oneService web) Anyhow s ∧ s.frames = [] ∧
      (s.memory.entry "web").state = .stopped ∧ s.memory.armed "web" = [0] := by
  constructor
  · exact Reach.exists_of_runMeeting
      (.call (.start "web") :: steps 0 10 ++ .call (.stop "web") :: steps 1 3 ++
        .step 1 (some "timeout") :: steps 1 2) (by decide +kernel)
  · exact Reach.exists_of_runMeeting
      (.call (.start "web") :: steps 0 6 ++ .call (.stop "web") :: steps 1 6 ++ steps 0 4)
      (by decide +kernel)

end Containers.Lifecycle
