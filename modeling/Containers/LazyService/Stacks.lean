import Containers.LazyService.Calls

/-!
# A service that is reported started is up

The flag of a lazy service, its booter and its stack are changed by different sections: a boot
brings the stack up, sets the flag and settles its booter; a stop takes the stack down and later
resets the flag and the booter. In between the three disagree, and the mutex is free. A start that
comes between the `Down` and the reset of a stop gets the nil of the old booter while the stack is
down, and a boot that comes in between is forgotten by the reset. Registering a service anew
replaces a booter whose stack is up, and a `Down` that fails after a failed health check leaves a
stack that nobody is flagged for.

If these do not happen (`Apart`), every service is in one of four states whenever nothing works on
it (`Memory.AtRest`), and who works on it has it for itself (`Tended`).
-/

namespace Containers.LazyService

open Go Compose ThreadSystem Sections List AList Function Option

variable {r : Option String} {name : String} {m m' : Memory} {o : Outcome} {f g : Frame}
  {A B F made : List Frame} {n x : String} {once : Once} {started isUp : Bool}
  {svc : ServiceDefinition} {b : ℕ} {lv : Level} {levels : List Level} {p : BootPoint}
  {focus : Focus}

/-! ### The state of a service -/

def Memory.Up (m : Memory) (n : String) : Prop := ∃ project, (n, project) ∈ m.stackUp

/-- The state of a service: its booter, its flag, and whether a stack is up. -/
structure Memory.Is (m : Memory) (n : String) (once : Once) (started up : Bool) : Prop where
  once : ∃ b, m.booters.lookup n = some b ∧ (m.booter b).once = once
  started : m.isStarted n = started
  up : m.Up n ↔ up = true

/-- **The states in which a service may be left alone**: not tried yet, failed, started, or
unknown. -/
def Memory.AtRest (m : Memory) (n : String) : Prop :=
  m.Is n .fresh false false ∨ (∃ err, m.Is n (.done (some err)) false false) ∨
  m.Is n (.done none) true true ∨
  m.booters.lookup n = none ∧ m.isStarted n = false ∧ ¬m.Up n

/-- Nothing changes for the service. -/
structure Same (m m' : Memory) (n : String) : Prop where
  services : m'.services.lookup n = m.services.lookup n
  booters : m'.booters.lookup n = m.booters.lookup n
  booter : ∀ b, m.booters.lookup n = some b → m'.booter b = m.booter b
  started : m'.isStarted n = m.isStarted n
  up : m'.Up n ↔ m.Up n

theorem Same.refl (m : Memory) (n : String) : Same m m n := ⟨rfl, rfl, fun _ _ => rfl, rfl, .rfl⟩

theorem Same.trans {m'' : Memory} (h : Same m m' n) (h' : Same m' m'' n) : Same m m'' n := by
  refine ⟨h'.services.trans h.services, h'.booters.trans h.booters, fun b hb => ?_,
    h'.started.trans h.started, h'.up.trans h.up⟩
  exact (h'.booter b (h.booters.trans hb)).trans (h.booter b hb)

theorem Memory.Is.of_same (h : m.Is n once started isUp) (hsame : Same m m' n) :
    m'.Is n once started isUp := by
  obtain ⟨b, hb, honce⟩ := h.once
  refine ⟨⟨b, hsame.booters.trans hb, ?_⟩, hsame.started.trans h.started, hsame.up.trans h.up⟩
  rw [hsame.booter b hb, honce]

theorem Memory.AtRest.of_same (h : m.AtRest n) (hsame : Same m m' n) : m'.AtRest n := by
  rcases h with h | ⟨err, h⟩ | h | ⟨hb, hstarted, hup⟩
  · exact .inl (h.of_same hsame)
  · exact .inr (.inl ⟨err, h.of_same hsame⟩)
  · exact .inr (.inr (.inl (h.of_same hsame)))
  · exact .inr (.inr (.inr ⟨hsame.booters.trans hb, hsame.started.trans hstarted,
      fun h => hup (hsame.up.mp h)⟩))

theorem Memory.AtRest.started_iff (h : m.AtRest n) : m.isStarted n = true ↔ m.Up n := by
  rcases h with h | ⟨err, h⟩ | h | ⟨-, hstarted, hup⟩
  · rw [h.started, h.up]
  · rw [h.started, h.up]
  · rw [h.started, h.up]
  · simp [hstarted, hup]

theorem Memory.Is.once_eq (h : m.Is n once started isUp) (hb : m.booters.lookup n = some b) :
    (m.booter b).once = once := by
  obtain ⟨b', hb', honce⟩ := h.once
  rw [hb] at hb'
  cases hb'
  exact honce

theorem Memory.AtRest.of_fresh (h : m.AtRest n) (hb : m.booters.lookup n = some b)
    (hfresh : (m.booter b).once = .fresh) : m.Is n .fresh false false := by
  rcases h with h | ⟨err, h⟩ | h | ⟨hnone, -⟩
  · exact h
  · cases hfresh.symm.trans (h.once_eq hb)
  · cases hfresh.symm.trans (h.once_eq hb)
  · rw [hb] at hnone
    cases hnone

theorem Memory.AtRest.of_started (h : m.AtRest n) (hstarted : m.isStarted n = true) :
    m.Is n (.done none) true true := by
  rcases h with h | ⟨err, h⟩ | h | ⟨-, hnot, -⟩
  · cases hstarted.symm.trans h.started
  · cases hstarted.symm.trans h.started
  · exact h
  · cases hstarted.symm.trans hnot

/-! ### The memory as a whole -/

/-- **What is registered**: every service has a booter of its own, no two services have the same
project, and every stack that is up is of the project that its service has now. -/
structure Memory.Registered (m : Memory) : Prop where
  booter : ∀ n b, m.booters.lookup n = some b → b < m.made ∧
    m.services.lookup n = some (m.booter b).svc ∧ (m.booter b).svc.name = n
  service : ∀ n svc, m.services.lookup n = some svc → ∃ b, m.booters.lookup n = some b
  distinct : ∀ n n' svc svc', m.services.lookup n = some svc → m.services.lookup n' = some svc' →
    n ≠ n' → svc.project ≠ svc'.project
  owned : ∀ n project, (n, project) ∈ m.stackUp →
    ∃ svc, m.services.lookup n = some svc ∧ svc.project = project

theorem Memory.Registered.inj (h : m.Registered) (hb : m.booters.lookup n = some b)
    (hb' : m.booters.lookup x = some b) : n = x :=
  (h.booter n b hb).2.2.symm.trans (h.booter x b hb').2.2

/-! ### What the operations do to the state of a service -/

section Operations

variable (hreg : m.Registered) (hb : m.booters.lookup n = some b)
include hreg hb

theorem same_setOnce (once : Once) (hx : x ≠ n) : Same m (m.setOnce b once) x := by
  refine ⟨rfl, rfl, fun b' hb' => update_of_ne ?_ _ _, rfl, .rfl⟩
  rintro rfl
  exact hx (hreg.inj hb' hb)

omit hreg in
theorem Memory.Is.setOnce (h : m.Is n once started isUp) (once' : Once) :
    (m.setOnce b once').Is n once' started isUp := by
  refine ⟨⟨b, hb, ?_⟩, h.started, h.up⟩
  simp [Memory.setOnce]

omit hb in
theorem Memory.Registered.setOnce (once : Once) : (m.setOnce b once).Registered := by
  have hsvc : ∀ b', ((m.setOnce b once).booter b').svc = (m.booter b').svc := by
    intro b'
    rcases eq_or_ne b' b with rfl | hne
    · simp [Memory.setOnce]
    · simp [Memory.setOnce, hne]
  refine ⟨fun n b' hb' => ?_, hreg.service, hreg.distinct, hreg.owned⟩
  rw [hsvc]
  exact hreg.booter n b' hb'

end Operations

theorem same_up (project : ComposeProject) (hx : x ≠ n) : Same m (m.up n project) x := by
  refine ⟨rfl, rfl, fun _ _ => rfl, rfl, exists_congr fun p => ?_⟩
  simp only [Memory.up]
  split_ifs
  · rfl
  · rw [mem_cons, Prod.mk.injEq]
    exact or_iff_right fun h => hx h.1

theorem Memory.Is.up_up (h : m.Is n once started isUp) (project : ComposeProject) :
    (m.up n project).Is n once started true := by
  refine ⟨h.once, h.started, iff_of_true ⟨project, ?_⟩ rfl⟩
  simp only [Memory.up]
  split_ifs with hmem
  · exact hmem
  · exact mem_cons_self

section Service

variable (hreg : m.Registered) (hsvc : m.services.lookup n = some svc)
include hreg hsvc

theorem Memory.Registered.up : (m.up n svc.project).Registered := by
  refine ⟨hreg.booter, hreg.service, hreg.distinct, fun x project hmem => ?_⟩
  simp only [Memory.up] at hmem
  split_ifs at hmem
  · exact hreg.owned x project hmem
  · rcases mem_cons.mp hmem with heq | hmem
    · cases heq
      exact ⟨svc, hsvc, rfl⟩
    · exact hreg.owned x project hmem

omit hreg hsvc in
theorem mem_stackUp_down {project project' : ComposeProject} :
    (x, project') ∈ (m.down project).stackUp ↔ (x, project') ∈ m.stackUp ∧ project' ≠ project := by
  simp [Memory.down]

theorem same_down (hx : x ≠ n) : Same m (m.down svc.project) x := by
  refine ⟨rfl, rfl, fun _ _ => rfl, rfl, exists_congr fun p => ?_⟩
  rw [mem_stackUp_down]
  refine and_iff_left_of_imp fun hmem => ?_
  obtain ⟨svc', hsvc', rfl⟩ := hreg.owned x p hmem
  exact hreg.distinct x n svc' svc hsvc' hsvc hx

theorem Memory.Is.down_down (h : m.Is n once started isUp) :
    (m.down svc.project).Is n once started false := by
  refine ⟨h.once, h.started, iff_of_false ?_ Bool.false_ne_true⟩
  rintro ⟨project, hmem⟩
  obtain ⟨hmem, hne⟩ := mem_stackUp_down.mp hmem
  obtain ⟨svc', hsvc', rfl⟩ := hreg.owned n project hmem
  rw [hsvc] at hsvc'
  cases hsvc'
  exact hne rfl

end Service

theorem Memory.Registered.down (h : m.Registered) (project : ComposeProject) :
    (m.down project).Registered :=
  ⟨h.booter, h.service, h.distinct, fun x p hmem => h.owned x p (mem_stackUp_down.mp hmem).1⟩

theorem same_setStarted (b : Bool) (hx : x ≠ n) : Same m (m.setStarted n b) x :=
  ⟨rfl, rfl, fun _ _ => rfl, (isStarted_setStarted m n x b).trans (if_neg hx), .rfl⟩

theorem Memory.Is.setStarted (h : m.Is n once started isUp) (b : Bool) :
    (m.setStarted n b).Is n once b isUp :=
  ⟨h.once, (isStarted_setStarted m n n b).trans (if_pos rfl), h.up⟩

theorem Memory.Registered.setStarted (h : m.Registered) (n : String) (b : Bool) :
    (m.setStarted n b).Registered :=
  ⟨h.booter, h.service, h.distinct, h.owned⟩

theorem same_newBooter (h : m.Registered) (svc : ServiceDefinition) (hx : x ≠ n) :
    Same m (m.newBooter n svc) x := by
  refine ⟨rfl, lookup_insert_ne hx, fun b hb => update_of_ne ?_ _ _, rfl, .rfl⟩
  exact (h.booter x b hb).1.ne

theorem Memory.is_newBooter (m : Memory) (n : String) (svc : ServiceDefinition)
    (hstarted : m.isStarted n = started) (hup : m.Up n ↔ isUp = true) :
    (m.newBooter n svc).Is n .fresh started isUp := by
  refine ⟨⟨m.made, lookup_insert _, ?_⟩, hstarted, hup⟩
  simp [Memory.newBooter]

theorem Memory.registered_newBooter
    (hbooter : ∀ x b, m.booters.lookup x = some b → b < m.made ∧ (x ≠ n →
      m.services.lookup x = some (m.booter b).svc ∧ (m.booter b).svc.name = x))
    (hservice : ∀ x ≠ n, ∀ svc', m.services.lookup x = some svc' → ∃ b, m.booters.lookup x = some b)
    (hdistinct :
      ∀ x x' svc svc', m.services.lookup x = some svc → m.services.lookup x' = some svc' →
      x ≠ x' → svc.project ≠ svc'.project)
    (howned : ∀ x project, (x, project) ∈ m.stackUp →
      ∃ svc, m.services.lookup x = some svc ∧ svc.project = project)
    (hsvc : m.services.lookup n = some svc) (hname : svc.name = n) :
    (m.newBooter n svc).Registered := by
  refine ⟨fun x b hb => ?_, fun x svc' hsvc' => ?_, hdistinct, howned⟩
  · rcases lookup_newBooter (fun x b hb => (hbooter x b hb).1) hb with
      ⟨rfl, rfl, hnew⟩ | ⟨hne, hb, hold⟩
    · rw [hnew]
      exact ⟨Nat.lt_succ_self _, hsvc, hname⟩
    · obtain ⟨hlt, hx⟩ := hbooter x b hb
      rw [hold]
      exact ⟨Nat.lt_succ_of_lt hlt, hx hne⟩
  · rcases eq_or_ne x n with rfl | hne
    · exact ⟨m.made, lookup_insert _⟩
    · obtain ⟨b, hb⟩ := hservice x hne svc' hsvc'
      exact ⟨b, (lookup_insert_ne hne).trans hb⟩

theorem Memory.Registered.newBooter (h : m.Registered) (hsvc : m.services.lookup n = some svc)
    (hname : svc.name = n) : (m.newBooter n svc).Registered :=
  Memory.registered_newBooter (fun x b hb => ⟨(h.booter x b hb).1, fun _ => (h.booter x b hb).2⟩)
    (fun x _ => h.service x) h.distinct h.owned hsvc hname

theorem Memory.Registered.register (h : m.Registered) (hdown : ¬m.Up svc.name)
    (hdistinct : ∀ x svc', m.services.lookup x = some svc' → x ≠ svc.name →
      svc'.project ≠ svc.project) :
    ({ m with services := m.services.insert svc.name svc }.newBooter svc.name svc).Registered := by
  have hother : ∀ {x}, x ≠ svc.name →
      (m.services.insert svc.name svc).lookup x = m.services.lookup x := lookup_insert_ne
  refine Memory.registered_newBooter (fun x b hb => ?_) (fun x hne svc' hsvc' => ?_)
    (fun x y svc₁ svc₂ hx hy hne => ?_) (fun x project hmem => ?_) (lookup_insert _) rfl
  · obtain ⟨hlt, hlookup, hname⟩ := h.booter x b hb
    exact ⟨hlt, fun hne => ⟨(hother hne).trans hlookup, hname⟩⟩
  · exact h.service x svc' ((hother hne).symm.trans hsvc')
  · rcases GoMap.lookup_insert_iff.mp hx with ⟨rfl, rfl⟩ | ⟨hxne, hx'⟩
    · exact (hdistinct y svc₂ ((hother hne.symm).symm.trans hy) hne.symm).symm
    · rcases GoMap.lookup_insert_iff.mp hy with ⟨rfl, rfl⟩ | ⟨-, hy'⟩
      · exact hdistinct x svc₁ hx' hxne
      · exact h.distinct x y svc₁ svc₂ hx' hy' hne
  · have hne : x ≠ svc.name := by
      rintro rfl
      exact hdown ⟨project, hmem⟩
    obtain ⟨svc', hsvc', hproject⟩ := h.owned x project hmem
    exact ⟨svc', (hother hne).trans hsvc', hproject⟩

theorem same_register (h : m.Registered) (hx : x ≠ svc.name) :
    Same m ({ m with services := m.services.insert svc.name svc }.newBooter svc.name svc) x := by
  refine ⟨lookup_insert_ne hx, lookup_insert_ne hx,
    fun b hb => update_of_ne ?_ _ _, rfl, .rfl⟩
  exact (h.booter x b hb).1.ne

/-! ### What is in flight -/

/-- The service that is in the hands of a boot or of a stop. -/
def Frame.holds : Frame → Option String
  | .start _ (.boot .ensure) => none
  | .start (lv :: _) (.boot _) => some lv.name
  | .stop name (.down _) | .stop name (.reset _) => some name
  | _ => none

def Frame.stopping : Frame → Option String
  | .stop name (.down _) | .stop name (.reset _) => some name
  | _ => none

/-- A call of `startServiceWithPath` returns the nil of its own booter. -/
def Frame.direct : Frame → Option String
  | .start _ (.result name none true) => some name
  | _ => none

def Frame.starting : Frame → List String
  | .start levels _ => levels.map Level.name
  | _ => []

def BootPoint.Ok (m : Memory) (n : String) : BootPoint → Prop
  | .ensure => True
  | .up | .settle (some _) => m.Is n .running false false
  | .health | .down _ | .mark => m.Is n .running false true
  | .settle none => m.Is n .running true true

def Level.Ok (m : Memory) (lv : Level) : Prop :=
  m.services.lookup lv.name = some lv.svc ∧ m.booters.lookup lv.name = some lv.booter

/-- **What holds where a call is.** -/
def Frame.Ok (m : Memory) : Frame → Prop
  | .start (lv :: levels) (.boot p) => (∀ l ∈ lv :: levels, l.Ok m) ∧ p.Ok m lv.name
  | .start levels _ => ∀ l ∈ levels, l.Ok m
  | .stop name (.down svc) => m.services.lookup name = some svc ∧ m.Is name (.done none) true true
  | .stop name (.reset svc) => m.services.lookup name = some svc ∧ m.Is name (.done none) true false
  | _ => True

theorem Level.Ok.of_same (h : lv.Ok m)
    (hservices : m'.services.lookup lv.name = m.services.lookup lv.name)
    (hbooters : m'.booters.lookup lv.name = m.booters.lookup lv.name) : lv.Ok m' :=
  ⟨hservices.trans h.1, hbooters.trans h.2⟩

theorem BootPoint.Ok.of_same (h : p.Ok m n) (hsame : Same m m' n) : p.Ok m' n := by
  cases p with
  | ensure => trivial
  | settle r => cases r <;> exact Memory.Is.of_same h hsame
  | _ => exact Memory.Is.of_same h hsame

/-- **A call relies on what it has read and on what it holds.** -/
theorem Frame.Ok.of_same (h : f.Ok m)
    (hstarting : ∀ x ∈ f.starting, m'.services.lookup x = m.services.lookup x ∧
      m'.booters.lookup x = m.booters.lookup x) (hholds : ∀ x ∈ f.holds, Same m m' x) :
      f.Ok m' := by
  have hlevels : ∀ {levels : List Level}, (∀ l ∈ levels, l.Ok m) →
      (∀ x ∈ levels.map Level.name, m'.services.lookup x = m.services.lookup x ∧
        m'.booters.lookup x = m.booters.lookup x) → ∀ l ∈ levels, l.Ok m' := by
    intro levels hok hsame l hl
    have hl' := hsame l.name (mem_map_of_mem hl)
    exact (hok l hl).of_same hl'.1 hl'.2
  cases f with
  | start levels focus =>
    cases levels with
    | nil => exact forall_mem_nil _
    | cons lv levels =>
      cases focus with
      | boot p =>
        refine ⟨hlevels h.1 hstarting, ?_⟩
        cases p with
        | ensure => trivial
        | _ => exact h.2.of_same (hholds lv.name rfl)
      | enter name => exact hlevels h hstarting
      | result name r direct => exact hlevels h hstarting
  | stop name p =>
    cases p with
    | read => trivial
    | down svc | reset svc =>
      have hsame := hholds name rfl
      exact ⟨hsame.services.trans h.1, h.2.of_same hsame⟩
  | register svc => trivial

theorem Frame.Ok.once_of_holds (h : f.Ok m) (hholds : f.holds = some n)
    (hb : m.booters.lookup n = some b) : (m.booter b).once = .running ∨
      f.stopping = some n ∧ (m.booter b).once = .done none := by
  unfold Frame.holds at hholds
  split at hholds <;> cases hholds
  case h_2 p hne =>
    left
    cases p with
    | ensure => exact (hne rfl).elim
    | settle r => cases r <;> exact Memory.Is.once_eq h.2 hb
    | _ => exact Memory.Is.once_eq h.2 hb
  · exact .inr ⟨rfl, h.2.once_eq hb⟩
  · exact .inr ⟨rfl, h.2.once_eq hb⟩

theorem Frame.holds_of_stopping (h : f.stopping = some n) : f.holds = some n ∧ f.starting = [] := by
  unfold Frame.stopping at h
  split at h <;> cases h <;> exact ⟨rfl, rfl⟩

theorem Frame.works_of_holds (h : f.holds = some n) : n ∈ f.starting ∨ f.stopping = some n := by
  unfold Frame.holds at h
  split at h <;> cases h
  · exact .inl mem_cons_self
  · exact .inr rfl
  · exact .inr rfl

/-! ### The invariant -/

/-- **Calls that keep out of each other's way**: a stop begins, and a service is registered, only
while no other call works on the service, and no start enters it while it is being stopped; a
service is registered only while it is not started, and with a project that no other has; and the
`Down` after a failed health check succeeds. -/
def Apart : Condition Memory Frame Outcome := fun m F f o =>
  match f with
  | .start _ (.enter name) => ∀ g ∈ F, g.stopping ≠ some name
  | .start _ (.boot (.down _)) => o.down = none
  | .stop name .read => ∀ g ∈ F, name ∉ g.starting ∧ g.stopping ≠ some name
  | .register svc => m.isStarted svc.name = false ∧
      (∀ g ∈ F, svc.name ∉ g.starting ∧ g.stopping ≠ some svc.name) ∧
      ∀ x ∈ m.services.keys, x ≠ svc.name → ∀ svc' ∈ m.services.lookup x, svc'.project ≠ svc.project
  | _ => True

/-- **Every service is at rest or in the hands of one call**, and no start is at work on a service
that is being stopped. -/
structure Tended (m : Memory) (F : List Frame) : Prop where
  registered : m.Registered
  ok : ∀ f ∈ F, f.Ok m
  nodup : (F.filterMap Frame.holds).Nodup
  apart : ∀ f ∈ F, ∀ n, f.stopping = some n → ∀ g ∈ F, n ∉ g.starting
  rest : ∀ n, m.AtRest n ∨ ∃ f ∈ F, f.holds = some n

section Sections

variable (h : Tended m (A ++ f :: B))
include h

/-- **A section that works on one service, or on none**, and leaves one call behind, or none. -/
theorem Tended.of_section (touched : Option String) (og : Option Frame) (hreg : m'.Registered)
    (hsame : ∀ x ∉ touched, Same m m' x)
    (hread : ∀ g ∈ A ++ B, ∀ x ∈ g.starting, m'.services.lookup x = m.services.lookup x ∧
      m'.booters.lookup x = m.booters.lookup x) (hfree : ∀ g ∈ A ++ B, ∀ x ∈ g.holds, x ∉ touched)
    (hf : ∀ x ∈ f.holds, x ∈ touched) (hok : ∀ g ∈ og, g.Ok m')
    (hheld : ∀ g ∈ og, ∀ x ∈ g.holds, x ∈ touched)
    (hrest : ∀ x ∈ touched, m'.AtRest x ∨ ∃ g ∈ og, g.holds = some x)
    (hstarting : ∀ g ∈ og, ∀ x ∈ g.starting, x ∈ f.starting ∨ ∀ y ∈ A ++ B, y.stopping ≠ some x)
    (hstopping :
      ∀ g ∈ og, ∀ x, g.stopping = some x → x ∈ f.stopping ∨ ∀ y ∈ A ++ B, x ∉ y.starting) :
    Tended m' (A ++ (og.toList ++ B)) := by
  have hold : ∀ {g}, g ∈ A ++ B → g ∈ A ++ f :: B := mem_of_mem_rest
  have hmade : ∀ {g}, g ∈ og.toList → g ∈ og := mem_toList.mp
  refine ⟨hreg, forall_mem_made (fun g hg => ?_) fun g hg => hok g (hmade hg), ?_, ?_, fun x => ?_⟩
  · exact (h.ok g (hold hg)).of_same (hread g hg) fun x hx => hsame x (hfree g hg x hx)
  · have hothers : ((A ++ B).filterMap Frame.holds).Nodup :=
      ((held_perm A B f Frame.holds).nodup_iff.mp h.nodup).sublist
        (sublist_append_right _ _)
    refine (held_made_perm A B og.toList Frame.holds).nodup_iff.mpr ?_
    rcases og with _ | g
    · exact hothers
    · rw [toList_some, held_one]
      rcases hg : g.holds with _ | x
      · exact hothers
      · refine nodup_cons.mpr ⟨fun hmem => ?_, hothers⟩
        obtain ⟨y, hy, hholds⟩ := mem_filterMap.mp hmem
        exact hfree y hy x hholds (hheld g rfl x hg)
  · refine forall_mem_made (fun g hg x hx => forall_mem_made (fun y hy => ?_) fun y hy hxy => ?_)
      fun g hg x hx => forall_mem_made (fun y hy => ?_) fun y hy => ?_
    · exact h.apart g (hold hg) x hx y (hold hy)
    · rcases hstarting y (hmade hy) x hxy with hstart | hnew
      · exact h.apart g (hold hg) x hx f mem_subject hstart
      · exact hnew g hg hx
    · rcases hstopping g (hmade hg) x hx with hstop | hnew
      · exact h.apart f mem_subject x hstop y (hold hy)
      · exact hnew y hy
    · cases mem_unique (hmade hy) (hmade hg)
      rw [(Frame.holds_of_stopping hx).2]
      exact not_mem_nil
  · by_cases hx : x ∈ touched
    · rcases hrest x hx with hrest | ⟨g, hg, hholds⟩
      · exact .inl hrest
      · exact .inr ⟨g, mem_after.mpr (.inl (mem_toList.mpr hg)), hholds⟩
    · rcases h.rest x with hrest | ⟨g, hg, hholds⟩
      · exact .inl (hrest.of_same (hsame x hx))
      · rcases mem_before.mp hg with rfl | hg
        · exact absurd (hf x hholds) hx
        · exact .inr ⟨g, mem_after.mpr (.inr hg), hholds⟩

theorem Tended.free (hf : f.holds = some n) : ∀ g ∈ A ++ B, g.holds ≠ some n := fun g hg hholds =>
  not_mem_held A B h.nodup hf (mem_filterMap.mpr ⟨g, hg, hholds⟩)

/-- A call that holds nothing and goes through levels that it has read. -/
structure Frame.Plain (m : Memory) (names : List String) (g : Frame) : Prop where
  ok : g.Ok m
  holds : g.holds = none
  stopping : g.stopping = none
  starting : ∀ x ∈ g.starting, x ∈ names
  direct : ∀ x ∈ g.direct, m.Up x

theorem Tended.of_control {names : List String} (hf : f.holds = none) (hg : g.Plain m names)
    (hnames : ∀ x ∈ names, x ∈ f.starting ∨ ∀ y ∈ A ++ B, y.stopping ≠ some x) :
    Tended m (A ++ ([g] ++ B)) := by
  refine h.of_section none (some g) h.registered (fun x _ => .refl m x) (fun _ _ _ _ => ⟨rfl, rfl⟩)
    (by simp) (by simp [hf]) (by simpa using hg.ok) (by simp [hg.holds]) (by simp) ?_
    (by simp [hg.stopping])
  rintro _ ⟨⟩ x hx
  exact hnames x (hg.starting x hx)

theorem Tended.of_end (hf : ∀ x ∈ f.holds, m.AtRest x) : Tended m (A ++ ([] ++ B)) := by
  refine h.of_section f.holds none h.registered (fun x _ => .refl m x) (fun _ _ _ _ => ⟨rfl, rfl⟩)
    (fun g hg x hx hx' => h.free hx' g hg hx) (fun _ hx => hx) (by simp) (by simp)
    (fun x hx => .inl (hf x hx)) (by simp) (by simp)

theorem Tended.of_last (hreg : m'.Registered) (hsame : ∀ x ≠ n, Same m m' x)
    (hworks : ∀ g ∈ A ++ B, n ∉ g.starting) (hfree : ∀ g ∈ A ++ B, g.holds ≠ some n)
    (hf : ∀ x ∈ f.holds, x = n) (hrest : m'.AtRest n) :
    Tended m' (A ++ ([] ++ B)) := by
  refine h.of_section (some n) none hreg (fun x hx => hsame x ?_) (fun g hg x hx => ?_) ?_
    (by simpa [eq_comm] using hf) (by simp) (by simp) (by simpa using hrest) (by simp) (by simp)
  · simpa [eq_comm] using hx
  · have hne : x ≠ n := fun heq => hworks g hg (heq ▸ hx)
    exact ⟨(hsame x hne).services, (hsame x hne).booters⟩
  · rintro g hg x hx ⟨⟩
    exact hfree g hg hx

theorem Tended.of_work (hreg : m'.Registered) (hsame : ∀ x ≠ n, Same m m' x)
    (hservices : m'.services = m.services) (hbooters : m'.booters = m.booters)
    (hfree : ∀ g ∈ A ++ B, g.holds ≠ some n) (hf : ∀ x, f.holds = some x → x = n) (hok : g.Ok m')
    (hrest : g.holds = none ∧ m'.AtRest n ∨ g.holds = some n)
    (hstarting : ∀ x ∈ g.starting, x ∈ f.starting)
    (hstopping : ∀ x, g.stopping = some x → x ∈ f.stopping ∨ ∀ y ∈ A ++ B, x ∉ y.starting) :
    Tended m' (A ++ ([g] ++ B)) := by
  refine h.of_section (some n) (some g) hreg (fun x hx => hsame x ?_)
    (by simp [hservices, hbooters])
    ?_ (by simpa [eq_comm] using hf) (by simpa using hok) ?_ ?_
    (by simpa using fun x hx => .inl (hstarting x hx)) (by simpa using hstopping)
  · simpa [eq_comm] using hx
  · rintro y hy x hx ⟨⟩
    exact hfree y hy hx
  · rcases hrest with ⟨hnone, -⟩ | hsome
    · simp [hnone]
    · simp [hsome]
  · rcases hrest with ⟨-, hrest⟩ | hsome
    · simp [hrest]
    · simp [hsome]

end Sections

/-! ### The levels of a start -/

theorem Frame.Ok.forall_levels (h : (Frame.start levels focus).Ok m) : ∀ l ∈ levels, l.Ok m := by
  cases levels with
  | nil => exact forall_mem_nil _
  | cons lv levels =>
    cases focus with
    | boot p => exact h.1
    | _ => exact h

theorem Frame.holds_result {direct : Bool} :
    (Frame.start levels (.result name r direct)).holds = none := by
  cases levels <;> rfl

theorem Frame.holds_enter : (Frame.start levels (.enter name)).holds = none := by
  cases levels <;> rfl

theorem Frame.not_direct_result : (Frame.start levels (.result name r false)).direct = none := by
  cases r <;> rfl

section Levels

variable (hlv : lv.Ok m) (h : ∀ l ∈ levels, l.Ok m)
include h

theorem Frame.ok_enter : (Frame.start levels (.enter name)).Ok m := by
  cases levels <;> exact h

theorem Frame.ok_result {direct : Bool} : (Frame.start levels (.result name r direct)).Ok m := by
  cases levels <;> exact h

theorem plain_result :
    (Frame.start levels (.result name r false)).Plain m (n :: levels.map Level.name) :=
  ⟨Frame.ok_result h, Frame.holds_result, rfl, fun _ => mem_cons_of_mem _,
    by simp [Frame.not_direct_result]⟩

theorem plain_enter : (Frame.start levels (.enter name)).Plain m (levels.map Level.name) :=
  ⟨Frame.ok_enter h, Frame.holds_enter, rfl, fun _ hx => hx, fun _ hx => by cases hx⟩

include hlv

theorem plain_await (todo : Todo) : (Frame.start ({ lv with todo } :: levels) (.enter name)).Plain m
    (lv.name :: levels.map Level.name) := by
  have hlevels : ∀ l ∈ { lv with todo } :: levels, l.Ok m := forall_mem_cons.mpr ⟨hlv, h⟩
  exact plain_enter hlevels

theorem plain_goOn (deps : List String) :
    (goOn lv levels deps).Plain m (lv.name :: levels.map Level.name) := by
  cases deps with
  | nil =>
    exact ⟨⟨forall_mem_cons.mpr ⟨hlv, h⟩, trivial⟩, rfl, rfl, fun _ hx => hx,
      fun _ hx => by cases hx⟩
  | cons dep deps => exact plain_await hlv h _

theorem plain_goOnWith (err : String) (alts : List String) :
    (goOnWith lv levels err alts).Plain m (lv.name :: levels.map Level.name) := by
  cases alts with
  | nil => exact plain_result h
  | cons alt alts => exact plain_await hlv h _

theorem plain_booted (hup : r = none → m.Up lv.name) :
    (booted lv levels r).Plain m (lv.name :: levels.map Level.name) := by
  cases r with
  | none =>
    refine ⟨Frame.ok_result h, Frame.holds_result, rfl, fun _ => mem_cons_of_mem _, ?_⟩
    rintro _ ⟨⟩
    exact hup rfl
  | some err => exact plain_goOnWith hlv h _ _

omit hlv in
theorem plain_enterStep (name : String) :
    (enterStep m o levels name).Plain m (name :: levels.map Level.name) := by
  rw [enterStep]
  split
  · exact plain_result h
  · exact plain_result h
  rename_i svc b hsvc hb
  split
  · exact plain_result h
  · split_ifs
    · exact plain_result h
    · have hlv : Level.Ok m ⟨name, svc, b, .boot⟩ := ⟨hsvc, hb⟩
      exact plain_goOn hlv h svc.dependencies

theorem plain_resultStep (r : Option String) :
    (resultStep lv levels r).Plain m (lv.name :: levels.map Level.name) := by
  unfold resultStep
  split
  · exact plain_result h
  · exact plain_goOn hlv h _
  · exact plain_result h
  · exact plain_result h
  · exact plain_goOnWith hlv h _ _

end Levels

theorem Tended.up_of_done (h : Tended m F) (hf : f ∈ F) (hn : n ∈ f.starting)
    (hb : m.booters.lookup n = some b) (hdone : (m.booter b).once = .done none) : m.Up n := by
  rcases h.rest n with (his | ⟨err, his⟩ | his | ⟨hnone, -⟩) | ⟨g, hg, hholds⟩
  · cases hdone.symm.trans (his.once_eq hb)
  · cases hdone.symm.trans (his.once_eq hb)
  · exact his.up.mpr rfl
  · rw [hb] at hnone
    cases hnone
  · rcases (h.ok g hg).once_of_holds hholds hb with hrunning | ⟨hstopping, -⟩
    · cases hdone.symm.trans hrunning
    · exact absurd hn (h.apart g hg n hstopping f hf)

theorem up_of_settle (h : (BootPoint.settle r).Ok m n) (hr : r = none) : m.Up n := by
  subst hr
  exact h.up.mpr rfl

/-! ### Every section -/

theorem same_attempt (m : Memory) (name x : String) : Same m (m.attempt name) x :=
  ⟨rfl, rfl, fun _ _ => rfl, rfl, .rfl⟩

theorem Memory.Registered.attempt (h : m.Registered) (name : String) :
    (m.attempt name).Registered :=
  ⟨h.booter, h.service, h.distinct, h.owned⟩

theorem Tended.of_booting {p' : BootPoint}
    (h : Tended m (A ++ Frame.start (lv :: levels) (.boot p) :: B))
    (hp : (Frame.start (lv :: levels) (.boot p)).holds = some lv.name)
    (hp' : (Frame.start (lv :: levels) (.boot p')).holds = some lv.name) (hreg : m'.Registered)
    (hsame : ∀ x ≠ lv.name, Same m m' x) (hservices : m'.services = m.services)
    (hbooters : m'.booters = m.booters) (hok : p'.Ok m' lv.name) :
    Tended m' (A ++ ([Frame.start (lv :: levels) (.boot p')] ++ B)) := by
  refine h.of_work hreg hsame hservices hbooters (h.free hp) (fun x hx => ?_) ⟨fun l hl => ?_, hok⟩
    (.inr hp') (fun _ hx => hx) fun x hx => by cases hx
  · rw [hp] at hx
    cases hx
    rfl
  · have hl := (h.ok _ mem_subject).1 l hl
    exact hl.of_same (by rw [hservices]) (by rw [hbooters])

theorem tended_bootStep
    (h : Tended m (A ++ Frame.start (lv :: levels) (.boot p) :: B))
    (hK : Apart m (A ++ Frame.start (lv :: levels) (.boot p) :: B)
      (.start (lv :: levels) (.boot p)) o) (hstep : bootStep m o lv levels p = some (m', g)) :
    Tended m' (A ++ ([g] ++ B)) := by
  obtain ⟨hlevels, hp⟩ := h.ok _ mem_subject
  obtain ⟨hlv, hrest⟩ := forall_mem_cons.mp hlevels
  have hb : m.booters.lookup lv.name = some lv.booter := hlv.2
  obtain ⟨-, hsvc, hname⟩ := h.registered.booter lv.name lv.booter hb
  cases p with
  | ensure =>
    rw [bootStep] at hstep
    split at hstep <;> cases hstep
    case h_1 honce =>
      have hup := fun hr : _ = none => h.up_of_done mem_subject mem_cons_self hb (hr ▸ honce)
      exact h.of_control rfl (plain_booted hlv hrest hup) fun _ => .inl
    case h_3 honce =>
      have hfree : ∀ g ∈ A ++ Frame.start (lv :: levels) (.boot .ensure) :: B,
          g.holds ≠ some lv.name :=
        fun g hg hholds => by
          rcases (h.ok g hg).once_of_holds hholds hb with hrunning | ⟨-, hdone⟩
          · cases honce.symm.trans hrunning
          · cases honce.symm.trans hdone
      have his : m.Is lv.name .fresh false false := by
        rcases h.rest lv.name with hrest | ⟨g, hg, hholds⟩
        · exact hrest.of_fresh hb honce
        · exact absurd hholds (hfree g hg)
      exact h.of_work (h.registered.setOnce _) (fun x => same_setOnce h.registered hb _) rfl rfl
        (forall_mem_others hfree) (fun x hx => by cases hx)
        ⟨hlevels, his.setOnce hb _⟩ (.inr rfl) (fun _ hx => hx) fun x hx => by cases hx
  | up =>
    simp only [bootStep, hname] at hstep
    split at hstep <;> cases hstep
    · exact h.of_booting rfl rfl (h.registered.attempt _) (fun x _ => same_attempt m _ x) rfl rfl
        (hp.of_same (same_attempt m _ _))
    · have his :=
        (hp.of_same (same_attempt m lv.name lv.name)).up_up (m.booter lv.booter).svc.project
      refine h.of_booting rfl (by split_ifs <;> rfl) ((h.registered.attempt _).up hsvc)
        (fun x hx => (same_attempt m lv.name x).trans (same_up _ hx)) rfl rfl
        (by split_ifs <;> exact his)
  | health =>
    rcases hhealth : o.health with _ | err <;> simp only [bootStep, hhealth] at hstep <;>
      cases hstep <;> exact h.of_booting rfl rfl h.registered (fun x _ => .refl m x) rfl rfl hp
  | down err =>
    have hdown : o.down = none := hK
    simp only [bootStep, hdown] at hstep
    cases hstep
    exact h.of_booting rfl rfl (h.registered.down _)
      (fun x => same_down h.registered hsvc) rfl rfl (hp.down_down h.registered hsvc)
  | mark =>
    simp only [bootStep, hname] at hstep
    cases hstep
    exact h.of_booting rfl rfl (h.registered.setStarted _ _) (fun x => same_setStarted _) rfl rfl
      (hp.setStarted true)
  | settle r =>
    cases hstep
    have hplain := plain_booted (m := m.setOnce lv.booter (.done r)) hlv hrest
      (up_of_settle (m := m) hp)
    refine h.of_work (h.registered.setOnce _) (fun x => same_setOnce h.registered hb _) rfl rfl
      (h.free rfl) (fun x hx => by cases hx; rfl) hplain.ok (.inl ⟨hplain.holds, ?_⟩)
      hplain.starting fun x hx => by cases hplain.stopping.symm.trans hx
    cases r with
    | none => exact .inr (.inr (.inl (Memory.Is.setOnce hb hp _)))
    | some err => exact .inr (.inl ⟨err, Memory.Is.setOnce hb hp _⟩)

theorem tended_startStep (h : Tended m (A ++ Frame.start levels focus :: B))
    (hK : Apart m (A ++ Frame.start levels focus :: B) (.start levels focus) o)
    (hstep : startStep m o levels focus = some (m', made)) : Tended m' (A ++ (made ++ B)) := by
  cases focus with
  | enter name =>
    cases hstep
    have hlevels := Frame.Ok.forall_levels (h.ok _ mem_subject)
    refine h.of_control Frame.holds_enter (plain_enterStep hlevels name) ?_
    refine forall_mem_cons.mpr ⟨.inr fun y hy => ?_, fun x => .inl⟩
    exact hK y (mem_of_mem_rest hy)
  | boot p =>
    cases levels with
    | nil => cases hstep
    | cons lv levels =>
      obtain ⟨⟨m₁, g⟩, hboot, heq⟩ := map_eq_some_iff.mp hstep
      cases heq
      exact tended_bootStep h hK hboot
  | result name r direct =>
    cases levels with
    | nil =>
      cases hstep
      exact h.of_end fun x hx => by cases hx
    | cons lv levels =>
      cases hstep
      obtain ⟨hlv, hrest⟩ := forall_mem_cons.mp (h.ok _ mem_subject)
      exact h.of_control rfl (plain_resultStep hlv hrest r) fun _ => .inl

theorem Tended.atRest (h : Tended m F) (hK : ∀ g ∈ F, n ∉ g.starting ∧ g.stopping ≠ some n) :
    (∀ g ∈ F, g.holds ≠ some n) ∧ m.AtRest n := by
  have hfree : ∀ g ∈ F, g.holds ≠ some n := by
    intro g hg hholds
    rcases g.works_of_holds hholds with hstarting | hstopping
    · exact (hK g hg).1 hstarting
    · exact (hK g hg).2 hstopping
  refine ⟨hfree, (h.rest n).resolve_right ?_⟩
  rintro ⟨g, hg, hholds⟩
  exact hfree g hg hholds

/-- **What a section of a stop does.** -/
inductive StopStep (m : Memory) (o : Outcome) (n : String) : StopPoint → Memory → List Frame → Prop
  | idle : StopStep m o n .read m []
  | found {svc : ServiceDefinition} (hsvc : m.services.lookup n = some svc)
      (hstarted : m.isStarted n = true) : StopStep m o n .read m [.stop n (.down svc)]
  | down (svc : ServiceDefinition) :
      StopStep m o n (.down svc) (m.down svc.project) [.stop n (.reset svc)]
  | downFailed (svc : ServiceDefinition) : StopStep m o n (.down svc) m []
  | reset (svc : ServiceDefinition) :
      StopStep m o n (.reset svc) ((m.setStarted n false).newBooter n svc) []

theorem stopStep_cases {p : StopPoint} (h : stopStep m o n p = (m', made)) :
    StopStep m o n p m' made := by
  cases p with
  | read =>
    rw [stopStep] at h
    split at h
    · cases h
      exact .idle
    case h_2 hsvc =>
      split_ifs at h with hstarted <;> cases h
      · exact .found hsvc hstarted
      · exact .idle
  | down svc =>
    rcases hdown : o.down with _ | err <;> simp only [stopStep, hdown] at h <;> cases h
    · exact .down svc
    · exact .downFailed svc
  | reset svc =>
    cases h
    exact .reset svc

theorem tended_stopStep {p : StopPoint} (h : Tended m (A ++ Frame.stop n p :: B))
    (hK : Apart m (A ++ Frame.stop n p :: B) (.stop n p) o)
    (hstep : stopStep m o n p = (m', made)) :
    Tended m' (A ++ (made ++ B)) := by
  have hrest : ∀ {g}, g ∈ A ++ B → g ∈ A ++ Frame.stop n p :: B := mem_of_mem_rest
  have hworks : ∀ {x}, (Frame.stop n p).stopping = some x → ∀ g ∈ A ++ B, x ∉ g.starting :=
    fun hx g hg => h.apart _ mem_subject _ hx g (hrest hg)
  cases stopStep_cases hstep with
  | idle => exact h.of_end fun x hx => by cases hx
  | found hsvc hstarted =>
    obtain ⟨hfree, hatRest⟩ := h.atRest hK
    refine h.of_work h.registered (fun x _ => .refl m x) rfl rfl (fun g hg => hfree g (hrest hg))
      (fun x hx => by cases hx) ⟨hsvc, hatRest.of_started hstarted⟩ (.inr rfl)
      (fun x hx => by cases hx) ?_
    rintro x ⟨⟩
    exact .inr fun y hy => (hK y (hrest hy)).1
  | down svc =>
    obtain ⟨hsvc, his⟩ := h.ok _ mem_subject
    refine h.of_work (h.registered.down _) (fun x => same_down h.registered hsvc) rfl rfl
      (h.free rfl) ?_ ⟨hsvc, his.down_down h.registered hsvc⟩ (.inr rfl) (fun x hx => by cases hx)
      fun x => .inl
    rintro x ⟨⟩
    rfl
  | downFailed svc =>
    refine h.of_end ?_
    rintro x ⟨⟩
    exact .inr (.inr (.inl (h.ok _ mem_subject).2))
  | reset svc =>
    obtain ⟨hsvc, his⟩ := h.ok _ mem_subject
    obtain ⟨b, hb, -⟩ := his.once
    have hname : svc.name = n := by
      obtain ⟨-, hlookup, hname⟩ := h.registered.booter n b hb
      rw [hsvc] at hlookup
      cases hlookup
      exact hname
    have hreg := h.registered.setStarted n false
    have his' := his.setStarted false
    refine h.of_last (hreg.newBooter hsvc hname)
      (fun x hx => (same_setStarted false hx).trans (same_newBooter hreg svc hx))
      (hworks rfl) (h.free rfl) ?_ (.inl (Memory.is_newBooter _ _ _ his'.started his'.up))
    rintro x ⟨⟩
    rfl

theorem tended_register (h : Tended m (A ++ Frame.register svc :: B))
    (hK : Apart m (A ++ Frame.register svc :: B) (.register svc) o) :
    Tended (registerService m svc).1 (A ++ ([] ++ B)) := by
  obtain ⟨hnot, hworks, hdistinct⟩ := hK
  obtain ⟨hfree, hatRest⟩ := h.atRest hworks
  have hend : Tended m (A ++ ([] ++ B)) := h.of_end fun x hx => by cases hx
  have hrest : ∀ {g}, g ∈ A ++ B → g ∈ A ++ Frame.register svc :: B := mem_of_mem_rest
  have hdown : ¬m.Up svc.name := by
    rw [← hatRest.started_iff, hnot]
    exact Bool.false_ne_true
  rw [registerService]
  split_ifs
  · exact hend
  · exact hend
  have hreg := h.registered.register hdown fun x svc' hsvc' hne =>
    hdistinct x (mem_keys.mp (lookup_isSome.mp (by rw [hsvc']; rfl))) hne svc' hsvc'
  exact h.of_last hreg (fun x => same_register h.registered)
    (fun g hg => (hworks g (hrest hg)).1) (fun g hg => hfree g (hrest hg)) (fun x hx => by cases hx)
    (.inl (Memory.is_newBooter _ _ _ hnot (iff_of_false hdown Bool.false_ne_true)))

/-- **Every section keeps the services tended**, if the calls keep apart. -/
theorem tended_step (h : Tended m (A ++ f :: B)) (hK : Apart m (A ++ f :: B) f o)
    (hstep : step m o f = some (m', made)) : Tended m' (A ++ (made ++ B)) := by
  cases f with
  | start levels focus => exact tended_startStep h hK hstep
  | stop name p => exact tended_stopStep h hK (some.inj hstep)
  | register svc =>
    cases hstep
    exact tended_register h hK

theorem tended_empty : Tended {} [] where
  registered :=
    ⟨fun _ _ h => (by cases h), fun _ _ h => (by cases h), fun _ _ _ _ h => (by cases h),
    fun _ _ h => absurd h not_mem_nil⟩
  ok _ h := absurd h not_mem_nil
  nodup := .nil
  apart _ h := absurd h not_mem_nil
  rest _ := .inl (.inr (.inr (.inr ⟨rfl, rfl, fun h => absurd h.choose_spec not_mem_nil⟩)))

theorem Tended.call (h : Tended m F) (c : Call) : Tended m (F ++ [c.frame]) := by
  have hholds : c.frame.holds = none := by cases c <;> rfl
  have hstopping : c.frame.stopping = none := by cases c <;> rfl
  have hstarting : c.frame.starting = [] := by cases c <;> rfl
  have hok : c.frame.Ok m := by
    cases c with
    | startService name => exact forall_mem_nil _
    | _ => trivial
  refine ⟨h.registered, forall_mem_call h.ok hok, ?_, ?_, fun n => ?_⟩
  · rw [held_call _ _ F hholds]
    exact h.nodup
  · refine forall_mem_call (fun f hf n hn => ?_) fun n hn => ?_
    · refine forall_mem_call (h.apart f hf n hn) ?_
      rw [hstarting]
      exact not_mem_nil
    · rw [hstopping] at hn
      cases hn
  · rcases h.rest n with hrest | ⟨f, hf, hn⟩
    · exact .inl hrest
    · exact .inr ⟨f, mem_append_left _ hf, hn⟩

/-- **The services are tended in every interleaving** of calls that keep apart. -/
theorem tended_of_reached {s : State Memory Frame} (h : lazyOrchestrator.Reached Apart {} s) :
    Tended s.memory s.frames :=
  h.induction tended_empty (fun _ _ c hm => hm.call c) fun _ _ _ _ _ _ _ hm hK hstep =>
    tended_step hm hK hstep

/-! ### A start that returns nil -/

/-- **A start that returns the nil of its own booter sees the stack up.** -/
theorem Tended.up_of_direct (h : Tended m F) (hf : f ∈ F) (hstep : step m o f = some (m', made))
    (hg : g ∈ made) (hdirect : g.direct = some n) : m'.Up n := by
  cases f with
  | start levels focus =>
    cases focus with
    | enter name =>
      cases hstep
      obtain rfl := mem_singleton.mp hg
      exact (plain_enterStep (Frame.Ok.forall_levels (h.ok _ hf)) name).direct n hdirect
    | boot p =>
      cases levels with
      | nil => cases hstep
      | cons lv levels =>
        obtain ⟨⟨m₁, g₁⟩, hboot, heq⟩ := map_eq_some_iff.mp hstep
        cases heq
        obtain rfl := mem_singleton.mp hg
        obtain ⟨hlevels, hp⟩ := h.ok _ hf
        obtain ⟨hlv, hrest⟩ := forall_mem_cons.mp hlevels
        cases p with
        | ensure =>
          rw [bootStep] at hboot
          split at hboot <;> cases hboot
          case h_1 honce =>
            have hup := fun hr : _ = none => h.up_of_done hf mem_cons_self hlv.2 (hr ▸ honce)
            exact (plain_booted hlv hrest hup).direct n hdirect
          · cases hdirect
        | up =>
          rw [bootStep] at hboot
          split at hboot <;> cases hboot <;> cases hdirect
        | settle r =>
          cases hboot
          exact (plain_booted hlv hrest (up_of_settle hp)).direct n hdirect
        | _ =>
          cases hboot
          cases hdirect
    | result name r direct =>
      cases levels with
      | nil =>
        cases hstep
        exact absurd hg not_mem_nil
      | cons lv levels =>
        cases hstep
        obtain rfl := mem_singleton.mp hg
        obtain ⟨hlv, hrest⟩ := forall_mem_cons.mp (h.ok _ hf)
        exact (plain_resultStep hlv hrest r).direct n hdirect
  | stop name p =>
    cases stopStep_cases (some.inj hstep) with
    | idle | downFailed | reset => exact absurd hg not_mem_nil
    | found | down =>
      cases mem_singleton.mp hg
      cases hdirect
  | register svc =>
    cases hstep
    exact absurd hg not_mem_nil

/-! ### Flags and stacks -/

/-- **A lazy service that is reported started is up.** In every interleaving of calls that keep
apart, when no call is in flight a service is flagged as started exactly if a stack that was brought
up for it is up; and at the step at which a call of `startServiceWithPath` gets the nil of its own
booter, a stack is up for its service. -/
theorem started_iff_up {s : State Memory Frame} (h : lazyOrchestrator.Reached Apart {} s) :
    (s.frames = [] → ∀ name, s.memory.isStarted name = true ↔ s.memory.Up name) ∧
    ∀ f ∈ s.frames, ∀ o m' made, step s.memory o f = some (m', made) →
      ∀ levels name, .start levels (.result name none true) ∈ made → m'.Up name := by
  have htended := tended_of_reached h
  refine ⟨fun hidle name => ?_, fun f hf o m' made hstep levels name hmem => ?_⟩
  · rcases htended.rest name with hrest | ⟨f, hf, -⟩
    · exact hrest.started_iff
    · rw [hidle] at hf
      exact absurd hf not_mem_nil
  · exact htended.up_of_direct hf hstep hmem rfl

instance (m : Memory) (F : List Frame) (f : Frame) (o : Outcome) : Decidable (Apart m F f o) :=
  match f with
  | .start _ (.enter name) => inferInstanceAs (Decidable (∀ g ∈ F, g.stopping ≠ some name))
  | .start _ (.boot (.down _)) => inferInstanceAs (Decidable (o.down = none))
  | .stop name .read =>
    inferInstanceAs (Decidable (∀ g ∈ F, name ∉ g.starting ∧ g.stopping ≠ some name))
  | .register svc => inferInstanceAs (Decidable (m.isStarted svc.name = false ∧
      (∀ g ∈ F, svc.name ∉ g.starting ∧ g.stopping ≠ some svc.name) ∧ ∀ x ∈ m.services.keys,
        x ≠ svc.name → ∀ svc' ∈ m.services.lookup x, svc'.project ≠ svc.project))
  | .start _ (.boot .ensure) | .start _ (.boot .up) | .start _ (.boot .health) |
    .start _ (.boot .mark) | .start _ (.boot (.settle _)) | .start _ (.result _ _ _) |
    .stop _ (.down _) | .stop _ (.reset _) =>
    .isTrue trivial

def site : ServiceDefinition := { name := "site", composeFile := "site.yml" }

def siteUp : List (Action (ℕ × Outcome) Call) :=
  .call (.registerService site) :: .step 0 (0, {}) :: .call (.startService "site") ::
    replicate 6 (.step 1 (0, {}))

/-- A start that is left alone. -/
theorem started_iff_up_alone : ∃ s, lazyOrchestrator.Reached Apart {} s ∧ s.frames = [] ∧
    s.memory.isStarted "site" = true ∧ s.memory.Up "site" := by
  obtain ⟨s, hs, hidle, hstarted⟩ : ∃ s, lazyOrchestrator.Reached Apart {} s ∧
      s.frames = [] ∧ s.memory.isStarted "site" = true :=
    Reached.of_run siteUp (by decide +kernel)
  exact ⟨s, hs, hidle, hstarted, ((started_iff_up hs).1 hidle "site").mp hstarted⟩

/-- Two stops, and a start that boots between the `Down` and the reset of the second one. -/
def bootForgotten : List (Action (ℕ × Outcome) Call) :=
  siteUp.append <| .call (.stopService "site") :: .call (.stopService "site") :: .step 2 (0, {}) ::
    .step 3 (0, {}) :: .step 2 (0, {}) :: .step 2 (0, {}) :: .step 3 (0, {}) ::
    .call (.startService "site") :: List.append (replicate 6 (.step 4 (0, {})))
      [.step 3 (0, {})]

/-- A stop that has taken the stack down, and a start that begins now. -/
def startAfterDown : List (Action (ℕ × Outcome) Call) :=
  siteUp.append [.call (.stopService "site"), .step 2 (0, {}), .step 2 (0, {}),
    .call (.startService "site")]

/-- **Flag and stack come apart when calls overlap**, though nothing fails. After two stops and a
start the service is not flagged as started and its stack is up, with no call in flight; and a start
that begins after the `Down` of a stop returns nil while the stack is down. -/
theorem flag_and_stack_apart :
    (∃ s, lazyOrchestrator.Reached anyhow {} s ∧ s.frames = [] ∧
      s.memory.isStarted "site" = false ∧ s.memory.stackUp = [("site", site.project)]) ∧
    ∃ s s', lazyOrchestrator.Reached anyhow {} s ∧
      lazyOrchestrator.system.Reach (Meets anyhow) s s' ∧
      s.frames = [.stop "site" (.reset site), .start [] (.enter "site")] ∧ s.memory.stackUp = [] ∧
      s'.frames = [.stop "site" (.reset site), .start [] (.result "site" none true)] ∧
      s'.memory.stackUp = [] := by
  constructor
  · exact Reached.of_run bootForgotten (by decide +kernel)
  · obtain ⟨s, hs, hframes, hdown, hrun⟩ : ∃ s, lazyOrchestrator.Reached anyhow {} s ∧
        s.frames = [.stop "site" (.reset site), .start [] (.enter "site")] ∧
        s.memory.stackUp = [] ∧
        (lazyOrchestrator.system.runMeeting (Meets anyhow) s
          [.step 3 (0, {}), .step 3 (0, {})]).any (fun s' => decide (s'.frames =
            [.stop "site" (.reset site), .start [] (.result "site" none true)] ∧
            s'.memory.stackUp = [])) = true :=
      Reached.of_run startAfterDown (by decide +kernel)
    obtain ⟨s', hs', htest'⟩ := Reach.exists_of_runMeeting _ hrun
    exact ⟨s, s', hs, hs', hframes, hdown, htest'⟩

end Containers.LazyService
