import Containers.Lifecycle.Handles

/-!
# Dependencies

A `Start` starts the dependencies of its service first, one after the other and by itself. It goes
on to the next only after the one before has started, and that takes all it depends on to be
registered and to be free of cycles (`Startable`). What a `Start` does get to is `Needs`.

That such a service is started, by a `Start` that is left alone and whose slow calls go well, is
`boots_of_startable`: it returns without an error, and what it has touched on the way are the
service and what it depends on.
-/

namespace Containers.Lifecycle

open Relation List Function

variable {M : DefaultManager} {m m' m'' : Memory} {n d : String} {op : ℕ} {made st : List Frame}
  {y : Memory × List Frame} {X : String → Prop} {p : StartPoint}

/-! ### Dependencies -/

/-- **A service that can be started**: it is registered, and so can its dependencies be, which
leaves no room for a cycle. -/
inductive Startable (M : DefaultManager) : String → Prop
  | intro {n : String} {spec : ServiceSpec} (hspec : M.services.lookup n = some spec)
      (hdeps : ∀ d ∈ spec.dependencies, Startable M d) : Startable M n

/-- **What a `Start` gets to**: a registered dependency, where all before it can be started. -/
def Needs (M : DefaultManager) (n d : String) : Prop :=
  (M.services.lookup d).isSome ∧ ∃ spec, M.services.lookup n = some spec ∧
    ∃ pre post, spec.dependencies = pre ++ d :: post ∧ ∀ x ∈ pre, Startable M x

def DependsOn (M : DefaultManager) (n d : String) : Prop :=
  ∃ spec, M.services.lookup n = some spec ∧ d ∈ spec.dependencies

theorem Needs.dependsOn (h : Needs M n d) : DependsOn M n d := by
  obtain ⟨-, spec, hspec, pre, post, hdeps, -⟩ := h
  exact ⟨spec, hspec, by rw [hdeps]; exact mem_append_cons_self⟩

theorem Startable.dependency (h : Startable M n) (hd : DependsOn M n d) : Startable M d := by
  obtain ⟨spec, hspec, hmem⟩ := hd
  obtain ⟨hspec', hdeps⟩ := h
  cases hspec.symm.trans hspec'
  exact hdeps d hmem

theorem Startable.of_reflTransGen (h : Startable M n) (hd : ReflTransGen (DependsOn M) n d) :
    Startable M d := by
  induction hd with
  | refl => exact h
  | tail _ hd ih => exact ih.dependency hd

theorem Startable.acyclic (h : Startable M n) : ¬TransGen (DependsOn M) n n := by
  induction h with
  | @intro n spec hspec hdeps ih =>
    intro hcycle
    obtain ⟨d, ⟨spec', hspec', hd⟩, hback⟩ := TransGen.head'_iff.mp hcycle
    cases hspec.symm.trans hspec'
    exact ih d hd (TransGen.tail' hback ⟨spec, hspec, hd⟩)

/-! ### A boot that is left alone -/

theorem alone_start
    (h : startStep M m none n p = some (m', made)) (hy : (system M).Alone (m', made ++ st) y) :
    (system M).Alone (m, .start n p :: st) y := by
  have hstep : (Frame.start n p).step M m none = some (m', made) := h
  exact ThreadSystem.Alone.head none (threadStep_of_step hstep st) hy

theorem alone_go_on {f : Frame}
    (h : startStep M m none n p = some (m', [f])) (hy : (system M).Alone (m', f :: st) y) :
    (system M).Alone (m, .start n p :: st) y := alone_start h hy

/-- What a boot touches, apart from its dependencies: its service and its handle. -/
structure Within (n : String) (op : ℕ) (m m' : Memory) : Prop where
  entry : ∀ x, x ≠ n → m'.entry x = m.entry x
  startOp : ∀ op', op' ≠ op → m'.startOp op' = m.startOp op'
  nextOp : m'.nextOp = m.nextOp

theorem Within.trans (h : Within n op m m') (h' : Within n op m' m'') : Within n op m m'' where
  entry x hx := (h'.entry x hx).trans (h.entry x hx)
  startOp op' hop := (h'.startOp op' hop).trans (h.startOp op' hop)
  nextOp := h'.nextOp.trans h.nextOp

theorem within_of_entry {f : ServiceEntry → ServiceEntry} (hops : m'.startOp = m.startOp)
    (hnext : m'.nextOp = m.nextOp) (hentry : m'.entry = update m.entry n (f (m.entry n))) :
    Within n op m m' :=
  ⟨fun x hx => by rw [hentry, update_of_ne hx], fun _ _ => by rw [hops], hnext⟩

theorem exists_alone_commit (M : DefaultManager) (m : Memory) (n : String) (op : ℕ)
    (st : List Frame) :
    ∃ m', (system M).Alone (m, .start n (.up op) :: st) (m', .start n (.commit op) :: st) ∧
      Within n op m m' ∧ (m'.entry n).state = (m.entry n).state ∧
      (m'.entry n).startOp = (m.entry n).startOp := by
  have hup : ∃ m₁, startStep M m none n (.up op) = some (m₁, [.start n (.check op)]) ∧
      m₁.entry = m.entry ∧ m₁.startOp = m.startOp ∧ m₁.nextOp = m.nextOp := by
    by_cases hcompose : M.Composes n
    · exact ⟨m.note n (.up op), by rw [startStep, if_pos hcompose], rfl, rfl, rfl⟩
    · exact ⟨m, by rw [startStep, if_neg hcompose], rfl, rfl, rfl⟩
  obtain ⟨m₁, hup, hentry, hops, hnext⟩ := hup
  by_cases hcheck : M.checker
  · have hhealthy : startStep M m₁ none n (.check op) =
        some (m₁.note n (.healthy op), [.start n (.health op none)]) := by
      rw [startStep, if_pos hcheck]
      rfl
    refine ⟨_, alone_go_on hup (alone_go_on hhealthy (alone_go_on rfl .refl)), ?_, ?_, ?_⟩
    · refine within_of_entry (f := fun e => { e with healthy := true }) hops hnext ?_
      rw [← hentry]
      rfl
    · rw [entry_modify, ← hentry]
      rfl
    · rw [entry_modify, ← hentry]
      rfl
  · have hskip : startStep M m₁ none n (.check op) = some (m₁, [.start n (.commit op)]) := by
      rw [startStep, if_neg hcheck]
    exact ⟨m₁, alone_go_on hup (alone_go_on hskip .refl),
      ⟨fun _ _ => by rw [hentry], fun _ _ => by rw [hops], hnext⟩, by rw [hentry], by rw [hentry]⟩

theorem exists_alone_ret (hop : (m.entry n).startOp = some op)
    (hstate : (m.entry n).state = .starting) (M : DefaultManager) (st : List Frame) :
    ∃ m', (system M).Alone (m, .start n (.commit op) :: st) (m', .ret none :: st) ∧
      Within n op m m' ∧ (m'.entry n).state = .running := by
  -- the end of the end
  have hsettle : ∀ m₁ : Memory, Within n op m m₁ → (m₁.entry n).state = .running →
      ∃ m', (system M).Alone (m₁, .start n (.finish op none) :: st) (m', .ret none :: st) ∧
        Within n op m m' ∧ (m'.entry n).state = .running := by
    intro m₁ hm₁ hrunning
    refine ⟨m₁.settle op none, alone_start rfl .refl,
      hm₁.trans ⟨fun _ _ => rfl, fun op' hne => ?_, rfl⟩, hrunning⟩
    rw [startOp_settle, if_neg hne]
  have hcommit : startStep M m none n (.commit op) =
      some (m.setState n .running, [.start n (.monitor op)]) := by
    rw [startStep, Memory.commit, if_pos hop, if_pos hstate, if_pos ⟨hop, hstate⟩]
  have hwithin : Within n op m (m.setState n .running) :=
    within_of_entry (f := fun e => { e with state := .running }) rfl rfl rfl
  have hrunning : ((m.setState n .running).entry n).state = .running := by
    rw [Memory.setState, entry_modify]
  generalize m.setState n .running = m₁ at hcommit hwithin hrunning
  by_cases hidle : 0 < (M.services.lookup n).elim 0 ServiceSpec.idleTimeout
  · have hmonitor :
        ∃ m₂ t, startStep M m₁ none n (.monitor op) = some (m₂, [.start n (.arm op t)]) ∧
        Within n op m₁ m₂ ∧ (m₂.entry n).state = (m₁.entry n).state := by
      let f : ServiceEntry → ServiceEntry := fun e => { e with idleCtrl := some m₁.timers.length }
      have hstate : ((m₁.modify n f).entry n).state = (m₁.entry n).state := by rw [entry_modify]
      exact ⟨_, _, if_pos hidle, within_of_entry (f := f) rfl rfl rfl, hstate⟩
    obtain ⟨m₂, t, hmonitor, hm₂, hstate₂⟩ := hmonitor
    obtain ⟨m', halone, hm', hrunning'⟩ := hsettle
      { m₂ with timers := m₂.timers.modify t fun t => { t with armed := true, stopped := false } }
      (hwithin.trans ⟨hm₂.entry, hm₂.startOp, hm₂.nextOp⟩) (hstate₂.trans hrunning)
    exact ⟨m', alone_go_on hcommit (alone_go_on hmonitor (alone_go_on rfl halone)), hm', hrunning'⟩
  · have hskip : startStep M m₁ none n (.monitor op) = some (m₁, [.start n (.finish op none)]) := by
      rw [startStep, if_neg hidle]
    obtain ⟨m', halone, hm', hrunning'⟩ := hsettle m₁ hwithin hrunning
    exact ⟨m', alone_go_on hcommit (alone_go_on hskip halone), hm', hrunning'⟩

/-- The service is neither `starting` nor `stopping`. -/
def Memory.Settled (m : Memory) (n : String) : Prop :=
  (m.entry n).state = .stopped ∨ (m.entry n).state = .running

/-- What boots of some services, and all that goes with them, touch: these services, which are
settled again if they were before, and new handles. -/
structure Confined (X : String → Prop) (m m' : Memory) : Prop where
  settled : ∀ x, m.Settled x → m'.Settled x
  entry : ∀ x, ¬X x → m'.entry x = m.entry x
  startOp : ∀ op < m.nextOp, m'.startOp op = m.startOp op
  nextOp : m.nextOp ≤ m'.nextOp

theorem Confined.refl : Confined X m m :=
  ⟨fun _ => id, fun _ _ => rfl, fun _ _ => rfl, Nat.le_refl _⟩

theorem Confined.trans {Y Z : String → Prop} (h : Confined X m m') (h' : Confined Y m' m'')
    (hX : ∀ x, X x → Z x) (hY : ∀ x, Y x → Z x) : Confined Z m m'' where
  settled x hx := h'.settled x (h.settled x hx)
  entry x hx := (h'.entry x (mt (hY x) hx)).trans (h.entry x (mt (hX x) hx))
  startOp op hop := (h'.startOp op (hop.trans_le h.nextOp)).trans (h.startOp op hop)
  nextOp := h.nextOp.trans h'.nextOp

/-- A `Start` of the service that is left alone, and finds what it depends on settled, returns
without an error. -/
def BootsAlone (M : DefaultManager) (n : String) : Prop :=
  ∀ m st, (∀ x, ReflTransGen (DependsOn M) n x → m.Settled x) →
    ∃ m', (system M).Alone (m, .start n .enter :: st) (m', .ret none :: st) ∧
      Confined (ReflTransGen (DependsOn M) n) m m'

/-- **The dependencies of a boot**, one after the other. -/
theorem exists_alone_deps {l : List String} (hl : ∀ d ∈ l, BootsAlone M d) (n : String) (op : ℕ)
    (post : List String) (st : List Frame)
    (hm : ∀ d ∈ l, ∀ x, ReflTransGen (DependsOn M) d x → m.Settled x) :
    ∃ m', (system M).Alone (m, .start n (.deps op (l ++ post)) :: st)
        (m', .start n (.deps op post) :: st) ∧
      Confined (fun x => ∃ d ∈ l, ReflTransGen (DependsOn M) d x) m m' := by
  induction l generalizing m with
  | nil => exact ⟨m, .refl, .refl⟩
  | cons d l ih =>
    obtain ⟨m₁, halone, hconf⟩ := hl d mem_cons_self m
      (.start n (.awaitDep op d (l ++ post)) :: st) (hm d mem_cons_self)
    obtain ⟨m', halone', hconf'⟩ := ih (fun e he => hl e (mem_cons_of_mem _ he))
      (m := m₁) fun e he x hx => hconf.settled x (hm e (mem_cons_of_mem _ he) x hx)
    have hresume : threadStep M m₁ none (.ret none :: .start n (.awaitDep op d (l ++ post)) :: st) =
      some (m₁, .start n (.deps op (l ++ post)) :: st) := rfl
    refine ⟨m', alone_start rfl (halone.trans (ThreadSystem.Alone.head none hresume halone')),
      hconf.trans hconf' ?_ ?_⟩
    · exact fun x hx => ⟨d, mem_cons_self, hx⟩
    · rintro x ⟨e, he, hx⟩
      exact ⟨e, mem_cons_of_mem _ he, hx⟩

theorem Memory.Settled.congr (h : m.Settled n) (hentry : m'.entry n = m.entry n) :
    m'.Settled n := by
  rwa [Memory.Settled, hentry]

/-- **What can be started starts**, when it is left alone. -/
theorem boots_of_startable (h : Startable M n) : BootsAlone M n := by
  induction h with
  | @intro n spec hspec hdeps ih =>
    intro m st hsettled
    have hself : ¬∃ d ∈ spec.dependencies, ReflTransGen (DependsOn M) d n := by
      rintro ⟨d, hd, hback⟩
      exact (Startable.intro hspec hdeps).acyclic (.head' ⟨spec, hspec, hd⟩ hback)
    have hbelow : ∀ x, (∃ d ∈ spec.dependencies, ReflTransGen (DependsOn M) d x) →
        ReflTransGen (DependsOn M) n x := by
      rintro x ⟨d, hd, hx⟩
      exact hx.head ⟨spec, hspec, hd⟩
    rcases hsettled n .refl with hstate | hstate
    · have henter : startStep M m none n .enter =
          some (m.lead n, [.start n (.deps m.nextOp (spec.dependencies ++ []))]) := by
        simp only [startStep, hspec, hstate, Option.elim_some, append_nil]
      -- the boot of a dependency does not come back to the service
      have hready : ∀ d ∈ spec.dependencies, ∀ x, ReflTransGen (DependsOn M) d x →
          (m.lead n).Settled x := by
        intro d hd x hx
        refine (hsettled x (hbelow x ⟨d, hd, hx⟩)).congr ?_
        rw [entry_lead, if_neg]
        rintro rfl
        exact hself ⟨d, hd, hx⟩
      obtain ⟨m₁, hrun₁, hconf⟩ := exists_alone_deps ih n m.nextOp [] st hready
      have hentry : m₁.entry n = (m.lead n).entry n := hconf.entry n hself
      obtain ⟨m₂, hrun₂, hm₂, hstate₂, hop₂⟩ := exists_alone_commit M m₁ n m.nextOp st
      rw [hentry, entry_lead, if_pos rfl] at hstate₂ hop₂
      obtain ⟨m₃, hrun₃, hm₃, hrunning⟩ := exists_alone_ret hop₂ hstate₂ M st
      have hm := hm₂.trans hm₃
      refine ⟨m₃, alone_go_on henter (hrun₁.trans (alone_go_on rfl (hrun₂.trans hrun₃))), ?_⟩
      refine ⟨fun x hx => ?_, fun x hx => ?_, fun op hop => ?_, ?_⟩
      · by_cases hn : x = n
        · rw [hn]
          exact .inr hrunning
        · refine (hconf.settled x (hx.congr ?_)).congr (hm.entry x hn)
          rw [entry_lead, if_neg hn]
      · have hn : x ≠ n := by
          rintro rfl
          exact hx .refl
        rw [hm.entry x hn, hconf.entry x (mt (hbelow x) hx), entry_lead, if_neg hn]
      · rw [hm.startOp op hop.ne, hconf.startOp op (hop.trans (Nat.lt_succ_self _)), startOp_lead,
          update_of_ne hop.ne]
      · rw [hm.nextOp]
        exact (Nat.le_succ _).trans hconf.nextOp
    · have henter : startStep M m none n .enter = some (m, [.ret none]) := by
        simp only [startStep, hspec, hstate, Option.elim_some]
      exact ⟨m, alone_go_on henter .refl, .refl⟩

end Containers.Lifecycle
