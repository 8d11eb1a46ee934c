import Containers.LazyService.Orchestrator
import Mathlib.Logic.Relation

/-!
# Starting lazy services

What `StartService` of `LazyService` comes to when it is left alone.

* `Start` – what a call of `startServiceWithPath` can do, and `start_related`, the rule for what a
  whole start does to the memory, whatever it follows.
* `exists_start` – a start comes to an end: every call that goes on adds a registered service to the
  path.
* `allStand_of_start` – if it returns nil, every service below has been booted, or an alternative
  stands in for it.

A booter keeps what its one boot came to. So a boot that has failed is not tried again
(`failed_boot_kept`) unless the service was registered anew; `StopService` does not help, since a
service whose boot has failed is not started.
-/

namespace Containers.LazyService

open Go Compose List

variable {depth : ℕ} {path : List String} {w w' w₁ w₂ : World} {m m' m₀ : Memory}
  {name err : String}
  {svc : ServiceDefinition} {b : ℕ} {r : Option String}
  {start start' : World → String → Option (Option String × World)} {names : List String}

/-! ### What a start does -/

/-- **What a call of `startServiceWithPath` does**, given how it starts what it needs. -/
inductive Start (start : World → String → Option (Option String × World)) (path : List String)
    (w : World) (name : String) : Option String → World → Prop
  /-- It is refused. -/
  | refused {w' : World} (err : String) (hmemory : w'.memory = w.memory) :
      Start start path w name (some err) w'
  /-- A dependency fails. -/
  | dependency {svc : ServiceDefinition} {w' : World} (err : String)
      (hsvc : w.memory.services.lookup name = some svc) (hname : name ∉ path)
      (hdeps : startDependencies start (w.pass w.memory) svc.dependencies = some (some err, w')) :
      Start start path w name (some err) w'
  /-- Its booter has succeeded, now or earlier. -/
  | booted {svc : ServiceDefinition} {b : ℕ} {w₁ w' : World}
      (hsvc : w.memory.services.lookup name = some svc) (hb : w.memory.booters.lookup name = some b)
      (hname : name ∉ path)
      (hdeps : startDependencies start (w.pass w.memory) svc.dependencies = some (none, w₁))
      (hboot : ensureStarted w₁ b = some (none, w')) : Start start path w name none w'
  /-- Its booter has failed, and the alternatives decide. -/
  | alternatives {svc : ServiceDefinition} {b : ℕ} {w₁ w₂ w' : World} (err : String)
      {r : Option String} (hsvc : w.memory.services.lookup name = some svc)
      (hb : w.memory.booters.lookup name = some b) (hname : name ∉ path)
      (hdeps : startDependencies start (w.pass w.memory) svc.dependencies = some (none, w₁))
      (hboot : ensureStarted w₁ b = some (some err, w₂))
      (halts :
        startAlternatives start (startErr name err) w₂ svc.alternativeServices = some (r, w')) :
      Start start path w name r w'

theorem start_cases (h : startOne start path w name = some (r, w')) :
    Start start path w name r w' := by
  rw [startOne] at h
  split at h
  · cases h
    exact .refused _ rfl
  · cases h
    exact .refused _ rfl
  rename_i svc b hsvc hb
  split at h
  · cases h
    exact .refused _ rfl
  split_ifs at h with hname
  · cases h
    exact .refused _ rfl
  split at h
  · cases h
  case h_2 hdeps =>
    cases h
    exact .dependency _ hsvc hname hdeps
  case h_3 hdeps =>
    split at h
    · cases h
    case h_2 hboot =>
      cases h
      exact .booted hsvc hb hname hdeps hboot
    case h_3 hboot => exact .alternatives _ hsvc hb hname hdeps hboot h

/-! ### What a start does to the memory -/

section Related

variable {R : Memory → Memory → Prop} (hrefl : ∀ m, R m m)
  (htrans : ∀ {m m' m''}, R m m' → R m' m'' → R m m'')
  (hstart : ∀ w name r w', start w name = some (r, w') → R w.memory w'.memory)

include hrefl htrans hstart

theorem startDependencies_related (h : startDependencies start w names = some (r, w')) :
    R w.memory w'.memory := by
  induction names generalizing w with
  | nil =>
    cases h
    exact hrefl _
  | cons dep names ih =>
    rw [startDependencies] at h
    split at h
    · cases h
    case h_2 hdep =>
      cases h
      exact hstart _ _ _ _ hdep
    case h_3 hdep => exact htrans (hstart _ _ _ _ hdep) (ih h)

theorem startAlternatives_related (h : startAlternatives start err w names = some (r, w')) :
    R w.memory w'.memory := by
  induction names generalizing w with
  | nil =>
    cases h
    exact hrefl _
  | cons alt names ih =>
    rw [startAlternatives] at h
    split at h
    · cases h
    case h_2 halt =>
      cases h
      exact hstart _ _ _ _ halt
    case h_3 halt => exact htrans (hstart _ _ _ _ halt) (ih h)

end Related

/-- **The rule for what a start does to the memory**: whatever follows from one boot, of a service
that is not on the path, and is kept along a run, holds of a whole start. -/
theorem start_related {R : List String → Memory → Memory → Prop} (hrefl : ∀ path m, R path m m)
    (htrans : ∀ {path m m' m''}, R path m m' → R path m' m'' → R path m m'')
    (hpath : ∀ {path name m m'}, R (name :: path) m m' → R path m m')
    (hboot : ∀ {path name b w₀ w r w'}, R path w₀ w.memory → w₀.booters.lookup name = some b →
      name ∉ path → ensureStarted w b = some (r, w') → R path w.memory w'.memory)
    (h : startServiceWithPath depth path w name = some (r, w')) : R path w.memory w'.memory := by
  induction depth generalizing path w name r w' with
  | zero => cases h
  | succ depth ih =>
    have hdown : ∀ w x r w', startServiceWithPath depth (name :: path) w x = some (r, w') →
        R path w.memory w'.memory := fun _ _ _ _ h => hpath (ih h)
    cases start_cases h with
    | refused err hmemory =>
      rw [hmemory]
      exact hrefl _ _
    | dependency err hsvc hname hdeps =>
      have hbefore := startDependencies_related (hrefl path) htrans hdown hdeps
      exact hbefore
    | booted hsvc hb hname hdeps hensure =>
      have hbefore := startDependencies_related (hrefl path) htrans hdown hdeps
      exact htrans hbefore (hboot hbefore hb hname hensure)
    | alternatives err hsvc hb hname hdeps hensure halts =>
      have hbefore := startDependencies_related (hrefl path) htrans hdown hdeps
      exact htrans (htrans hbefore (hboot hbefore hb hname hensure))
        (startAlternatives_related (hrefl path) htrans hdown halts)

/-- **What a start leaves as it is**: it registers nothing, and a booter that has run keeps what its
boot came to. -/
structure Kept (m m' : Memory) : Prop where
  services : m'.services = m.services
  booters : m'.booters = m.booters
  made : m'.made = m.made
  svc : ∀ b, (m'.booter b).svc = (m.booter b).svc
  once : ∀ b, (m'.booter b).once = (m.booter b).once ∨
    (m.booter b).once = .fresh ∧ ∃ err, (m'.booter b).once = .done err

theorem Kept.refl (m : Memory) : Kept m m := ⟨rfl, rfl, rfl, fun _ => rfl, fun _ => .inl rfl⟩

theorem Kept.trans {m'' : Memory} (h : Kept m m') (h' : Kept m' m'') : Kept m m'' := by
  refine ⟨h'.services.trans h.services, h'.booters.trans h.booters, h'.made.trans h.made,
    fun b => (h'.svc b).trans (h.svc b), fun b => ?_⟩
  rcases h.once b with hsame | ⟨hfresh, err, hdone⟩
  · rw [← hsame]
    exact h'.once b
  · rcases h'.once b with hsame' | ⟨hfresh', -⟩
    · exact .inr ⟨hfresh, err, hsame'.trans hdone⟩
    · rw [hdone] at hfresh'
      cases hfresh'

theorem memory_startServiceInternal (w : World) (svc : ServiceDefinition) :
    ∃ stackUp started, (startServiceInternal w svc).2.memory =
      { w.memory with
        stackUp := stackUp
        started := started
        attempts := svc.name :: w.memory.attempts } ∧
      ((startServiceInternal w svc).1 = none → started = w.memory.started.insert svc.name true) ∧
      ((startServiceInternal w svc).1 ≠ none → started = w.memory.started) := by
  rw [startServiceInternal]
  rcases w.outcome.up with _ | err
  · rcases (if svc.healthCheck = true then w.outcome.health else none) with _ | err
    · exact ⟨_, _, rfl, fun _ => rfl, absurd rfl⟩
    · split_ifs
      · exact ⟨_, _, rfl, fun h => (by cases h), fun _ => rfl⟩
      · exact ⟨_, _, rfl, fun h => (by cases h), fun _ => rfl⟩
  · exact ⟨_, _, rfl, fun h => (by cases h), fun _ => rfl⟩

/-- **What `EnsureStarted` does**: it reads what the boot came to, or makes the boot. -/
theorem ensureStarted_cases (h : ensureStarted w b = some (r, w')) :
    (w.memory.booter b).once = .done r ∧ w' = w ∨
    (w.memory.booter b).once = .fresh ∧ r = (startServiceInternal w (w.memory.booter b).svc).1 ∧
      w'.memory =
      (startServiceInternal w (w.memory.booter b).svc).2.memory.setOnce b (.done r) := by
  rw [ensureStarted] at h
  split at h <;> cases h
  · exact .inl ⟨‹_›, rfl⟩
  · exact .inr ⟨‹_›, rfl, rfl⟩

theorem kept_ensureStarted (h : ensureStarted w b = some (r, w')) : Kept w.memory w'.memory := by
  rcases ensureStarted_cases h with ⟨-, rfl⟩ | ⟨hfresh, -, hmemory⟩
  · exact .refl _
  obtain ⟨stackUp, started, hinternal, -⟩ :=
    memory_startServiceInternal w (w.memory.booter b).svc
  rw [hmemory, hinternal]
  refine ⟨rfl, rfl, rfl, fun b' => ?_, fun b' => ?_⟩
  · rcases eq_or_ne b' b with rfl | hne
    · simp [Memory.setOnce]
    · simp [Memory.setOnce, hne]
  · rcases eq_or_ne b' b with rfl | hne
    · exact .inr ⟨hfresh, r, by simp [Memory.setOnce]⟩
    · exact .inl (by simp [Memory.setOnce, hne])

/-- **A start keeps what there was.** -/
theorem kept_start (h : startServiceWithPath depth path w name = some (r, w')) :
    Kept w.memory w'.memory :=
  start_related (R := fun _ => Kept) (fun _ => Kept.refl) (fun h => h.trans) (fun h => h)
    (fun _ _ _ => kept_ensureStarted) h

/-! ### A start comes to an end -/

def Memory.Idle (m : Memory) : Prop := ∀ b, (m.booter b).once ≠ .running

theorem Kept.idle (h : Kept m m') (hidle : m.Idle) : m'.Idle := by
  intro b
  rcases h.once b with hsame | ⟨-, err, hdone⟩
  · rw [hsame]
    exact hidle b
  · rw [hdone]
    exact fun h => by cases h

section Ends

variable {P : World → Prop}
  (hstart : ∀ w name, P w → ∃ r w', start w name = some (r, w') ∧ P w')

include hstart

theorem exists_startDependencies (hw : P w) :
    ∃ r w', startDependencies start w names = some (r, w') ∧ P w' := by
  induction names generalizing w with
  | nil => exact ⟨none, w, rfl, hw⟩
  | cons dep names ih =>
    obtain ⟨r, w₁, hdep, hw₁⟩ := hstart w dep hw
    rcases r with _ | err
    · simp only [startDependencies, hdep]
      exact ih hw₁
    · simp only [startDependencies, hdep]
      exact ⟨_, w₁, rfl, hw₁⟩

theorem exists_startAlternatives (hw : P w) :
    ∃ r w', startAlternatives start err w names = some (r, w') := by
  induction names generalizing w with
  | nil => exact ⟨_, w, rfl⟩
  | cons alt names ih =>
    obtain ⟨r, w₁, halt, hw₁⟩ := hstart w alt hw
    rcases r with _ | err'
    · exact ⟨none, w₁, by simp only [startAlternatives, halt]⟩
    · simp only [startAlternatives, halt]
      exact ih hw₁

end Ends

theorem exists_ensureStarted (hidle : w.memory.Idle) (b : ℕ) :
    ∃ r w', ensureStarted w b = some (r, w') := by
  rcases honce : (w.memory.booter b).once with _ | _ | err
  · exact ⟨_, _, by simp only [ensureStarted, honce]; rfl⟩
  · exact absurd honce (hidle b)
  · exact ⟨err, w, by simp only [ensureStarted, honce]⟩

/-- **A start comes to an end**: the path grows by a registered service with every call, so it needs
no greater depth than there are registered services that are not on it, and one more. -/
theorem exists_start (hidle : w.memory.Idle) (hnodup : path.Nodup)
    (hpath : ∀ x ∈ path, x ∈ w.memory.services.keys)
    (hdepth : w.memory.services.keys.length < depth + path.length) :
    ∃ r w', startServiceWithPath depth path w name = some (r, w') := by
  induction depth generalizing path w name with
  | zero =>
    have hlength := (subperm_of_subset hnodup hpath).length_le
    omega
  | succ depth ih =>
    rw [startServiceWithPath, startOne]
    rcases hsvc : w.memory.services.lookup name with _ | svc
    · exact ⟨_, _, rfl⟩
    rcases hb : w.memory.booters.lookup name with _ | b
    · exact ⟨_, _, rfl⟩
    rcases hctx : w.outcome.ctx with _ | err
    swap
    · exact ⟨_, _, rfl⟩
    by_cases hname : name ∈ path
    · simp only [if_pos hname]
      exact ⟨_, _, rfl⟩
    simp only [if_neg hname]
    -- what is started further down is started in a memory with the same services, where no boot is
    -- under way
    have hdown : ∀ w' x, Kept w.memory w'.memory →
        ∃ r w'', startServiceWithPath depth (name :: path) w' x = some (r, w'') ∧
          Kept w.memory w''.memory := by
      intro w' x hw'
      have hmem : name ∈ w'.memory.services.keys := by
        rw [hw'.services]
        exact AList.mem_keys.mp (AList.lookup_isSome.mp (by rw [hsvc]; rfl))
      obtain ⟨r, w'', hstart⟩ :
          ∃ r w'', startServiceWithPath depth (name :: path) w' x = some (r, w'') :=
        ih (hw'.idle hidle) (nodup_cons.mpr ⟨hname, hnodup⟩)
          (forall_mem_cons.mpr ⟨hmem, by rw [hw'.services]; exact hpath⟩)
          (by rw [hw'.services, length_cons]; omega)
      exact ⟨r, w'', hstart, hw'.trans (kept_start hstart)⟩
    obtain ⟨r, w₁, hdeps, hw₁⟩ : ∃ r w₁, startDependencies
        (startServiceWithPath depth (name :: path)) (w.pass w.memory) svc.dependencies =
          some (r, w₁) ∧ Kept w.memory w₁.memory := exists_startDependencies hdown (Kept.refl _)
    rcases r with _ | err
    · obtain ⟨r, w₂, hboot⟩ := exists_ensureStarted (hw₁.idle hidle) b
      have hw₂ : Kept w.memory w₂.memory := hw₁.trans (kept_ensureStarted hboot)
      rcases r with _ | err
      · exact ⟨none, w₂, by simp only [hdeps, hboot]⟩
      · simp only [hdeps, hboot]
        exact exists_startAlternatives hdown hw₂
    · exact ⟨some err, w₁, by simp only [hdeps]⟩

/-! ### The depth does not matter -/

section Deeper

variable {x : Option String × World}
  (hle : ∀ w name x, start w name = some x → start' w name = some x)

include hle

theorem startDependencies_deeper (h : startDependencies start w names = some x) :
    startDependencies start' w names = some x := by
  induction names generalizing w with
  | nil => exact h
  | cons dep names ih =>
    rw [startDependencies] at h ⊢
    split at h
    · cases h
    case h_2 hdep =>
      rw [hle _ _ _ hdep]
      exact h
    case h_3 hdep =>
      rw [hle _ _ _ hdep]
      exact ih h

theorem startAlternatives_deeper (h : startAlternatives start err w names = some x) :
    startAlternatives start' err w names = some x := by
  induction names generalizing w with
  | nil => exact h
  | cons alt names ih =>
    rw [startAlternatives] at h ⊢
    split at h
    · cases h
    case h_2 halt =>
      rw [hle _ _ _ halt]
      exact h
    case h_3 halt =>
      rw [hle _ _ _ halt]
      exact ih h

theorem startOne_deeper (h : startOne start path w name = some x) :
    startOne start' path w name = some x := by
  rw [startOne] at h ⊢
  revert h
  split
  · exact id
  · exact id
  split
  · exact id
  split_ifs
  · exact id
  intro h
  split at h
  · cases h
  case h_2 hdeps =>
    rw [startDependencies_deeper hle hdeps]
    exact h
  case h_3 hdeps =>
    rw [startDependencies_deeper hle hdeps]
    revert h
    dsimp only
    split
    · exact id
    · exact id
    · exact startAlternatives_deeper hle

omit hle in
/-- **A start that has a result has the same one at any greater depth.** -/
theorem start_deeper {depth' : ℕ} (hdepth : depth ≤ depth')
    (h : startServiceWithPath depth path w name = some x) :
    startServiceWithPath depth' path w name = some x := by
  induction depth generalizing depth' path w name x with
  | zero => cases h
  | succ depth ih =>
    obtain ⟨depth', rfl⟩ : ∃ k, depth' = k + 1 := ⟨depth' - 1, by omega⟩
    exact startOne_deeper (fun w name x h => ih (by omega) h) h

end Deeper

/-! ### What stands after a start -/

def Memory.DependsOn (m : Memory) (name dep : String) : Prop :=
  ∃ svc, m.services.lookup name = some svc ∧ dep ∈ svc.dependencies

/-- **A service stands**: it was booted with success, or one of its alternatives stands in its
place. -/
inductive Memory.Stands (m : Memory) : String → Prop
  | booted {name : String} {b : ℕ} (hb : m.booters.lookup name = some b)
      (hdone : (m.booter b).once = .done none) : Stands m name
  | instead {name alt : String} {svc : ServiceDefinition} (hsvc : m.services.lookup name = some svc)
      (halt : alt ∈ svc.alternativeServices) (hstands : Stands m alt) : Stands m name

theorem Kept.stands (h : Kept m m') (hstands : m.Stands name) : m'.Stands name := by
  induction hstands with
  | booted hb hdone =>
    refine .booted (h.booters ▸ hb) ?_
    rcases h.once _ with hsame | ⟨hfresh, -⟩
    · exact hsame.trans hdone
    · rw [hdone] at hfresh
      cases hfresh
  | instead hsvc halt _ ih => exact .instead (h.services ▸ hsvc) halt ih

def Memory.AllStand (m : Memory) (name : String) : Prop :=
  ∀ x, Relation.ReflTransGen m.DependsOn name x → m.Stands x

theorem Kept.dependsOn (h : Kept m m') : m'.DependsOn = m.DependsOn := by
  funext a c
  rw [Memory.DependsOn, Memory.DependsOn, h.services]

theorem Kept.allStand (h : Kept m m') (hall : m.AllStand name) : m'.AllStand name := by
  intro x hx
  rw [h.dependsOn] at hx
  exact h.stands (hall x hx)

theorem Memory.allStand_of (hsvc : m.services.lookup name = some svc) (hstands : m.Stands name)
    (hdeps : ∀ dep ∈ svc.dependencies, m.AllStand dep) : m.AllStand name := by
  intro x hx
  rcases Relation.ReflTransGen.cases_head hx with rfl | ⟨dep, ⟨svc', hsvc', hdep⟩, hrest⟩
  · exact hstands
  · rw [hsvc] at hsvc'
    cases hsvc'
    exact hdeps dep hdep x hrest

theorem allStand_of_startDependencies
    (hkept : ∀ w name r w', start w name = some (r, w') → Kept w.memory w'.memory)
    (hstart : ∀ w name w', start w name = some (none, w') → w'.memory.AllStand name)
    (h : startDependencies start w names = some (none, w')) :
    ∀ dep ∈ names, w'.memory.AllStand dep := by
  induction names generalizing w with
  | nil => exact forall_mem_nil _
  | cons dep names ih =>
    rw [startDependencies] at h
    split at h
    · cases h
    · cases h
    case h_3 hdep =>
      have hrest := startDependencies_related Kept.refl (fun h => h.trans) hkept h
      exact forall_mem_cons.mpr ⟨hrest.allStand (hstart _ _ _ hdep), ih h⟩

theorem stands_of_startAlternatives
    (hstart : ∀ w name w', start w name = some (none, w') → w'.memory.AllStand name)
    (h : startAlternatives start err w names = some (none, w')) :
    ∃ alt ∈ names, w'.memory.Stands alt := by
  induction names generalizing w with
  | nil => cases h
  | cons alt names ih =>
    rw [startAlternatives] at h
    split at h
    · cases h
    case h_2 halt =>
      cases h
      exact ⟨alt, mem_cons_self, hstart _ _ _ halt alt .refl⟩
    · obtain ⟨alt', hmem, hstands⟩ := ih h
      exact ⟨alt', mem_cons_of_mem _ hmem, hstands⟩

theorem stands_of_ensureStarted (hb : w.memory.booters.lookup name = some b)
    (h : ensureStarted w b = some (none, w')) : w'.memory.Stands name := by
  refine .booted ((kept_ensureStarted h).booters ▸ hb) ?_
  rcases ensureStarted_cases h with ⟨hdone, rfl⟩ | ⟨-, -, hmemory⟩
  · exact hdone
  · rw [hmemory]
    simp [Memory.setOnce]

/-- **After a start that returns nil everything stands** that the service depends on, directly or
not. -/
theorem allStand_of_start (h : startServiceWithPath depth path w name = some (none, w')) :
    w'.memory.AllStand name := by
  induction depth generalizing path w name w' with
  | zero => cases h
  | succ depth ih =>
    have hkept : ∀ w x r w', startServiceWithPath depth (name :: path) w x = some (r, w') →
        Kept w.memory w'.memory := fun _ _ _ _ => kept_start
    have hdown : ∀ w x w', startServiceWithPath depth (name :: path) w x = some (none, w') →
        w'.memory.AllStand x := fun _ _ _ h => ih h
    cases start_cases h with
    | booted hsvc hb hname hdeps hboot =>
      have hbefore := startDependencies_related Kept.refl (fun h => h.trans) hkept hdeps
      have hkept₁ := kept_ensureStarted hboot
      refine Memory.allStand_of (hkept₁.services ▸ hbefore.services ▸ hsvc)
        (stands_of_ensureStarted (hbefore.booters ▸ hb) hboot) fun dep hdep => ?_
      exact hkept₁.allStand (allStand_of_startDependencies hkept hdown hdeps dep hdep)
    | alternatives err hsvc hb hname hdeps hboot halts =>
      have hbefore := startDependencies_related Kept.refl (fun h => h.trans) hkept hdeps
      have hkept₁ := kept_ensureStarted hboot
      have hkept₂ := startAlternatives_related Kept.refl (fun h => h.trans) hkept halts
      have hsvc' := hkept₂.services ▸ hkept₁.services ▸ hbefore.services ▸ hsvc
      obtain ⟨alt, hmem, hstands⟩ := stands_of_startAlternatives hdown halts
      refine Memory.allStand_of hsvc' (.instead hsvc' hmem hstands) fun dep hdep => ?_
      exact (hkept₁.trans hkept₂).allStand
        (allStand_of_startDependencies hkept hdown hdeps dep hdep)

/-- **Lazy start-up comes to an end and respects dependencies**, whatever services are registered
and whatever the calls from outside come to: `StartService` returns, at any depth beyond the number
of registered services with the same result, and if it returns nil then every service that the
requested one depends on, directly or not, and the service itself has been booted with success, or
an alternative stands in its place. -/
theorem startService_ends (w : World) (hidle : w.memory.Idle) (name : String) :
    ∃ r w', startService w name = some (r, w') ∧
      (∀ depth > w.memory.services.keys.length,
        startServiceWithPath depth [] w name = some (r, w')) ∧
      (r = none → ∀ x, Relation.ReflTransGen w.memory.DependsOn name x → w'.memory.Stands x) := by
  obtain ⟨r, w', hstart⟩ :
      ∃ r w', startServiceWithPath (w.memory.services.keys.length + 1) [] w name =
      some (r, w') :=
    exists_start hidle nodup_nil (forall_mem_nil _) (by simp)
  refine ⟨r, w', hstart, fun depth hdepth => start_deeper hdepth hstart, ?_⟩
  rintro rfl x hx
  refine allStand_of_start hstart x ?_
  have hdepends : w'.memory.DependsOn = w.memory.DependsOn := (kept_start hstart).dependsOn
  rwa [hdepends]

theorem idle_empty : Memory.Idle {} := fun _ h => by cases h

theorem Memory.Idle.newBooter (h : m.Idle) (name : String) (svc : ServiceDefinition) :
    (m.newBooter name svc).Idle := by
  intro b
  rcases eq_or_ne b m.made with rfl | hne
  · simp [Memory.newBooter]
  · simpa [Memory.newBooter, hne] using h b

theorem Memory.Idle.registerService (h : m.Idle) (svc : ServiceDefinition) :
    (registerService m svc).1.Idle := by
  rw [LazyService.registerService]
  split_ifs
  · exact h
  · exact h
  · have hsame : Memory.Idle { m with services := m.services.insert svc.name svc } := h
    exact hsame.newBooter svc.name svc

/-- An application, its database, and another database that it can do with. -/
def shop : Memory :=
  (registerService (registerService (registerService {}
    { name := "app", composeFile := "app.yml", dependencies := ["db"] }).1
    { name := "db", composeFile := "db.yml", alternativeServices := ["sqlite"] }).1
    { name := "sqlite", composeFile := "sqlite.yml" }).1

/-- The database fails, and the other one stands in for it. -/
theorem startService_ends_shop : ∃ w', startService ⟨shop, fun i =>
    if i = 2 then { up := some "no image" } else {}⟩ "app" = some (none, w') ∧
    w'.memory.attempts = ["app", "sqlite", "db"] ∧ w'.memory.Stands "db" := by
  have hidle : shop.Idle :=
    ((idle_empty.registerService _).registerService _).registerService _
  obtain ⟨r, w', hstart, -, hstands⟩ := startService_ends
    ⟨shop, fun i => if i = 2 then { up := some "no image" } else {}⟩ hidle "app"
  have hrun :
      (startService ⟨shop, fun i => if i = 2 then { up := some "no image" } else {}⟩ "app").map
      (fun x => (x.1, x.2.memory.attempts)) =
        some (none, ["app", "sqlite", "db"]) := by decide +kernel
  rw [hstart, Option.map_some, Option.some_inj, Prod.mk.injEq] at hrun
  obtain ⟨rfl, hattempts⟩ := hrun
  refine ⟨w', hstart, hattempts, hstands rfl "db" (.single ⟨_, rfl, ?_⟩)⟩
  exact mem_cons_self

/-! ### Attempts -/

/-- Every booter belongs to the service under whose name it is. -/
structure Memory.Keyed (m : Memory) : Prop where
  bound : ∀ name b, m.booters.lookup name = some b → b < m.made
  booter : ∀ name b, m.booters.lookup name = some b → (m.booter b).svc.name = name
  services : ∀ name svc, m.services.lookup name = some svc → svc.name = name

/-- A booter that has succeeded leaves its service flagged as started. -/
def Memory.Flagged (m : Memory) : Prop :=
  ∀ name b, m.booters.lookup name = some b →
    (m.booter b).once = .done none → m.isStarted name = true

/-- What is left alone of a service: its booter and its attempts. -/
structure Untouched (m m' : Memory) (x : String) : Prop where
  count : m'.attempts.count x = m.attempts.count x
  once : ∀ b, m.booters.lookup x = some b → (m'.booter b).once = (m.booter b).once

theorem Kept.keyed (h : Kept m m') (hm : m.Keyed) : m'.Keyed where
  bound := by
    rw [h.booters, h.made]
    exact hm.bound
  booter := by
    simp only [h.booters, h.svc]
    exact hm.booter
  services := by
    rw [h.services]
    exact hm.services

/-- **What a start leaves of the other services**: those on the path are left alone, and what has
succeeded is flagged. -/
structure Careful (path : List String) (m m' : Memory) : Prop where
  kept : Kept m m'
  untouched : m.Keyed → ∀ x ∈ path, Untouched m m' x
  flagged : m.Keyed → m.Flagged → m'.Flagged

theorem Careful.refl (path : List String) (m : Memory) : Careful path m m :=
  ⟨.refl m, fun _ _ _ => ⟨rfl, fun _ _ => rfl⟩, fun _ h => h⟩

theorem Careful.trans {m'' : Memory} (h : Careful path m m') (h' : Careful path m' m'') :
    Careful path m m'' := by
  refine ⟨h.kept.trans h'.kept, fun hm x hx => ?_,
    fun hm hflagged => h'.flagged (h.kept.keyed hm) (h.flagged hm hflagged)⟩
  have hux := h.untouched hm x hx
  have hux' := h'.untouched (h.kept.keyed hm) x hx
  refine ⟨hux'.count.trans hux.count, fun b hb => ?_⟩
  exact (hux'.once b (h.kept.booters ▸ hb)).trans (hux.once b hb)

theorem careful_ensureStarted (hb : w.memory.booters.lookup name = some b) (hname : name ∉ path)
    (h : ensureStarted w b = some (r, w')) : Careful path w.memory w'.memory := by
  refine ⟨kept_ensureStarted h, fun hm x hx => ?_, fun hm hflagged => ?_⟩
  all_goals
    rcases ensureStarted_cases h with ⟨-, rfl⟩ | ⟨hfresh, hr, hmemory⟩
  · exact ⟨rfl, fun _ _ => rfl⟩
  · obtain ⟨stackUp, started, hinternal, -⟩ :=
      memory_startServiceInternal w (w.memory.booter b).svc
    have hne : name ≠ x := fun heq => hname (heq ▸ hx)
    rw [hmemory, hinternal, hm.booter name b hb]
    refine ⟨count_cons_of_ne hne, fun b' hb' => ?_⟩
    have hneb : b' ≠ b := by
      rintro rfl
      exact hne ((hm.booter name b' hb).symm.trans (hm.booter x b' hb'))
    simp [Memory.setOnce, hneb]
  · exact hflagged
  · obtain ⟨stackUp, started, hinternal, hsuccess, hfailure⟩ :=
      memory_startServiceInternal w (w.memory.booter b).svc
    rw [← hr, hm.booter name b hb] at hsuccess
    rw [← hr] at hfailure
    rw [hmemory, hinternal]
    intro x b' hb' hdone
    rcases eq_or_ne b' b with rfl | hneb
    · have hnone : r = none := by simpa [Memory.setOnce] using hdone
      have hx : x = name := (hm.booter x b' hb').symm.trans (hm.booter name b' hb)
      rw [hsuccess hnone, hx]
      exact (isStarted_setStarted w.memory name name true).trans (if_pos rfl)
    · have hstarted := hflagged x b' hb' (by simpa [Memory.setOnce, hneb] using hdone)
      rcases r with _ | err
      · rw [hsuccess rfl]
        refine (isStarted_setStarted w.memory name x true).trans ?_
        split_ifs
        · rfl
        · exact hstarted
      · rw [hfailure (Option.some_ne_none err)]
        exact hstarted

theorem careful_start (h : startServiceWithPath depth path w name = some (r, w')) :
    Careful path w.memory w'.memory := by
  refine start_related (R := Careful) Careful.refl (fun h => h.trans) (fun h => ?_)
    (fun hbefore hb hname h => ?_) h
  · exact ⟨h.kept, fun hm x hx => h.untouched hm x (mem_cons_of_mem _ hx), h.flagged⟩
  · exact careful_ensureStarted (hbefore.kept.booters ▸ hb) hname h

/-! ### Sequences of calls -/

/-- **The memories after sequences of calls**, whatever the calls from outside come to. -/
inductive Reachable : Memory → Prop
  | new : Reachable {}
  | register {m : Memory} (h : Reachable m) (svc : ServiceDefinition) :
      Reachable (registerService m svc).1
  | start {w w' : World} {name : String} {r : Option String} (h : Reachable w.memory)
      (hstart : startService w name = some (r, w')) : Reachable w'.memory
  | stop {w : World} (h : Reachable w.memory) (name : String) :
      Reachable (stopService w name).2.memory

/-- The memory between calls. -/
structure Memory.Consistent (m : Memory) : Prop where
  idle : m.Idle
  keyed : m.Keyed
  flagged : m.Flagged

theorem Memory.Keyed.newBooter (h : m.Keyed) (hsvc : svc.name = name) :
    (m.newBooter name svc).Keyed := by
  refine ⟨fun x b hb => ?_, fun x b hb => ?_, h.services⟩
  · rcases lookup_newBooter h.bound hb with ⟨-, rfl, -⟩ | ⟨-, hb, -⟩
    · exact Nat.lt_succ_self _
    · exact Nat.lt_succ_of_lt (h.bound x b hb)
  · rcases lookup_newBooter h.bound hb with ⟨rfl, -, hbooter⟩ | ⟨-, hb, hbooter⟩
    · rw [hbooter]
      exact hsvc
    · rw [hbooter, h.booter x b hb]

theorem Memory.Flagged.newBooter (h : m.Keyed)
    (hflagged : ∀ x b, x ≠ name → m.booters.lookup x = some b → (m.booter b).once = .done none →
      m.isStarted x = true) : (m.newBooter name svc).Flagged := by
  intro x b hb hdone
  rcases lookup_newBooter h.bound hb with ⟨-, -, hbooter⟩ | ⟨hne, hb, hbooter⟩
  · rw [hbooter] at hdone
    cases hdone
  · rw [hbooter] at hdone
    exact hflagged x b hne hb hdone

theorem Memory.Keyed.insert (h : m.Keyed) (svc : ServiceDefinition) :
    Memory.Keyed { m with services := m.services.insert svc.name svc } := by
  refine ⟨h.bound, h.booter, fun x svc' hsvc' => ?_⟩
  rcases GoMap.lookup_insert_iff.mp hsvc' with ⟨rfl, rfl⟩ | ⟨-, hsvc'⟩
  · rfl
  · exact h.services x svc' hsvc'

theorem Memory.Consistent.registerService (h : m.Consistent) (svc : ServiceDefinition) :
    (registerService m svc).1.Consistent := by
  rw [LazyService.registerService]
  split_ifs
  · exact h
  · exact h
  · have hidle : Memory.Idle { m with services := m.services.insert svc.name svc } := h.idle
    have hkeyed := h.keyed.insert svc
    exact ⟨hidle.newBooter _ _, hkeyed.newBooter rfl, .newBooter hkeyed fun x b _ => h.flagged x b⟩

theorem Memory.Consistent.stopService (h : w.memory.Consistent) (name : String) :
    (stopService w name).2.memory.Consistent := by
  rw [LazyService.stopService]
  rcases hsvc : w.memory.services.lookup name with _ | svc
  · exact h
  split_ifs
  · rcases w.outcome.down with _ | err
    · have hidle : ((w.memory.down svc.project).setStarted name false).Idle := h.idle
      have hkeyed : ((w.memory.down svc.project).setStarted name false).Keyed :=
        ⟨h.keyed.bound, h.keyed.booter, h.keyed.services⟩
      refine ⟨hidle.newBooter _ _, hkeyed.newBooter (h.keyed.services name svc hsvc),
        .newBooter hkeyed fun x b hne hb hdone => ?_⟩
      rw [isStarted_setStarted, if_neg hne]
      exact h.flagged x b hb hdone
    · exact h
  · exact h

theorem consistent_empty : Memory.Consistent {} where
  idle := idle_empty
  keyed := ⟨fun _ _ h => (by cases h), fun _ _ h => (by cases h), fun _ _ h => (by cases h)⟩
  flagged _ _ h := by cases h

theorem consistent_of_reachable (h : Reachable m) : m.Consistent := by
  induction h with
  | new => exact consistent_empty
  | register _ svc ih => exact ih.registerService svc
  | start _ hstart ih =>
    have hcareful := careful_start hstart
    exact ⟨hcareful.kept.idle ih.idle, hcareful.kept.keyed ih.keyed,
      hcareful.flagged ih.keyed ih.flagged⟩
  | stop _ name ih => exact ih.stopService name

theorem ensureStarted_fresh (hfresh : (w.memory.booter b).once = .fresh)
    (hname : (w.memory.booter b).svc.name = name) :
    ∃ r w', ensureStarted w b = some (r, w') ∧ w'.memory.attempts = name :: w.memory.attempts ∧
      (r = none → w'.memory.isStarted name = true) ∧
      (w.outcome.up = none → w.outcome.health = none → r = none) := by
  obtain ⟨stackUp, started, hinternal, hsuccess, -⟩ :=
    memory_startServiceInternal w (w.memory.booter b).svc
  refine ⟨_, _, by simp only [ensureStarted, hfresh]; rfl, ?_, fun hr => ?_, fun hup hhealth => ?_⟩
  · rw [← hname]
    exact congrArg Memory.attempts hinternal
  · have hstarted : (startServiceInternal w (w.memory.booter b).svc).2.memory.started =
        w.memory.started.insert name true :=
      (congrArg Memory.started hinternal).trans (hname ▸ hsuccess hr)
    refine Eq.trans ?_ ((isStarted_setStarted w.memory name name true).trans (if_pos rfl))
    exact congrArg (GoMap.index · false name) hstarted
  · simp only [startServiceInternal, hup, hhealth, ite_self]

/-- **A start attempts a boot of a service that is not started**, exactly one: after any sequence of
calls, if the booter that the service has now has not failed, the context of the caller is live and
the dependencies come up. If nothing goes wrong this time, the start succeeds. -/
theorem start_attempts {coming : ℕ → Outcome} (h : Reachable m)
    (hsvc : m.services.lookup name = some svc) (hb : m.booters.lookup name = some b)
    (hnot : m.isStarted name = false) (hfailed : ∀ err, (m.booter b).once ≠ .done (some err))
    (hctx : (coming 0).ctx = none)
    (hdeps : startDependencies (startServiceWithPath m.services.keys.length [name])
      (World.pass ⟨m, coming⟩ m) svc.dependencies = some (none, w₁)) :
    ∃ r w', startService ⟨m, coming⟩ name = some (r, w') ∧
      w'.memory.attempts.count name = m.attempts.count name + 1 ∧
      (w₁.outcome.up = none → w₁.outcome.health = none →
        r = none ∧ w'.memory.isStarted name = true) := by
  have hm := consistent_of_reachable h
  have hcareful : Careful [name] m w₁.memory :=
    startDependencies_related (R := Careful [name]) (Careful.refl _) (fun h => h.trans)
      (fun _ _ _ _ => careful_start) hdeps
  have huntouched := hcareful.untouched hm.keyed name mem_cons_self
  have hname : (w₁.memory.booter b).svc.name = name := by
    rw [hcareful.kept.svc]
    exact hm.keyed.booter name b hb
  -- the booter is fresh: it has neither failed nor succeeded
  have hfresh : (w₁.memory.booter b).once = .fresh := by
    rw [huntouched.once b hb]
    rcases honce : (m.booter b).once with _ | _ | _ | err
    · rfl
    · exact absurd honce (hm.idle b)
    · rw [hm.flagged name b hb honce] at hnot
      cases hnot
    · exact absurd honce (hfailed err)
  obtain ⟨r₁, w₂, hboot, hattempts, hstarted, hok⟩ := ensureStarted_fresh hfresh hname
  have hcount : w₂.memory.attempts.count name = m.attempts.count name + 1 := by
    rw [hattempts, count_cons_self, huntouched.count]
  rcases r₁ with _ | err
  · refine ⟨none, w₂, ?_, hcount, fun _ _ => ⟨rfl, hstarted rfl⟩⟩
    simp only [startService, startServiceWithPath, startOne, World.outcome, hsvc, hb, hctx,
      not_mem_nil, if_false, hdeps, hboot]
  · obtain ⟨r, w', hstart⟩ : ∃ r w', startService ⟨m, coming⟩ name = some (r, w') :=
      exists_start hm.idle nodup_nil (forall_mem_nil _) (by simp)
    refine ⟨r, w', hstart, ?_, fun hup hhealth => by cases hok hup hhealth⟩
    simp only [startService, startServiceWithPath, startOne, World.outcome, hsvc, hb, hctx, hdeps,
      hboot] at hstart
    -- the alternatives leave the service alone, which is on their path
    have halts : Careful [name] w₂.memory w'.memory :=
      startAlternatives_related (R := Careful [name]) (Careful.refl _) (fun h => h.trans)
        (fun _ _ _ _ => careful_start) hstart
    have hkeyed := (kept_ensureStarted hboot).keyed (hcareful.kept.keyed hm.keyed)
    rw [(halts.untouched hkeyed name mem_cons_self).count, hcount]

def web : ServiceDefinition := { name := "web", composeFile := "web.yml" }

def lone : Memory := (registerService {} web).1

def front : ServiceDefinition :=
  { name := "front", composeFile := "front.yml", dependencies := ["web"] }

def pair : Memory := (registerService lone front).1

/-- The first start of a service, and with it of the one that it needs. -/
theorem start_attempts_first : ∃ r w', startService ⟨pair, fun _ => {}⟩ "front" = some (r, w') ∧
    w'.memory.attempts.count "front" = 1 ∧ r = none := by
  have hsvc : pair.services.lookup "front" = some front := by decide
  have hb : pair.booters.lookup "front" = some 1 := by decide
  obtain ⟨w₁, hdeps, hup, hhealth⟩ : ∃ w₁, startDependencies
      (startServiceWithPath pair.services.keys.length ["front"])
      (World.pass ⟨pair, fun _ => {}⟩ pair) front.dependencies = some (none, w₁) ∧
      w₁.outcome.up = none ∧ w₁.outcome.health = none := ⟨_, rfl, rfl, rfl⟩
  obtain ⟨r, w', hstart, hcount, hok⟩ :=
    start_attempts (.register (.register .new web) front) hsvc hb
    (by decide) (fun err h => by cases h) rfl hdeps
  exact ⟨r, w', hstart, hcount, (hok hup hhealth).1⟩

/-- **A boot that has failed is not tried again**: after a start that has failed and a stop, the
service is not started, and when nothing is wrong any more the next start only returns the old
error. -/
theorem failed_boot_kept : ∃ m, Reachable m ∧ m.isStarted "web" = false ∧ m.attempts = ["web"] ∧
    ∃ w', startService ⟨m, fun _ => {}⟩ "web" =
        some (some "start service web: compose up failed: no image", w') ∧
      w'.memory.attempts = ["web"] := by
  have hrun : (startService ⟨lone, fun _ => { up := some "no image" }⟩ "web").any (fun x =>
      decide ((stopService ⟨x.2.memory, fun _ => {}⟩ "web").2.memory.isStarted "web" = false ∧
        (stopService ⟨x.2.memory, fun _ => {}⟩ "web").2.memory.attempts = ["web"] ∧
        (startService
          ⟨(stopService ⟨x.2.memory, fun _ => {}⟩ "web").2.memory, fun _ => {}⟩ "web").map
          (fun y => (y.1, y.2.memory.attempts)) =
            some (some "start service web: compose up failed: no image", ["web"]))) = true := by
    decide +kernel
  rcases hstart : startService ⟨lone, fun _ => { up := some "no image" }⟩ "web" with _ | ⟨r, w⟩
  · rw [hstart] at hrun
    cases hrun
  rw [hstart] at hrun
  obtain ⟨hnot, hattempts, hagain⟩ := of_decide_eq_true hrun
  obtain ⟨⟨r', w'⟩, hstart', heq⟩ := Option.map_eq_some_iff.mp hagain
  obtain ⟨rfl, hattempts'⟩ := Prod.mk.inj heq
  have hreachable : Reachable w.memory := .start (.register .new web) hstart
  exact ⟨(stopService ⟨w.memory, fun _ => {}⟩ "web").2.memory,
    .stop (w := ⟨w.memory, fun _ => {}⟩) hreachable "web", hnot, hattempts,
    w', hstart', hattempts'⟩

end Containers.LazyService
