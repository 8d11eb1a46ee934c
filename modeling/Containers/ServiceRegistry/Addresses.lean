import Containers.ServiceRegistry.Calls

/-!
# One service for an address

`Register` refuses an address that another name has, in the section that stores the service, so in
memory no two services share one. A restart reads the services from the file, without a check: what
is in the file was in memory before – except that a JSON text has no place for bytes that are not
UTF-8, and two hosts that differ in such bytes only are one host afterwards (`address_shared`). With
hosts that are valid UTF-8 an address belongs to one service through all restarts, whatever fails on
the way (`addresses_unique`).
-/

namespace Containers.ServiceRegistry

open Go ThreadSystem Sections List Option

variable {R : Bytes → Option Service → Prop} {caller : Caller} {disk : Disk}

/-! ### Restarts -/

/-- **A registry through its restarts**: it starts without a file, and when the process ends, at any
time, the next one finds the file as it was left then. -/
inductive Lived (K : Condition Memory Frame Answer) (registryDir : String) :
    State Memory Frame → Prop
  | start (defaultHost : Bytes) (readable movable : Bool) :
      Lived K registryDir ⟨newRegistry registryDir defaultHost .absent readable movable, []⟩
  | run {s s' : State Memory Frame} : Lived K registryDir s →
      serviceRegistry.system.Reach (Meets K) s s' → Lived K registryDir s'
  | restart {s : State Memory Frame} (defaultHost : Bytes) (readable movable : Bool) :
      Lived K registryDir s →
      Lived K registryDir ⟨newRegistry registryDir defaultHost s.memory.disk readable movable, []⟩

/-- Services are registered with **valid hosts**. -/
def ValidHosts : Condition Memory Frame Answer
  | m, _, .register caller port opts, _ =>
      IsValidUtf8 (newService m.defaultHost caller.name port opts).host
  | _, _, _, _ => True

instance : ∀ m F f o, Decidable (ValidHosts m F f o) := fun m _ f _ =>
  match f with
  | .register caller port opts =>
    inferInstanceAs (Decidable (IsValidUtf8 (newService m.defaultHost caller.name port opts).host))
  | .persist _ _ | .unregister _ | .updateHealth _ _ | .discover _ _ _ | .discovering _ _ _ _
  | .get _ | .clear | .remove | .ret _ _ | .panicked => .isTrue trivial

/-! ### Services with addresses of their own -/

/-- A service with a host that can be written, and a port that exists. -/
def Service.Proper (svc : Service) : Prop :=
  IsValidUtf8 svc.host ∧ 1 ≤ svc.port ∧ svc.port ≤ 65535

/-- **The entries of a map or a file**, as a relation: none of them is nil, and each service has an
address of its own. -/
structure Addressed (R : Bytes → Option Service → Prop) : Prop where
  proper : ∀ n e, R n e → ∃ svc, e = some svc ∧ svc.Proper
  unique : ∀ n n' svc svc', R n (some svc) → R n' (some svc') → svc.host = svc'.host →
    svc.port = svc'.port → n = n'

def Services.Has (services : Services) (n : Bytes) (e : Option Service) : Prop :=
  services.lookup n = some e

def Disk.Has : Disk → Bytes → Option Service → Prop
  | .services entries => fun n e => (n, e) ∈ entries
  | _ => fun _ _ => False

theorem Addressed.mono {R' : Bytes → Option Service → Prop} (h : Addressed R)
    (hR : ∀ n e, R' n e → R n e) : Addressed R' where
  proper n e he := h.proper n e (hR n e he)
  unique n n' svc svc' hsvc hsvc' := h.unique n n' svc svc' (hR n _ hsvc) (hR n' _ hsvc')

theorem addressed_of_not (h : ∀ n e, ¬ R n e) : Addressed R where
  proper n e he := absurd he (h n e)
  unique n _ _ _ hsvc := absurd hsvc (h n _)

theorem Addressed.marshal {services : Services} (h : Addressed (Services.Has services)) :
    Addressed fun n e => (n, e) ∈ marshal services := by
  -- an entry that was written comes from a service with the same address
  have hfrom : ∀ n e, (n, e) ∈ ServiceRegistry.marshal services → ∃ k svc,
      Services.Has services k (some svc) ∧ n = toValidUtf8 k ∧ e = some svc.stored ∧ svc.Proper ∧
      svc.stored.host = svc.host := by
    intro n e he
    obtain ⟨k, v, hv, heq⟩ := mem_marshalMap.mp he
    obtain ⟨svc, rfl, hproper⟩ := h.proper k v hv
    obtain ⟨rfl, rfl⟩ := Prod.mk.inj heq
    exact ⟨k, svc, hv, rfl, rfl, hproper, hproper.1⟩
  refine ⟨fun n e he => ?_, fun n n' svc svc' he he' hhost hport => ?_⟩
  · obtain ⟨k, svc, -, -, rfl, hproper, hhost⟩ := hfrom n e he
    refine ⟨svc.stored, rfl, ?_, hproper.2⟩
    rw [hhost]
    exact hproper.1
  · obtain ⟨k, old, hk, rfl, heq, -, hold⟩ := hfrom n _ he
    obtain ⟨k', old', hk', rfl, heq', -, hold'⟩ := hfrom n' _ he'
    cases heq
    cases heq'
    rw [hold, hold'] at hhost
    rw [h.unique k k' old old' hk hk' hhost hport]

theorem Addressed.stored (h : Addressed disk.Has) : Addressed (Services.Has disk.stored) := by
  cases disk with
  | services entries =>
    exact h.mono fun n e he => mem_of_lookup_unmarshalMap (lookup_load.mp he).1
  | absent | corrupt => exact addressed_of_not fun n e he => by cases he

variable {services : Services} {name : Bytes} {svc : Service} {m m' : Memory} {o : Answer}

theorem Addressed.insert (h : Addressed (Services.Has services)) (hsvc : svc.Proper)
    (hfree : ∀ n other, services.lookup n = some (some other) → n ≠ name →
      ¬ (other.host = svc.host ∧ other.port = svc.port)) :
    Addressed (Services.Has (services.insert name (some svc))) := by
  have hhas : ∀ n e, Services.Has (services.insert name (some svc)) n e →
      n = name ∧ e = some svc ∨ n ≠ name ∧ Services.Has services n e :=
    fun _ _ => GoMap.lookup_insert_iff.mp
  refine ⟨fun n e he => ?_, fun n n' s s' he he' hhost hport => ?_⟩
  · rcases hhas n e he with ⟨-, rfl⟩ | ⟨-, he⟩
    · exact ⟨svc, rfl, hsvc⟩
    · exact h.proper n e he
  · rcases hhas n _ he with ⟨rfl, heq⟩ | ⟨hn, hold⟩
    · cases heq
      rcases hhas n' _ he' with ⟨rfl, -⟩ | ⟨hn', hold'⟩
      · rfl
      · exact absurd ⟨hhost.symm, hport.symm⟩ (hfree n' s' hold' hn')
    · rcases hhas n' _ he' with ⟨rfl, heq⟩ | ⟨-, hold'⟩
      · cases heq
        exact absurd ⟨hhost, hport⟩ (hfree n s hold hn)
      · exact h.unique n n' s s' hold hold' hhost hport

theorem Addressed.erase (h : Addressed (Services.Has services)) (name : Bytes) :
    Addressed (Services.Has (services.erase name)) :=
  h.mono fun _ _ he => (GoMap.lookup_erase_iff.mp he).2

theorem free_of_claimant (h : m.claimant name svc = none) {n : Bytes} {other : Service}
    (hn : m.services.lookup n = some (some other)) (hne : n ≠ name) :
    ¬ (other.host = svc.host ∧ other.port = svc.port) := by
  have hnone := find?_eq_none.mp (map_eq_none_iff.mp h) ⟨n, some other⟩
    (GoMap.mem_entries_of_lookup hn)
  simpa [hne] using hnone

theorem eq_of_rejected {port : ℤ} {opts : List ServiceOption} {found : Option Service}
    {err : Option Error}
    (h : registerStep m o caller port opts = (m', [.ret found err])) : m' = m := by
  rw [registerStep] at h
  split_ifs at h
  · exact (congrArg Prod.fst h).symm
  · split at h
    · exact (congrArg Prod.fst h).symm
    · cases congrArg Prod.snd h

/-! ### The sections -/

/-- **Addresses of their own**, in memory, in the file and in all that is still to be written. -/
structure Sound (m : Memory) (F : List Frame) : Prop where
  services : Addressed (Services.Has m.services)
  disk : Addressed m.disk.Has
  writes : ∀ caller entries, .persist caller (.write entries) ∈ F →
    Addressed fun n e => (n, e) ∈ entries

variable {A B made : List Frame} {f : Frame}

theorem Sound.advance (h : Sound m (A ++ f :: B)) (hservices : Addressed (Services.Has m'.services))
    (hdisk : Addressed m'.disk.Has)
    (hmade : ∀ caller entries, .persist caller (.write entries) ∈ made →
      Addressed fun n e => (n, e) ∈ entries) : Sound m' (A ++ (made ++ B)) := by
  refine ⟨hservices, hdisk, fun caller entries hmem => ?_⟩
  rcases mem_after.mp hmem with hmem | hmem
  · exact hmade caller entries hmem
  · exact h.writes caller entries (mem_of_mem_rest hmem)

theorem not_write_of_isFiling {g : Frame} (hg : g.isFiling = false) {entries : Entries}
    (h : .persist caller (.write entries) ∈ [g]) :
    Addressed fun n e => (n, e) ∈ entries := by
  cases mem_singleton.mp h
  cases hg

/-- **Every section keeps them.** -/
theorem Sound.step (h : Sound m (A ++ f :: B)) (heffect : Effect m o f m' made)
    (hK : ValidHosts m (A ++ f :: B) f o) : Sound m' (A ++ (made ++ B)) := by
  cases heffect with
  | idle hf hmade =>
    refine h.advance h.services h.disk fun caller entries hmem => ?_
    cases hmade _ hmem
  | store caller port opts svc hsvc hlo hhi hclaimant =>
    subst hsvc
    refine h.advance (h.services.insert ⟨hK, hlo, hhi⟩ fun n other => ?_) h.disk (by simp)
    exact free_of_claimant hclaimant
  | delete name => exact h.advance (h.services.erase name) h.disk (by simp)
  | health name healthy svc hsvc =>
    -- the service keeps its address, which was its own
    obtain ⟨svc', heq, hproper⟩ := h.services.proper name _ hsvc
    cases heq
    refine h.advance (h.services.insert hproper fun n other hother hne haddress => hne ?_) h.disk
      (by simp)
    exact h.services.unique n name other svc hother hsvc haddress.1 haddress.2
  | clear g hg =>
    refine h.advance (addressed_of_not fun n e he => by cases he) h.disk
      fun caller entries hmem => ?_
    rw [mem_singleton, hg] at hmem
    split_ifs at hmem
  | inMemory caller hdir hg =>
    exact h.advance h.services h.disk fun _ _ => not_write_of_isFiling hg
  | lock caller hlock => exact h.advance h.services h.disk (by simp)
  | snapshot caller =>
    refine h.advance h.services h.disk fun caller entries hmem => ?_
    cases mem_singleton.mp hmem
    exact h.services.marshal
  | noSnapshot caller herr hg =>
    exact h.advance h.services h.disk fun _ _ => not_write_of_isFiling hg
  | write caller entries hg =>
    refine h.advance h.services ?_ fun _ _ => not_write_of_isFiling hg
    exact h.writes caller entries mem_subject
  | noWrite caller entries herr hg =>
    exact h.advance h.services h.disk fun _ _ => not_write_of_isFiling hg
  | remove hlock =>
    refine h.advance h.services ?_ (by simp)
    by_cases hremoved : o.removed = true
    · rw [if_pos hremoved]
      exact addressed_of_not fun n e he => he
    · rw [if_neg hremoved]
      exact h.disk

theorem sound_newRegistry (h : Addressed disk.Has) (registryDir : String) (defaultHost : Bytes)
    (readable movable : Bool) :
    Sound (newRegistry registryDir defaultHost disk readable movable) [] := by
  have hnone : ∀ n e, ¬ Services.Has ∅ n e := fun n e he => by cases he
  refine ⟨?_, ?_, fun caller entries hmem => by cases hmem⟩
  · have hservices : (newRegistry registryDir defaultHost disk readable movable).services =
        if registryDir = "" ∨ readable = false then ∅ else disk.stored := rfl
    rw [hservices]
    by_cases hread : registryDir = "" ∨ readable = false
    · rw [if_pos hread]
      exact addressed_of_not hnone
    · rw [if_neg hread]
      exact h.stored
  · cases disk with
    | corrupt =>
      refine addressed_of_not fun n e he => ?_
      rw [newRegistry] at he
      split_ifs at he <;> exact he
    | absent | services => exact h

theorem sound_of_lived {registryDir : String} {s : State Memory Frame}
    (h : Lived ValidHosts registryDir s) : Sound s.memory s.frames := by
  induction h with
  | start defaultHost readable movable =>
    exact sound_newRegistry (addressed_of_not (R := Disk.absent.Has) fun n e he => he) _
      defaultHost readable movable
  | run hlived hreach ih =>
    refine reach_induction ih (fun m F c hm => ?_)
      (fun m A f B o m' made hm hK hstep => hm.step (effect_of_step hstep) hK) hreach
    refine ⟨hm.services, hm.disk, fun caller entries hmem => ?_⟩
    rcases mem_append.mp hmem with hmem | hmem
    · exact hm.writes caller entries hmem
    · have heq := mem_singleton.mp hmem
      cases c <;> cases heq
  | restart defaultHost readable movable hlived ih => exact sound_newRegistry ih.disk _ _ _ _

/-- **No address is handed to two services**: in every run of `Register`, `Discover`, `Unregister`,
`UpdateHealth` and `Clear` with valid hosts, through all restarts and whatever fails, no two
services of different names have one host and port, every port is a port, no stored entry is nil,
and a `Register` that is rejected leaves everything as it was. -/
theorem addresses_unique (registryDir : String) {s : State Memory Frame}
    (h : Lived ValidHosts registryDir s) :
    (∀ n n' svc svc', s.memory.services.lookup n = some (some svc) →
      s.memory.services.lookup n' = some (some svc') → n ≠ n' →
      ¬ (svc.host = svc'.host ∧ svc.port = svc'.port)) ∧
    (∀ n svc, s.memory.services.lookup n = some (some svc) → 1 ≤ svc.port ∧ svc.port ≤ 65535) ∧
    (∀ n, s.memory.services.lookup n ≠ some none) ∧
    ∀ caller port opts o m' err,
      step s.memory o (.register caller port opts) = some (m', [.ret none (some err)]) →
        m' = s.memory := by
  have hsound := (sound_of_lived h).services
  refine ⟨fun n n' svc svc' hsvc hsvc' hne haddress => hne ?_, fun n svc hsvc => ?_,
    fun n hn => ?_, fun caller port opts o m' err hstep => ?_⟩
  · exact hsound.unique n n' svc svc' hsvc hsvc' haddress.1 haddress.2
  · obtain ⟨svc', heq, hproper⟩ := hsound.proper n _ hsvc
    cases heq
    exact hproper.2
  · obtain ⟨svc', heq, -⟩ := hsound.proper n _ hn
    cases heq
  · exact eq_of_rejected (some_inj.mp hstep)

def Memory.sharesAddress (m : Memory) (n n' : Bytes) : Bool :=
  (m.services.lookup n).join.any fun svc => (m.services.lookup n').join.any fun svc' =>
    svc.host == svc'.host && svc.port == svc'.port

/-- Two services of one host that are found again after a restart, at two addresses. -/
theorem addresses_unique_restarted : ∃ s svc svc', Lived ValidHosts "/srv" s ∧
    s.memory.services.lookup (utf8 "api") = some (some svc) ∧
    s.memory.services.lookup (utf8 "web") = some (some svc') ∧
    ¬(svc.host = svc'.host ∧ svc.port = svc'.port) := by
  obtain ⟨s, hs, hapi, hweb⟩ : ∃ s, serviceRegistry.system.Reach (Meets ValidHosts)
      ⟨newRegistry "/srv" (utf8 "localhost") .absent true true, []⟩ s ∧
      ((newRegistry "/srv" (utf8 "localhost") s.memory.disk true true).services.lookup
        (utf8 "api")).join.isSome = true ∧
      ((newRegistry "/srv" (utf8 "localhost") s.memory.disk true true).services.lookup
        (utf8 "web")).join.isSome = true :=
    Reach.exists_of_runMeeting (registerAlone 0 (utf8 "api") (utf8 "gpu") 8080
      (registerAlone 1 (utf8 "web") (utf8 "gpu") 8081 [])) (by decide +kernel)
  have hlived : Lived ValidHosts "/srv"
      ⟨newRegistry "/srv" (utf8 "localhost") s.memory.disk true true, []⟩ :=
    .restart (utf8 "localhost") true true (.run (.start (utf8 "localhost") true true) hs)
  obtain ⟨svc, hsvc⟩ := isSome_iff_exists.mp hapi
  obtain ⟨svc', hsvc'⟩ := isSome_iff_exists.mp hweb
  have hlookup := join_eq_some_iff.mp hsvc
  have hlookup' := join_eq_some_iff.mp hsvc'
  exact ⟨_, svc, svc', hlived, hlookup, hlookup',
    (addresses_unique "/srv" hlived).1 _ _ svc svc' hlookup hlookup' (by decide)⟩

/-- **An address is shared**: two hosts that differ in a byte that is not UTF-8 are two addresses in
memory, and one after a restart. -/
theorem address_shared : ∃ s svc svc', Lived anyhow "/srv" s ∧
    s.memory.services.lookup (utf8 "a") = some (some svc) ∧
    s.memory.services.lookup (utf8 "b") = some (some svc') ∧
    svc.host = svc'.host ∧ svc.port = svc'.port := by
  obtain ⟨s, hs, htest⟩ : ∃ s, serviceRegistry.system.Reach (Meets anyhow)
      ⟨newRegistry "/srv" (utf8 "localhost") .absent true true, []⟩ s ∧
      (newRegistry "/srv" (utf8 "localhost") s.memory.disk true true).sharesAddress
        (utf8 "a") (utf8 "b") = true :=
    Reach.exists_of_runMeeting
      (registerAlone 0 (utf8 "a") [0xff] 8080 (registerAlone 1 (utf8 "b") [0xfe] 8080 []))
      (by decide +kernel)
  have hlived : Lived anyhow "/srv"
      ⟨newRegistry "/srv" (utf8 "localhost") s.memory.disk true true, []⟩ :=
    .restart (utf8 "localhost") true true (.run (.start (utf8 "localhost") true true) hs)
  obtain ⟨svc, hsvc, htest⟩ := (any_eq_true _ _).mp htest
  obtain ⟨svc', hsvc', htest⟩ := (any_eq_true _ _).mp htest
  simp only [Bool.and_eq_true, beq_iff_eq] at htest
  exact ⟨_, svc, svc', hlived, join_eq_some_iff.mp hsvc, join_eq_some_iff.mp hsvc',
    htest⟩

end Containers.ServiceRegistry
