import Containers.ServiceRegistry.Calls

/-!
# The file follows the memory

A call that changes the map writes the file afterwards, in a section of its own, and the second
mutex keeps the writers in order: a snapshot is taken and written before the next one is taken. So
when the last change is followed by a snapshot, the file is what the memory is once all calls have
returned.

`Clear` is different: it changes the map and then removes the file, whatever the map is by then. A
`Register` that runs as a whole in between is in memory and not in the file (`registration_lost`).
So a file is to be removed only while the map is still empty, or while another call is still to take
its snapshot (`file_follows`). And a file is a JSON text, so the names and the texts of the services
are to be valid UTF-8.
-/

namespace Containers.ServiceRegistry

open Go ThreadSystem Sections List AList

variable {services : Services} {registryDir : String} {svc : Service}

/-! ### Reading back what was written -/

def Service.Valid (svc : Service) : Prop :=
  (IsValidUtf8 svc.name ∧ IsValidUtf8 svc.host ∧ IsValidUtf8 svc.protocol ∧
    IsValidUtf8 svc.healthPath ∧ IsValidUtf8 svc.healthType) ∧
  ∀ e ∈ svc.labels.entries, IsValidUtf8 e.1 ∧ IsValidUtf8 e.2

instance (svc : Service) : Decidable svc.Valid :=
  inferInstanceAs (Decidable ((_ ∧ _ ∧ _ ∧ _ ∧ _) ∧ ∀ e ∈ svc.labels.entries, _))

/-- Two services are **the same**, up to the order in which the labels are kept. -/
def Service.Same (a b : Service) : Prop :=
  { a with labels := b.labels } = b ∧ ∀ k, a.labels.lookup k = b.labels.lookup k

theorem Service.Same.refl (svc : Service) : svc.Same svc := ⟨rfl, fun _ => rfl⟩

theorem Service.Valid.same_stored (h : svc.Valid) : svc.stored.Same svc := by
  obtain ⟨⟨hname, hhost, hprotocol, hpath, htype⟩, hlabels⟩ := h
  refine ⟨?_, fun k => ?_⟩
  · rw [Service.stored, hname, hhost, hprotocol, hpath, htype]
  · have hvalid : ∀ k v, svc.labels.lookup k = some v → IsValidUtf8 k ∧ IsValidUtf8 v :=
      fun k v hv => hlabels ⟨k, v⟩ (GoMap.mem_entries_of_lookup hv)
    have hread : (unmarshalMap (marshalMap toValidUtf8 svc.labels)).lookup k =
        (svc.labels.lookup k).map toValidUtf8 := by
      refine lookup_unmarshalMap_marshalMap (fun k hk => ?_) k
      obtain ⟨v, hv⟩ := Option.isSome_iff_exists.mp (lookup_isSome.mpr hk)
      exact (hvalid k v hv).1
    rw [Service.stored, hread]
    rcases hk : svc.labels.lookup k with _ | v
    · rfl
    · exact congrArg some (hvalid k v hk).2

/-- Every entry is a service, with valid texts and under a valid name. -/
def Services.Valid (services : Services) : Prop :=
  ∀ n e, services.lookup n = some e → IsValidUtf8 n ∧ ∃ svc, e = some svc ∧ svc.Valid

/-- **A stored map is the map in memory.** -/
def Stores (stored services : Services) : Prop :=
  ∀ n, Option.Rel (Option.Rel Service.Same) (stored.lookup n) (services.lookup n)

theorem Stores.refl (services : Services) : Stores services services := by
  intro n
  rcases services.lookup n with _ | _ | svc
  · exact .none
  · exact .some .none
  · exact .some (.some (.refl svc))

/-- **What is written is read back as it was.** -/
theorem stores_load_marshal (h : Services.Valid services) :
    Stores (load (marshal services)) services := by
  have hread : ∀ n, (unmarshalMap (marshal services)).lookup n =
      (services.lookup n).map (Option.map Service.stored) := by
    refine lookup_unmarshalMap_marshalMap fun n hn => ?_
    obtain ⟨e, he⟩ := Option.isSome_iff_exists.mp (lookup_isSome.mpr hn)
    exact (h n e he).1
  intro n
  rcases hn : services.lookup n with _ | e
  · have hnone : (load (marshal services)).lookup n = none := by
      refine Option.eq_none_iff_forall_ne_some.mpr fun e he => ?_
      have hlookup := (lookup_load.mp he).1
      rw [hread, hn] at hlookup
      cases hlookup
    rw [hnone]
    exact .none
  · obtain ⟨-, svc, rfl, hsvc⟩ := h n e hn
    have hsome : (load (marshal services)).lookup n = some (some svc.stored) := by
      refine lookup_load.mpr ⟨?_, rfl⟩
      rw [hread, hn]
      rfl
    rw [hsome]
    exact .some (.some hsvc.same_stored)

theorem Services.Valid.insert (h : Services.Valid services) {n : Bytes} (hn : IsValidUtf8 n)
    (hsvc : svc.Valid) : Services.Valid (services.insert n (some svc)) := by
  intro k e he
  rcases GoMap.lookup_insert_iff.mp he with ⟨rfl, rfl⟩ | ⟨-, he⟩
  · exact ⟨hn, svc, rfl, hsvc⟩
  · exact h k e he

theorem Services.Valid.erase (h : Services.Valid services) (n : Bytes) :
    Services.Valid (services.erase n) :=
  fun k e he => h k e (GoMap.lookup_erase_iff.mp he).2

theorem Services.valid_empty : Services.Valid ∅ := by
  intro k e he
  cases he

/-! ### The calls in flight -/

def Frame.isPending : Frame → Bool
  | .persist _ .enter => true
  | .persist _ .snapshot => true
  | _ => false

/-- The call is still to take its snapshot, or to remove the file. -/
def Frame.isToCome : Frame → Bool
  | .remove => true
  | f => f.isPending

/-- The call has the second mutex, in between two sections. -/
def Frame.holds : Frame → Bool
  | .persist _ .snapshot => true
  | .persist _ (.write _) => true
  | _ => false

/-- **Nothing is written over**: every operation on a file succeeds, the texts are valid, and a
`Clear` removes the file only while the map is empty or another call is still to take its
snapshot. -/
def Undisturbed : Condition Memory Frame Answer
  | m, _, .register caller port opts, _ =>
      IsValidUtf8 caller.name ∧ (newService m.defaultHost caller.name port opts).Valid
  | _, _, .persist _ .snapshot, o => o.marshalErr = none
  | _, _, .persist _ (.write _), o => o.writeErr.isNone = true
  | m, F, .remove, o =>
      o.removed = true ∧ (m.services.entries.isEmpty = true ∨ F.any Frame.isPending = true)
  | _, _, _, _ => True

instance : ∀ m F f o, Decidable (Undisturbed m F f o) := fun m F f o =>
  match f with
  | .register caller port opts => inferInstanceAs (Decidable
      (IsValidUtf8 caller.name ∧ (newService m.defaultHost caller.name port opts).Valid))
  | .persist _ .snapshot => inferInstanceAs (Decidable (o.marshalErr = none))
  | .persist _ (.write _) => inferInstanceAs (Decidable (o.writeErr.isNone = true))
  | .remove => inferInstanceAs (Decidable (o.removed = true ∧
      (m.services.entries.isEmpty = true ∨ F.any Frame.isPending = true)))
  | .persist _ .enter | .unregister _ | .updateHealth _ _ | .discover _ _ _ | .discovering _ _ _ _
  | .get _ | .clear | .ret _ _ | .panicked => .isTrue trivial

/-- **The file follows**: when no call is still to take a snapshot or to remove the file, then what
is written is what is in memory, and so is what is in the file when nothing is being written. -/
def Fresh (m : Memory) (F : List Frame) : Prop :=
  (∀ f ∈ F, f.isToCome = false) →
    (∀ caller entries, .persist caller (.write entries) ∈ F → Stores (load entries) m.services) ∧
    ((∀ f ∈ F, f.holds = false) → Stores m.disk.stored m.services)

structure Follows (m : Memory) (F : List Frame) : Prop where
  dir : m.registryDir ≠ ""
  lock : F.countP Frame.holds = m.persistMu.toNat
  valid : Services.Valid m.services
  fresh : Fresh m F

variable {m m' : Memory} {o : Answer} {A B made : List Frame} {f g : Frame}

theorem not_toCome_of_not_filing (hg : g.isFiling = false) : g.isToCome = false := by
  cases g <;> first | rfl | cases hg

theorem not_holds_of_not_filing (hg : g.isFiling = false) : g.holds = false := by
  cases g <;> first | rfl | cases hg

theorem not_pending_of_not_toCome (hg : g.isToCome = false) : g.isPending = false := by
  cases g <;> first | exact hg | rfl

theorem Follows.lock_rest (h : Follows m (A ++ f :: B)) :
    (A ++ B).countP Frame.holds + f.holds.toNat = m.persistMu.toNat := by
  rw [← h.lock, countP_append, countP_append, countP_cons]
  cases f.holds <;> simp [Nat.add_assoc]

theorem Follows.not_holds (h : Follows m (A ++ f :: B))
    (hf : f.holds = true ∨ m.persistMu = false) : ∀ g ∈ A ++ B, g.holds = false := by
  have hlock := h.lock_rest
  have hzero : (A ++ B).countP Frame.holds = 0 := by
    rcases hf with hf | hf
    · have hle := Bool.toNat_le m.persistMu
      rw [hf, Bool.toNat_true] at hlock
      omega
    · rw [hf, Bool.toNat_false] at hlock
      omega
  intro g hg
  exact Bool.eq_false_iff.mpr (countP_eq_zero.mp hzero g hg)

/-- **One section**, from what it does to the mutex, to the map and to what is still to come. -/
theorem Follows.advance (h : Follows m (A ++ f :: B)) (hdir : m'.registryDir = m.registryDir)
    (hlock : made.countP Frame.holds + m.persistMu.toNat = f.holds.toNat + m'.persistMu.toNat)
    (hvalid : Services.Valid m'.services) (hfresh : Fresh m' (A ++ (made ++ B))) :
    Follows m' (A ++ (made ++ B)) := by
  refine ⟨by rw [hdir]; exact h.dir, ?_, hvalid, hfresh⟩
  have hrest := h.lock_rest
  rw [countP_append] at hrest
  rw [countP_append, countP_append]
  omega

theorem fresh_of_toCome (hg : g ∈ made) (hcome : g.isToCome = true) :
    Fresh m' (A ++ (made ++ B)) := by
  intro hnone
  have hfalse := hnone g (mem_after.mpr (.inl hg))
  exact absurd (hfalse.symm.trans hcome) Bool.false_ne_true

theorem write_mem_of_rest (hmade : ∀ g ∈ made, g.isFiling = false) {caller : Caller}
    {entries : Entries} (h : Frame.persist caller (.write entries) ∈ A ++ (made ++ B)) :
    Frame.persist caller (.write entries) ∈ A ++ B := by
  refine (mem_after.mp h).resolve_left fun hmem => ?_
  cases hmade _ hmem

theorem fresh_snapshot (hvalid : Services.Valid m.services) (hrest : ∀ g ∈ A ++ B, g.holds = false)
    (caller : Caller) :
    Fresh m (A ++ ([Frame.persist caller (.write (marshal m.services))] ++ B)) := by
  refine fun _ => ⟨fun caller' entries hmem => ?_, fun hholds => ?_⟩
  · rcases mem_after.mp hmem with hmem | hmem
    · cases mem_singleton.mp hmem
      exact stores_load_marshal hvalid
    · cases hrest _ hmem
  · cases hholds _ (mem_after.mpr (.inl (mem_singleton_self _)))

theorem fresh_remove (hrest : ∀ g ∈ A ++ B, g.holds = false)
    (hK : m.services.entries.isEmpty = true ∨
      (A ++ Frame.remove :: B).any Frame.isPending = true) :
    Fresh { m with disk := .absent } (A ++ ([Frame.ret none none] ++ B)) := by
  refine fun hcome => ⟨fun caller entries hmem => ?_, fun _ => ?_⟩
  · have hmade : ∀ g ∈ [Frame.ret none none], g.isFiling = false :=
      forall_mem_singleton.mpr rfl
    cases hrest _ (write_mem_of_rest hmade hmem)
  · rcases hK with hempty | hpending
    · have hnil : m.services = ∅ := ext (isEmpty_iff.mp hempty)
      rw [hnil]
      exact Stores.refl ∅
    · obtain ⟨g, hg, hpending⟩ := any_eq_true.mp hpending
      have hnot : ∀ g ∈ A ++ Frame.remove :: B, g.isPending = false :=
        forall_mem_before rfl fun g hg =>
          not_pending_of_not_toCome (forall_mem_rest hcome g hg)
      rw [hnot g hg] at hpending
      cases hpending

/-- **Every section keeps it.** -/
theorem Follows.step (h : Follows m (A ++ f :: B)) (heffect : Effect m o f m' made)
    (hK : Undisturbed m (A ++ f :: B) f o) : Follows m' (A ++ (made ++ B)) := by
  cases heffect with
  | idle hf hmade =>
    have hnone : made.countP Frame.holds = 0 := countP_eq_zero.mpr fun g hg =>
      Bool.eq_false_iff.mp (not_holds_of_not_filing (hmade g hg))
    refine h.advance rfl ?_ h.valid fun hcome => ?_
    · rw [hnone, not_holds_of_not_filing hf]
      rfl
    · obtain ⟨hwrites, hdisk⟩ :=
        h.fresh (forall_mem_before (not_toCome_of_not_filing hf) (forall_mem_rest hcome))
      refine ⟨fun caller entries hmem => ?_, fun hholds => hdisk ?_⟩
      · exact hwrites caller entries (mem_of_mem_rest (write_mem_of_rest hmade hmem))
      · exact forall_mem_before (not_holds_of_not_filing hf) (forall_mem_rest hholds)
  | store caller port opts svc hsvc _ _ _ =>
    subst hsvc
    exact h.advance rfl rfl (h.valid.insert hK.1 hK.2)
      (fresh_of_toCome (mem_singleton_self _) rfl)
  | delete name =>
    exact h.advance rfl rfl (h.valid.erase name) (fresh_of_toCome (mem_singleton_self _) rfl)
  | health name healthy svc hsvc =>
    obtain ⟨hname, svc', heq, hvalid⟩ := h.valid name _ hsvc
    cases heq
    exact h.advance rfl rfl (h.valid.insert hname hvalid)
      (fresh_of_toCome (mem_singleton_self _) rfl)
  | clear g hg =>
    rw [if_neg h.dir] at hg
    subst hg
    exact h.advance rfl rfl Services.valid_empty (fresh_of_toCome (mem_singleton_self _) rfl)
  | inMemory caller hdir hg => exact absurd hdir h.dir
  | lock caller hlock =>
    refine h.advance rfl ?_ h.valid (fresh_of_toCome (mem_singleton_self _) rfl)
    rw [hlock]
    rfl
  | snapshot caller =>
    exact h.advance rfl rfl h.valid (fresh_snapshot h.valid (h.not_holds (.inl rfl)) caller)
  | noSnapshot caller herr hg => exact absurd hK herr
  | write caller entries hg =>
    have hlock : m.persistMu = true := by
      have hrest := h.lock_rest
      rcases hmu : m.persistMu with _ | _
      · rw [hmu] at hrest
        cases hrest
      · rfl
    refine h.advance rfl ?_ h.valid fun hcome => ?_
    · rw [hlock, countP_singleton, not_holds_of_not_filing hg]
      rfl
    · obtain ⟨hwrites, -⟩ := h.fresh (forall_mem_before rfl (forall_mem_rest hcome))
      refine ⟨fun caller entries hmem => ?_, fun _ => ?_⟩
      · exact hwrites caller entries (mem_of_mem_rest
          (write_mem_of_rest (forall_mem_singleton.mpr hg) hmem))
      · exact hwrites caller entries mem_subject
  | noWrite caller entries herr hg =>
    exact absurd (Option.isNone_iff_eq_none.mp hK) herr
  | remove hlock =>
    refine h.advance rfl (by rw [hlock]; rfl) h.valid ?_
    rw [if_pos hK.1]
    exact fresh_remove (h.not_holds (.inr hlock)) hK.2

theorem follows_of_reached {m₀ : Memory} {s : State Memory Frame} (hdir : m₀.registryDir ≠ "")
    (hmu : m₀.persistMu = false) (hvalid : Services.Valid m₀.services)
    (hstores : Stores m₀.disk.stored m₀.services) (h : serviceRegistry.Reached Undisturbed m₀ s) :
    Follows s.memory s.frames := by
  refine Reached.induction (I := Follows) ⟨hdir, by rw [hmu]; rfl, hvalid, fun _ => ?_⟩
    (fun m F c hm => ?_)
    (fun m A f B o m' made hm hK hstep => hm.step (effect_of_step hstep) hK) h
  · refine ⟨fun caller entries hmem => ?_, fun _ => hstores⟩
    cases hmem
  · have hfiling : (serviceRegistry.call m c).isFiling = false := by cases c <;> rfl
    refine ⟨hm.dir, ?_, hm.valid, fun hcome => ?_⟩
    · rw [countP_append, countP_singleton, not_holds_of_not_filing hfiling, hm.lock]
      rfl
    · obtain ⟨hwrites, hdisk⟩ := hm.fresh fun f hf => hcome f (mem_append_left _ hf)
      refine ⟨fun caller entries hmem => ?_, fun hholds =>
        hdisk fun f hf => hholds f (mem_append_left _ hf)⟩
      rcases mem_append.mp hmem with hmem | hmem
      · exact hwrites caller entries hmem
      · rw [← mem_singleton.mp hmem] at hfiling
        cases hfiling

theorem services_newRegistry (hdir : registryDir ≠ "") (defaultHost : Bytes) (disk : Disk) :
    (newRegistry registryDir defaultHost disk true true).services = disk.stored :=
  if_neg (by simp [hdir])

theorem stores_newRegistry (hdir : registryDir ≠ "") (defaultHost : Bytes) (disk : Disk) :
    Stores (newRegistry registryDir defaultHost disk true true).disk.stored
      (newRegistry registryDir defaultHost disk true true).services := by
  rw [services_newRegistry hdir]
  cases disk with
  | corrupt =>
    have hdisk : (newRegistry registryDir defaultHost .corrupt true true).disk = .absent :=
      if_neg (by simp [hdir])
    rw [hdisk]
    exact Stores.refl ∅
  | absent | services => exact Stores.refl _

/-- **The file follows the memory**: when the operations on files succeed, the texts are valid, and
the file is removed only while the map is empty or another call is still to take its snapshot, then
once no call is in flight the map that is stored is the map in memory. -/
theorem file_follows {registryDir : String} (hdir : registryDir ≠ "") (defaultHost : Bytes)
    (disk : Disk) (hdisk : Services.Valid disk.stored) {s : State Memory Frame}
    (h : serviceRegistry.Reached Undisturbed (newRegistry registryDir defaultHost disk true true) s)
    (hquiet : s.frames = []) (n : Bytes) :
    Option.Rel (Option.Rel Service.Same) (s.memory.disk.stored.lookup n)
      (s.memory.services.lookup n) := by
  have hfollows := follows_of_reached (by exact hdir) rfl
    (by rw [services_newRegistry hdir]; exact hdisk)
    (stores_newRegistry hdir defaultHost disk) h
  have hfresh := hfollows.fresh
  rw [hquiet] at hfresh
  exact (hfresh (forall_mem_nil _)).2 (forall_mem_nil _) n

/-- Two services are registered, the second while the first is stored already. -/
theorem file_follows_registered : ∃ s, serviceRegistry.Reached Undisturbed
      (newRegistry "/srv" (utf8 "localhost") .absent true true) s ∧
    s.memory.services.keys.length = 2 ∧ ∀ n,
      Option.Rel (Option.Rel Service.Same) (s.memory.disk.stored.lookup n)
        (s.memory.services.lookup n) := by
  obtain ⟨s, hs, hquiet, htwo⟩ : ∃ s, serviceRegistry.Reached Undisturbed
      (newRegistry "/srv" (utf8 "localhost") .absent true true) s ∧
      s.frames = [] ∧ s.memory.services.keys.length = 2 :=
    Reached.of_run (registerAlone 0 (utf8 "api") (utf8 "gpu") 8080
      (registerAlone 1 (utf8 "web") (utf8 "gpu") 8081 [])) (by decide +kernel)
  exact ⟨s, hs, htwo, file_follows (by decide) (utf8 "localhost") .absent Services.valid_empty hs
    hquiet⟩

def Succeeding : Condition Memory Frame Answer :=
  fun _ _ _ o => o.marshalErr = none ∧ o.writeErr.isNone = true ∧ o.removed = true

instance : ∀ m F f o, Decidable (Succeeding m F f o) := fun _ _ _ o =>
  inferInstanceAs (Decidable (o.marshalErr = none ∧ o.writeErr.isNone = true ∧ o.removed = true))

/-- **A registration is lost**: a `Register` runs as a whole between the two sections of a `Clear`.
The service is in memory, all calls have returned, and there is no file. -/
theorem registration_lost : ∃ s, serviceRegistry.Reached Succeeding
      (newRegistry "/srv" (utf8 "localhost") .absent true true) s ∧ s.frames = [] ∧
    s.memory.services.keys = [utf8 "api"] ∧ s.memory.disk.stored.keys = [] := by
  exact Reached.of_run (.call .clear :: .step 0 (0, {}) ::
    registerAlone 1 (utf8 "api") (utf8 "gpu") 8080 [.step 0 (0, {}), .step 0 (0, {})])
    (by decide +kernel)

end Containers.ServiceRegistry
