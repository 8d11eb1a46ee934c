import Containers.Volume.Calls

/-!
# No mount is lost

What is mounted on a host should be found in the registry, so that it can be unmounted. The commands
of a `Mount` and of an `Unmount` run without the lock, and an `Unmount` takes over an entry in any
state but *unmounting*, a pending one included. So the two commands can run in either order, and the
entry goes with the `Unmount`: a mount that takes effect after that is in no registry
(`mount_lost`).

When every `Mount` has returned before its entry is unmounted, each entry belongs to one call at a
time, and nothing is mounted on its directory until its command has run. Then every directory that
is mounted has an entry, at any time (`mounts_kept`).
-/

namespace Containers.Volume

open Go ThreadSystem Sections List Option

namespace VolumeCalls

variable {hostName remotePath : String} {v : VolumeMount}

/-- The last operation that took effect on a directory of a host was a mount. -/
def Memory.isMounted (m : Memory) (hostName remotePath : String) : Bool :=
  (m.ops.find? fun op => op.hostName = hostName ∧ op.remotePath = remotePath).any Op.mounted

def Memory.isMountedAt (m : Memory) (x : ℕ) : Bool :=
  m.isMounted (m.info x).mount.hostName (m.info x).mount.remotePath

def Memory.Holds (m : Memory) (x : ℕ) : Prop := m.mounts.lookup (m.info x).mount.name = some x

def Memory.Covers (m : Memory) (hostName remotePath : String) : Prop :=
  ∃ n x, m.mounts.lookup n = some x ∧ (m.info x).mount.hostName = hostName ∧
    (m.info x).mount.remotePath = remotePath

/-- **Mounts are unmounted after they have returned**, and they are live ones. -/
def Through : Condition Memory Frame Answer
  | _, _, .mountEnter v, _ => isLive v = true
  | m, F, .unmountEnter name _, _ => ∀ x ∈ m.mounts.lookup name, x ∉ F.filterMap Frame.mounting
  | _, _, _, _ => True

instance : ∀ m F f o, Decidable (Through m F f o) := fun m _ f _ =>
  match f with
  | .mountEnter v => inferInstanceAs (Decidable (isLive v = true))
  | .unmountEnter name _ => inferInstanceAs (Decidable (∀ x ∈ m.mounts.lookup name, _))
  | .mount _ _ | .unmount _ _ _ _ _ | .unmountAll | .unmounting _ _ | .sync _
  | .syncHost _ _ | .syncReserve _ _ _ | .syncing _ _ _ | .synced _ _ | .ret _ => .isTrue trivial

/-! ### What holds of a call in flight -/

/-- A call in flight **fits** the memory: its entry is registered and, before its own mount or after
its own unmount, not mounted. -/
def Fits (m : Memory) : Frame → Prop
  | .mount x p => m.Holds x ∧ (p.isBefore = true → m.isMountedAt x = false)
  | .unmount name x _ p _ => m.Holds x ∧ (m.info x).mount.name = name ∧
      (m.info x).state = .unmounting ∧ (p = .delete → m.isMountedAt x = false)
  | f => f.syncs = none

/-- **Everything that is mounted has an entry**, and each entry belongs to one call at a time. -/
structure Sound (m : Memory) (F : List Frame) : Prop where
  registry : Registry (fun v => isLive v = true) Distinct m
  busy : (F.filterMap Frame.busy).Nodup
  fits : ∀ f ∈ F, Fits m f
  kept : ∀ hostName remotePath, m.isMounted hostName remotePath = true →
    m.Covers hostName remotePath

variable {m m' : Memory} {A B made : List Frame} {f g : Frame} {x y : ℕ}

theorem fits_of_busy_eq_none (hg : g.busy = none) (hsyncs : g.syncs = none) : Fits m g := by
  cases g <;> first | exact hsyncs | cases hg

theorem Fits.syncs (hg : Fits m g) : g.syncs = none := by
  cases g <;> first | rfl | exact hg

theorem Fits.holds (hg : Fits m g) (hx : g.busy = some x) : m.Holds x := by
  cases g <;> cases hx
  · exact hg.1
  · exact hg.1

def Keeps (m m' : Memory) (y : ℕ) : Prop :=
  m'.Holds y ∧ m'.info y = m.info y ∧ (m.isMountedAt y = false → m'.isMountedAt y = false)

/-- **The frame rule**: a call still fits after a section that has left its entry as it was. -/
theorem Fits.frame (hg : Fits m g) (h : ∀ y, g.busy = some y → Keeps m m' y) : Fits m' g := by
  cases g with
  | mount x p =>
    obtain ⟨hholds, -, hmounted⟩ := h x rfl
    exact ⟨hholds, fun hp => hmounted (hg.2 hp)⟩
  | unmount name x prev p rest =>
    obtain ⟨hholds, hinfo, hmounted⟩ := h x rfl
    refine ⟨hholds, ?_, ?_, fun hp => hmounted (hg.2.2.2 hp)⟩
    · rw [hinfo]
      exact hg.2.1
    · rw [hinfo]
      exact hg.2.2.1
  | _ => exact hg

/-- **One section**, from what it does to the others in flight, to its own call and to what is
mounted. -/
theorem Sound.advance (h : Sound m (A ++ f :: B))
    (hregistry : Registry (fun v => isLive v = true) Distinct m')
    (hnodup : (made.filterMap Frame.busy).Nodup)
    (hown : ∀ x ∈ made.filterMap Frame.busy, f.busy = some x ∨ x ∉ (A ++ B).filterMap Frame.busy)
    (hrest : ∀ y ∈ (A ++ B).filterMap Frame.busy, f.busy ≠ some y → m.Holds y → Keeps m m' y)
    (hmade : ∀ g ∈ made, Fits m' g)
    (hkept : ∀ hostName remotePath, m'.isMounted hostName remotePath = true →
      m'.Covers hostName remotePath) : Sound m' (A ++ (made ++ B)) := by
  have hbusy := (held_perm A B f Frame.busy).nodup h.busy
  have hother : ∀ x, f.busy = some x → x ∉ (A ++ B).filterMap Frame.busy := fun x hx =>
    not_mem_held A B h.busy hx
  refine ⟨hregistry, ?_, forall_mem_made (fun g hg => ?_) hmade, hkept⟩
  · refine (held_made_perm A B made Frame.busy).symm.nodup
      (nodup_append'.mpr ⟨hnodup, (nodup_append'.mp hbusy).2.1, fun x hx hmem => ?_⟩)
    exact (hown x hx).elim (fun hf => hother x hf hmem) fun hnew => hnew hmem
  · have hfits := h.fits g (mem_of_mem_rest hg)
    refine hfits.frame fun y hy => ?_
    have hmem := mem_filterMap.mpr ⟨g, hg, hy⟩
    exact hrest y hmem (fun hf => hother y hf hmem) (hfits.holds hy)

/-! ### What the sections leave as it was -/

section Keeps

variable {P : VolumeMount → Prop} {R : VolumeMount → VolumeMount → Prop}

theorem isMounted_took (x : ℕ) (mounted : Bool) (hostName remotePath : String) :
    (m.took x mounted).isMounted hostName remotePath =
      if (m.info x).mount.hostName = hostName ∧ (m.info x).mount.remotePath = remotePath
        then mounted else m.isMounted hostName remotePath := by
  by_cases hx : (m.info x).mount.hostName = hostName ∧ (m.info x).mount.remotePath = remotePath
  · simp [Memory.isMounted, Memory.took, hx]
  · rw [if_neg hx, Memory.isMounted, Memory.took, find?_cons_of_neg (by simpa using hx)]
    rfl

theorem Keeps.refl (hy : m.Holds y) : Keeps m m y := ⟨hy, rfl, id⟩

theorem keeps_mark (hy : m.Holds y) (hne : y ≠ x) (state : MountState) (error : String) :
    Keeps m (m.mark x state error) y := by
  have hinfo := info_mark_of_ne (m := m) hne state error
  refine ⟨?_, hinfo, ?_⟩
  · rw [Memory.Holds, hinfo]
    exact hy
  · rw [Memory.isMountedAt, Memory.isMountedAt, hinfo]
    exact id

theorem keeps_took_false (hy : m.Holds y) : Keeps m (m.took x false) y := by
  refine ⟨hy, rfl, fun hmounted => ?_⟩
  rw [Memory.isMountedAt, isMounted_took]
  split_ifs
  · rfl
  · exact hmounted

theorem keeps_took_true (hm : Registry P Distinct m) (hx : m.Holds x) (hy : m.Holds y)
    (hne : y ≠ x) : Keeps m (m.took x true) y := by
  have hnames : (m.info x).mount.name ≠ (m.info y).mount.name := fun heq =>
    hne (some_inj.mp (by rw [← hy, ← heq, hx]))
  refine ⟨hy, rfl, fun hmounted => ?_⟩
  have hdistinct := hm.pair _ x _ y hx hy hnames
  rw [Memory.isMountedAt, isMounted_took]
  exact (if_neg hdistinct).trans hmounted

theorem keeps_erase (hx : m.Holds x) (hy : m.Holds y) (hne : y ≠ x) :
    Keeps m { m with mounts := m.mounts.erase (m.info x).mount.name } y := by
  refine ⟨GoMap.lookup_erase_iff.mpr ⟨fun heq => hne (some_inj.mp ?_), hy⟩, rfl, id⟩
  rw [← hy, heq, hx]

theorem keeps_reserve (hm : Registry P R m) (hv : v.name ∉ m.mounts) (hy : m.Holds y) :
    Keeps m (m.reserve v) y := by
  have hinfo : (m.reserve v).info y = m.info y := info_reserve (hm.name _ y hy).1
  refine ⟨?_, hinfo, ?_⟩
  · rw [Memory.Holds, hinfo]
    refine lookup_reserve_iff.mpr (.inr ⟨fun heq => hv ?_, hy⟩)
    exact AList.lookup_isSome.mp (by rw [← heq, hy]; rfl)
  · rw [Memory.isMountedAt, Memory.isMountedAt, hinfo]
    exact id

theorem covers_erase (hx : m.Holds x) (hunmounted : m.isMountedAt x = false)
    (hmounted : m.isMounted hostName remotePath = true) (hcovers : m.Covers hostName remotePath) :
    { m with mounts := m.mounts.erase (m.info x).mount.name }.Covers hostName remotePath := by
  obtain ⟨n, y, hy, rfl, rfl⟩ := hcovers
  refine ⟨n, y, GoMap.lookup_erase_iff.mpr ⟨fun hn => ?_, hy⟩, rfl, rfl⟩
  rw [hn, hx] at hy
  cases hy
  exact absurd (hunmounted.symm.trans hmounted) Bool.false_ne_true

end Keeps

/-! ### The sections, one by one -/

variable {o : Answer}

theorem Sound.not_busy (h : Sound m (A ++ f :: B))
    (hmounting : x ∉ (A ++ f :: B).filterMap Frame.mounting)
    (hstate : (m.info x).state ≠ .unmounting) : x ∉ (A ++ B).filterMap Frame.busy := by
  intro hx
  obtain ⟨g, hg, hx⟩ := mem_filterMap.mp hx
  have hmem : g ∈ A ++ f :: B := mem_of_mem_rest hg
  have hfits := h.fits g hmem
  cases g <;> cases hx
  · exact hmounting (mem_filterMap.mpr ⟨_, hmem, rfl⟩)
  · exact hstate hfits.2.2.1

theorem Sound.advance_one (h : Sound m (A ++ f :: B))
    (hregistry : Registry (fun v => isLive v = true) Distinct m')
    (hown : ∀ x, g.busy = some x → f.busy = some x ∨ x ∉ (A ++ B).filterMap Frame.busy)
    (hrest : ∀ y ∈ (A ++ B).filterMap Frame.busy, f.busy ≠ some y → m.Holds y → Keeps m m' y)
    (hmade : Fits m' g)
    (hkept : ∀ hostName remotePath, m'.isMounted hostName remotePath = true →
      m'.Covers hostName remotePath) : Sound m' (A ++ ([g] ++ B)) := by
  refine h.advance hregistry ?_ (fun x hx => hown x ?_) hrest
    (forall_mem_singleton.mpr hmade) hkept
  · exact toList_nodup _
  · exact mem_toList.mp hx

theorem covers_mark (state : MountState) (error : String) (h : m.Covers hostName remotePath) :
    (m.mark x state error).Covers hostName remotePath := by
  obtain ⟨n, y, hy, hhost, hpath⟩ := h
  refine ⟨n, y, hy, ?_, ?_⟩
  · rw [mount_mark, hhost]
  · rw [mount_mark, hpath]

theorem Sound.reserve (h : Sound m (A ++ f :: B))
    (hregistry : Registry (fun v => isLive v = true) Distinct (m.reserve v))
    (hname : v.name ∉ m.mounts) (hoccupant : m.occupant v = none) :
    Sound (m.reserve v) (A ++ ([Frame.mount m.created .host] ++ B)) := by
  have hinfo : ∀ n x, m.mounts.lookup n = some x → (m.reserve v).info x = m.info x :=
    fun n x hx => info_reserve (h.registry.name n x hx).1
  refine h.advance_one hregistry ?_ (fun y _ _ => keeps_reserve h.registry hname)
    ⟨?_, fun _ => ?_⟩ ?_
  · rintro x hx
    cases hx
    refine .inr fun hmem => ?_
    obtain ⟨g, hg, hx⟩ := mem_filterMap.mp hmem
    have hholds := (h.fits g (mem_of_mem_rest hg)).holds hx
    exact Nat.lt_irrefl _ (h.registry.name _ _ hholds).1
  · rw [Memory.Holds, info_reserve_created]
    exact lookup_reserve_iff.mpr (.inl ⟨rfl, rfl⟩)
  · rw [Memory.isMountedAt, info_reserve_created]
    refine Bool.eq_false_iff.mpr fun hmounted => ?_
    obtain ⟨n, x, hx, hhost, hpath⟩ := h.kept _ _ hmounted
    exact ne_of_occupant hoccupant hx ⟨hhost, hpath⟩
  · rintro hostName remotePath hmounted
    obtain ⟨n, x, hx, hhost, hpath⟩ := h.kept hostName remotePath hmounted
    refine ⟨n, x, lookup_reserve_iff.mpr (.inr ⟨fun hn => hname ?_, hx⟩), ?_, ?_⟩
    · exact AList.lookup_isSome.mp (by rw [← hn, hx]; rfl)
    · rw [hinfo n x hx, hhost]
    · rw [hinfo n x hx, hpath]

theorem Sound.takeOver {name : String} {rest : Rest} (h : Sound m (A ++ f :: B))
    (hregistry : Registry (fun v => isLive v = true) Distinct
      (m.mark x .unmounting (m.info x).error)) (hx : m.mounts.lookup name = some x)
    (hnot : x ∉ (A ++ B).filterMap Frame.busy) :
    Sound (m.mark x .unmounting (m.info x).error)
      (A ++ ([Frame.unmount name x (m.info x).state .host rest] ++ B)) := by
  have hname : (m.info x).mount.name = name := (h.registry.name name x hx).2
  refine h.advance_one hregistry ?_ ?_ ⟨?_, ?_, ?_, by simp⟩
    fun hostName remotePath hmounted => covers_mark _ _ (h.kept _ _ hmounted)
  · rintro y hy
    cases hy
    exact .inr hnot
  · rintro y hmem - hy
    refine keeps_mark hy ?_ _ _
    rintro rfl
    exact hnot hmem
  · rw [Memory.Holds, mount_mark, hname]
    exact hx
  · rw [mount_mark, hname]
  · rw [info_mark_self]

section Leave

variable (hbusy : f.busy = some x) (hg : g.busy = none) (hsyncs : g.syncs = none)
include hbusy hg hsyncs

theorem Sound.mark (h : Sound m (A ++ f :: B)) (state : MountState) (error : String)
    (hregistry : Registry (fun v => isLive v = true) Distinct (m.mark x state error)) :
    Sound (m.mark x state error) (A ++ ([g] ++ B)) := by
  refine h.advance_one hregistry (by simp [hg]) (fun y _ hne hy => keeps_mark hy ?_ state error)
    (fits_of_busy_eq_none hg hsyncs)
    fun hostName remotePath hmounted => covers_mark state error (h.kept _ _ hmounted)
  rintro rfl
  exact hne hbusy

theorem Sound.erase (h : Sound m (A ++ f :: B)) (hx : m.Holds x)
    (hunmounted : m.isMountedAt x = false)
    (hregistry : Registry (fun v => isLive v = true) Distinct
      { m with mounts := m.mounts.erase (m.info x).mount.name }) :
    Sound { m with mounts := m.mounts.erase (m.info x).mount.name } (A ++ ([g] ++ B)) := by
  refine h.advance_one hregistry (by simp [hg]) (fun y _ hne hy => keeps_erase hx hy ?_)
    (fits_of_busy_eq_none hg hsyncs)
    fun hostName remotePath hmounted => covers_erase hx hunmounted hmounted (h.kept _ _ hmounted)
  rintro rfl
  exact hne hbusy

end Leave

/-- **Every section keeps it.** -/
theorem Sound.step (h : Sound m (A ++ f :: B)) (heffect : Effect m f m' made)
    (hK : Through m (A ++ f :: B) f o) : Sound m' (A ++ (made ++ B)) := by
  have hfits := h.fits f mem_subject
  have hregistry : Registry (fun v => isLive v = true) Distinct m' := by
    refine h.registry.step heffect ?_ ?_
    · rintro v rfl
      exact hK
    · rintro v n x - hoccupant hx
      have hne := ne_of_occupant hoccupant hx
      exact ⟨hne, fun heq => hne ⟨heq.1.symm, heq.2.symm⟩⟩
  cases heffect with
  | idle hf hmade =>
    -- an entry for a `Sync` is one of a copy, and all that are registered are live
    have hnone : made.filterMap Frame.busy = [] :=
      filterMap_eq_nil_iff.mpr fun g hg => (hmade g hg).1
    refine h.advance hregistry (by rw [hnone]; exact nodup_nil) (by simp [hnone])
      (fun y _ _ => Keeps.refl) (fun g hg => fits_of_busy_eq_none (hmade g hg).1 ?_) h.kept
    refine eq_none_iff_forall_not_mem.mpr fun x hx => ?_
    rcases (hmade g hg).2 x hx with hsyncs | ⟨name, hx, htype⟩
    · rw [hfits.syncs] at hsyncs
      cases hsyncs
    · have hlive := h.registry.each name x hx
      simp [isLive, htype] at hlive
  | reserve v hname hoccupant => exact h.reserve hregistry hname hoccupant
  | mountOn x hbefore =>
    exact h.advance_one hregistry (fun _ => .inl) (fun y _ _ => Keeps.refl)
      ⟨hfits.1, fun hp => hfits.2 (hbefore hp)⟩ h.kept
  | mounts x =>
    refine h.advance_one hregistry (fun _ => .inl)
      (fun y _ hne hy => keeps_took_true h.registry hfits.1 hy fun heq => hne (by rw [heq]; rfl))
      ⟨hfits.1, fun hp => absurd hp Bool.false_ne_true⟩ fun hostName remotePath hmounted => ?_
    rw [isMounted_took] at hmounted
    split_ifs at hmounted with hx
    · exact ⟨_, x, hfits.1, hx⟩
    · exact h.kept hostName remotePath hmounted
  | mountDone x err state error => exact h.mark rfl rfl rfl state error hregistry
  | unreserve x err =>
    have hunreserve : m.unreserve x = { m with mounts := m.mounts.erase (m.info x).mount.name } :=
      if_pos hfits.1
    rw [hunreserve] at hregistry ⊢
    exact h.erase rfl rfl rfl hfits.1 (hfits.2 rfl) hregistry
  | takeOver name x rest hx hstate =>
    exact h.takeOver hregistry hx (h.not_busy (hK x hx) hstate)
  | unmountOn name x prev rest hp =>
    exact h.advance_one hregistry (fun _ => .inl) (fun y _ _ => Keeps.refl)
      ⟨hfits.1, hfits.2.1, hfits.2.2.1, fun heq => absurd heq hp⟩ h.kept
  | unmounts name x prev rest =>
    refine h.advance_one hregistry (fun _ => .inl) (fun y _ _ => keeps_took_false)
      ⟨hfits.1, hfits.2.1, hfits.2.2.1, fun _ => ?_⟩ fun hostName remotePath hmounted => ?_
    · exact (isMounted_took x false _ _).trans (if_pos ⟨rfl, rfl⟩)
    · rw [isMounted_took] at hmounted
      split_ifs at hmounted
      exact h.kept hostName remotePath hmounted
  | leave name x prev rest hm =>
    rcases hm with rfl | ⟨state, error, rfl⟩
    · exact h.advance_one hregistry (by simp) (fun y _ _ => Keeps.refl)
        (fits_of_busy_eq_none (busy_unmounted _ _) (syncs_unmounted _ _)) h.kept
    · exact h.mark rfl (busy_unmounted _ _) (syncs_unmounted _ _) state error hregistry
  | delete name x prev rest =>
    obtain ⟨hholds, rfl, -, hunmounted⟩ := hfits
    exact h.erase rfl (busy_unmounted _ _) (syncs_unmounted _ _) hholds (hunmounted rfl) hregistry
  | sync x state error hf hsyncs =>
    rw [hfits.syncs] at hsyncs
    cases hsyncs

variable {localHostAddress : String} {s : State Memory Frame}

theorem sound_of_reached (h : (volumeManager localHostAddress).Reached Through {} s) :
    Sound s.memory s.frames := by
  refine Reached.induction ⟨Registry.empty, nodup_nil, forall_mem_nil _, ?_⟩
    ?_ ?_ h
  · intro hostName remotePath hmounted
    cases hmounted
  · intro m F c hm
    have hbusy : c.frame.busy = none := by cases c <;> rfl
    have hsyncs : c.frame.syncs = none := by cases c <;> rfl
    have hheld := held_call c.frame Frame.busy F hbusy
    exact ⟨hm.registry, hheld ▸ hm.busy,
      forall_mem_call hm.fits (fits_of_busy_eq_none hbusy hsyncs), hm.kept⟩
  · intro m A f B o m' made hm hK hstep
    exact hm.step (effect_of_step hstep) hK

end VolumeCalls

open VolumeCalls

/-- **No remote mount is lost**: in every run of `Mount`, `Unmount` and `UnmountAll` with live
mounts in which an entry is unmounted only after its `Mount` has returned, whatever comes of the
commands, a directory of a host whose last operation that took effect was a mount has an entry in
the map. -/
theorem mounts_kept (localHostAddress : String) {s : State Memory Frame}
    (h : (volumeManager localHostAddress).Reached Through {} s) (hostName remotePath : String)
    (hmounted : s.memory.isMounted hostName remotePath = true) :
    ∃ n x, s.memory.mounts.lookup n = some x ∧ (s.memory.info x).mount.hostName = hostName ∧
      (s.memory.info x).mount.remotePath = remotePath :=
  (sound_of_reached h).kept hostName remotePath hmounted

/-- A `Mount` on a host, as the first call: its entry is reserved and its host is known. -/
def mountGpu (rest : List (Action (ℕ × Answer) Call)) : List (Action (ℕ × Answer) Call) :=
  .call (.mount { name := "data", hostName := "gpu", remotePath := "/data" }) :: .step 0 (0, {}) ::
    .step 0 (0, { getHost := .ok (some { name := "gpu" }) }) :: rest

/-- A mount that has taken effect and is still to be noted. -/
theorem mounts_kept_one : ∃ s, (volumeManager "10.0.0.1").Reached Through {} s ∧
    s.memory.isMounted "gpu" "/data" = true ∧ ∃ n x, s.memory.mounts.lookup n = some x ∧
      (s.memory.info x).mount.hostName = "gpu" ∧ (s.memory.info x).mount.remotePath = "/data" := by
  obtain ⟨s, hs, hmounted⟩ : ∃ s, (volumeManager "10.0.0.1").Reached Through {} s ∧
      s.memory.isMounted "gpu" "/data" = true :=
    Reached.of_run (mountGpu [.step 0 (0, {}), .step 0 (0, {})]) (by decide +kernel)
  exact ⟨s, hs, hmounted, mounts_kept "10.0.0.1" hs "gpu" "/data" hmounted⟩

/-- **A mount is lost**: an `Unmount` takes over the pending entry, its command succeeds before that
of the `Mount` and the entry is deleted; then the directory is mounted, both calls have returned,
and the map is empty. -/
theorem mount_lost : ∃ s, (volumeManager "10.0.0.1").Reached anyhow {} s ∧ s.frames = [] ∧
    s.memory.isMounted "gpu" "/data" = true ∧ s.memory.mounts.keys = [] := by
  exact Reached.of_run (mountGpu [.step 0 (0, {}), .call (.unmount "data"),
    .step 1 (0, {}), .step 1 (0, { getHost := .ok (some { name := "gpu" }) }), .step 1 (0, {}),
    .step 1 (0, {}), .step 1 (0, {}), .step 0 (0, {}), .step 0 (0, {}), .step 0 (0, {})])
    (by decide +kernel)

end Containers.Volume
