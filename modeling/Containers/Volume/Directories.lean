import Containers.Go.Paths
import Containers.Volume.Calls

/-!
# One mount for a directory

`Mount` refuses a directory of a host that another name is already mounted on, in the section that
reserves the name, so no interleaving gets past the check. The check compares the texts of the
remote paths. Two texts may denote one directory: so two mounts never share one as long as no
directory is spelled in two ways (`directories_apart`), and a slash at the end is enough for a
second mount on a directory that is taken (`directory_shared`).
-/

namespace Containers.Volume

open Go ThreadSystem Sections Filepath

namespace VolumeCalls

/-- Two mounts on different directories, up to the spelling of the paths. -/
def Apart (u v : VolumeMount) : Prop :=
  u.hostName = v.hostName → Filepath.clean u.remotePath ≠ Filepath.clean v.remotePath

/-- **One spelling**: a mount on a directory that is registered names it by the same text. -/
def OneSpelling : Condition Memory Frame Answer
  | m, _, .mountEnter v, _ => ∀ e ∈ m.mounts.entries, (m.info e.2).mount.hostName = v.hostName →
      Filepath.clean (m.info e.2).mount.remotePath = Filepath.clean v.remotePath →
      (m.info e.2).mount.remotePath = v.remotePath
  | _, _, _, _ => True

instance : ∀ m F f o, Decidable (OneSpelling m F f o) := fun m _ f _ =>
  match f with
  | .mountEnter _ => inferInstanceAs (Decidable (∀ e ∈ m.mounts.entries, _))
  | .mount _ _ | .unmountEnter _ _ | .unmount _ _ _ _ _ | .unmountAll | .unmounting _ _ | .sync _
  | .syncHost _ _ | .syncReserve _ _ _ | .syncing _ _ _ | .synced _ _ | .ret _ => .isTrue trivial

variable {localHostAddress : String} {s : State Memory Frame}

theorem registry_of_reached (h : (volumeManager localHostAddress).Reached OneSpelling {} s) :
    Registry (fun _ => True) Apart s.memory := by
  refine Reached.induction (I := fun m _ => Registry (fun _ => True) Apart m)
    Registry.empty (fun m F c hm => hm) ?_ h
  intro m A f B o m' made hm hK hstep
  refine hm.step (effect_of_step hstep) (fun _ _ => trivial) ?_
  rintro v n x rfl hoccupant hx
  have hapart : (m.info x).mount.hostName = v.hostName →
      clean (m.info x).mount.remotePath ≠ clean v.remotePath :=
    fun hhost hclean => ne_of_occupant hoccupant hx
      ⟨hhost, hK ⟨n, x⟩ (GoMap.mem_entries_of_lookup hx) hhost hclean⟩
  exact ⟨hapart, fun hhost => (hapart hhost.symm).symm⟩

end VolumeCalls

open VolumeCalls

/-- **No two mounts share a remote directory**: in every state of a run in which no directory is
spelled in two ways, two mounts of different names on one host have remote paths that are different
after cleaning. -/
theorem directories_apart (localHostAddress : String) {s : State Memory Frame}
    (h : (volumeManager localHostAddress).Reached OneSpelling {} s) {n n' : String} {x x' : ℕ}
    (hx : s.memory.mounts.lookup n = some x) (hx' : s.memory.mounts.lookup n' = some x')
    (hne : n ≠ n')
    (hhost : (s.memory.info x).mount.hostName = (s.memory.info x').mount.hostName) :
    Filepath.clean (s.memory.info x).mount.remotePath ≠
      Filepath.clean (s.memory.info x').mount.remotePath :=
  (registry_of_reached h).pair n x n' x' hx hx' hne hhost

def twoMounts (path path' : String) : List (Action (ℕ × Answer) Call) :=
  [.call (.mount { name := "a", hostName := "gpu", remotePath := path }), .step 0 (0, {}),
    .call (.mount { name := "b", hostName := "gpu", remotePath := path' }), .step 1 (0, {})]

theorem directories_apart_two : ∃ s, (volumeManager "10.0.0.1").Reached OneSpelling {} s ∧
    (s.memory.mounts.lookup "a" = some 0 ∧ s.memory.mounts.lookup "b" = some 1 ∧
      (s.memory.info 0).mount.hostName = (s.memory.info 1).mount.hostName) ∧
    Filepath.clean (s.memory.info 0).mount.remotePath ≠
      Filepath.clean (s.memory.info 1).mount.remotePath := by
  obtain ⟨s, hs, ha, hb, hhost⟩ : ∃ s, (volumeManager "10.0.0.1").Reached OneSpelling {} s ∧
      s.memory.mounts.lookup "a" = some 0 ∧ s.memory.mounts.lookup "b" = some 1 ∧
      (s.memory.info 0).mount.hostName = (s.memory.info 1).mount.hostName :=
    Reached.of_run (twoMounts "/data" "/data/models") (by decide +kernel)
  exact ⟨s, hs, ⟨ha, hb, hhost⟩, directories_apart "10.0.0.1" hs ha hb (by decide) hhost⟩

/-- **A directory is shared**: the same path with a slash at its end is another text, and a second
mount is registered on the directory. -/
theorem directory_shared : ∃ s, (volumeManager "10.0.0.1").Reached anyhow {} s ∧
    s.memory.mounts.lookup "a" = some 0 ∧ s.memory.mounts.lookup "b" = some 1 ∧
    (s.memory.info 0).mount.hostName = (s.memory.info 1).mount.hostName ∧
    Filepath.clean (s.memory.info 0).mount.remotePath =
      Filepath.clean (s.memory.info 1).mount.remotePath := by
  exact Reached.of_run (twoMounts "/data" "/data/") (by decide +kernel)

end Containers.Volume
