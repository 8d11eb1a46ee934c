import Containers.Cache.Blobs

/-!
# Opening a store beside others

`sweepStaleIncoming` runs when a store is constructed and takes every name that looks like that of a
temporary file for the debris of an earlier run. A directory is shared by processes, though, and the
sweep takes no lock: what it finds may be the temporary file of a fetch that another process has
under way. Then the file is gone when that fetch wants to publish it (`fetch_swept`). As long as no
construction looks at the directory while a fetch has a temporary file, no fetch loses it
(`temps_in_place`).
-/

namespace Containers.Cache

open Go ThreadSystem Sections

variable {sha256 : Bytes → String} {root : String} {m m' : Memory} {o : Answer} {f : Frame}

instance (m : Memory) (F : List Frame) (f : Frame) (o : Answer) : Decidable (Undisturbed m F f o) :=
  inferInstanceAs (Decidable (_ ∧ _))

/-- **A fetch keeps its temporary file**, and its rename does not fail for the lack of it: in every
interleaving of constructions, fetches and all the other calls in which no construction lists the
directory while a call of a process that is alive has a temporary file, and no call draws a name
that a construction is about to remove. -/
theorem temps_in_place {m₀ : Memory} {s : State Memory Frame} (hm₀ : m₀.WellFormed)
    (h : (store sha256 root).Reached Undisturbed m₀ s) :
    (∀ f ∈ s.frames, f.proc ∉ s.memory.dead → ∀ name, f.temp = some name → name ∈ s.memory.dir) ∧
    ∀ c t, .call c (.rename t) ∈ s.frames → c.proc ∉ s.memory.dead → ∀ o : Answer, o.io = none →
      step sha256 root s.memory o (.call c (.rename t)) =
        some (s.memory.rename t.name c.sha t.file, [.call c .syncDir]) := by
  have hguarded := guarded_of_reached hm₀ h
  refine ⟨fun f hf hdead name htemp => ((hguarded.ok f hf hdead).incoming htemp).2,
    fun c t hmem hdead o hio => ?_⟩
  have hlookup : s.memory.dir.lookup t.name = some t.file := (hguarded.ok _ hmem hdead).2.1.lookup
  have halive : (Frame.call c (.rename t)).proc ∉ s.memory.dead := hdead
  unfold step
  rw [if_neg halive]
  simp only [callStep, fetchStep, hio, hlookup]

def sweptBefore : List (Action (ℕ × Answer) (ℕ × Call)) :=
  .call (1, .construct) :: .step 0 (0, {}) :: .step 0 (0, {}) ::
  .call (0, .enter .get (some [{ id := "img", sha256 := zeros }]) "img") ::
    List.replicate 15 (.step 1 (0, {}))

/-- A fetch that begins when another store has been constructed, and is about to publish. -/
theorem temps_in_place_after_construction :
    ∃ s, (store toySum "/c").Reached Undisturbed {} s ∧
      (∃ f ∈ s.frames, f.temp = some "incoming-") ∧ "incoming-" ∈ s.memory.dir := by
  obtain ⟨s, hs, f, hf, hdead, htemp⟩ : ∃ s, (store toySum "/c").Reached Undisturbed {} s ∧
      ∃ f ∈ s.frames, f.proc ∉ s.memory.dead ∧ f.temp = some "incoming-" :=
    Reached.of_run sweptBefore (by decide +kernel)
  exact ⟨s, hs, ⟨f, hf, htemp⟩, (temps_in_place Memory.wellFormed_empty hs).1 f hf hdead _ htemp⟩

def Faultless : Condition Memory Frame Answer := fun _ _ _ o => o.io = none

instance (m : Memory) (F : List Frame) (f : Frame) (o : Answer) : Decidable (Faultless m F f o) :=
  inferInstanceAs (Decidable (o.io = none))

def Frame.failure : Frame → Option String
  | .ret _ (.error err) => some err
  | _ => none

/-- The same fetch, and a store that is constructed while it has its temporary file. -/
def sweptDuring : List (Action (ℕ × Answer) (ℕ × Call)) :=
  .call (0, .enter .get (some [{ id := "img", sha256 := zeros }]) "img") ::
    List.append (List.replicate 12 (.step 0 (0, {}))) (.call (1, .construct) ::
      List.append (List.replicate 4 (.step 1 (0, {}))) (List.replicate 7 (.step 0 (0, {}))))

/-- **The construction of a store makes the fetch of another process fail**: it removes the
temporary file between the last byte and the rename. Nothing fails but the rename, and the bytes
were right. -/
theorem fetch_swept : ∃ s, (store toySum "/c").Reached Faultless {} s ∧ s.memory.dir.keys = [] ∧
    s.frames.filterMap Frame.failure = ["atomic rename /c/blobs/sha256/incoming- → " ++
      blobPath "/c" zeros ++ ": rename /c/blobs/sha256/incoming- " ++ blobPath "/c" zeros ++
      ": no such file or directory"] := by
  exact Reached.of_run sweptDuring (by decide +kernel)

end Containers.Cache
