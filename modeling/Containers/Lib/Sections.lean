import Containers.Lib.Threads

/-!
# Calls that run section by section

The usual shape of a component behind mutexes: a call goes through a few *sections*, each of which
holds a lock from its beginning to its end, or touches nothing that is shared, and it may leave
goroutines behind that go on in the same way. A section is then one atomic step on the shared
memory, and what is in flight is described by where it is. `Sections` is such a component, and
`system` the system of its threads: one thread for each call, with all that has come of it.

* `Reached` – the states that are reached by runs whose sections all meet a condition on the memory,
  on all that is in flight, on the call or goroutine that goes on, and on the outcome from outside.
  With the condition `anyhow` these are all interleavings.
* `reach_induction` – the invariant rule: a call adds one to those in flight, and a section replaces
  one of them by what comes of it. `Reached.induction` is the rule from the start on.
* `Reached.of_run` – what a run computes is reached.
-/

namespace Containers

open ThreadSystem List

/-- **A component whose calls run section by section.** -/
structure Sections (μ φ ο κ : Type) where
  /-- Where a call begins. -/
  call : μ → κ → φ
  /-- One section, given an outcome from outside: what comes of the call or goroutine – nothing
  when it is over, and several when it has started goroutines. It is refused while it has to
  wait. -/
  step : μ → ο → φ → Option (μ × List φ)

namespace Sections

variable {μ φ ο κ : Type} {C : Sections μ φ ο κ}

/-- The calls as threads: an outcome says as well which of the goroutines of a call goes on. -/
def system (C : Sections μ φ ο κ) : ThreadSystem μ φ (ℕ × ο) κ where
  call m c := some [C.call m c]
  step m o st := st[o.1]?.bind fun f =>
    (C.step m o.2 f).map fun r => (r.1, st.take o.1 ++ (r.2 ++ st.drop (o.1 + 1)))

def subject (s : State μ φ) : Action (ℕ × ο) κ → Option φ
  | .call _ => none
  | .step i o => s.threads[i]?.bind (·[o.1]?)

/-- A condition on a section: the memory and all that is in flight before it, what it takes on,
and the outcome. -/
abbrev Condition (μ φ ο : Type) := μ → List φ → φ → ο → Prop

abbrev anyhow : Condition μ φ ο := fun _ _ _ _ => True

/-- The actions that meet a condition: calls may be made at any time. -/
def Meets (K : Condition μ φ ο) (s : State μ φ) : Action (ℕ × ο) κ → Prop
  | .call _ => True
  | .step i o => ∀ f ∈ subject s (.step i o : Action (ℕ × ο) κ), K s.memory s.frames f o.2

instance (K : Condition μ φ ο) [∀ m F f o, Decidable (K m F f o)] (s : State μ φ)
    (a : Action (ℕ × ο) κ) : Decidable (Meets K s a) :=
  match a with
  | .call _ => .isTrue trivial
  | .step i o => inferInstanceAs (Decidable (∀ f ∈ subject s (.step i o : Action (ℕ × ο) κ), _))

/-- **The states that are reached** from a memory with nothing in flight, when every section meets
a condition. -/
def Reached (C : Sections μ φ ο κ) (K : Condition μ φ ο) (m₀ : μ) (s : State μ φ) : Prop :=
  C.system.Reach (Meets K) ⟨m₀, []⟩ s

variable {K : Condition μ φ ο} {m₀ : μ} {s s₀ : State μ φ} {g : φ}

/-- **What a step of the system is**: a section of one of those in flight, which leaves the others
where they are. -/
theorem exists_of_next {i : ℕ} {o : ℕ × ο} {s' : State μ φ}
    (h : C.system.next s (.step i o) = some s') :
    ∃ A f B made, s.frames = A ++ f :: B ∧ subject s (.step i o : Action (ℕ × ο) κ) = some f ∧
      C.step s.memory o.2 f = some (s'.memory, made) ∧ s'.frames = A ++ (made ++ B) := by
  obtain ⟨pre, st, post, m', st', hthreads, rfl, hstep, rfl⟩ := next_step h
  obtain ⟨f, hf, hstep⟩ := Option.bind_eq_some_iff.mp hstep
  obtain ⟨⟨m'', made⟩, hsection, heq⟩ := Option.map_eq_some_iff.mp hstep
  cases heq
  obtain ⟨hj, rfl⟩ := List.getElem?_eq_some_iff.mp hf
  refine ⟨pre.flatten ++ st.take o.1, st[o.1], st.drop (o.1 + 1) ++ post.flatten, made, ?_, ?_,
    hsection, ?_⟩
  · have hsplit : st.take o.1 ++ st[o.1] :: st.drop (o.1 + 1) = st := by
      rw [cons_getElem_drop_succ, take_append_drop]
    rw [State.frames, hthreads, flatten_append, flatten_cons, append_assoc,
      ← cons_append, ← append_assoc (st.take o.1), hsplit]
  · simp [subject, hthreads]
  · simp [State.frames]

/-- **The invariant rule**, from any state on. -/
theorem reach_induction {I : μ → List φ → Prop} (hinit : I s₀.memory s₀.frames)
    (hcall : ∀ m F c, I m F → I m (F ++ [C.call m c]))
    (hstep : ∀ m A f B o m' made, I m (A ++ f :: B) → K m (A ++ f :: B) f o →
      C.step m o f = some (m', made) → I m' (A ++ (made ++ B)))
    (h : C.system.Reach (Meets K) s₀ s) : I s.memory s.frames := by
  refine Reach.invariant (I := fun s => I s.memory s.frames) (by exact hinit) ?_ h
  intro s a s' hs hK hnext
  cases a with
  | call c =>
    obtain ⟨st, hst, rfl⟩ := next_call hnext
    cases hst
    have hframes : State.frames ⟨s.memory, s.threads ++ [[C.call s.memory c]]⟩ =
        s.frames ++ [C.call s.memory c] := by
      simp [State.frames]
    rw [hframes]
    exact hcall _ _ _ hs
  | step i o =>
    obtain ⟨A, f, B, made, hframes, hsubject, hsection, hframes'⟩ := exists_of_next hnext
    have hKf : K s.memory s.frames f o.2 := hK f hsubject
    rw [hframes] at hs hKf
    rw [hframes']
    exact hstep _ _ _ _ _ _ _ hs hKf hsection

theorem Reached.induction {I : μ → List φ → Prop} (hinit : I m₀ [])
    (hcall : ∀ m F c, I m F → I m (F ++ [C.call m c]))
    (hstep : ∀ m A f B o m' made, I m (A ++ f :: B) → K m (A ++ f :: B) f o →
      C.step m o f = some (m', made) → I m' (A ++ (made ++ B)))
    (h : C.Reached K m₀ s) : I s.memory s.frames :=
  reach_induction hinit hcall hstep h

/-! ### What is held in flight -/

section Held

variable {α : Type} {P : φ → Prop} {A B made : List φ} {f : φ}

theorem mem_before : g ∈ A ++ f :: B ↔ g = f ∨ g ∈ A ++ B := by
  rw [mem_append, mem_cons, mem_append, or_left_comm]

theorem mem_after : g ∈ A ++ (made ++ B) ↔ g ∈ made ∨ g ∈ A ++ B := by
  rw [mem_append, mem_append, mem_append, or_left_comm]

theorem mem_subject : f ∈ A ++ f :: B := mem_before.mpr (.inl rfl)

theorem mem_of_mem_rest (h : g ∈ A ++ B) : g ∈ A ++ f :: B := mem_before.mpr (.inr h)

theorem forall_mem_before (hf : P f) (hrest : ∀ g ∈ A ++ B, P g) : ∀ g ∈ A ++ f :: B, P g := by
  intro g hg
  rcases mem_before.mp hg with rfl | hg
  · exact hf
  · exact hrest g hg

theorem forall_mem_made (hrest : ∀ g ∈ A ++ B, P g) (hmade : ∀ g ∈ made, P g) :
    ∀ g ∈ A ++ (made ++ B), P g := by
  intro g hg
  rcases mem_after.mp hg with hg | hg
  · exact hmade g hg
  · exact hrest g hg

theorem forall_mem_next (hrest : ∀ x ∈ A ++ B, P x) (hg : P g) : ∀ x ∈ A ++ ([g] ++ B), P x :=
  forall_mem_made hrest (forall_mem_singleton.mpr hg)

theorem forall_mem_others (h : ∀ g ∈ A ++ f :: B, P g) : ∀ g ∈ A ++ B, P g :=
  fun g hg => h g (mem_of_mem_rest hg)

theorem forall_mem_rest (h : ∀ g ∈ A ++ (made ++ B), P g) : ∀ g ∈ A ++ B, P g :=
  fun g hg => h g (mem_after.mpr (.inr hg))

theorem forall_mem_call {F : List φ} (hF : ∀ g ∈ F, P g) (hf : P f) : ∀ g ∈ F ++ [f], P g :=
  forall_mem_append.mpr ⟨hF, forall_mem_singleton.mpr hf⟩

variable (hold : φ → Option α) (A B made f)

/-- **What is held before a section**: what the one that it takes on holds, and what the others
do. -/
theorem held_perm : ((A ++ f :: B).filterMap hold).Perm
    ((hold f).toList ++ (A ++ B).filterMap hold) := by
  have hmiddle : (A ++ f :: B).Perm (f :: (A ++ B)) := perm_middle
  have hperm := hmiddle.filterMap hold
  rcases hf : hold f with _ | a
  · rwa [filterMap_cons_none hf] at hperm
  · rwa [filterMap_cons_some hf] at hperm

theorem held_one : [f].filterMap hold = (hold f).toList := by
  rcases hf : hold f with _ | a
  · rw [filterMap_cons_none hf]
    rfl
  · rw [filterMap_cons_some hf]
    rfl

theorem held_call (F : List φ) (hf : hold f = none) :
    (F ++ [f]).filterMap hold = F.filterMap hold := by
  rw [filterMap_append, filterMap_cons_none hf, filterMap_nil, append_nil]

theorem held_made_perm : ((A ++ (made ++ B)).filterMap hold).Perm
    (made.filterMap hold ++ (A ++ B).filterMap hold) := by
  have hmiddle : (A ++ (made ++ B)).Perm (made ++ (A ++ B)) := by
    rw [← append_assoc, ← append_assoc]
    exact perm_append_comm.append_right B
  rw [← filterMap_append]
  exact hmiddle.filterMap hold

variable {made f hold} in
theorem held_same_perm (h : made.filterMap hold = (hold f).toList) :
    ((A ++ (made ++ B)).filterMap hold).Perm ((A ++ f :: B).filterMap hold) := by
  have hperm := held_made_perm A B made hold
  rw [h] at hperm
  exact hperm.trans (held_perm A B f hold).symm

variable {made f hold} in
theorem held_subperm (h : (made.filterMap hold).Subperm (hold f).toList) :
    ((A ++ (made ++ B)).filterMap hold).Subperm ((A ++ f :: B).filterMap hold) :=
  (held_made_perm A B made hold).subperm.trans
    (((subperm_append_right _).mpr h).trans (held_perm A B f hold).symm.subperm)

variable {f hold} in
theorem not_mem_held {a : α} (h : ((A ++ f :: B).filterMap hold).Nodup) (hf : hold f = some a) :
    a ∉ (A ++ B).filterMap hold := by
  have hnodup := (held_perm A B f hold).nodup_iff.mp h
  rw [hf] at hnodup
  exact (nodup_cons.mp hnodup).1

variable {f hold} in
theorem nodup_held_new {a : α} (h : ((A ++ f :: B).filterMap hold).Nodup) (hg : hold g = some a)
    (hnew : a ∉ (A ++ B).filterMap hold) : ((A ++ ([g] ++ B)).filterMap hold).Nodup := by
  have hrest : ((A ++ B).filterMap hold).Nodup :=
    ((held_perm A B f hold).nodup_iff.mp h).sublist (sublist_append_right _ _)
  have hperm := held_made_perm A B [g] hold
  rw [held_one, hg] at hperm
  exact hperm.nodup_iff.mpr (nodup_cons.mpr ⟨hnew, hrest⟩)

theorem nodup_of_subperm {l l' : List α} (h : l.Subperm l') (hl : l'.Nodup) : l.Nodup := by
  obtain ⟨l₀, hperm, hsub⟩ := h
  exact hperm.nodup_iff.mp (hl.sublist hsub)

end Held

theorem Reached.call_step {c : κ} {o : ο} {m' : μ} {made : List φ} (h : C.Reached K m₀ s)
    (hK : ∀ F, K s.memory F (C.call s.memory c) o)
    (hstep : C.step s.memory o (C.call s.memory c) = some (m', made)) :
    C.Reached K m₀ ⟨m', s.threads ++ [made]⟩ := by
  have hcall : C.system.Reach (Meets K) ⟨m₀, []⟩ ⟨s.memory, s.threads ++ [[C.call s.memory c]]⟩ :=
    h.next (a := .call c) trivial rfl
  have hthread : C.system.step s.memory (0, o) [C.call s.memory c] = some (m', made) := by
    simp [system, hstep]
  refine hcall.next (a := .step s.threads.length (0, o)) (fun f hf => ?_) (next_step_of hthread)
  have hsubject : C.call s.memory c = f := by
    simpa [subject] using hf
  exact hsubject ▸ hK _

/-- **What a run computes is reached**, and can be tested. -/
theorem Reached.of_run [∀ m F f o, Decidable (K m F f o)] (as : List (Action (ℕ × ο) κ))
    {P : State μ φ → Prop} [DecidablePred P]
    (h : (C.system.runMeeting (Meets K) ⟨m₀, []⟩ as).any (fun s => decide (P s)) = true) :
    ∃ s, C.Reached K m₀ s ∧ P s :=
  Reach.exists_of_runMeeting as h

end Sections

end Containers
