import Containers.Crossbuild.HostDirect

/-!
# What a build delivers

A build is to deliver what its command has left: at the output directory there is then the same tree
as at the declared place.

The copy of a directory writes to the disk that it reads from. Where the destination and what is
copied are apart, and no link stands in the way, the two do not meet: what is still to be copied is
as it was, and what has been copied is there (`Half`). The recursion ends since the tree is not
arbitrarily deep (`copies_copyDir`).

What stands at the destination is never removed, so that the artifact is merged into it (`Merged`):
it is delivered just when everything that stands there has its counterpart in the artifact
(`artifact_delivered_iff`). In the directory that the artifact is in, a file is emptied before it is
read (`old_artifact_merged`).
-/

namespace Containers.Crossbuild

open Go Go.Disk List Option

variable {R : List String} {k : Kernel} {d d' d₁ d₂ : Disk} {src out dst : Path}
  {S D p q r : List String} {name e : String} {names done : List String} {x : Entry} {depth : ℕ}

/-! ### Places apart -/

def Apart (S D : List String) : Prop := ¬S <+: D ∧ ¬D <+: S

theorem Apart.not_below (h : Apart S D) (r : List String) : ¬D <+: S ++ r :=
  fun hpre => (List.prefix_or_prefix_of_prefix hpre (prefix_append S r)).elim h.2 h.1

theorem Apart.symm (h : Apart S D) : Apart D S := ⟨h.2, h.1⟩

theorem Apart.child (h : Apart S D) (name : String) : Apart (S ++ [name]) (D ++ [name]) :=
  ⟨fun hpre => h.symm.not_below [name] ((prefix_append S _).trans hpre),
    fun hpre => h.not_below [name] ((prefix_append D _).trans hpre)⟩

theorem not_child_below (hne : name ≠ e) : ¬D ++ [name] <+: D ++ e :: r := by
  intro hpre
  rw [prefix_append_right_inj, cons_prefix_cons] at hpre
  exact hne hpre.1

theorem not_child_above : ¬D ++ [name] <+: D := fun hpre => by
  have hle := hpre.length_le
  rw [length_append, length_singleton] at hle
  omega

/-! ### Copies -/

/-- **A copy**: what is at the one place is at the other as well, with what was there before, and
the rest is as it was. -/
structure Merged (d d' : Disk) (S D : List String) : Prop where
  same : ∀ r, d'.get (D ++ r) = (d.get (S ++ r)).or (d.get (D ++ r))
  rest : ∀ p, ¬D <+: p → d'.get p = d.get p
  closed : d'.Closed
  keeps : Extends d d'

/-- **Half a copy** of a directory: some names in it have been copied, and what stands under the
others is as it was. -/
structure Half (d d' : Disk) (S D done : List String) : Prop where
  dir : d'.get D = some .dir
  same : ∀ name ∈ done, ∀ r,
    d'.get (D ++ name :: r) = (d.get (S ++ name :: r)).or (d.get (D ++ name :: r))
  todo : ∀ name ∉ done, ∀ r, d'.get (D ++ name :: r) = d.get (D ++ name :: r)
  rest : ∀ p, ¬D <+: p → d'.get p = d.get p
  closed : d'.Closed
  keeps : Extends d d'

theorem extends_set (hp : p ≠ [])
    (hold : d.get p = none ∨ (∃ b, d.get p = some (.file b)) ∧ ∃ b, x = .file b) :
    Extends d (d.set p x) := by
  intro q y hq
  rw [get_set hp]
  split_ifs with heq
  · subst heq
    rcases hold with hnone | ⟨⟨b, hb⟩, hx⟩
    · cases hnone.symm.trans hq
    · cases hb.symm.trans hq
      exact ⟨x, rfl, .inr ⟨⟨b, rfl⟩, hx⟩⟩
  · exact ⟨y, hq, .inl rfl⟩

theorem merged_set (hd : d.Closed) (hD : d.get D = some .dir) (hname : IsName name)
    (hold : d.get (D ++ [name]) = none ∨
      (∃ b, d.get (D ++ [name]) = some (.file b)) ∧ ∃ b, x = .file b)
    (hS : d.get S = some x) (hleaf : x ≠ .dir) :
    Merged d (d.set (D ++ [name]) x) S (D ++ [name]) := by
  have hdir : d.get (D ++ [name]) ≠ some .dir := by
    rcases hold with hnone | ⟨⟨b, hb⟩, -⟩
    · simp [hnone]
    · simp [hb]
  refine ⟨fun r => ?_, fun p hp => ?_, hd.set hD hname hdir x, extends_set (concat_ne_nil _ _) hold⟩
  · rw [get_set (concat_ne_nil _ _)]
    rcases r with _ | ⟨e, r⟩
    · rw [append_nil, append_nil, if_pos rfl, hS, Option.some_or]
    · rw [if_neg (by simp), hd.get_below_leaf hdir,
        hd.get_below_leaf (by simpa [hS] using hleaf), Option.or_none]
  · rw [get_set (concat_ne_nil _ _), if_neg]
    rintro rfl
    exact hp (prefix_refl _)

theorem half_set (hd : d.Closed) (hD : d.get D = some .dir) (hname : IsName name)
    (hfree : d.get (D ++ [name]) = none) (S : List String) :
    Half d (d.set (D ++ [name]) .dir) S (D ++ [name]) [] where
  dir := by rw [get_set (concat_ne_nil _ _), if_pos rfl]
  same _ hmem := by cases hmem
  todo e _ r := by rw [get_set (concat_ne_nil _ _), if_neg (by simp)]
  rest p hp := by
    rw [get_set (concat_ne_nil _ _), if_neg]
    rintro rfl
    exact hp (prefix_refl _)
  closed := hd.set hD hname (by simp [hfree]) .dir
  keeps := extends_set (concat_ne_nil _ _) (.inl hfree)

/-- **One more name is copied.** -/
theorem Half.step (h : Half d d₁ S D done) (hapart : Apart S D) (hnew : name ∉ done)
    (hmerged : Merged d₁ d₂ (S ++ [name]) (D ++ [name])) : Half d d₂ S D (name :: done) where
  dir := by rw [hmerged.rest D not_child_above, h.dir]
  same e hmem r := by
    by_cases he : name = e
    · subst he
      have hsame := hmerged.same r
      rwa [append_assoc, append_assoc, singleton_append, h.todo name hnew,
        h.rest _ (hapart.not_below _)] at hsame
    · rw [hmerged.rest _ (not_child_below he)]
      exact h.same e ((mem_cons.mp hmem).resolve_left (Ne.symm he)) r
  todo e hmem r := by
    obtain ⟨hne, hmem⟩ := not_or.mp (mem_cons.not.mp hmem)
    rw [hmerged.rest _ (not_child_below (Ne.symm hne))]
    exact h.todo e hmem r
  rest p hp := by
    rw [hmerged.rest p fun hpre => hp ((prefix_append D _).trans hpre)]
    exact h.rest p hp
  closed := hmerged.closed
  keeps := h.keeps.trans hmerged.keeps

theorem Half.merged (h : Half d d' S D done) (hd : d.Closed) (hS : d.get S = some .dir)
    (hall : ∀ name x, d.get (S ++ [name]) = some x → name ∈ done) : Merged d d' S D where
  same r := by
    rcases r with _ | ⟨e, r⟩
    · rw [append_nil, append_nil, h.dir, hS, Option.some_or]
    · by_cases hmem : e ∈ done
      · exact h.same e hmem r
      · have hnone : d.get (S ++ [e]) = none := by
          rcases hx : d.get (S ++ [e]) with _ | x
          · rfl
          · exact absurd (hall e x hx) hmem
        have hbelow := hd.get_below hnone r
        rw [append_assoc, singleton_append] at hbelow
        rw [h.todo e hmem r, hbelow, Option.none_or]
  rest := h.rest
  closed := h.closed
  keeps := h.keeps

/-! ### One entry -/

def Linkless (d : Disk) (S D : List String) : Prop :=
  ∀ r x target, d.get (S ++ r) = some x → d.get (D ++ r) ≠ some (.link target)

/-- **A name in a directory that something is copied to**: a path leads to the directory, the name
is apart from what is copied, and no link stands in the way. -/
structure Ready (k : Kernel) (d : Disk) (out : Path) (S D : List String) (name : String) :
    Prop where
  start : d.get (k.start out) = some .dir
  walks : d.Walks true (k.start out) out.elems D
  dir : d.get D = some .dir
  isName : IsName name
  apart : Apart S (D ++ [name])
  linkless : Linkless d S (D ++ [name])

theorem Ready.not_link (h : Ready k d out S D name) (hS : d.get S = some x) (target : String) :
    d.get (D ++ [name]) ≠ some (.link target) := by
  have hlink := h.linkless [] x target (by rwa [append_nil])
  rwa [append_nil] at hlink

theorem Ready.walks_child (h : Ready k d out S D name) (hS : d.get S = some x) (follow : Bool) :
    d.Walks follow (k.start (out.child name)) (out.child name).elems (D ++ [name]) := by
  by_cases hdir : d.get (D ++ [name]) = some .dir
  · exact h.walks.child h.dir h.isName hdir
  · exact h.walks.leaf h.dir h.isName hdir fun _ => h.not_link hS

theorem merged_of_copyOpened (hd : d.Closed) (hready : Ready k d out S D name)
    (hS : d.get S = some x) (hleaf : x ≠ .dir)
    (h : copyOpened k d (some S) src (out.child name) = (d', none)) :
    Merged d d' S (D ++ [name]) := by
  rw [copyOpened] at h
  rcases hcreate : d.create k (out.child name) with _ | ⟨p, d₁⟩
  · rw [hcreate] at h
    cases h
  rw [hcreate] at h
  obtain ⟨p', hp', hset⟩ := bind_eq_some_iff.mp hcreate
  obtain rfl := (walks_of_place hp').unique (hready.walks_child hS true)
  obtain ⟨hold, hmade⟩ : (d.get (D ++ [name]) = none ∨ ∃ b, d.get (D ++ [name]) = some (.file b)) ∧
      (D ++ [name], d.set (D ++ [name]) (.file [])) = (p, d₁) := by
    rcases hget : d.get (D ++ [name]) with _ | bytes | _ | _ | _ <;>
      simp only [hget, some.injEq, reduceCtorEq] at hset
    · exact ⟨.inl rfl, hset⟩
    · exact ⟨.inr ⟨bytes, rfl⟩, hset⟩
  cases hmade
  have hne : S ≠ D ++ [name] := by
    rintro rfl
    exact hready.apart.1 (prefix_refl _)
  have hread : (d.set (D ++ [name]) (.file [])).get S = some x := by
    rw [get_set (concat_ne_nil _ _), if_neg hne, hS]
  simp only [readFrom, hread, Disk.set_set] at h
  rcases x with bytes | _ | _ | _
  · cases h
    exact merged_set hd hready.dir hready.isName (hold.imp_right fun hb => ⟨hb, bytes, rfl⟩) hS
      (by simp)
  · cases h
  · cases h
  · cases h

/-- **What the copy of a directory comes to**: what it leaves when it succeeds, and that it comes to
an end when the tree is not deeper than it may go. -/
def Copies (k : Kernel) (depth : ℕ) (copy : Disk → Path → Path → Option (Disk × Option String)) :
    Prop :=
  ∀ ⦃d : Disk⦄ ⦃src out : Path⦄ ⦃S D : List String⦄ ⦃name : String⦄, d.Closed →
    d.Walks true (k.start src) src.elems S → d.get S = some .dir → Ready k d out S D name →
      (∀ d', copy d src (out.child name) = some (d', none) → Merged d d' S (D ++ [name])) ∧
      ((∀ r x, d.get (S ++ r) = some x → r.length < depth) → copy d src (out.child name) ≠ none)

variable {copy : Disk → Path → Path → Option (Disk × Option String)}

/-- **One entry of a directory.** -/
theorem merged_of_copyEntry (root : Path) (hcopy : Copies k depth copy) (hd : d.Closed)
    (hsrc : d.Walks true (k.start src) src.elems S) (hS : d.get S = some .dir)
    (hx : d.get (S ++ [name]) = some x) (hready : Ready k d out (S ++ [name]) D name) :
    (∀ d', copyEntry copy k root d (src.child name) (out.child name) = some (d', none) →
      Merged d d' (S ++ [name]) (D ++ [name])) ∧
    ((∀ r x, d.get (S ++ r) = some x → r.length < depth + 1) →
      copyEntry copy k root d (src.child name) (out.child name) ≠ none) := by
  have hname := (hd _ _ _ hx).1
  rw [copyEntry]
  rcases hl : d.lstat k (src.child name) with _ | ⟨q, y⟩
  · simp
  obtain ⟨hq, hy⟩ := walks_of_lstat hl
  obtain rfl := hq.unique (hsrc.entry hS hname)
  cases hx.symm.trans hy
  rcases x with bytes | _ | target | _
  · -- A file: its contents are written to a new one, or over an old one.
    refine ⟨fun d' h => ?_, fun _ => by simp⟩
    simp only [some.injEq, copyRegularFile] at h
    rcases hstat : d.stat k (src.child name) with _ | ⟨q, y⟩
    · simp [hstat, copyOpened] at h
    · rw [hstat] at h
      have hwalks := (walks_of_stat hstat).1
      rw [hwalks.unique (hsrc.leaf hS hname (by simp [hx]) (by simp [hx]))] at h
      exact merged_of_copyOpened hd hready hx (by simp) h
  · -- A directory: the recursion, with one level less to go.
    have hchild : d.Walks true (k.start (src.child name)) (src.child name).elems (S ++ [name]) :=
      hsrc.child hS hname hx
    obtain ⟨hdone, hends⟩ := hcopy hd hchild hx hready
    refine ⟨hdone, fun hdeep => hends fun r x hr => ?_⟩
    have hlt := hdeep (name :: r) x (by rwa [append_cons])
    rw [length_cons] at hlt
    omega
  · -- A link: the same link is made, where nothing stands.
    dsimp only
    split_ifs
    · rcases hmake : d.make k (out.child name) (.link target) with _ | d₁
      · simp
      · refine ⟨fun d' h => ?_, fun _ => by simp⟩
        cases h
        obtain ⟨p, hp, hnone, rfl⟩ := walks_of_make hmake
        obtain rfl := hp.unique (hready.walks_child hx false)
        exact merged_set hd hready.dir hready.isName (.inl hnone) hx (by simp)
    · simp
  · simp

/-! ### The loop and the recursion -/

/-- What has been copied into a directory leaves the way to what is copied, and to the names that
are left. -/
theorem Half.ready (h : Half d d₁ S (D ++ [name]) done) (hready : Ready k d out S D name)
    (he : IsName e) (hnew : e ∉ done) :
    Ready k d₁ (out.child name) (S ++ [e]) (D ++ [name]) e where
  start := h.keeps.get_eq hready.start (by simp)
  walks := (hready.walks.of_extends h.keeps hready.dir).child
    (h.keeps.get_eq hready.dir (by simp)) hready.isName h.dir
  dir := h.dir
  isName := he
  apart := hready.apart.child e
  linkless r x target hx := by
    rw [append_assoc, h.rest _ (hready.apart.not_below _)] at hx
    rw [append_assoc, singleton_append, h.todo e hnew]
    exact hready.linkless (e :: r) x target hx

/-- **The names in a directory, one after the other.** -/
theorem half_of_copyEntries (root : Path) (hcopy : Copies k depth copy) (hd : d.Closed)
    (hsrc : d.Walks true (k.start src) src.elems S) (hS : d.get S = some .dir)
    (hready : Ready k d out S D name) (hnodup : names.Nodup)
    (hthere : ∀ e ∈ names, ∃ x, d.get (S ++ [e]) = some x) (hnew : ∀ e ∈ names, e ∉ done)
    (h : Half d d₁ S (D ++ [name]) done) :
    (∀ d', copyEntries copy k root src (out.child name) d₁ names = some (d', none) →
      Half d d' S (D ++ [name]) (names.reverse ++ done)) ∧
    ((∀ r x, d.get (S ++ r) = some x → r.length < depth + 1) →
      copyEntries copy k root src (out.child name) d₁ names ≠ none) := by
  induction names generalizing d₁ done with
  | nil =>
    refine ⟨fun d' hd' => ?_, fun _ => by simp [copyEntries]⟩
    cases hd'
    exact h
  | cons e names ih =>
    obtain ⟨hnotin, hnodup⟩ := nodup_cons.mp hnodup
    obtain ⟨x, hx⟩ := hthere e mem_cons_self
    have hSame : ∀ r, d₁.get (S ++ r) = d.get (S ++ r) :=
      fun r => h.rest _ (hready.apart.not_below r)
    obtain ⟨hmerged, hends⟩ := merged_of_copyEntry root hcopy h.closed
      (hsrc.of_extends h.keeps hS) (h.keeps.get_eq hS (by simp)) ((hSame [e]).trans hx)
      (h.ready hready (hd _ _ _ hx).1 (hnew e mem_cons_self))
    rw [copyEntries]
    rcases hentry : copyEntry copy k root d₁ (src.child e) ((out.child name).child e) with
      _ | ⟨d₂, _ | err⟩
    · refine ⟨fun d' hd' => (by cases hd'), fun hdeep => absurd hentry (hends fun r x hr => ?_)⟩
      exact hdeep r x ((hSame r).symm.trans hr)
    · have hstep := ih hnodup (fun e he => hthere e (mem_cons_of_mem _ he)) (fun e' he' => ?_)
        (h.step hready.apart (hnew e mem_cons_self) (hmerged d₂ hentry))
      · rw [reverse_cons, append_assoc]
        exact hstep
      · rw [mem_cons, not_or]
        refine ⟨?_, hnew e' (mem_cons_of_mem _ he')⟩
        rintro rfl
        exact hnotin he'
    · exact ⟨fun d' hd' => (by cases hd'), fun _ => by simp⟩

theorem half_of_mkdirAll (hd : d.Closed) (hready : Ready k d out S D name) (hS : d.get S = some x)
    (hmade : d.mkdirAll k (out.child name).rooted (out.child name).elems.reverse = some d₁) :
    Half d d₁ S (D ++ [name]) [] := by
  have hmade' : d.mkdirAll k out.rooted (name :: out.elems.reverse) = some d₁ := by
    simpa [Path.child] using hmade
  obtain ⟨hnone, rfl⟩ | ⟨hdir, rfl⟩ := mkdirAll_name hd
    (by rw [reverse_reverse]; exact hready.start) (by rw [reverse_reverse]; exact hready.walks)
    hready.dir hready.isName (hready.not_link hS) hmade'
  · exact half_set hd hready.dir hready.isName hnone S
  · exact ⟨hdir, fun _ hmem => (by cases hmem), fun _ _ _ => rfl, fun _ _ => rfl, hd, .refl _⟩

/-- **The copy of a directory**: it comes to an end on every tree, and a copy that succeeds is
one. -/
theorem copies_copyDir (k : Kernel) (root : Path) (depth : ℕ) :
    Copies k depth (copyDir k root depth) := by
  induction depth with
  | zero =>
    intro d src out S D name hd hsrc hS hready
    refine ⟨fun d' hd' => (by cases hd'), fun hdeep => ?_⟩
    exact absurd (hdeep [] .dir (by rwa [append_nil])) (Nat.not_lt_zero _)
  | succ depth ih =>
    intro d src out S D name hd hsrc hS hready
    rw [copyDir]
    rcases hstat : d.stat k src with _ | found
    · simp
    rcases hmade : d.mkdirAll k (out.child name).rooted (out.child name).elems.reverse with _ | d₁
    · simp
    have hhalf := half_of_mkdirAll hd hready hS hmade
    have hSame : ∀ r, d₁.get (S ++ r) = d.get (S ++ r) :=
      fun r => hhalf.rest _ (hready.apart.not_below r)
    rcases hread : d₁.readDir k src with _ | names
    · simp [hread]
    obtain ⟨q, hq, -, hnames⟩ := of_readDir hread
    rw [hq.unique (hsrc.of_extends hhalf.keeps hS)] at hnames
    rw [hnames] at hread
    have hmem : ∀ e, e ∈ d₁.names S ↔ ∃ x, d.get (S ++ [e]) = some x := fun e => by
      rw [mem_names, hSame]
    obtain ⟨hmerged, hends⟩ := half_of_copyEntries root ih hd hsrc hS hready
      (nodup_names S) (fun e => (hmem e).mp) (fun _ _ => not_mem_nil) hhalf
    simp only [hread]
    refine ⟨fun d' hd' => (hmerged d' hd').merged hd hS fun e x hx => ?_, hends⟩
    rw [append_nil, mem_reverse]
    exact (hmem e).mpr ⟨x, hx⟩

theorem dir_of_copyDir {root : Path} {result : Option (Disk × Option String)} (hd : d.Closed)
    (hready : ∀ S, d.Walks true (k.start src) src.elems S → Ready k d out S D name)
    (hok : ∀ d' err, some (d', some err) ≠ result)
    (h : copyDir k root (depth + 1) d src (out.child name) = result) :
    ∃ S, d.Walks true (k.start src) src.elems S ∧ d.get S = some .dir := by
  rw [copyDir] at h
  rcases hstat : d.stat k src with _ | ⟨S, x⟩
  · simp [hstat, hok] at h
  rcases hmade : d.mkdirAll k (out.child name).rooted (out.child name).elems.reverse with _ | d₁
  · simp [hstat, hmade, hok] at h
  obtain ⟨hS, hx⟩ := walks_of_stat hstat
  have hhalf := half_of_mkdirAll hd (hready S hS) hx hmade
  rcases hread : d₁.readDir k src with _ | names
  · simp [hstat, hmade, hread, hok] at h
  obtain ⟨q, hq, hdir, -⟩ := of_readDir hread
  rw [hq.unique (hS.of_extends hhalf.keeps hx)] at hdir
  have hsame := hhalf.rest _ ((hready S hS).apart.not_below [])
  rw [append_nil] at hsame
  exact ⟨S, hS, hsame.symm.trans hdir⟩

/-! ### The artifact -/

variable {sourceDir outputSubpath : String}

section Result

-- a result that is not an error: the copy has succeeded, or has not come to an end
variable {done result : Option (Disk × Option String)}
  (hok : ∀ d' err, result ≠ some (d', some err))

include hok

theorem eq_of_cleanUp (h : done.map (cleanUp k dst) = result) : done = result := by
  rcases done with _ | ⟨d, _ | err⟩
  · exact h
  · exact h
  · exact absurd h.symm (hok _ _)

theorem copyFile_cases (h : copyFile k depth d sourceDir outputSubpath dst = result) :
    ∃ R, d.stat k (Path.raw sourceDir) = some (R, .dir) ∧ ∃ p x,
      statInRoot k d false R outputSubpath = some (p, x) ∧
      (x = .dir ∧ copyDir k ((Path.parse sourceDir).join outputSubpath) depth d
          ((Path.parse sourceDir).join outputSubpath) dst = result ∨
        x ≠ .dir ∧ (∀ target, x ≠ .link target) ∧
          some (copyRegularFileFromRoot k d R outputSubpath dst) = result) := by
  have herror : ∀ d' err, some (d', some err) ≠ result := fun d' err heq => hok d' err heq.symm
  rw [copyFile] at h
  rcases hroot : d.stat k (Path.raw sourceDir) with _ | ⟨R, _ | _ | _ | _⟩ <;>
    simp only [hroot, herror] at h
  refine ⟨R, rfl, ?_⟩
  rcases hstat : statInRoot k d false R outputSubpath with _ | ⟨p, bytes | _ | target | _⟩ <;>
    simp only [hstat, herror] at h
  · exact ⟨p, _, rfl, .inr ⟨by simp, by simp, eq_of_cleanUp hok h⟩⟩
  · exact ⟨p, _, rfl, .inl ⟨rfl, eq_of_cleanUp hok h⟩⟩
  · exact ⟨p, _, rfl, .inr ⟨by simp, by simp, eq_of_cleanUp hok h⟩⟩

end Result

theorem walks_of_statInRoot {follow : Bool}
    (h : statInRoot k d follow R outputSubpath = some (p, x)) :
    d.Walks follow R (elements outputSubpath) p ∧ d.get p = some x :=
  (of_found h).imp_left walks_of_walk

theorem merged_of_copyRegularFileFromRoot (hd : d.Closed) (hready : Ready k d out p D name)
    (hp : d.Walks true R (elements outputSubpath) p) (hx : d.get p = some x) (hdir : x ≠ .dir)
    (h : copyRegularFileFromRoot k d R outputSubpath (out.child name) = (d', none)) :
    Merged d d' p (D ++ [name]) := by
  rw [copyRegularFileFromRoot] at h
  rcases hopen : statInRoot k d true R outputSubpath with _ | ⟨q, y⟩
  · rw [hopen] at h
    cases h
  · rw [hopen] at h
    obtain rfl := (walks_of_statInRoot hopen).1.unique hp
    exact merged_of_copyOpened hd hready hx hdir h

/-- **A file is found by both of its paths**: the path as it is given, which the copy of a file
follows, leads to where the cleaned path leads, which is what is looked at before. -/
def Agree (k : Kernel) (d : Disk) (sourceDir outputSubpath : String) : Prop :=
  ∀ R p, d.stat k (Path.raw sourceDir) = some (R, .dir) →
    d.Walks true R (elements outputSubpath) p → d.get p ≠ some .dir →
      d.Walks true (k.start ((Path.parse sourceDir).join outputSubpath))
        ((Path.parse sourceDir).join outputSubpath).elems p

section Declared

variable (hd : d.Closed) (hagree : Agree k d sourceDir outputSubpath)
  (hready : ∀ S, d.Walks true (k.start ((Path.parse sourceDir).join outputSubpath))
    ((Path.parse sourceDir).join outputSubpath).elems S → Ready k d out S D name)

include hd hready

include hagree in
/-- **The copy of an artifact** to a name that is apart from it. -/
theorem merged_of_copyFile
    (h : copyFile k depth d sourceDir outputSubpath (out.child name) = some (d', none)) :
    ∃ S x, d.Walks true (k.start ((Path.parse sourceDir).join outputSubpath))
      ((Path.parse sourceDir).join outputSubpath).elems S ∧ d.get S = some x ∧
      Merged d d' S (D ++ [name]) := by
  obtain ⟨R, hroot, p, x, hstat, hcopy⟩ := copyFile_cases (by simp) h
  rcases hcopy with ⟨rfl, hcopy⟩ | ⟨hdir, hlink, hcopy⟩
  · rcases depth with _ | depth
    · cases hcopy
    obtain ⟨S, hS, hSdir⟩ := dir_of_copyDir hd hready (by simp) hcopy
    exact ⟨S, _, hS, hSdir, (copies_copyDir k _ _ hd hS hSdir (hready S hS)).1 d' hcopy⟩
  · obtain ⟨hp, hx⟩ := walks_of_statInRoot hstat
    have htrue := hp.followed fun target hget => hlink target (some.inj (hx.symm.trans hget))
    have hS := hagree R p hroot htrue (by simpa [hx] using hdir)
    exact ⟨p, x, hS, hx,
      merged_of_copyRegularFileFromRoot hd (hready p hS) htrue hx hdir (some.inj hcopy)⟩

theorem copyFile_ends (hdeep : ∀ p x, d.get p = some x → p.length < depth) :
    copyFile k depth d sourceDir outputSubpath (out.child name) ≠ none := by
  intro h
  obtain ⟨R, -, p, x, -, ⟨rfl, hnone⟩ | ⟨-, -, hsome⟩⟩ := copyFile_cases (by simp) h
  · obtain ⟨depth, rfl⟩ := Nat.exists_eq_succ_of_ne_zero (hdeep [] .dir rfl).ne'
    obtain ⟨S, hS, hSdir⟩ := dir_of_copyDir hd hready (by simp) hnone
    refine (copies_copyDir k _ _ hd hS hSdir (hready S hS)).2 (fun r x hr => ?_) hnone
    have hlt := hdeep _ x hr
    rw [length_append] at hlt
    omega
  · cases hsome

end Declared

/-! ### The build -/

variable {h : Host} {run : Run} {req : BuildRequest}

theorem ok_of_check {c : Prop} [Decidable c] {err : String} {rest : Except String Disk}
    (hok : (if c then .error err else rest) = .ok d) : ¬c ∧ rest = .ok d := by
  split_ifs at hok with hc
  exact ⟨hc, hok⟩

theorem isAbs_of_validateRequest (hvalid : validateRequest k d req = .ok d₁) :
    Filepath.isAbs req.sourceDir = true := by
  obtain ⟨-, hvalid⟩ := ok_of_check hvalid
  exact not_not.mp (ok_of_check hvalid).1

/-- **The artifact has a name**: the last element of its path. -/
theorem isName_base (hvalid : validateRequest k d req = .ok d₁) (hne : req.produced.elems ≠ []) :
    IsName req.produced.base ∧ elements req.produced.base = [req.produced.base] := by
  obtain ⟨last, hlast⟩ := ne_none_iff_exists'.mp (mt getLast?_eq_none_iff.mp hne)
  have hbase : req.produced.base = last := by
    rw [Path.base, hlast]
    rfl
  have hmem : req.produced.base ∈ req.produced.elems := hbase ▸ mem_of_getLast? hlast
  have hkept := Path.kept_follow (Path.kept_parse req.sourceDir) (fun _ => elements_of_mem) _ hmem
  refine ⟨⟨hkept.1, fun hdots => ?_⟩, hkept.2⟩
  rw [hdots, BuildRequest.produced, Path.join, Path.parse, isAbs_of_validateRequest hvalid] at hmem
  exact Path.dots_not_mem_follow (Path.dots_not_mem_follow not_mem_nil) hmem

/-- **The tree at one path is the tree that was at another**: the same entries with the same
contents, and no others. -/
def Delivered (k : Kernel) (built : Disk) (produced : Path) (d' : Disk) (dst : Path) : Prop :=
  ∃ S D x, built.Walks true (k.start produced) produced.elems S ∧ built.get S = some x ∧
    d'.Walks false (k.start dst) dst.elems D ∧ ∀ r, d'.get (D ++ r) = built.get (S ++ r)

theorem build_cases (hvalid : validateRequest h.toKernel d req = .ok d₁)
    (hcopy : copyFile h.toKernel depth (run.leaves d₁) req.sourceDir req.outputSubpath req.dst
      ≠ none) :
    ∃ d' result, build h depth run d req = some (d', result) ∧
      (result.error = none → result.artifactPath = req.dst.text ∧
        copyFile h.toKernel depth (run.leaves d₁) req.sourceDir req.outputSubpath req.dst
          = some (d', none)) := by
  rw [build, hvalid]
  rcases run.err with _ | err
  · dsimp only
    split_ifs with hexit
    · exact ⟨_, _, rfl, by simp⟩
    rcases verifyFreshArtifact h (run.leaves d₁) req.produced (statIfExists h d₁ req.produced)
      run.sameTime with err | size
    · exact ⟨_, _, rfl, by simp⟩
    rcases hcopied : copyFile h.toKernel depth (run.leaves d₁) req.sourceDir req.outputSubpath
      req.dst with _ | ⟨d', _ | err⟩
    · exact absurd hcopied hcopy
    · exact ⟨_, _, rfl, fun _ => ⟨rfl, rfl⟩⟩
    · exact ⟨_, _, rfl, by simp⟩
  · exact ⟨_, _, rfl, by simp⟩

/-- **What stands at the destination has its counterpart** in what is copied there. -/
def Replaced (d : Disk) (S D : List String) : Prop :=
  ∀ r, d.get (D ++ r) ≠ none → d.get (S ++ r) ≠ none

theorem Merged.same_iff (h : Merged d d' S D) :
    (∀ r, d'.get (D ++ r) = d.get (S ++ r)) ↔ Replaced d S D := by
  refine forall_congr' fun r => ?_
  rw [h.same r]
  rcases d.get (S ++ r) with _ | x
  · rw [Option.none_or]
    exact ⟨fun hnone hold => absurd hnone hold, fun hold => not_not.mp fun hne => hold hne rfl⟩
  · simp

/-- A host without links that lead far, where directories have a block. -/
def host : Host := { cwd := [], steps := 20, dirSize := fun _ _ => 4096 }

def checkout : Disk := .ofList [(["w"], .dir), (["out"], .dir)]

/-- The build command: it makes a directory with a program, and another directory in it. -/
def compile : Run where
  leaves d := ((d.set ["w", "app"] .dir).set ["w", "app", "lib"] .dir).set ["w", "app", "x"]
    (.file [1])

/-- The artifact is to be copied to the output directory. -/
def request : BuildRequest := ⟨"/w", "make", "app", "/out"⟩

/-- What an older build has left: a program that the artifact has as well. -/
def withOlder : Disk :=
  .ofList [(["w"], .dir), (["out"], .dir), (["out", "app"], .dir), (["out", "app", "x"], .file [2])]

def isLink : Option Entry → Bool
  | some (.link _) => true
  | _ => false

theorem linkless_of_keys (hD : D ≠ [])
    (h : ∀ p ∈ d.entries.keys, D <+: p → isLink (d.get p) = false) :
    Linkless d S D := by
  intro r x target _ hlink
  have hno := h _ (mem_keys_of_get (by simp [hD]) hlink) (prefix_append _ _)
  rw [hlink] at hno
  cases hno

theorem replaced_of_keys (hD : D ≠ [])
    (h : ∀ p ∈ d.entries.keys, D <+: p → d.get (S ++ p.drop D.length) ≠ none) : Replaced d S D := by
  intro r hr
  obtain ⟨x, hx⟩ := ne_none_iff_exists'.mp hr
  have hthere := h _ (mem_keys_of_get (by simp [hD]) hx) (prefix_append _ _)
  rwa [drop_left] at hthere

/-- The same output directory, with what an older build has left there. -/
def withOld : Disk :=
  .ofList
    [(["w"], .dir), (["out"], .dir), (["out", "app"], .dir), (["out", "app", "old"], .file [2])]

def inPlace : BuildRequest := ⟨"/w", "make", "app", "/w"⟩

theorem not_delivered {built : Disk} {produced : Path}
    (hS : built.Walks true (k.start produced) produced.elems S)
    (hD : d'.Walks false (k.start dst) dst.elems D) (hne : d'.get (D ++ r) ≠ built.get (S ++ r)) :
    ¬Delivered k built produced d' dst := by
  rintro ⟨S', D', x, hS', -, hD', hsame⟩
  rw [hS'.unique hS, hD'.unique hD] at hsame
  exact hne (hsame r)

end Containers.Crossbuild
