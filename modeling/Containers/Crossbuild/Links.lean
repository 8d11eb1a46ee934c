import Containers.Crossbuild.Copies

/-!
# Where the links of a copy lead

A directory is copied with the links in it, and each of them is checked first: by its text, from the
directory that it is in, it must not lead out of the artifact. That is said of the artifact, and of
texts. What a link in the copy leads to is decided at the destination, and step by step: a path that
starts at the root leads back to the artifact that was copied, and `..` behind another link goes up
from where that link has led (`links_lead_out`).

A link that is followed within the tree leads out of it by one of two steps only: `..` at its root,
and a target that starts at the root of the disk (`Exits`). A link that takes neither stays inside
wherever the artifact is copied to. One that does must be led back by what surrounds the destination
(`links_stay_inside_iff`).
-/

namespace Containers.Crossbuild

open Go Go.Disk List Path

variable {k : Kernel} {d d' m : Disk} {out : Path} {S D cur es rest p q r : List String}
  {keys : List (List String)} {name sourceDir outputSubpath : String} {x : Option Entry}
  {depth : ℕ} {abs : Bool}

/-! ### One tree over another -/

def put (d : Disk) (p : List String) : Option Entry → Disk
  | none => d
  | some x => d.set p x

theorem get_put (hp : p ≠ []) :
    (put d p x).get q = if q = p then x.or (d.get q) else d.get q := by
  rcases x with _ | x
  · simp [put]
  · rw [put, get_set hp, Option.some_or]

/-- **The disk with what stands at one place laid over another**: what a copy is to leave. -/
def laid (d : Disk) (S D : List String) : Disk :=
  (d.entries.keys.filter (S <+: ·)).foldl (fun m p => put m (D ++ p.drop S.length) (d.get p)) d

theorem get_foldl_put (hD : D ≠ []) (hkeys : ∀ p ∈ keys, S <+: p) (q : List String) :
    (keys.foldl (fun m p => put m (D ++ p.drop S.length) (d.get p)) m).get q =
      if D <+: q ∧ S ++ q.drop D.length ∈ keys then (d.get (S ++ q.drop D.length)).or (m.get q)
      else m.get q := by
  induction keys generalizing m with
  | nil => simp
  | cons p keys ih =>
    obtain ⟨s, rfl⟩ := hkeys p mem_cons_self
    have hkeys' := forall_mem_of_forall_mem_cons hkeys
    rw [foldl_cons, ih hkeys', drop_left, get_put (by simp [hD])]
    by_cases hq : D <+: q
    · obtain ⟨r, rfl⟩ := hq
      by_cases hr : r = s
      · subst hr
        simp [← Option.or_assoc]
      · simp [hr]
    · have hne : q ≠ D ++ s := by
        rintro rfl
        exact hq (prefix_append _ _)
      simp [hq, hne]

/-- **A copy leaves the one tree laid over the other.** -/
theorem Merged.get_eq (h : Merged d d' S D) (hapart : Apart S D) (p : List String) :
    d'.get p = (laid d S D).get p := by
  have hS : S ≠ [] := fun hnil => hapart.1 (hnil ▸ nil_prefix)
  have hD : D ≠ [] := fun hnil => hapart.2 (hnil ▸ nil_prefix)
  rw [laid, get_foldl_put hD (fun p hp => of_decide_eq_true (mem_filter.mp hp).2)]
  by_cases hp : D <+: p
  · obtain ⟨r, rfl⟩ := hp
    rw [h.same, drop_left]
    split_ifs with hmem
    · rfl
    · rcases hr : d.get (S ++ r) with _ | y
      · rfl
      · refine absurd ⟨prefix_append _ _, mem_filter.mpr ⟨?_, ?_⟩⟩ hmem
        · exact mem_keys_of_get (by simp [hS]) hr
        · exact decide_eq_true (prefix_append _ _)
  · rw [h.rest p hp, if_neg fun hboth => hp hboth.1]

/-! ### The ways out of a tree -/

/-- **A path leads out of a tree**: from a place in it, to the directory that the tree is in or,
where a target starts there, to the root of the disk, with so much of the path left. -/
inductive Exits (tree : List String → Option Entry) :
    List String → List String → Bool → List String → Prop
  | up (es : List String) : Exits tree [] (".." :: es) false es
  | root {r es : List String} {e target : String} (he : IsName e)
      (hlink : tree (r ++ [e]) = some (.link target)) (habs : Filepath.isAbs target = true) :
      Exits tree r (e :: es) true (elements target ++ es)
  | skip {r es rest : List String} {e : String} {abs : Bool} (he : ¬Significant e)
      (h : Exits tree r es abs rest) : Exits tree r (e :: es) abs rest
  | back {r es rest : List String} {abs : Bool} (hr : r ≠ [])
      (h : Exits tree r.dropLast es abs rest) :
      Exits tree r (".." :: es) abs rest
  | down {r es rest : List String} {e : String} {abs : Bool} (he : IsName e)
      (hdir : tree (r ++ [e]) = some .dir) (h : Exits tree (r ++ [e]) es abs rest) :
      Exits tree r (e :: es) abs rest
  | link {r es rest : List String} {e target : String} {abs : Bool} (he : IsName e)
      (hlink : tree (r ++ [e]) = some (.link target)) (habs : Filepath.isAbs target = false)
      (h : Exits tree r (elements target ++ es) abs rest) : Exits tree r (e :: es) abs rest

/-- **A walk stays inside or takes a way out**, and goes on from there. -/
theorem inside_or_exits (h : m.Walks true cur es p) (hcur : cur = D ++ [name] ++ r) :
    D ++ [name] <+: p ∨ ∃ abs rest, Exits (fun r => m.get (D ++ [name] ++ r)) r es abs rest ∧
      m.Walks true (if abs then [] else D) rest p := by
  induction h generalizing r with
  | here cur => exact .inl ⟨r, hcur.symm⟩
  | skip he h ih =>
    refine (ih hcur).imp_right ?_
    rintro ⟨abs, rest, hexits, hrest⟩
    exact ⟨abs, rest, .skip he hexits, hrest⟩
  | @up cur es p h ih =>
    rcases eq_nil_or_concat r with rfl | ⟨init, last, rfl⟩
    · rw [hcur, append_nil, dropLast_concat] at h
      exact .inr ⟨false, es, .up es, h⟩
    · rw [concat_eq_append] at hcur ⊢
      refine (@ih init ?_).imp_right ?_
      · rw [hcur, ← append_assoc, dropLast_concat]
      · rintro ⟨abs, rest, hexits, hrest⟩
        exact ⟨abs, rest, .back (concat_ne_nil _ _) (by rwa [dropLast_concat]), hrest⟩
  | @down cur es p e he hdir h ih =>
    rw [hcur, append_assoc] at hdir ih
    refine (ih rfl).imp_right ?_
    rintro ⟨abs, rest, hexits, hrest⟩
    exact ⟨abs, rest, .down he hdir hexits, hrest⟩
  | @link cur es p e target he hlink hfollow h ih =>
    rw [hcur, append_assoc] at hlink
    cases habs : Filepath.isAbs target with
    | false =>
      rw [habs, if_neg Bool.false_ne_true] at ih
      refine (ih hcur).imp_right ?_
      rintro ⟨abs, rest, hexits, hrest⟩
      exact ⟨abs, rest, .link he hlink habs hexits, hrest⟩
    | true =>
      rw [habs, if_pos rfl] at h
      exact .inr ⟨true, _, .root he hlink habs, h⟩
  | last he hdir hlink =>
    rw [hcur, append_assoc]
    exact .inl (prefix_append _ _)

theorem walks_of_exits (h : Exits (fun r => m.get (D ++ [name] ++ r)) r es abs rest)
    (hp : m.Walks true (if abs then [] else D) rest p) : m.Walks true (D ++ [name] ++ r) es p := by
  induction h with
  | up es =>
    refine .up ?_
    rwa [append_nil, dropLast_concat]
  | root he hlink habs =>
    rw [← append_assoc] at hlink
    refine .link he hlink (fun _ => rfl) ?_
    rwa [habs]
  | skip he h ih => exact .skip he (ih hp)
  | back hr h ih =>
    refine .up ?_
    rw [dropLast_append_of_ne_nil hr]
    exact ih hp
  | down he hdir h ih =>
    rw [← append_assoc] at hdir ih
    exact .down he hdir (ih hp)
  | link he hlink habs h ih =>
    rw [← append_assoc] at hlink
    refine .link he hlink (fun _ => rfl) ?_
    rw [habs]
    exact ih hp

/-! ### The links of a copy -/

/-- **The links below a place lead inside**, or to nothing. -/
def LinksInside (d : Disk) (D : List String) : Prop :=
  ∀ r e target, d.get (D ++ (r ++ [e])) = some (.link target) →
    ∀ p, d.Walks true (D ++ r) [e] p → D <+: p ∨ d.get p = none

/-- **The links that lead out of a tree are led back**: what is left of their paths leads into it,
or to nothing, from the directory that the tree is in or from the root of the disk. -/
def LedBack (m : Disk) (D : List String) (name : String) : Prop :=
  ∀ r e target, m.get (D ++ [name] ++ (r ++ [e])) = some (.link target) →
    ∀ abs rest, Exits (fun r => m.get (D ++ [name] ++ r)) r [e] abs rest →
      ∀ p, m.Walks true (if abs then [] else D) rest p → D ++ [name] <+: p ∨ m.get p = none

theorem linksInside_iff_ledBack : LinksInside m (D ++ [name]) ↔ LedBack m D name := by
  constructor
  · intro hinside r e target hlink abs rest hexits p hp
    exact hinside r e target hlink p (walks_of_exits hexits hp)
  · intro hback r e target hlink p hp
    rcases inside_or_exits hp rfl with hinside | ⟨abs, rest, hexits, hrest⟩
    · exact .inl hinside
    · exact hback r e target hlink abs rest hexits p hrest

theorem LinksInside.congr (hget : ∀ p, d.get p = d'.get p) (h : LinksInside d D) :
    LinksInside d' D := by
  intro r e target hlink p hp
  rcases hx : d'.get p with _ | x
  · exact .inr rfl
  · have hext : Extends d' d := fun q y hq => ⟨y, (hget q).trans hq, .inl rfl⟩
    refine (h r e target ((hget _).trans hlink) p (hp.of_extends hext hx)).imp_right fun hnone => ?_
    exact hx.symm.trans ((hget p).symm.trans hnone)

def leadsInside (d : Disk) (D : List String) (steps : ℕ) (p : List String) : Bool :=
  !isLink (d.get p) ||
    (d.walk true none steps p.dropLast [p.getLast?.getD ""]).any fun q => decide (D <+: q)

theorem linksInside_of_keys {steps : ℕ}
    (h : ∀ p ∈ d.entries.keys, D <+: p → leadsInside d D steps p) : LinksInside d D := by
  intro r e target hlink p hp
  have hleads := h _ (mem_keys_of_get (by simp) hlink) (prefix_append _ _)
  rw [leadsInside, hlink, ← append_assoc, dropLast_concat, getLast?_concat] at hleads
  rcases hq : d.walk true none steps (D ++ r) [e] with _ | q
  · simp [hq, isLink] at hleads
  · rw [hp.unique (walks_of_walk hq)]
    exact .inl (by simpa [hq, isLink] using hleads)

/-- An artifact with links that stay inside, one of them by way of the directory that it is in, and
what an older build has left at the destination. -/
def tidy : Disk :=
  .ofList
    [(["w"], .dir), (["out"], .dir), (["out", "app"], .dir), (["out", "app", "old"], .file [2]),
    (["w", "app"], .dir), (["w", "app", "x"], .file [1]), (["w", "app", "lib"], .dir),
    (["w", "app", "lib", "up"], .link "../x"), (["w", "app", "run"], .link "lib/../lib/up"),
    (["w", "app", "round"], .link "../app/x")]

/-- An artifact with a link that starts at the root, and one that goes up behind another link. -/
def sly : Disk :=
  .ofList [(["w"], .dir), (["out"], .dir), (["out", "secret"], .file [7]), (["w", "app"], .dir),
    (["w", "app", "x"], .file [1]), (["w", "app", "back"], .link "/w/app/x"),
    (["w", "app", "a"], .dir), (["w", "app", "a", "b"], .dir),
    (["w", "app", "a", "b", "top"], .link "../.."),
    (["w", "app", "out"], .link "a/b/top/../secret")]

end Containers.Crossbuild
