import Containers.Go.Paths
import Mathlib.Data.List.AList
import Mathlib.Data.List.Sort
import Mathlib.Tactic

/-!
# Files, directories and links

A file system as the calls of Go's `os` see it. A *place* is what the kernel ends up at: the names
from the root down. A `Disk` says what stands at which place. A *path* leads to a place by steps:
`..` goes to the directory above, and a link is followed to where it points, from the directory that
it stands in, unless it stands last and is not to be followed.

* `Path` – paths as `path/filepath` has them: cleaned, without a look at the disk.
* `walk` – where a path leads, with a bound on the number of steps, and in a jail if there is one,
  as in `os.Root`; `Walks` is the same without a bound. What a walk comes to does not depend on the
  bound (`Walks.unique`), it goes through directories one after the other (`Walks.append`), and what
  is added to a disk does not change a walk to what is there (`Walks.of_extends`).
* `stat`, `mkdirAll`, `readDir` and so on – the calls. `mkdirAll_name`: a name in a
  directory is made by one entry, or is there.
* `Closed` – what stands on the disk hangs together.
-/

namespace Containers.Go

open List Filepath Option

variable {rooted : Bool}

/-! ### Paths -/

def elements (path : String) : List String := (path.toList.splitOn '/').map String.ofList

/-- **A path**: whether it starts at the root, and its elements. -/
@[ext] structure Path where
  rooted : Bool
  elems : List String
  deriving DecidableEq, Repr

namespace Path

/-- The path above: `..` is kept where there is nothing to take back, and dropped at the root. -/
def above (rooted : Bool) (elems : List String) : List String :=
  if elems = [] then (if rooted then [] else [".."])
  else if elems.getLast? = some ".." then elems ++ [".."]
  else elems.dropLast

def follow (rooted : Bool) : List String → List String → List String
  | elems, [] => elems
  | elems, e :: es =>
    if e = "" ∨ e = "." then follow rooted elems es
    else if e = ".." then follow rooted (above rooted elems) es
    else follow rooted (elems ++ [e]) es

def raw (path : String) : Path := ⟨isAbs path, elements path⟩

/-- `filepath.Clean`. -/
def parse (path : String) : Path :=
  ⟨isAbs path, follow (isAbs path) [] (elements path)⟩

/-- `filepath.Join`, on a path that is not empty. -/
def join (p : Path) (path : String) : Path := ⟨p.rooted, follow p.rooted p.elems (elements path)⟩

/-- `filepath.Join` with a name in the directory. -/
def child (p : Path) (name : String) : Path := ⟨p.rooted, p.elems ++ [name]⟩

/-- `filepath.Dir`. -/
def dir (p : Path) : Path := ⟨p.rooted, p.elems.dropLast⟩

/-- `filepath.Base`. -/
def base (p : Path) : String := p.elems.getLast?.getD (if p.rooted then "/" else ".")

def text (p : Path) : String :=
  if p.rooted then "/" ++ "/".intercalate p.elems
  else if "/".intercalate p.elems = "" then "." else "/".intercalate p.elems

/-- What is left of two lists behind what they have in common. -/
def apart : List String → List String → List String × List String
  | b :: bs, t :: ts => if b = t then apart bs ts else (b :: bs, t :: ts)
  | bs, ts => (bs, ts)

/-- `filepath.Rel`, as elements. -/
def rel (base target : Path) : Option (List String) :=
  if base.rooted ≠ target.rooted then none
  else if (apart base.elems target.elems).1.head? = some ".." then none
  else some ((apart base.elems target.elems).1.map (fun _ => "..") ++
    (apart base.elems target.elems).2)

theorem cleanElement_reverse (rooted : Bool) (elems : List String) (e : String) :
    cleanElement rooted (elems.map String.toList).reverse e.toList =
      ((if e = "" ∨ e = "." then elems else if e = ".." then above rooted elems
        else elems ++ [e]).map String.toList).reverse := by
  have hdot : ∀ e : String, e.toList = ['.'] ↔ e = "." := fun e => by
    rw [← String.toList_inj]
    rfl
  have hdots : ∀ e : String, e.toList = ['.', '.'] ↔ e = ".." := fun e => by
    rw [← String.toList_inj]
    rfl
  unfold cleanElement
  simp only [String.toList_eq_nil_iff, hdot, hdots]
  by_cases hskip : e = "" ∨ e = "."
  · rw [if_pos hskip, if_pos hskip]
  rw [if_neg hskip, if_neg hskip]
  by_cases hup : e = ".."
  · rw [hup, above]
    rcases eq_nil_or_concat elems with rfl | ⟨init, l, rfl⟩
    · cases rooted <;> rfl
    · simp only [concat_eq_append, map_append, map_cons, map_nil,
        reverse_append, reverse_cons, reverse_nil, nil_append,
        cons_append, append_eq_nil_iff, cons_ne_self, and_false,
        getLast?_concat, some.injEq, dropLast_concat, if_false, hdots]
      split_ifs <;> simp
  · rw [if_neg hup, if_neg hup]
    simp

theorem follow_eq_foldl (rooted : Bool) (elems es : List String) :
    (follow rooted elems es).map String.toList =
      ((es.map String.toList).foldl (cleanElement rooted)
        (elems.map String.toList).reverse).reverse := by
  induction es generalizing elems with
  | nil => simp [follow]
  | cons e es ih =>
    rw [map_cons, foldl_cons, cleanElement_reverse, ← ih, follow]
    split_ifs <;> rfl

/-- **A path is cleaned to what `filepath.Clean` makes of it.** -/
theorem text_parse (path : String) : (parse path).text = clean path := by
  have helements : (elements path).map String.toList = path.toList.splitOn '/' := by
    simp [elements]
  have hbody : ("/".intercalate (parse path).elems).toList = intercalate ['/']
      ((path.toList.splitOn '/').foldl (cleanElement (isAbs path)) []).reverse := by
    rw [String.toList_intercalate, parse, follow_eq_foldl, helements]
    rfl
  have hempty : "/".intercalate (parse path).elems = "" ↔ intercalate ['/']
      ((path.toList.splitOn '/').foldl (cleanElement (isAbs path)) []).reverse
        = [] := by
    rw [← hbody, String.toList_eq_nil_iff]
  rw [text, clean, ← String.toList_inj]
  simp only [hempty]
  have hrooted : (parse path).rooted = isAbs path := rfl
  rw [hrooted]
  split_ifs
  · simp only [String.toList_append, hbody, String.toList_ofList, String.reduceToList,
      singleton_append]
  · rfl
  · rw [hbody, String.toList_ofList]

example : (parse "/srv/./app/../docker//compose.yml").text = "/srv/docker/compose.yml" := by
  decide +kernel

example : rel (parse "/srv/app") (parse "/srv/lib/x") = some ["..", "lib", "x"] := by decide +kernel

end Path

def Significant (e : String) : Prop := e ≠ "" ∧ e ≠ "."

instance (e : String) : Decidable (Significant e) := inferInstanceAs (Decidable (_ ∧ _))

/-- An element that is a name. -/
structure IsName (e : String) : Prop where
  significant : Significant e
  ne_dots : e ≠ ".."

theorem slashless_of_mem_splitOn {l part : List Char} (h : part ∈ l.splitOn '/') : '/' ∉ part := by
  induction l generalizing part with
  | nil =>
    rw [splitOn_nil, mem_singleton] at h
    simp [h]
  | cons c l ih =>
    rw [splitOn, splitOnP_cons_eq_if_modifyHead] at h
    split_ifs at h with hslash
    · rcases mem_cons.mp h with rfl | hmem
      · exact not_mem_nil
      · exact ih hmem
    · rw [splitOn] at ih
      rcases hparts : l.splitOnP (· == '/') with _ | ⟨first, rest⟩
      · rw [hparts] at h
        cases h
      · rw [hparts] at h
        rcases mem_cons.mp h with rfl | hmem
        · rw [mem_cons, not_or]
          refine ⟨fun heq => hslash (beq_iff_eq.mpr heq.symm), ih ?_⟩
          rw [hparts]
          exact mem_cons_self
        · refine ih ?_
          rw [hparts]
          exact mem_cons_of_mem _ hmem

theorem elements_of_mem {path : String} {e : String} (h : e ∈ elements path) :
    elements e = [e] := by
  obtain ⟨part, hpart, rfl⟩ := mem_map.mp h
  rw [elements, String.toList_ofList, splitOn_eq_singleton (slashless_of_mem_splitOn hpart)]
  rfl

theorem Path.join_name {e : String} (he : IsName e) (helements : elements e = [e]) (p : Path) :
    p.join e = p.child e := by
  have hskip : ¬(e = "" ∨ e = ".") := not_or.mpr he.significant
  rw [join, child, helements, follow, if_neg hskip, if_neg he.ne_dots, follow]

instance (e : String) : Decidable (IsName e) :=
  decidable_of_iff (Significant e ∧ e ≠ "..") ⟨fun h => ⟨h.1, h.2⟩, fun h => ⟨h.1, h.2⟩⟩

/-! ### Paths below others -/

theorem elements_append (a b : String) : elements (a ++ "/" ++ b) = elements a ++ elements b := by
  have hchars : (a ++ "/" ++ b).toList = a.toList ++ '/' :: b.toList := by simp
  rw [elements, hchars, splitOn_append_cons_self, map_append]
  rfl

theorem Path.follow_append (elems es es' : List String) :
    follow rooted elems (es ++ es') = follow rooted (follow rooted elems es) es' := by
  induction es generalizing elems with
  | nil => rfl
  | cons e es ih =>
    rw [cons_append, follow, follow]
    split_ifs <;> exact ih _

theorem Path.parse_append {dir : String} (hdir : dir ≠ "") (path : String) :
    parse (dir ++ "/" ++ path) = (parse dir).join path := by
  rw [parse, elements_append, follow_append, String.append_assoc, isAbs_append hdir]
  rfl

theorem Path.join_append (p : Path) (a b : String) :
    p.join (a ++ "/" ++ b) = (p.join a).join b := by
  rw [join, elements_append, follow_append]
  rfl

theorem Path.join_intercalate (p : Path) (path : String) (paths : List String) :
    p.join ("/".intercalate (path :: paths)) = paths.foldl join (p.join path) := by
  induction paths generalizing p path with
  | nil => simp
  | cons next paths ih =>
    rw [String.intercalate_cons_cons, join_append, ih]
    rfl

/-- **Paths are joined one after the other.** -/
theorem Path.joinAll_eq {dir : String} (hdir : dir ≠ "") (paths : List String) :
    joinAll (dir :: paths) = (paths.foldl join (parse dir)).text := by
  rw [joinAll, if_pos hdir, ← text_parse]
  rcases paths with _ | ⟨path, paths⟩
  · simp
  · rw [String.intercalate_cons_cons, parse_append hdir, join_intercalate]
    rfl

/-! ### Paths are read off their texts -/

def Kept (e : String) : Prop := Significant e ∧ elements e = [e]

theorem elements_intercalate {es : List String} (hes : ∀ e ∈ es, Kept e) (hne : es ≠ []) :
    elements ("/".intercalate es) = es := by
  induction es with
  | nil => exact absurd rfl hne
  | cons e es ih =>
    rcases es with _ | ⟨next, es⟩
    · simpa using (hes e mem_cons_self).2
    · rw [String.intercalate_cons_cons, elements_append, (hes e mem_cons_self).2,
        ih (forall_mem_of_forall_mem_cons hes) (cons_ne_nil _ _)]
      rfl

theorem Path.kept_follow {elems es : List String} (helems : ∀ e ∈ elems, Kept e)
    (hes : ∀ e ∈ es, elements e = [e]) : ∀ e ∈ follow rooted elems es, Kept e := by
  induction es generalizing elems with
  | nil => exact helems
  | cons e es ih =>
    have hdots : Kept ".." := ⟨by decide, by decide +kernel⟩
    have hes' := forall_mem_of_forall_mem_cons hes
    rw [follow]
    split_ifs with hskip hup
    · exact ih helems hes'
    · refine ih (fun x hx => ?_) hes'
      rw [above] at hx
      split_ifs at hx
      · cases hx
      · rwa [mem_singleton.mp hx]
      · rcases mem_append.mp hx with hx | hx
        · exact helems x hx
        · rwa [mem_singleton.mp hx]
      · exact helems x (mem_of_mem_dropLast hx)
    · refine ih (fun x hx => ?_) hes'
      rcases mem_append.mp hx with hx | hx
      · exact helems x hx
      · rw [mem_singleton.mp hx]
        exact ⟨not_or.mp hskip, hes e mem_cons_self⟩

theorem Path.dots_not_mem_follow {elems es : List String} (h : ".." ∉ elems) :
    ".." ∉ follow true elems es := by
  induction es generalizing elems with
  | nil => exact h
  | cons e es ih =>
    rw [follow]
    split_ifs with hskip hup
    · exact ih h
    · refine ih ?_
      rw [above, if_pos rfl]
      split_ifs with hnil hlast
      · exact not_mem_nil
      · exact absurd (mem_of_getLast? hlast) h
      · exact fun hmem => h (mem_of_mem_dropLast hmem)
    · exact ih (by simp [h, Ne.symm hup])

theorem Path.kept_parse (path : String) : ∀ e ∈ (parse path).elems, Kept e :=
  kept_follow (forall_mem_nil _) fun _ => elements_of_mem

theorem Path.read_text {p : Path} (hp : ∀ e ∈ p.elems, Kept e) :
    isAbs p.text = p.rooted ∧
      (elements p.text).filter (fun e => decide (Significant e)) = p.elems := by
  have hall : p.elems.filter (fun e => decide (Significant e)) = p.elems :=
    filter_eq_self.mpr fun e he => decide_eq_true (hp e he).1
  rcases helems : p.elems with _ | ⟨e, es⟩
  · cases hrooted : p.rooted <;> rw [text, hrooted, helems] <;> decide +kernel
  · have hbody := elements_intercalate hp (by simp [helems])
    have hne : "/".intercalate p.elems ≠ "" := by
      intro hempty
      rw [hempty, helems] at hbody
      obtain ⟨rfl, -⟩ := cons.inj hbody
      exact (hp "" (by simp [helems])).1.1 rfl
    rw [text]
    cases hrooted : p.rooted
    · rw [if_neg Bool.false_ne_true, if_neg hne, hbody, hall, helems]
      refine ⟨?_, rfl⟩
      -- a leading slash would make the first element empty
      by_contra habs
      rw [Bool.not_eq_false, isAbs, decide_eq_true_eq] at habs
      obtain ⟨rest, hrest⟩ := head?_eq_some_iff.mp habs
      rw [helems, elements, hrest, splitOn, splitOnP_cons_eq_if_modifyHead, if_pos (by decide),
        map_cons] at hbody
      exact (hp e (by simp [helems])).1.1 (cons.inj hbody).1.symm
    · have hslash := elements_append "" ("/".intercalate p.elems)
      rw [String.empty_append, hbody] at hslash
      rw [if_pos rfl, hslash, filter_append, hall, helems]
      exact ⟨by simp [isAbs], rfl⟩

theorem Path.text_inj {p q : Path} (hp : ∀ e ∈ p.elems, Kept e) (hq : ∀ e ∈ q.elems, Kept e) :
    p.text = q.text ↔ p = q := by
  refine ⟨fun h => ?_, fun h => h ▸ rfl⟩
  obtain ⟨habs, helems⟩ := read_text hp
  obtain ⟨habs', helems'⟩ := read_text hq
  obtain ⟨rooted, elems⟩ := p
  rw [h, habs'] at habs
  rw [h, helems'] at helems
  exact Path.ext habs.symm helems.symm

/-- **Two files of a directory are one** where the walks to them end in one place. -/
theorem Path.join_eq_iff {dir : String} (hdir : dir ≠ "") (x y : String) :
    Filepath.join dir x = Filepath.join dir y ↔ (parse dir).join x = (parse dir).join y := by
  rw [Filepath.join, Filepath.join, if_pos hdir, if_pos hdir, ← text_parse, ← text_parse,
    text_inj (kept_parse _) (kept_parse _), parse_append hdir, parse_append hdir]

theorem Path.join_name_eq_iff {p : Path} {x y : String} (hx : IsName x ∧ elements x = [x])
    (hy : IsName y ∧ elements y = [y]) : p.join x = p.join y ↔ x = y := by
  rw [join_name hx.1 hx.2, join_name hy.1 hy.2]
  simp [child]

/-! ### Ups and downs -/

def Path.up (rooted : Bool) (u : ℕ) (elems : List String) : List String :=
  (Path.above rooted)^[u] elems

theorem Path.above_append_name {elems : List String} {e : String} (he : e ≠ "..") :
    above rooted (elems ++ [e]) = elems := by
  simp [above, he]

theorem Path.up_false_nil (u : ℕ) : up false u [] = replicate u ".." := by
  induction u with
  | zero => rfl
  | succ u ih =>
    rw [up, Function.iterate_succ_apply', ← up, ih, above, replicate_succ']
    cases u <;> simp [replicate_succ']

theorem Path.up_true_nil (u : ℕ) : up true u [] = [] := by
  induction u with
  | zero => rfl
  | succ u ih => rw [up, Function.iterate_succ_apply', ← up, ih, above, if_pos rfl, if_pos rfl]

theorem Path.up_append {front names : List String} (hnames : ∀ e ∈ names, IsName e) (u : ℕ) :
    up rooted u (front ++ names) = if u ≤ names.length then front ++ names.take (names.length - u)
      else up rooted (u - names.length) front := by
  induction names using reverseRecOn generalizing u with
  | nil => cases u <;> simp [up]
  | append_singleton names e ih =>
    have he := (hnames e (by simp)).ne_dots
    cases u with
    | zero => simp [up]
    | succ u =>
      rw [up, Function.iterate_succ_apply, ← append_assoc, above_append_name he, ← up,
        ih fun x hx => hnames x (mem_append_left _ hx)]
      simp only [length_append, length_singleton, Nat.add_le_add_iff_right, Nat.add_sub_add_right]
      rw [take_append_of_le_length (Nat.sub_le _ _)]

/-- **A path goes up some directories and then down by some names**, from wherever it starts. -/
theorem Path.exists_follow (es : List String) : ∃ u names, (∀ e ∈ names, IsName e ∧ e ∈ es) ∧
    ∀ rooted elems, follow rooted elems es = up rooted u elems ++ names := by
  induction es using reverseRecOn with
  | nil => exact ⟨0, [], forall_mem_nil _, fun _ _ => (append_nil _).symm⟩
  | append_singleton es e ih =>
    obtain ⟨u, names, hnames, hfollow⟩ := ih
    have hkeep : ∀ x ∈ names, IsName x ∧ x ∈ es ++ [e] := fun x hx =>
      ⟨(hnames x hx).1, mem_append_left _ (hnames x hx).2⟩
    by_cases hskip : e = "" ∨ e = "."
    · refine ⟨u, names, hkeep, fun rooted elems => ?_⟩
      rw [follow_append, follow, if_pos hskip, follow, hfollow]
    by_cases hdots : e = ".."
    · rcases eq_nil_or_concat names with rfl | ⟨front, last, rfl⟩
      · refine ⟨u + 1, [], forall_mem_nil _, fun rooted elems => ?_⟩
        rw [follow_append, follow, if_neg hskip, if_pos hdots, follow, hfollow, append_nil, up, up,
          Function.iterate_succ_apply', append_nil]
      · rw [concat_eq_append] at hkeep hnames hfollow
        refine ⟨u, front, fun x hx => hkeep x (mem_append_left _ hx), fun rooted elems => ?_⟩
        rw [follow_append, follow, if_neg hskip, if_pos hdots, follow, hfollow, ← append_assoc,
          above_append_name (hnames last (by simp)).1.ne_dots]
    · refine ⟨u, names ++ [e], fun x hx => ?_, fun rooted elems => ?_⟩
      · rcases mem_append.mp hx with hx | hx
        · exact hkeep x hx
        · rw [mem_singleton.mp hx]
          exact ⟨⟨not_or.mp hskip, hdots⟩, by simp⟩
      · rw [follow_append, follow, if_neg hskip, if_neg hdots, follow, hfollow, append_assoc]

/-! ### Paths that do not go up -/

theorem Path.head_follow {elems es : List String} (h : elems.head? = some "..") :
    (follow false elems es).head? = some ".." := by
  induction es generalizing elems with
  | nil => exact h
  | cons e es ih =>
    obtain ⟨rest, rfl⟩ := head?_eq_some_iff.mp h
    rw [follow]
    split_ifs
    · exact ih rfl
    · refine ih ?_
      rw [above, if_neg (cons_ne_nil _ _)]
      rcases rest with _ | ⟨next, rest⟩
      · rfl
      · split_ifs <;> rfl
    · exact ih rfl

theorem Path.follow_inside {elems es : List String} (helems : ∀ e ∈ elems, IsName e)
    (h : (follow false elems es).head? ≠ some "..") (rooted : Bool) (base : List String) :
    follow rooted (base ++ elems) es = base ++ follow false elems es ∧
      ∀ e ∈ follow false elems es, IsName e := by
  induction es generalizing elems with
  | nil => exact ⟨rfl, helems⟩
  | cons e es ih =>
    simp only [follow] at h ⊢
    split_ifs at h ⊢ with hskip hdots
    · exact ih helems h
    · rcases eq_nil_or_concat elems with rfl | ⟨front, last, rfl⟩
      · exact absurd (head_follow rfl) h
      · have hlast : last ≠ ".." := (helems last (by simp)).ne_dots
        have habove : ∀ rooted base, above rooted (base ++ front.concat last) = base ++ front := by
          simp [above, hlast]
        have hfront := habove false []
        rw [nil_append, nil_append] at hfront
        rw [hfront] at h
        rw [habove, hfront]
        exact ih (fun e he => helems e (by simp [he])) h
    · rw [append_assoc]
      refine ih (fun e' he' => ?_) h
      rcases mem_append.mp he' with hmem | hmem
      · exact helems e' hmem
      · rw [mem_singleton.mp hmem]
        exact ⟨not_or.mp hskip, hdots⟩

/-- A path that is relative and, cleaned, does not begin with `..`. -/
def Path.Stays (p : Path) : Prop := p.rooted = false ∧ p.elems.head? ≠ some ".."

/-- **A path that does not go up stays below any other.** -/
theorem Path.join_of_stays {path : String} (h : (parse path).Stays) (p : Path) :
    p.join path = ⟨p.rooted, p.elems ++ (parse path).elems⟩ ∧
      ∀ e ∈ (parse path).elems, IsName e := by
  obtain ⟨hrel, hhead⟩ := h
  simp only [parse] at hrel hhead ⊢
  rw [hrel] at hhead ⊢
  obtain ⟨hjoin, hnames⟩ := follow_inside (forall_mem_nil _) hhead p.rooted p.elems
  rw [append_nil] at hjoin
  exact ⟨congrArg _ hjoin, hnames⟩

/-- **A path is in a directory**: it is the directory, cleaned, with names below it if it is another
one. -/
def Within (dir path : String) : Prop := ∃ names, (∀ e ∈ names, IsName e) ∧
  path = (⟨(Path.parse dir).rooted, (Path.parse dir).elems ++ names⟩ : Path).text

/-! ### Disks -/

/-- What stands at a place. -/
inductive Entry where
  | file (bytes : List UInt8)
  | dir
  | link (target : String)
  /-- A pipe, a socket or a device. -/
  | special
  deriving DecidableEq, Repr

/-- **A disk**: what stands at the places below the root. -/
structure Disk where
  entries : AList fun _ : List String => Entry

variable {above : List String}

namespace Disk

variable (d : Disk)

def get (p : List String) : Option Entry := if p = [] then some .dir else d.entries.lookup p

def set (p : List String) (x : Entry) : Disk := ⟨d.entries.insert p x⟩

def ofList (entries : List (List String × Entry)) : Disk :=
  entries.foldl (fun d entry => d.set entry.1 entry.2) ⟨∅⟩

def nameIn (p q : List String) : Option String := if q.dropLast = p then q.getLast? else none

def names (p : List String) : List String :=
  (d.entries.keys.filterMap (nameIn p)).insertionSort (· ≤ ·)

/-- **Where a path leads** from a place, in at most so many steps. In a jail, a step out of it is
refused. The last element need not be there. -/
def walk (follow : Bool) (jail : Option (List String)) :
    ℕ → List String → List String → Option (List String)
  | 0, _, _ => none
  | _ + 1, cur, [] => some cur
  | steps + 1, cur, e :: es =>
    if e = "" ∨ e = "." then walk follow jail steps cur es
    else if e = ".." then
      if jail = some cur then none else walk follow jail steps cur.dropLast es
    else
      match d.get (cur ++ [e]) with
      | some .dir => walk follow jail steps (cur ++ [e]) es
      | some (.link target) =>
        if es = [] ∧ follow = false then some (cur ++ [e])
        else if isAbs target then
          if jail = none then walk follow jail steps [] (elements target ++ es) else none
        else walk follow jail steps cur (elements target ++ es)
      | _ => if es = [] then some (cur ++ [e]) else none

/-- **Where a path leads**, in any number of steps. -/
inductive Walks (follow : Bool) : List String → List String → List String → Prop
  | here (cur : List String) : Walks follow cur [] cur
  | skip {cur es p : List String} {e : String} (he : ¬Significant e) (h : Walks follow cur es p) :
      Walks follow cur (e :: es) p
  | up {cur es p : List String} (h : Walks follow cur.dropLast es p) :
      Walks follow cur (".." :: es) p
  | down {cur es p : List String} {e : String} (he : IsName e)
      (hdir : d.get (cur ++ [e]) = some .dir)
      (h : Walks follow (cur ++ [e]) es p) : Walks follow cur (e :: es) p
  | link {cur es p : List String} {e target : String} (he : IsName e)
      (hlink : d.get (cur ++ [e]) = some (.link target)) (hfollow : es = [] → follow = true)
      (h : Walks follow (if isAbs target then [] else cur) (elements target ++ es) p) :
      Walks follow cur (e :: es) p
  | last {cur : List String} {e : String} (he : IsName e) (hdir : d.get (cur ++ [e]) ≠ some .dir)
      (hlink : follow = true → ∀ target, d.get (cur ++ [e]) ≠ some (.link target)) :
      Walks follow cur [e] (cur ++ [e])

variable {d} {d' : Disk} {follow : Bool} {jail : Option (List String)} {steps : ℕ}
  {cur es es' p q r : List String} {e name target : String} {x : Entry}

theorem walks_of_last (he : IsName e) (hdir : d.get (cur ++ [e]) ≠ some .dir)
    (hlink : ∀ target, d.get (cur ++ [e]) ≠ some (.link target)) (h : es = [] ∧ cur ++ [e] = p) :
    d.Walks follow cur (e :: es) p := by
  obtain ⟨rfl, rfl⟩ := h
  exact .last he hdir fun _ => hlink

theorem walks_of_walk (h : d.walk follow jail steps cur es = some p) : d.Walks follow cur es p := by
  induction steps generalizing cur es with
  | zero => cases h
  | succ steps ih =>
    cases es with
    | nil =>
      cases h
      exact .here _
    | cons e es =>
      rw [walk] at h
      by_cases hskip : e = "" ∨ e = "."
      · rw [if_pos hskip] at h
        exact .skip (fun hsig => hskip.elim hsig.1 hsig.2) (ih h)
      rw [if_neg hskip] at h
      by_cases hdots : e = ".."
      · rw [if_pos hdots] at h
        split_ifs at h
        cases hdots
        exact .up (ih h)
      rw [if_neg hdots] at h
      have he : IsName e := ⟨not_or.mp hskip, hdots⟩
      rcases hget : d.get (cur ++ [e]) with _ | bytes | _ | target | _
      case none | some.file | some.special =>
        exact walks_of_last he (by simp [hget]) (by simp [hget]) (by simpa [hget] using h)
      case some.dir =>
        simp only [hget] at h
        exact .down he hget (ih h)
      case some.link =>
        simp only [hget] at h
        split_ifs at h with hlast habs hfree
        · cases h
          obtain ⟨rfl, rfl⟩ := hlast
          exact .last he (by simp [hget]) (by simp)
        · refine .link he hget (fun hnil => ?_) (by rw [if_pos habs]; exact ih h)
          simpa using fun hf => hlast ⟨hnil, hf⟩
        · refine .link he hget (fun hnil => ?_) (by rw [if_neg habs]; exact ih h)
          simpa using fun hf => hlast ⟨hnil, hf⟩

/-- **A path leads to one place.** -/
theorem Walks.unique (h : d.Walks follow cur es p) (h' : d.Walks follow cur es q) : p = q := by
  induction h with
  | here cur =>
    cases h'
    rfl
  | skip he h ih =>
    cases h' with
    | skip _ h' => exact ih h'
    | up h' => exact absurd ⟨by decide, by decide⟩ he
    | down he' => exact absurd he'.significant he
    | link he' => exact absurd he'.significant he
    | last he' => exact absurd he'.significant he
  | up h ih =>
    cases h' with
    | skip he' h' => exact absurd ⟨by decide, by decide⟩ he'
    | up h' => exact ih h'
    | down he' => exact absurd rfl he'.ne_dots
    | link he' => exact absurd rfl he'.ne_dots
    | last he' => exact absurd rfl he'.ne_dots
  | down he hdir h ih =>
    cases h' with
    | skip he' h' => exact absurd he.significant he'
    | up h' => exact absurd rfl he.ne_dots
    | down _ _ h' => exact ih h'
    | link _ hlink =>
      rw [hdir] at hlink
      cases hlink
    | last _ hnot => exact absurd hdir hnot
  | link he hlink hfollow h ih =>
    cases h' with
    | skip he' h' => exact absurd he.significant he'
    | up h' => exact absurd rfl he.ne_dots
    | down _ hdir =>
      rw [hlink] at hdir
      cases hdir
    | link _ hlink' _ h' =>
      rw [hlink] at hlink'
      cases hlink'
      exact ih h'
    | last _ _ hnot => exact absurd hlink (hnot (hfollow rfl) _)
  | last he hdir hlink =>
    cases h' with
    | skip he' h' => exact absurd he.significant he'
    | up h' => exact absurd rfl he.ne_dots
    | down _ hdir' => exact absurd hdir' hdir
    | link _ hlink' hfollow => exact absurd hlink' (hlink (hfollow rfl) _)
    | last => rfl

/-! ### Calls -/

/-- What the calls of a process go by: the directory that it works in, and how many steps the way to
a place may have. -/
structure Kernel where
  cwd : List String
  steps : ℕ

def Kernel.start (k : Kernel) (path : Path) : List String := if path.rooted then [] else k.cwd

variable (d) (k : Kernel)

def place (follow : Bool) (path : Path) : Option (List String) :=
  d.walk follow none k.steps (k.start path) path.elems

/-- The place that a walk has come to, and what stands there. -/
def found (reached : Option (List String)) : Option (List String × Entry) :=
  reached.bind fun p => (d.get p).map fun x => (p, x)

/-- `os.Stat`. -/
def stat (path : Path) : Option (List String × Entry) := d.found (d.place k true path)

/-- `os.Lstat`. -/
def lstat (path : Path) : Option (List String × Entry) := d.found (d.place k false path)

def make (path : Path) (x : Entry) : Option Disk :=
  (d.place k false path).bind fun p => if d.get p = none then some (d.set p x) else none

/-- `os.MkdirAll`, on the elements of a path from the last one on. -/
def mkdirAll (rooted : Bool) : List String → Option Disk
  | [] => some d
  | e :: above =>
    match d.stat k ⟨rooted, (e :: above).reverse⟩ with
    | some (_, .dir) => some d
    | some _ => none
    | none =>
      (mkdirAll rooted above).bind fun d =>
        match d.make k ⟨rooted, (e :: above).reverse⟩ .dir with
        | some d => some d
        -- Somebody else may have made it.
        | none =>
          match d.lstat k ⟨rooted, (e :: above).reverse⟩ with
          | some (_, .dir) => some d
          | _ => none

/-- `os.ReadDir`: the names in a directory, in order. -/
def readDir (path : Path) : Option (List String) :=
  match d.stat k path with
  | some (p, .dir) => some (d.names p)
  | _ => none

/-- `os.OpenFile` with `O_WRONLY`, `O_CREATE` and `O_TRUNC`: the file is empty from then on. -/
def create (path : Path) : Option (List String × Disk) :=
  (d.place k true path).bind fun p =>
    match d.get p with
    | none => some (p, d.set p (.file []))
    | some (.file _) => some (p, d.set p (.file []))
    | _ => none

/-- `ReadFrom`: what stands in the one file is written to the other, that is empty. -/
def readFrom (p q : List String) : Option Disk :=
  match d.get q with
  | some (.file bytes) => some (d.set p (.file bytes))
  | _ => none

/-- `os.RemoveAll`: what stands at a place goes, and all below. -/
def removeAll (path : Path) : Disk :=
  match d.place k false path with
  | none => d
  | some p => ⟨(d.entries.keys.filter (p <+: ·)).foldl (fun entries q => entries.erase q) d.entries⟩

variable {d} {k} {path : Path}

theorem walks_of_place (h : d.place k follow path = some p) :
    d.Walks follow (k.start path) path.elems p :=
  walks_of_walk h

theorem of_found {reached : Option (List String)} (h : d.found reached = some (p, x)) :
    reached = some p ∧ d.get p = some x := by
  obtain ⟨q, hq, hx⟩ := bind_eq_some_iff.mp h
  obtain ⟨y, hy, hpair⟩ := map_eq_some_iff.mp hx
  cases hpair
  exact ⟨hq, hy⟩

theorem walks_of_stat (h : d.stat k path = some (p, x)) :
    d.Walks true (k.start path) path.elems p ∧ d.get p = some x :=
  (of_found h).imp_left walks_of_place

theorem walks_of_lstat (h : d.lstat k path = some (p, x)) :
    d.Walks false (k.start path) path.elems p ∧ d.get p = some x :=
  (of_found h).imp_left walks_of_place

theorem of_readDir {names : List String} (h : d.readDir k path = some names) :
    ∃ p, d.Walks true (k.start path) path.elems p ∧ d.get p = some .dir ∧ names = d.names p := by
  unfold readDir at h
  rcases hstat : d.stat k path with _ | ⟨p, _ | _ | _ | _⟩ <;>
    simp only [hstat, some.injEq, reduceCtorEq] at h
  obtain ⟨hwalks, hdir⟩ := walks_of_stat hstat
  exact ⟨p, hwalks, hdir, h.symm⟩

theorem walks_of_make (h : d.make k path x = some d') :
    ∃ p, d.Walks false (k.start path) path.elems p ∧ d.get p = none ∧ d' = d.set p x := by
  obtain ⟨p, hp, hset⟩ := bind_eq_some_iff.mp h
  split_ifs at hset with hnone
  cases hset
  exact ⟨p, walks_of_place hp, hnone, rfl⟩

/-! ### Walks in parts -/

/-- **A walk goes on from the directory that it has come to.** -/
theorem Walks.append (h : d.Walks true cur es q) (hq : d.get q = some .dir)
    (h' : d.Walks follow q es' p) (hlast : es' = [] → follow = true) :
    d.Walks follow cur (es ++ es') p := by
  induction h with
  | here cur => exact h'
  | skip he h ih => exact .skip he (ih hq h')
  | up h ih => exact .up (ih hq h')
  | down he hdir h ih => exact .down he hdir (ih hq h')
  | link he hlink hfollow h ih =>
    refine .link he hlink (fun hnil => hlast (append_eq_nil_iff.mp hnil).2) ?_
    have hrest := ih hq h'
    rwa [append_assoc] at hrest
  | last he hdir hlink => exact absurd hq hdir

theorem Walks.child (h : d.Walks true cur es q) (hq : d.get q = some .dir) (he : IsName e)
    (hdir : d.get (q ++ [e]) = some .dir) : d.Walks follow cur (es ++ [e]) (q ++ [e]) :=
  h.append hq (.down he hdir (.here _)) fun hnil => by cases hnil

theorem Walks.leaf (h : d.Walks true cur es q) (hq : d.get q = some .dir) (he : IsName e)
    (hdir : d.get (q ++ [e]) ≠ some .dir)
    (hlink : follow = true → ∀ target, d.get (q ++ [e]) ≠ some (.link target)) :
    d.Walks follow cur (es ++ [e]) (q ++ [e]) :=
  h.append hq (.last he hdir hlink) fun hnil => by cases hnil

theorem Walks.entry (h : d.Walks true cur es q) (hq : d.get q = some .dir) (he : IsName e) :
    d.Walks false cur (es ++ [e]) (q ++ [e]) := by
  by_cases hdir : d.get (q ++ [e]) = some .dir
  · exact h.child hq he hdir
  · exact h.leaf hq he hdir (by simp)

theorem Walks.followed (h : d.Walks false cur es p)
    (hp : ∀ target, d.get p ≠ some (.link target)) : d.Walks true cur es p := by
  induction h with
  | here cur => exact .here _
  | skip he h ih => exact .skip he (ih hp)
  | up h ih => exact .up (ih hp)
  | down he hdir h ih => exact .down he hdir (ih hp)
  | link he hlink hfollow h ih => exact .link he hlink (fun _ => rfl) (ih hp)
  | last he hdir hlink => exact .last he hdir fun _ => hp

/-! ### What is added to a disk -/

/-- Everything that is on the one disk is on the other, a file perhaps with other bytes. -/
def Extends (d d' : Disk) : Prop := ∀ p x, d.get p = some x →
  ∃ x', d'.get p = some x' ∧ (x' = x ∨ (∃ b, x = .file b) ∧ ∃ b, x' = .file b)

theorem Extends.refl (d : Disk) : Extends d d := fun _ x hp => ⟨x, hp, .inl rfl⟩

theorem Extends.trans {d'' : Disk} (h : Extends d d') (h' : Extends d' d'') : Extends d d'' := by
  intro p x hp
  obtain ⟨x', hp', hx'⟩ := h p x hp
  obtain ⟨x'', hp'', hx''⟩ := h' p x' hp'
  refine ⟨x'', hp'', ?_⟩
  rcases hx'' with rfl | ⟨hfile', hfile''⟩
  · exact hx'
  · rcases hx' with rfl | ⟨hfile, -⟩
    · exact .inr ⟨hfile', hfile''⟩
    · exact .inr ⟨hfile, hfile''⟩

theorem Extends.get_eq (h : Extends d d') (hp : d.get p = some x) (hx : ∀ b, x ≠ .file b) :
    d'.get p = some x := by
  obtain ⟨x', hp', rfl | ⟨⟨b, rfl⟩, -⟩⟩ := h p x hp
  · exact hp'
  · exact absurd rfl (hx b)

/-- **What is added to a disk does not change the way to what is there.** -/
theorem Walks.of_extends (h : d.Walks follow cur es p) (hd : Extends d d') (hp : d.get p = some x) :
    d'.Walks follow cur es p := by
  induction h with
  | here cur => exact .here _
  | skip he h ih => exact .skip he (ih hp)
  | up h ih => exact .up (ih hp)
  | down he hdir h ih => exact .down he (hd.get_eq hdir (by simp)) (ih hp)
  | link he hlink hfollow h ih => exact .link he (hd.get_eq hlink (by simp)) hfollow (ih hp)
  | last he hdir hlink =>
    obtain ⟨x', hp', rfl | ⟨-, b, rfl⟩⟩ := hd _ _ hp
    · exact .last he (hp'.trans hp.symm ▸ hdir) (hp'.trans hp.symm ▸ hlink)
    · exact .last he (by simp [hp']) (by simp [hp'])

/-- **The entries hang together**: what stands at a place has a name, and stands in a directory. -/
def Closed (d : Disk) : Prop :=
  ∀ p e x, d.get (p ++ [e]) = some x → IsName e ∧ d.get p = some .dir

theorem mem_keys_of_get (hp : p ≠ []) (h : d.get p = some x) : p ∈ d.entries.keys := by
  rw [get, if_neg hp] at h
  exact AList.mem_keys.mp (AList.lookup_isSome.mp (isSome_iff_exists.mpr ⟨x, h⟩))

theorem closed_of_keys
    (h : ∀ p ∈ d.entries.keys, IsName (p.getLast?.getD "") ∧ d.get p.dropLast = some .dir) :
    d.Closed := by
  intro p e x hx
  have hkey := h _ (mem_keys_of_get (concat_ne_nil _ _) hx)
  rwa [getLast?_concat, getD_some, dropLast_concat] at hkey

theorem Closed.get_below (hd : d.Closed) (hp : d.get p = none) (r : List String) :
    d.get (p ++ r) = none := by
  induction r using reverseRecOn with
  | nil => rwa [append_nil]
  | append_singleton r e ih =>
    rw [← append_assoc]
    rcases hx : d.get (p ++ r ++ [e]) with _ | x
    · rfl
    · have hdir := (hd _ _ _ hx).2
      rw [ih] at hdir
      cases hdir

theorem Closed.get_below_leaf (hd : d.Closed) (hp : d.get p ≠ some .dir) (e : String)
    (r : List String) : d.get (p ++ e :: r) = none := by
  have hchild : d.get (p ++ [e]) = none := by
    rcases hx : d.get (p ++ [e]) with _ | x
    · rfl
    · exact absurd (hd _ _ _ hx).2 hp
  have hbelow := hd.get_below hchild r
  rwa [append_assoc] at hbelow

theorem get_set (hp : p ≠ []) (x : Entry) (q : List String) :
    (d.set p x).get q = if q = p then some x else d.get q := by
  by_cases hq : q = p
  · subst hq
    rw [if_pos rfl, get, if_neg hp, set, AList.lookup_insert]
  · rw [if_neg hq, get, get, set, AList.lookup_insert_ne hq]

theorem set_set (p : List String) (x y : Entry) : (d.set p x).set p y = d.set p y := by
  rw [set, set, set, AList.insert_insert]

theorem Closed.set (hd : d.Closed) (hp : d.get p = some .dir) (he : IsName e)
    (hnew : d.get (p ++ [e]) ≠ some .dir) (x : Entry) : (d.set (p ++ [e]) x).Closed := by
  have hne : p ++ [e] ≠ [] := concat_ne_nil _ _
  intro q e' y hy
  rw [get_set hne] at hy
  split_ifs at hy with heq
  · obtain ⟨rfl, hlast⟩ := append_inj' heq rfl
    cases hlast
    refine ⟨he, ?_⟩
    rwa [get_set hne, if_neg (by simp)]
  · obtain ⟨hname, hdir⟩ := hd _ _ _ hy
    refine ⟨hname, ?_⟩
    rwa [get_set hne, if_neg]
    rintro rfl
    exact hnew hdir

/-! ### Directories on the way -/

theorem Closed.get_dropLast (hd : d.Closed) (hp : d.get p = some .dir) :
    d.get p.dropLast = some .dir := by
  rcases eq_nil_or_concat p with rfl | ⟨q, e, rfl⟩
  · exact hp
  · rw [concat_eq_append] at hp ⊢
    rw [dropLast_concat]
    exact (hd _ _ _ hp).2

/-- **A walk comes through directories.** -/
theorem Walks.split (hd : d.Closed) (hcur : d.get cur = some .dir)
    (h : d.Walks follow cur (es ++ es') p) (hes : es' ≠ []) :
    ∃ q, d.Walks true cur es q ∧ d.get q = some .dir ∧ d.Walks follow q es' p := by
  generalize hl : es ++ es' = l at h
  induction h generalizing es with
  | here cur => exact absurd (append_eq_nil_iff.mp hl).2 hes
  | skip he h ih =>
    rcases es with _ | ⟨a, es⟩
    · cases hl
      exact ⟨_, .here _, hcur, .skip he h⟩
    · cases hl
      obtain ⟨q, hq, hdir, hrest⟩ := ih hcur rfl
      exact ⟨q, .skip he hq, hdir, hrest⟩
  | up h ih =>
    rcases es with _ | ⟨a, es⟩
    · cases hl
      exact ⟨_, .here _, hcur, .up h⟩
    · cases hl
      obtain ⟨q, hq, hdir, hrest⟩ := ih (hd.get_dropLast hcur) rfl
      exact ⟨q, .up hq, hdir, hrest⟩
  | down he hdown h ih =>
    rcases es with _ | ⟨a, es⟩
    · cases hl
      exact ⟨_, .here _, hcur, .down he hdown h⟩
    · cases hl
      obtain ⟨q, hq, hdir, hrest⟩ := ih hdown rfl
      exact ⟨q, .down he hdown hq, hdir, hrest⟩
  | @link cur _ _ _ target he hlink hfollow h ih =>
    rcases es with _ | ⟨a, es⟩
    · cases hl
      exact ⟨_, .here _, hcur, .link he hlink hfollow h⟩
    · cases hl
      have hfrom : d.get (if isAbs target then [] else cur) = some .dir := by
        split_ifs
        · rfl
        · exact hcur
      obtain ⟨q, hq, hdir, hrest⟩ := @ih (elements target ++ es) hfrom (append_assoc _ _ _)
      exact ⟨q, .link he hlink (fun _ => rfl) hq, hdir, hrest⟩
  | last he hdir hlink =>
    rcases es with _ | ⟨a, es⟩
    · cases hl
      exact ⟨_, .here _, hcur, .last he hdir hlink⟩
    · exact absurd (append_eq_nil_iff.mp (cons.inj hl).2).2 hes

theorem mkdirAll_cases (h : d.mkdirAll k rooted (e :: above) = some d') :
    (∃ p, d.stat k ⟨rooted, (e :: above).reverse⟩ = some (p, .dir) ∧ d' = d) ∨
      ∃ d₁, d.mkdirAll k rooted above = some d₁ ∧
        (d₁.make k ⟨rooted, (e :: above).reverse⟩ .dir = some d' ∨
          ∃ p, d₁.lstat k ⟨rooted, (e :: above).reverse⟩ = some (p, .dir) ∧ d' = d₁) := by
  rw [mkdirAll] at h
  rcases hstat : d.stat k ⟨rooted, (e :: above).reverse⟩ with _ | ⟨p, x⟩
  · rw [hstat] at h
    obtain ⟨d₁, hd₁, hmade⟩ := bind_eq_some_iff.mp h
    refine .inr ⟨d₁, hd₁, ?_⟩
    rcases hmake : d₁.make k ⟨rooted, (e :: above).reverse⟩ .dir with _ | d₂
    · rw [hmake] at hmade
      rcases hl : d₁.lstat k ⟨rooted, (e :: above).reverse⟩ with _ | ⟨q, _ | _ | _ | _⟩ <;>
        simp only [hl, some.injEq, reduceCtorEq] at hmade
      exact .inr ⟨q, rfl, hmade.symm⟩
    · rw [hmake] at hmade
      exact .inl hmade
  · rw [hstat] at h
    rcases x with _ | _ | _ | _ <;> simp only [some.injEq, reduceCtorEq] at h
    exact .inl ⟨p, rfl, h.symm⟩

theorem mkdirAll_there (hd : d.Closed)
    (hstart : d.get (k.start ⟨rooted, above.reverse⟩) = some .dir)
    (h : d.Walks true (k.start ⟨rooted, above.reverse⟩) above.reverse p) (hp : d.get p = some .dir)
    (hmade : d.mkdirAll k rooted above = some d') : d' = d := by
  induction above generalizing p d' with
  | nil =>
    cases hmade
    rfl
  | cons e above ih =>
    obtain ⟨-, -, rfl⟩ | ⟨d₁, hd₁, hlast⟩ := mkdirAll_cases hmade
    · rfl
    · have hsplit := h
      rw [reverse_cons] at hsplit
      obtain ⟨q, hq, hdir, -⟩ := hsplit.split hd hstart (cons_ne_nil _ _)
      obtain rfl := ih hstart hq hdir hd₁
      rcases hlast with hmake | ⟨-, -, rfl⟩
      · obtain ⟨q', hq', hnone, -⟩ := walks_of_make hmake
        have htrue := hq'.followed fun target => by rw [hnone]; simp
        rw [htrue.unique h, hp] at hnone
        cases hnone
      · rfl

/-- **`MkdirAll` of a name in a directory** where no link stands: it makes a directory there, or
there is one. -/
theorem mkdirAll_name (hd : d.Closed) (hstart : d.get (k.start ⟨rooted, above.reverse⟩) = some .dir)
    (h : d.Walks true (k.start ⟨rooted, above.reverse⟩) above.reverse p) (hp : d.get p = some .dir)
    (he : IsName e) (hlink : ∀ target, d.get (p ++ [e]) ≠ some (.link target))
    (hmade : d.mkdirAll k rooted (e :: above) = some d') :
    d.get (p ++ [e]) = none ∧ d' = d.set (p ++ [e]) .dir ∨
      d.get (p ++ [e]) = some .dir ∧ d' = d := by
  by_cases hdir : d.get (p ++ [e]) = some .dir
  · have hthere : d.Walks true (k.start ⟨rooted, (e :: above).reverse⟩) (e :: above).reverse
        (p ++ [e]) := by
      rw [reverse_cons]
      exact h.child hp he hdir
    have hroot : d.get (k.start ⟨rooted, (e :: above).reverse⟩) = some .dir := hstart
    exact .inr ⟨hdir, mkdirAll_there hd hroot hthere hdir hmade⟩
  have hleaf : ∀ follow, d.Walks follow (k.start ⟨rooted, (e :: above).reverse⟩)
      (e :: above).reverse (p ++ [e]) := by
    intro follow
    rw [reverse_cons]
    exact h.leaf hp he hdir fun _ => hlink
  obtain ⟨q, hstat, -⟩ | ⟨d₁, hd₁, hlast⟩ := mkdirAll_cases hmade
  · obtain ⟨hq, hx⟩ := walks_of_stat hstat
    exact absurd (hq.unique (hleaf true) ▸ hx) hdir
  · obtain rfl := mkdirAll_there hd hstart h hp hd₁
    rcases hlast with hmake | ⟨q, hl, -⟩
    · obtain ⟨q, hq, hnone, hset⟩ := walks_of_make hmake
      rw [hq.unique (hleaf false)] at hnone hset
      exact .inl ⟨hnone, hset⟩
    · obtain ⟨hq, hx⟩ := walks_of_lstat hl
      exact absurd (hq.unique (hleaf false) ▸ hx) hdir

/-! ### Names in a directory -/

theorem nameIn_eq_some : nameIn p q = some name ↔ q = p ++ [name] := by
  unfold nameIn
  constructor
  · intro h
    split_ifs at h with hdrop
    rw [← hdrop, dropLast_append_getLast? name h]
  · rintro rfl
    rw [dropLast_concat, if_pos rfl, getLast?_concat]

theorem mem_names : e ∈ d.names p ↔ ∃ x, d.get (p ++ [e]) = some x := by
  have hget : d.get (p ++ [e]) = d.entries.lookup (p ++ [e]) := if_neg (concat_ne_nil _ _)
  rw [hget, ← isSome_iff_exists, AList.lookup_isSome, names, mem_insertionSort, mem_filterMap]
  constructor
  · rintro ⟨q, hq, hname⟩
    rwa [← nameIn_eq_some.mp hname]
  · exact fun hmem => ⟨p ++ [e], hmem, nameIn_eq_some.mpr rfl⟩

theorem nodup_names (p : List String) : (d.names p).Nodup := by
  refine (perm_insertionSort _ _).nodup_iff.mpr (d.entries.keys_nodup.filterMap ?_)
  intro q q' name hq hq'
  rw [nameIn_eq_some.mp hq, nameIn_eq_some.mp hq']

theorem exists_length_lt (d : Disk) : ∃ n, ∀ p x, d.get p = some x → p.length < n := by
  refine ⟨(d.entries.keys.map length).foldr max 0 + 1, fun p x hp => ?_⟩
  rw [Nat.lt_succ_iff]
  by_cases hnil : p = []
  · rw [hnil]
    exact Nat.zero_le _
  · exact le_max_of_le (mem_map_of_mem (mem_keys_of_get hnil hp)) le_rfl

end Disk

end Containers.Go
