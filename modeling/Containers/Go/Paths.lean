import Mathlib.Data.String.Basic

/-!
# Go paths

`path/filepath` on Unix, as far as the modelled packages use it: all of it is lexical, on
the elements between the slashes, and none of it looks at a disk.
-/

namespace Containers.Go

open List

namespace Filepath

/-- `filepath.IsAbs`. -/
def isAbs (path : String) : Bool := path.toList.head? = some '/'

/-- One element of a path that is being cleaned, the elements before it latest first:
`..` takes one back where there is one to take, and is dropped at the root. -/
def cleanElement (rooted : Bool) (out : List (List Char)) (e : List Char) : List (List Char) :=
  if e = [] ∨ e = ['.'] then out
  else if e = ['.', '.'] then
    match out with
    | [] => if rooted then [] else [e]
    | last :: rest => if last = ['.', '.'] then e :: out else rest
  else e :: out

/-- **`filepath.Clean`**: the shortest path that is lexically the same. -/
def clean (path : String) : String :=
  let out := (path.toList.splitOn '/').foldl (cleanElement (isAbs path)) []
  let body := intercalate ['/'] out.reverse
  if isAbs path then String.ofList ('/' :: body)
  else if body = [] then "." else String.ofList body

/-- `filepath.Join` of two elements: an empty one is left out. -/
def join (dir path : String) : String :=
  if dir ≠ "" then clean (dir ++ "/" ++ path) else if path ≠ "" then clean path else ""

/-- `filepath.Join`: the empty elements that stand first are left out. -/
def joinAll : List String → String
  | [] => ""
  | e :: es => if e ≠ "" then clean ("/".intercalate (e :: es)) else joinAll es

/-- `filepath.Dir`: all but what stands after the last slash. -/
def dir (path : String) : String :=
  clean (String.ofList (path.toList.reverse.dropWhile (· ≠ '/')).reverse)

/-- `filepath.Base`: the last element. -/
def base (path : String) : String :=
  if path = "" then "."
  else
    let trimmed := path.toList.reverse.dropWhile (· = '/')
    if trimmed = [] then "/" else String.ofList (trimmed.takeWhile (· ≠ '/')).reverse

theorem isAbs_append {a : String} (ha : a ≠ "") (b : String) : isAbs (a ++ b) = isAbs a := by
  rcases hchars : a.toList with _ | ⟨c, rest⟩
  · exact absurd (String.toList_eq_nil_iff.mp hchars) ha
  · simp [isAbs, hchars]

example : join "/srv/app" "./infra/../docker/compose.yml" = "/srv/app/docker/compose.yml" := by
  decide +kernel

example : base (dir "/srv/app/docker/compose.yml") = "docker" := by decide +kernel

end Filepath

end Containers.Go
