import Mathlib.Data.List.Basic

/-!
# Replacing every match

Left-to-right replacement of the matches of a pattern, as a global regular
expression does it: a match is consumed whole, and the search goes on behind
it.  A pattern says, at a position, how long its match there is and what it is
replaced by.
-/

namespace Harmost.Support

variable {α : Type*}

/-- A pattern: the length of the match at this position, and its
replacement. -/
abbrev Rewrite (α : Type*) := List α → Option (ℕ × List α)

/-- Replace every match, after dropping the rest of the current one. -/
def replaceAllFrom (pattern : Rewrite α) : ℕ → List α → List α
  | _, [] => []
  | skip + 1, _ :: rest => replaceAllFrom pattern skip rest
  | 0, a :: rest =>
      match pattern (a :: rest) with
      | some (length, replacement) =>
          replacement ++ replaceAllFrom pattern (length - 1) rest
      | none => a :: replaceAllFrom pattern 0 rest

def replaceAll (pattern : Rewrite α) (s : List α) : List α :=
  replaceAllFrom pattern 0 s

end Harmost.Support
