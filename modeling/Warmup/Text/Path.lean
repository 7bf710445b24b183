import Warmup.Text.Pieces

/-!
# File names

The extension of a path: what follows the last point of its last component.
Empty components and `.` do not count as components, `..` has no extension, and
neither has a name whose only point is its first character.
-/

namespace Warmup.Text

/-- The last component of a path. -/
def fileName? (path : List Char) : Option (List Char) :=
  match ((pieces '/' path).filter fun p => p ≠ [] ∧ p ≠ ['.']).getLast? with
  | some name => if name = ['.', '.'] then none else some name
  | none => none

/-- The extension of a path. -/
def extension? (path : String) : Option (List Char) :=
  (fileName? path.toList).bind fun name =>
    let parts := pieces '.' name
    if parts.length ≤ 1 ∨ (parts.length = 2 ∧ parts.head? = some []) then none else parts.getLast?

end Warmup.Text
