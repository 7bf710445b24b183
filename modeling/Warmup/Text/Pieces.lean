/-!
# Cutting text at a separator

`pieces sep s` is `s` cut at every `sep`: one piece more than there are
separators, so that an empty text is one empty piece, and joining the pieces
with the separator gives `s` back.
-/

namespace Warmup.Text

/-- The text `s` cut at every `sep`. -/
def pieces (sep : Char) : List Char → List (List Char)
  | [] => [[]]
  | c :: cs =>
    if c = sep then [] :: pieces sep cs
    else
      match pieces sep cs with
      | [] => [[c]]
      | p :: ps => (c :: p) :: ps

end Warmup.Text
