/-
References between parts.  A reference is joined to the directory of the part
that holds it, and the segments `.` and `..` are folded away without leaving
the root of the container.
-/

namespace Epub.Parts

/-- Whether `mark` stands somewhere in `cs`. -/
def occursIn (mark : List Char) : List Char → Bool
  | [] => mark.isEmpty
  | c :: rest => mark.isPrefixOf (c :: rest) || occursIn mark rest

/-- References that are left as they are: those with a scheme and those that
are a fragment only. -/
def isAbsolute (href : List Char) : Bool :=
  occursIn "://".toList href || href.head? = some '#'

/-- Fold segments onto the directories entered so far, innermost first. -/
def foldSegments (entered : List (List Char)) : List (List Char) → List (List Char)
  | [] => entered.reverse
  | segment :: rest =>
      if segment = [] ∨ segment = ['.'] then foldSegments entered rest
      else if segment = ['.', '.'] then foldSegments entered.tail rest
      else foldSegments (segment :: entered) rest

/-- The directories on the way to a part.  Only empty names are left out. -/
def directories (path : List Char) : List (List Char) :=
  (path.splitOn '/').dropLast.filter (· ≠ [])

/-- Join `href` to the directory of the part at `base`. -/
def resolveHref (base href : String) : String :=
  if isAbsolute href.toList then href
  else
    let entered := if href.toList.head? = some '/' then [] else directories base.toList
    String.ofList
      (List.intercalate ['/'] (foldSegments entered.reverse (href.toList.splitOn '/')))

end Epub.Parts
