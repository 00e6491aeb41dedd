/-
The inside of a start tag: the name as written, and the attributes as written
with their positions.  Positions count bytes from the start of the tag.
-/
import Epub.Text.Blank
import Epub.Xml.Reference

namespace Epub.Xml

open Epub.Text

/-- An attribute whose key is complete.  The value may still be broken. -/
structure RawAttribute where
  key : List Char
  position : Nat
  value : Except AttributeFault (List Char)
deriving Repr

/-- The name of a start tag: everything up to the first white space. -/
def tagName (content : List Char) : List Char :=
  content.takeWhile (fun c => !isSpace c)

/-- Whether a character continues a key. -/
def isKeyChar (c : Char) : Bool :=
  c ≠ '=' && !isSpace c

/-- The value behind an equals sign, and what follows it.  `position` is that
of the first character of `cs`. -/
def cutValue (position : Nat) (cs : List Char) :
    Except AttributeFault (List Char × Nat × List Char) :=
  let start := position + (cs.takeWhile isSpace).length
  match cs.dropWhile isSpace with
  | [] => .error (.expectedValue start)
  | c :: rest =>
      if c = '"' ∨ c = '\'' then
        let value := rest.takeWhile (· ≠ c)
        let stop := start + 1 + byteLength value
        match rest.drop value.length with
        | [] => .error (.unclosedQuote stop c)
        | _ :: after => .ok (value, stop + 1, after)
      else .error (.unquotedValue start)

theorem length_of_cutValue {position position' : Nat} {cs value rest : List Char}
    (hcut : cutValue position cs = .ok (value, position', rest)) :
    rest.length ≤ cs.length := by
  have hdrop := (List.dropWhile_sublist isSpace (l := cs)).length_le
  simp only [cutValue] at hcut
  split at hcut
  · simp at hcut
  · rename_i c tail hspace
    rw [hspace, List.length_cons] at hdrop
    split at hcut
    · split at hcut
      · simp at hcut
      · rename_i hafter
        have := congrArg List.length hafter
        simp only [List.length_drop, List.length_cons] at this
        simp only [Except.ok.injEq, Prod.mk.injEq] at hcut
        rw [← hcut.2.2]
        omega
    · simp at hcut

/-- The attributes from `position` on, up to the first one whose key or value
is broken.  A broken value ends the list inside it, a broken key beside it. -/
def rawAttributesFrom (position : Nat) (cs : List Char) :
    List RawAttribute × Option AttributeFault :=
  let start := position + (cs.takeWhile isSpace).length
  match _ : cs.dropWhile isSpace with
  | [] => ([], none)
  | c :: rest =>
      let key := c :: rest.takeWhile isKeyChar
      let gap := rest.dropWhile isKeyChar
      let equals := start + byteLength key + (gap.takeWhile isSpace).length
      match _ : gap.dropWhile isSpace with
      | '=' :: value =>
          match _ : cutValue (equals + 1) value with
          | .error fault => ([⟨key, start, .error fault⟩], none)
          | .ok (chars, next, after) =>
              let (attributes, fault) := rawAttributesFrom next after
              (⟨key, start, .ok chars⟩ :: attributes, fault)
      | _ => ([], some (.expectedEquals equals))
termination_by cs.length
decreasing_by
  have hcs := (List.dropWhile_sublist isSpace (l := cs)).length_le
  have hrest := (List.dropWhile_sublist isKeyChar (l := rest)).length_le
  have hvalues :=
    (List.dropWhile_sublist isSpace (l := rest.dropWhile isKeyChar)).length_le
  have hafter := length_of_cutValue ‹cutValue _ _ = .ok _›
  rw [‹cs.dropWhile isSpace = _›, List.length_cons] at hcs
  rw [‹(rest.dropWhile isKeyChar).dropWhile isSpace = _›, List.length_cons]
    at hvalues
  omega

/-- The attributes of a start tag. -/
def rawAttributes (content : List Char) : List RawAttribute × Option AttributeFault :=
  let name := tagName content
  rawAttributesFrom (byteLength name) (content.drop name.length)

end Epub.Xml
