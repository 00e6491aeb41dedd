/-
Cutting a document into tokens.  A token is a run of text, a reference, or one
piece of markup; what comments, instructions and document type declarations
hold is dropped.  Every token takes at least one character, so cutting ends.
-/
import Epub.Text.Blank
import Epub.Xml.Fault

namespace Epub.Xml

open Epub.Text

/-- One piece of a document, as written. -/
inductive Token where
  | text (chars : List Char)
  | reference (name : List Char)
  | cdata (chars : List Char)
  | comment
  | instruction
  | doctype
  /-- The content of a start tag up to its end, which `closed` tells: an empty
  element tag has no end tag of its own. -/
  | startTag (content : List Char) (closed : Bool)
  | endTag (name : List Char)
deriving DecidableEq, Repr

/-- Cut at the first `mark`: what stands before it and what follows it. -/
def cutAt (mark : List Char) : List Char → Option (List Char × List Char)
  | [] => none
  | c :: rest =>
      if mark.isPrefixOf (c :: rest) then some ([], (c :: rest).drop mark.length)
      else (cutAt mark rest).map fun (before, after) => (c :: before, after)

theorem length_of_cutAt {mark cs before after : List Char}
    (hcut : cutAt mark cs = some (before, after)) : after.length ≤ cs.length := by
  induction cs generalizing before with
  | nil => simp [cutAt] at hcut
  | cons c rest ih =>
      simp only [cutAt] at hcut
      split at hcut
      · simp only [Option.some.injEq, Prod.mk.injEq] at hcut
        rw [← hcut.2, List.length_drop]
        omega
      · simp only [Option.map_eq_some_iff, Prod.exists, Prod.mk.injEq] at hcut
        obtain ⟨before', after', hrest, _, rfl⟩ := hcut
        have := ih hrest
        simp only [List.length_cons]
        omega

/-- The quotation marks around attribute values. -/
def isQuote (c : Char) : Bool :=
  c = '"' || c = '\''

/-- Cut at the first `>` outside quotation marks.  `quote` is the open one. -/
def cutTag (quote : Option Char) :
    List Char → Except MarkupFault (List Char × List Char)
  | [] =>
      match quote with
      | none => .error .unclosedTag
      | some q => .error (.unclosedValue q)
  | c :: rest =>
      match quote with
      | some q =>
          (cutTag (if c = q then none else quote) rest).map
            fun (before, after) => (c :: before, after)
      | none =>
          if c = '>' then .ok ([], rest)
          else
            (cutTag (if isQuote c then some c else none) rest).map
              fun (before, after) => (c :: before, after)

theorem length_of_cutTag {quote : Option Char} {cs before after : List Char}
    (hcut : cutTag quote cs = .ok (before, after)) : after.length < cs.length := by
  induction cs generalizing quote before with
  | nil => cases quote <;> simp [cutTag] at hcut
  | cons c rest ih =>
      have hrest : ∀ {quote' : Option Char},
          (cutTag quote' rest).map (fun (before, after) => (c :: before, after)) =
            .ok (before, after) → after.length < (c :: rest).length := by
        intro quote' hmap
        cases hinner : cutTag quote' rest with
        | error fault => simp [hinner, Except.map] at hmap
        | ok pair =>
            obtain ⟨before', after'⟩ := pair
            simp only [hinner, Except.map, Except.ok.injEq, Prod.mk.injEq] at hmap
            obtain ⟨_, rfl⟩ := hmap
            have := ih hinner
            rw [List.length_cons]
            omega
      cases quote with
      | some q => exact hrest (by simpa only [cutTag] using hcut)
      | none =>
          simp only [cutTag] at hcut
          split at hcut
          · simp only [Except.ok.injEq, Prod.mk.injEq] at hcut
            simp [← hcut.2]
          · exact hrest hcut

/-- Skip a declaration of an internal subset, from behind its `<`. -/
def skipDeclaration (cs : List Char) : Option (List Char) :=
  let quoted := ["!ENTITY", "!ATTLIST", "!NOTATION"]
  if "?".toList.isPrefixOf cs then (cutAt "?>".toList (cs.drop 1)).map Prod.snd
  else if "!--".toList.isPrefixOf cs then (cutAt "-->".toList (cs.drop 3)).map Prod.snd
  else if quoted.any (·.toList.isPrefixOf cs) then
    (cutTag none cs).toOption.map Prod.snd
  else (cutAt ['>'] cs).map Prod.snd

theorem length_of_skipDeclaration {cs rest : List Char}
    (hskip : skipDeclaration cs = some rest) : rest.length ≤ cs.length := by
  have hcut : ∀ {mark : List Char} {n : Nat},
      (cutAt mark (cs.drop n)).map Prod.snd = some rest →
        rest.length ≤ cs.length := by
    intro mark n hsome
    simp only [Option.map_eq_some_iff, Prod.exists, exists_eq_right] at hsome
    obtain ⟨before, hbefore⟩ := hsome
    have := length_of_cutAt hbefore
    rw [List.length_drop] at this
    omega
  simp only [skipDeclaration] at hskip
  split at hskip
  · exact hcut hskip
  split at hskip
  · exact hcut hskip
  split at hskip
  · cases htag : cutTag none cs with
    | error fault => simp [htag, Except.toOption] at hskip
    | ok pair =>
        simp only [htag, Except.toOption, Option.map_some, Option.some.injEq] at hskip
        obtain ⟨before, after⟩ := pair
        have := length_of_cutTag htag
        subst hskip
        exact Nat.le_of_lt this
  · exact hcut (n := 0) hskip

/-- Skip an internal subset and the rest of its document type declaration. -/
def skipSubset (cs : List Char) : Option (List Char) :=
  match cs with
  | [] => none
  | c :: rest =>
      if c = ']' then (cutAt ['>'] rest).map Prod.snd
      else if c = '<' then
        match _ : skipDeclaration rest with
        | none => none
        | some after => skipSubset after
      else skipSubset rest
termination_by cs.length
decreasing_by
  · have := length_of_skipDeclaration ‹skipDeclaration _ = some _›
    simp only [List.length_cons]
    omega
  · simp

theorem length_of_skipSubset {cs rest : List Char} (hskip : skipSubset cs = some rest) :
    rest.length ≤ cs.length := by
  fun_induction skipSubset cs with
  | case1 => simp at hskip
  | case2 tail =>
      simp only [Option.map_eq_some_iff, Prod.exists, exists_eq_right] at hskip
      obtain ⟨before, hbefore⟩ := hskip
      have := length_of_cutAt hbefore
      simp only [List.length_cons]
      omega
  | case3 => simp at hskip
  | case4 =>
      rename_i ih
      have := ih hskip
      have := length_of_skipDeclaration ‹skipDeclaration _ = some _›
      simp only [List.length_cons]
      omega
  | case5 c tail _ _ ih =>
      have := ih hskip
      simp only [List.length_cons]
      omega

/-- Skip the rest of a document type declaration.  Before the internal subset,
quotation marks hide everything; `quote` is the open one. -/
def skipDoctype (quote : Option Char) : List Char → Option (List Char)
  | [] => none
  | c :: rest =>
      match quote with
      | some q => skipDoctype (if c = q then none else quote) rest
      | none =>
          if c = '>' then some rest
          else if c = '[' then skipSubset rest
          else skipDoctype (if isQuote c then some c else none) rest

theorem length_of_skipDoctype {quote : Option Char} {cs rest : List Char}
    (hskip : skipDoctype quote cs = some rest) : rest.length ≤ cs.length := by
  induction cs generalizing quote with
  | nil => simp [skipDoctype] at hskip
  | cons c tail ih =>
      have hcons : tail.length ≤ (c :: tail).length := by simp
      cases quote with
      | some q =>
          exact Nat.le_trans (ih (by simpa only [skipDoctype] using hskip)) hcons
      | none =>
          simp only [skipDoctype] at hskip
          split at hskip
          · simp only [Option.some.injEq] at hskip
            rw [← hskip]
            exact hcons
          · split at hskip
            · exact Nat.le_trans (length_of_skipSubset hskip) hcons
            · exact Nat.le_trans (ih hskip) hcons

/-- A token with the input behind it. -/
abbrev Cut : Type := Except Fault (Token × List Char)

/-- A comment, from behind its `<`. -/
def cutComment (cs : List Char) : Cut :=
  match cs with
  | '!' :: '-' :: '-' :: rest =>
      match cutAt "-->".toList rest with
      | some (_, after) => .ok (.comment, after)
      | none => .error (.markup .unclosedComment)
  | _ => .error (.markup .unclosedComment)

/-- A section of character data, from behind its `<`. -/
def cutCData (cs : List Char) : Cut :=
  if "![CDATA[".toList.isPrefixOf cs then
    match cutAt "]]>".toList (cs.drop 8) with
    | some (chars, after) => .ok (.cdata chars, after)
    | none => .error (.markup .unclosedCData)
  else .error (.markup .unclosedCData)

/-- A document type declaration, from behind its `<`.  The keyword may be
written in any case. -/
def cutDoctype (cs : List Char) : Cut :=
  if (cs.take 8).map Char.toUpper = "!DOCTYPE".toList then
    let body := cs.drop 8
    if (body.dropWhile isSpace).head? = some '>' then
      .error (.illFormed .namelessDoctype)
    else
      match skipDoctype none body with
      | some after => .ok (.doctype, after)
      | none => .error (.markup .unclosedDoctype)
  else .error (.markup .unclosedDoctype)

/-- Whether an instruction left open starts like the XML declaration. -/
def startsDeclaration (cs : List Char) : Bool :=
  "?xml".toList.isPrefixOf cs &&
    (cs.drop 4).head?.all (fun c => isSpace c || c = '?')

/-- A processing instruction, from behind its `<`.  Its own question mark may
not serve as the closing one. -/
def cutInstruction (cs : List Char) : Cut :=
  match cutAt "?>".toList cs with
  | some ([], _) => .error (.markup .unclosedInstruction)
  | some (_, after) => .ok (.instruction, after)
  | none =>
      if startsDeclaration cs then .error (.markup .unclosedDeclaration)
      else .error (.markup .unclosedInstruction)

/-- The name in an end tag: trailing white space does not belong to it, unless
there is nothing else. -/
def endTagName (content : List Char) : List Char :=
  match (content.reverse.dropWhile isSpace).reverse with
  | [] => content
  | name => name

/-- A tag, from behind its `<`. -/
def cutElementTag (cs : List Char) : Cut :=
  match cutTag none cs with
  | .error fault => .error (.markup fault)
  | .ok (content, after) =>
      match content with
      | '/' :: name => .ok (.endTag (endTagName name), after)
      | _ =>
          if content.getLast? = some '/' then
            .ok (.startTag content.dropLast true, after)
          else .ok (.startTag content false, after)

/-- Markup, from behind its `<`. -/
def cutMarkup (cs : List Char) : Cut :=
  match cs with
  | [] => .error (.markup .unclosedTag)
  | '?' :: _ => cutInstruction cs
  | '!' :: '[' :: _ => cutCData cs
  | '!' :: '-' :: _ => cutComment cs
  | '!' :: 'D' :: _ => cutDoctype cs
  | '!' :: 'd' :: _ => cutDoctype cs
  | '!' :: _ => .error (.markup .unknownMarkup)
  | _ => cutElementTag cs

/-- A reference, from behind its `&`.  It has to be closed before another one
or a tag begins. -/
def cutReference (cs : List Char) : Cut :=
  let name := cs.takeWhile (fun c => c ≠ ';' && c ≠ '&' && c ≠ '<')
  match cs.drop name.length with
  | ';' :: after => .ok (.reference name, after)
  | _ => .error (.illFormed .unclosedReference)

/-- Whether a character belongs to a run of text. -/
def isTextChar (c : Char) : Bool :=
  c ≠ '<' && c ≠ '&'

/-- The first token of an input that starts with `c`. -/
def cutToken (c : Char) (cs : List Char) : Cut :=
  if c = '<' then cutMarkup cs
  else if c = '&' then cutReference cs
  else .ok (.text (c :: cs.takeWhile isTextChar), cs.dropWhile isTextChar)

theorem length_of_cutMarkup {cs rest : List Char} {token : Token}
    (hcut : cutMarkup cs = .ok (token, rest)) : rest.length ≤ cs.length := by
  have hinstruction :
      cutInstruction cs = .ok (token, rest) → rest.length ≤ cs.length := by
    intro h
    simp only [cutInstruction] at h
    split at h
    · simp at h
    · rename_i before after _ hafter
      simp only [Except.ok.injEq, Prod.mk.injEq] at h
      rw [← h.2]
      exact length_of_cutAt hafter
    · split at h <;> simp at h
  have hcdata : cutCData cs = .ok (token, rest) → rest.length ≤ cs.length := by
    intro h
    simp only [cutCData] at h
    split at h
    · split at h
      · rename_i chars after hafter
        have := length_of_cutAt hafter
        simp only [Except.ok.injEq, Prod.mk.injEq] at h
        rw [List.length_drop] at this
        rw [← h.2]
        omega
      · simp at h
    · simp at h
  have hcomment : cutComment cs = .ok (token, rest) → rest.length ≤ cs.length := by
    intro h
    unfold cutComment at h
    split at h
    · split at h
      · rename_i inner _ after hafter
        have := length_of_cutAt hafter
        simp only [Except.ok.injEq, Prod.mk.injEq] at h
        rw [← h.2]
        simp only [List.length_cons]
        omega
      · simp at h
    · simp at h
  have hdoctype : cutDoctype cs = .ok (token, rest) → rest.length ≤ cs.length := by
    intro h
    simp only [cutDoctype] at h
    split at h
    · split at h
      · simp at h
      · split at h
        · rename_i after hafter
          have := length_of_skipDoctype hafter
          simp only [Except.ok.injEq, Prod.mk.injEq] at h
          rw [List.length_drop] at this
          rw [← h.2]
          omega
        · simp at h
    · simp at h
  have htag : cutElementTag cs = .ok (token, rest) → rest.length ≤ cs.length := by
    intro h
    simp only [cutElementTag] at h
    split at h
    · simp at h
    · rename_i content after hafter
      have := length_of_cutTag hafter
      split at h
      · simp only [Except.ok.injEq, Prod.mk.injEq] at h
        rw [← h.2]
        omega
      · split at h <;>
          (simp only [Except.ok.injEq, Prod.mk.injEq] at h
           rw [← h.2]
           omega)
  unfold cutMarkup at hcut
  split at hcut
  · simp at hcut
  · exact hinstruction hcut
  · exact hcdata hcut
  · exact hcomment hcut
  · exact hdoctype hcut
  · exact hdoctype hcut
  · simp at hcut
  · exact htag hcut

theorem length_of_cutToken {c : Char} {cs rest : List Char} {token : Token}
    (hcut : cutToken c cs = .ok (token, rest)) : rest.length ≤ cs.length := by
  simp only [cutToken] at hcut
  split at hcut
  · exact length_of_cutMarkup hcut
  · split at hcut
    · simp only [cutReference] at hcut
      split at hcut
      · rename_i after hafter
        simp only [Except.ok.injEq, Prod.mk.injEq] at hcut
        have := congrArg List.length hafter
        simp only [List.length_drop, List.length_cons] at this
        rw [← hcut.2]
        omega
      · simp at hcut
    · simp only [Except.ok.injEq, Prod.mk.injEq] at hcut
      rw [← hcut.2]
      exact (List.dropWhile_sublist isTextChar).length_le

/-- The tokens of an input up to its end or its first broken one. -/
def tokenize (cs : List Char) : List Token × Option Fault :=
  match cs with
  | [] => ([], none)
  | c :: tail =>
      match _ : cutToken c tail with
      | .error fault => ([], some fault)
      | .ok (token, rest) =>
          let (tokens, fault) := tokenize rest
          (token :: tokens, fault)
termination_by cs.length
decreasing_by
  have := length_of_cutToken ‹cutToken _ _ = .ok _›
  simp only [List.length_cons]
  omega

end Epub.Xml
