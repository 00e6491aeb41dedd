/-
Reading piece by piece.  What is left of a document is read from the state that
the part before it has led to, so each piece of markup can be looked at alone.
-/
import Epub.Proofs.Xml.Name
import Epub.Xml.Markup
import Epub.Xml.Reader

namespace Epub.Xml

open Epub.Text

/-- Read what is left of a document. -/
def readFrom (state : ReadState) (cs : List Char) : Except Fault Document := do
  let (tokens, fault) := tokenize cs
  let state ← tokens.foldlM ReadState.step state
  match fault with
  | some fault => throw fault
  | none => state.finish

theorem readChars_eq (cs : List Char) :
    readChars cs = readFrom ReadState.initial cs := rfl

theorem tokenize_cons {c : Char} {tail rest : List Char} {token : Token}
    (hcut : cutToken c tail = .ok (token, rest)) :
    tokenize (c :: tail) = (token :: (tokenize rest).1, (tokenize rest).2) := by
  rw [tokenize]
  split
  · rename_i fault hfault
    rw [hcut] at hfault
    contradiction
  · rename_i token' rest' hok
    rw [hcut] at hok
    cases hok
    rfl

theorem readFrom_nil (state : ReadState) : readFrom state [] = state.finish := by
  simp only [readFrom, tokenize]
  rfl

/-- One token is taken, and reading goes on behind it if the token is not refused. -/
theorem readFrom_token (state : ReadState) {c : Char} {tail rest : List Char} {token : Token}
    (hcut : cutToken c tail = .ok (token, rest)) :
    readFrom state (c :: tail) = (state.step token).bind fun next => readFrom next rest := by
  simp only [readFrom, tokenize_cons hcut, List.foldlM_cons]
  cases state.step token <;> rfl

theorem readFrom_cons {state next : ReadState} {c : Char} {tail rest : List Char}
    {token : Token} (hcut : cutToken c tail = .ok (token, rest))
    (hstep : state.step token = .ok next) :
    readFrom state (c :: tail) = readFrom next rest := by
  rw [readFrom_token state hcut, hstep]
  rfl

theorem readFrom_error {state : ReadState} {c : Char} {tail rest : List Char}
    {token : Token} {fault : Fault} (hcut : cutToken c tail = .ok (token, rest))
    (hstep : state.step token = .error fault) :
    readFrom state (c :: tail) = .error fault := by
  rw [readFrom_token state hcut, hstep]
  rfl

namespace ReadState

@[simp] theorem addText_nil (state : ReadState) : state.addText [] = state := by
  obtain ⟨stack, root⟩ := state
  cases stack <;> simp [addText]

@[simp] theorem addText_addText (state : ReadState) (first second : List Char) :
    (state.addText first).addText second = state.addText (first ++ second) := by
  obtain ⟨stack, root⟩ := state
  cases stack <;> simp [addText]

@[simp] theorem scope_addText (state : ReadState) (chars : List Char) :
    (state.addText chars).scope = state.scope := by
  obtain ⟨stack, root⟩ := state
  cases stack <;> rfl

end ReadState

/-- A character of a text is read on its own. -/
theorem readFrom_textChar (state : ReadState) {c : Char} (rest : List Char)
    (hc : isTextChar c = true) :
    readFrom state (c :: rest) = readFrom (state.addText [c]) rest := by
  have hplain : c ≠ '<' ∧ c ≠ '&' := by simpa [isTextChar] using hc
  have hcut : ∀ {d : Char} {tail : List Char}, d ≠ '<' → d ≠ '&' →
      cutToken d tail =
        .ok (.text (d :: tail.takeWhile isTextChar), tail.dropWhile isTextChar) := by
    intro d tail hless hamp
    simp [cutToken, hless, hamp]
  rw [readFrom_cons (hcut hplain.1 hplain.2) rfl]
  cases rest with
  | nil => rfl
  | cons d tail =>
      -- The run of text may go on behind `c`; then it is cut in two.
      cases hd : isTextChar d with
      | false => simp [hd]
      | true =>
          have hnext : d ≠ '<' ∧ d ≠ '&' := by simpa [isTextChar] using hd
          rw [readFrom_cons (hcut hnext.1 hnext.2) rfl]
          simp [hd]

theorem readFrom_text (state : ReadState) {cs : List Char} (rest : List Char)
    (hcs : ∀ c ∈ cs, isTextChar c = true) :
    readFrom state (cs ++ rest) = readFrom (state.addText cs) rest := by
  induction cs generalizing state with
  | nil => simp
  | cons c tail ih =>
      rw [List.cons_append, readFrom_textChar state _ (hcs c List.mem_cons_self),
        ih _ fun d hd => hcs d (List.mem_cons_of_mem c hd)]
      simp

theorem cutToken_reference {name : List Char} (hname : ∀ d ∈ name, d ≠ ';' ∧ d ≠ '&' ∧ d ≠ '<')
    (rest : List Char) :
    cutToken '&' (name ++ ';' :: rest) = .ok (.reference name, rest) := by
  have htake : (name ++ ';' :: rest).takeWhile
      (fun d => d ≠ ';' && d ≠ '&' && d ≠ '<') = name := by
    rw [List.takeWhile_append_of_pos (by simpa [and_assoc] using hname)]
    simp
  simp only [cutToken, cutReference, htake]
  simp

/-- A reference adds the character it stands for.  Outside the root that character is
dropped like any other text. -/
theorem readFrom_reference (state : ReadState) {name : List Char} {c : Char}
    (rest : List Char) (hname : ∀ d ∈ name, d ≠ ';' ∧ d ≠ '&' ∧ d ≠ '<')
    (hresolve : resolveText? name = some c) :
    readFrom state ('&' :: name ++ ';' :: rest) =
      readFrom (state.addText [c]) rest := by
  have hstep : state.step (.reference name) = .ok (state.addText [c]) := by
    obtain ⟨stack, root⟩ := state
    cases stack with
    | nil => rfl
    | cons top below => simp [ReadState.step, hresolve]
  exact readFrom_cons (cutToken_reference hname rest) hstep

theorem toList_escape (s : String) :
    (escape s).toList = s.toList.flatMap fun c => (escapeChar c).toList := by
  rw [escape, String.toList_join, List.flatMap_map]

/-- The characters that are escaped are written by predefined names. -/
theorem escapeChar_of_mem :
    ∀ c ∈ escapedChars, '"' ∉ (escapeChar c).toList ∧
      ∃ name, (escapeChar c).toList = '&' :: name ++ [';'] ∧
        (∀ d ∈ name, d ≠ ';' ∧ d ≠ '&' ∧ d ≠ '<') ∧
        name.head? ≠ some '#' ∧ predefined? name = some c := by
  intro c hmem
  simp only [escapedChars, List.mem_cons, List.not_mem_nil, or_false] at hmem
  rcases hmem with rfl | rfl | rfl | rfl | rfl
  · exact ⟨by decide, "lt".toList, by decide⟩
  · exact ⟨by decide, "gt".toList, by decide⟩
  · exact ⟨by decide, "amp".toList, by decide⟩
  · exact ⟨by decide, "apos".toList, by decide⟩
  · exact ⟨by decide, "quot".toList, by decide⟩

/-- Every other character stands for itself. -/
theorem escapeChar_of_not_mem {c : Char} (hmem : c ∉ escapedChars) :
    (escapeChar c).toList = [c] := by
  simp only [escapedChars, List.mem_cons, List.not_mem_nil, or_false, not_or] at hmem
  simp [escapeChar, hmem]

theorem resolveText_of_predefined {name : List Char} (hhead : name.head? ≠ some '#') :
    resolveText? name = predefined? name := by
  unfold resolveText?
  split
  · simp at hhead
  · rfl

/-- A text is read back as it was before it was escaped. -/
theorem readFrom_escape (state : ReadState) (s : String) (rest : List Char) :
    readFrom state ((escape s).toList ++ rest) =
      readFrom (state.addText s.toList) rest := by
  rw [toList_escape]
  generalize s.toList = cs
  induction cs generalizing state with
  | nil => simp
  | cons c tail ih =>
      have htail := ih (state.addText [c])
      rw [ReadState.addText_addText] at htail
      rw [List.flatMap_cons, List.append_assoc]
      by_cases hmem : c ∈ escapedChars
      · obtain ⟨_, name, hchars, hname, hhead, hpredefined⟩ := escapeChar_of_mem c hmem
        rw [← resolveText_of_predefined hhead] at hpredefined
        have hreference := readFrom_reference state
          ((tail.flatMap fun c => (escapeChar c).toList) ++ rest) hname hpredefined
        rw [htail] at hreference
        simpa [hchars] using hreference
      · have htext : isTextChar c = true := by
          simp only [escapedChars, List.mem_cons, not_or] at hmem
          simp [isTextChar, hmem]
        rw [escapeChar_of_not_mem hmem, List.cons_append, List.nil_append,
          readFrom_textChar state _ htext, htail]
        rfl

/-- What a reference in an attribute value stands for.  The two positions are those of
its name, and show in the fault alone. -/
def resolveValue (start stop : Nat) (name : List Char) : Except ReferenceFault Char :=
  match name with
  | '#' :: number => resolveNumber number
  | _ =>
      match predefined? name with
      | some c => .ok c
      | none => .error (.unknownName start stop (String.ofList name))

theorem unescapeFrom_reference (position : Nat) {name : List Char}
    (hname : ∀ d ∈ name, d ≠ ';' ∧ d ≠ '&') (after : List Char) :
    unescapeFrom position ('&' :: name ++ ';' :: after) =
      (resolveValue (position + 1) (position + 1 + byteLength name) name).bind fun c =>
        (unescapeFrom (position + 1 + byteLength name + 1) after).map (c :: ·) := by
  have htake : (name ++ ';' :: after).takeWhile (fun d => d ≠ ';' && d ≠ '&') = name := by
    rw [List.takeWhile_append_of_pos (by simpa using hname)]
    simp
  have hdrop : (name ++ ';' :: after).drop name.length = ';' :: after := by simp
  rw [List.cons_append, unescapeFrom]
  simp only [↓reduceIte]
  split
  · rename_i after' hafter
    rw [htake, hdrop, List.cons.injEq] at hafter
    obtain ⟨_, rfl⟩ := hafter
    rw [htake]
    split
    · rfl
    · rename_i hnot
      rw [resolveValue.eq_2 _ _ _ hnot]
      cases predefined? name <;> rfl
  · rename_i hnot
    rw [htake, hdrop] at hnot
    exact absurd rfl (hnot after)

theorem unescapeFrom_predefined {name : List Char} {c : Char} (after : List Char) (position : Nat)
    (hname : ∀ d ∈ name, d ≠ ';' ∧ d ≠ '&') (hhead : name.head? ≠ some '#')
    (hpredefined : predefined? name = some c) :
    unescapeFrom position ('&' :: name ++ ';' :: after) =
      (unescapeFrom (position + 1 + byteLength name + 1) after).map (c :: ·) := by
  have hresolve : ∀ start stop, resolveValue start stop name = .ok c := by
    intro start stop
    unfold resolveValue
    split
    · simp at hhead
    · rw [hpredefined]
  rw [unescapeFrom_reference position hname, hresolve]
  rfl

theorem unescapeFrom_cons {c : Char} (position : Nat) (rest : List Char) (hc : c ≠ '&') :
    unescapeFrom position (c :: rest) =
      (unescapeFrom (position + c.utf8Size) rest).map (c :: ·) := by
  rw [unescapeFrom, if_neg hc]
  cases unescapeFrom (position + c.utf8Size) rest <;> rfl

/-- A value is read back as it was before it was escaped. -/
theorem unescape_escape (s : String) : unescape (escape s).toList = .ok s := by
  have hfrom : ∀ (cs : List Char) (position : Nat),
      unescapeFrom position (cs.flatMap fun c => (escapeChar c).toList) = .ok cs := by
    intro cs
    induction cs with
    | nil => intro position; rw [List.flatMap_nil, unescapeFrom]
    | cons c tail ih =>
        intro position
        rw [List.flatMap_cons]
        by_cases hmem : c ∈ escapedChars
        · obtain ⟨_, name, hchars, hname, hhead, hpredefined⟩ := escapeChar_of_mem c hmem
          have hreference := unescapeFrom_predefined
            (tail.flatMap fun c => (escapeChar c).toList) position
            (fun d hd => ⟨(hname d hd).1, (hname d hd).2.1⟩) hhead hpredefined
          rw [ih] at hreference
          simpa [hchars, Except.map] using hreference
        · have hamp : c ≠ '&' := by
            rintro rfl
            simp [escapedChars] at hmem
          rw [escapeChar_of_not_mem hmem, List.cons_append, List.nil_append,
            unescapeFrom_cons position _ hamp, ih]
          rfl
  rw [unescape, toList_escape, hfrom]
  simp [Except.map]

end Epub.Xml
