/-
Traced computations: an outcome together with the events noted on the way.  An
error ends the computation and keeps the events noted before it.
-/
import Epub.Error

namespace Epub

/-- What is worth noting while documents are read and written. -/
inductive Event where
  | decodingDocument (root : String)
  | encodingDocument (root : String)
  | absentField (field path : String)
  | ignoredAttribute (name path : String)
  | ignoredElement (name path : String)
  | clearingFields (version : String)
  | readingPart (path : String)
  | writingPart (path : String)
  | writingPackage (path version : String)
  | danglingItemref (idref : String)
deriving DecidableEq, Repr

namespace Event

/-- Whether the event is a detail rather than a step of the work. -/
def isDetail : Event → Bool
  | .absentField _ _ => true
  | .ignoredAttribute _ _ => true
  | .ignoredElement _ _ => true
  | .danglingItemref _ => true
  | _ => false

def message : Event → String
  | .decodingDocument _ => "decoding document"
  | .encodingDocument _ => "encoding document"
  | .absentField _ _ => "absent, using default"
  | .ignoredAttribute _ _ => "ignoring attribute"
  | .ignoredElement _ _ => "ignoring element"
  | .clearingFields _ => "clearing fields for target version"
  | .readingPart _ => "reading part"
  | .writingPart _ => "writing part"
  | .writingPackage _ _ => "writing part"
  | .danglingItemref _ => "spine entry has no manifest item"

/-- The particulars of the event, by name. -/
def particulars : Event → List (String × String)
  | .decodingDocument root => [("root", root)]
  | .encodingDocument root => [("root", root)]
  | .absentField field path => [("field", field), ("path", path)]
  | .ignoredAttribute name path => [("attribute", name), ("path", path)]
  | .ignoredElement name path => [("element", name), ("path", path)]
  | .clearingFields version => [("version", version)]
  | .readingPart path => [("path", path)]
  | .writingPart path => [("path", path)]
  | .writingPackage path version => [("path", path), ("version", version)]
  | .danglingItemref idref => [("idref", idref)]

end Event

/-- An outcome with the events noted on the way to it. -/
structure Traced (α : Type) where
  log : List Event
  outcome : Except Error α
deriving Repr

namespace Traced

variable {α β : Type}

/-- An outcome reached without events. -/
def lift (outcome : Except Error α) : Traced α :=
  ⟨[], outcome⟩

/-- Note an event. -/
def note (event : Event) : Traced Unit :=
  ⟨[event], .ok ()⟩

/-- Note several events. -/
def noteAll (events : List Event) : Traced Unit :=
  ⟨events, .ok ()⟩

/-- Stop with an error. -/
def fail (error : Error) : Traced α :=
  ⟨[], .error error⟩

/-- Go on with the result, unless there is none. -/
def bind (first : Traced α) (next : α → Traced β) : Traced β :=
  match first.outcome with
  | .ok a => ⟨first.log ++ (next a).log, (next a).outcome⟩
  | .error error => ⟨first.log, .error error⟩

instance : Monad Traced where
  pure a := ⟨[], .ok a⟩
  bind := bind

theorem pure_def (a : α) : (pure a : Traced α) = ⟨[], .ok a⟩ := rfl

theorem bind_ok (log : List Event) (a : α) (next : α → Traced β) :
    (⟨log, .ok a⟩ : Traced α) >>= next =
      ⟨log ++ (next a).log, (next a).outcome⟩ := rfl

theorem bind_error (log : List Event) (error : Error) (next : α → Traced β) :
    (⟨log, .error error⟩ : Traced α) >>= next = ⟨log, .error error⟩ := rfl

theorem id_map (x : Traced α) : id <$> x = x := by
  obtain ⟨log, outcome⟩ := x
  cases outcome <;> simp [Functor.map, bind]

theorem bind_assoc (x : Traced α) (f : α → Traced β) {γ : Type}
    (g : β → Traced γ) :
    x >>= f >>= g = x >>= fun a => f a >>= g := by
  obtain ⟨log, outcome⟩ := x
  cases outcome with
  | error error => simp [bind_error]
  | ok a =>
      simp only [bind_ok]
      cases hnext : f a with
      | mk log' outcome' => cases outcome' <;> simp [bind_ok, bind_error]

instance : LawfulMonad Traced :=
  LawfulMonad.mk' Traced id_map (fun a f => by simp [pure_def, bind_ok])
    (fun x f g => bind_assoc x f g)

end Traced

end Epub
