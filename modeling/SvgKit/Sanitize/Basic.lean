import SvgKit.Sanitize.Rules

/-! Removing what is dangerous from the text of a document, and reporting it without removing
it.
-/

namespace SvgKit.Sanitize

/-- Which kinds of dangerous content are removed. -/
structure Policy where
  scripts : Bool := true
  handlers : Bool := true
  elements : Bool := true
  urls : Bool := true
  deriving Repr, DecidableEq

/-- A text after removals, with a line for each kind of content removed. -/
structure Outcome where
  text : Text
  issues : List Text
  deriving Repr, DecidableEq

/-- Something was removed. -/
def Outcome.modified (o : Outcome) : Bool := !o.issues.isEmpty

/-- The items without those that stand earlier in the list. -/
def unique (items : List Text) : List Text :=
  (items.foldl (fun seen item => if seen.contains item then seen else item :: seen) []).reverse

/-- Removes the elements of a name: those that close themselves, then those with an end tag. -/
def removeElement (o : Outcome) (name : Text) : Outcome :=
  if (emptyScanner name).finds o.text || (pairedScanner name).finds o.text then
    ⟨(pairedScanner name).delete ((emptyScanner name).delete o.text),
      o.issues ++ ["Removed <" ++ name ++ "> element(s)"]⟩
  else o

/-- The policy removes the elements of a dangerous name. -/
def Policy.removes (p : Policy) (name : Text) : Bool :=
  if name = ("script" : Text) then p.scripts else p.elements

/-- Removes the dangerous elements that the policy names, one name after the other. -/
def removeElements (p : Policy) (o : Outcome) : Outcome :=
  (dangerousElements.filter p.removes).foldl removeElement o

/-- The names of the handlers that a scanner finds, in small letters, each once. -/
def handlerNames (scanner : Scanner Text) (s : Text) : List Text :=
  unique ((scanner.findAll s).map Text.lower)

/-- Removes event handler attributes. -/
def removeHandlers (o : Outcome) : Outcome :=
  let names := handlerNames handlerScanner o.text
  if names.isEmpty then o
  else
    ⟨handlerScanner.delete o.text,
      o.issues ++ names.map fun name : Text => "Removed " ++ name ++ " attribute(s)"⟩

/-- Removes the URL attributes whose value begins with a scheme. -/
def removeUrls (o : Outcome) (scheme : Text) : Outcome :=
  if (urlScanner scheme).finds o.text then
    ⟨(urlScanner scheme).delete o.text, o.issues ++ ["Removed " ++ scheme ++ " URL(s)"]⟩
  else o

/-- Removes what the policy names: elements, then handlers, then URLs. -/
def sanitize (p : Policy) (s : Text) : Outcome :=
  let o := removeElements p ⟨s, []⟩
  let o := if p.handlers then removeHandlers o else o
  if p.urls then dangerousSchemes.foldl removeUrls o else o

/-- A warning for each kind of dangerous content in a text. -/
def warnings (s : Text) : List Text :=
  let elements := dangerousElements.filter fun name => Text.anyEnd (opensElement name) s
  let small := Text.lower s
  let schemes := dangerousSchemes.filter fun scheme => Text.hasLiteral scheme small
  elements.map (fun name : Text =>
      "Contains potentially dangerous <" ++ name ++ "> element")
    ++ (handlerNames handlerNameScanner s).map (fun name : Text =>
      "Contains event handler: " ++ name)
    ++ schemes.map (fun scheme : Text => "Contains dangerous URL scheme: " ++ scheme)

end SvgKit.Sanitize
