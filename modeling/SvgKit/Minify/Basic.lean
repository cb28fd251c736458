import SvgKit.Minify.Attributes
import SvgKit.Minify.Groups
import SvgKit.Minify.Identifiers
import SvgKit.Minify.Source
import SvgKit.Xml.Writer

/-! Minification: passes over the tree of a document, repeated until its text stays the same. -/

namespace SvgKit.Minify

open Xml

/-- The root without its `version`. -/
def dropVersion (d : Document) : Document :=
  { d with root := { d.root with head := d.root.head.erase "version" } }

/-- One pass: content for drawing programs, unused identifiers, attributes, containers and
unused declarations of namespaces, in this order.
-/
def pass (precision : Int) (d : Document) : Except Failure Document :=
  (shortenAttributes precision (removeUnusedIds (dropVersion (removeEditorContent d)))).map
    fun d =>
      let d := collapseGroups d
      { d with root := d.root.dropUnused }

/-- A minified text, and the number of passes that it took. -/
structure Outcome where
  text : Text
  passes : Nat
  deriving Repr, DecidableEq

/-- Where passes over a document end: the document with its text, the number of passes, and
whether the last one left the text as it was.
-/
structure Finish where
  document : Document
  text : Text
  passes : Nat
  settled : Bool

/-- What is told about the passes over a document. -/
def Finish.outcome (f : Finish) : Outcome := ⟨f.text, f.passes⟩

/-- Runs at most `count` passes over a document whose text is given, after `done` passes. It
ends when a pass leaves the text as it was.
-/
def runPasses (precision : Int) (done : Nat)
    : Nat → Document → Text → Except Failure Finish
  | 0, d, text => .ok ⟨d, text, done, false⟩
  | count + 1, d, text => do
    let next ← pass precision d
    let written := next.root.write
    if written = text then .ok ⟨next, text, done + 1, true⟩
    else runPasses precision (done + 1) count next written

/-- The greatest number of passes. -/
def maxPasses : Nat := 10

/-- Runs one pass or several over the document that a text writes, with numbers rounded to
decimal places.
-/
def finish (multipass : Bool) (precision : Int) (s : Text) : Except Failure Finish := do
  let d ← readDocument s
  runPasses precision 0 (if multipass then maxPasses else 1) d d.root.write

/-- Minifies the text of a document in one pass or in several. -/
def run (multipass : Bool) (precision : Int) (s : Text) : Except Failure Outcome :=
  (finish multipass precision s).map Finish.outcome

/-- The minified text of a document. -/
def shrink (precision : Int) (s : Text) : Except Failure Text :=
  (run true precision s).map (·.text)

end SvgKit.Minify
