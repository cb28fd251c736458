import SvgKit.Text.Basic

/-! Scanners read one item at the head of a text. `Scanner.pieces` cuts a text into the items
a scanner finds from left to right and the characters between them; searching and replacing
are functions of the pieces.
-/

namespace SvgKit

/-- Reads one item at the head of a text and leaves the rest, which is shorter. -/
structure Scanner (α : Type) where
  read : Text → Option (α × Text)
  shorter : ∀ {s a rest}, read s = some (a, rest) → rest.length < s.length
  suffix : ∀ {s a rest}, read s = some (a, rest) → rest <:+ s

/-- A character that belongs to no item, or an item. -/
inductive Piece (α : Type) where
  | plain (c : Char)
  | found (item : α)
  deriving Repr, DecidableEq

namespace Scanner

variable {α β : Type}

/-- The pieces of a text after those already cut off, which are in reverse order. -/
def piecesAfter (p : Scanner α) (done : List (Piece α)) : Text → List (Piece α)
  | [] => done.reverse
  | c :: s =>
    match _found : p.read (c :: s) with
    | some (item, rest) => p.piecesAfter (.found item :: done) rest
    | none => p.piecesAfter (.plain c :: done) s
termination_by s => s.length
decreasing_by
  · exact p.shorter _found
  · simp

/-- The leftmost items that do not overlap, and the characters between them, in order. -/
def pieces (p : Scanner α) (s : Text) : List (Piece α) := p.piecesAfter [] s

/-- The items found, in order. -/
def findAll (p : Scanner α) (s : Text) : List α :=
  (p.pieces s).filterMap fun
    | .plain _ => none
    | .found item => some item

/-- An item is read somewhere in the text. -/
def finds (p : Scanner α) : Text → Bool
  | [] => false
  | c :: s => (p.read (c :: s)).isSome || p.finds s

/-- Writes every item anew and keeps the characters between them. -/
def replace (p : Scanner α) (f : α → Text) (s : Text) : Text :=
  (p.pieces s).flatMap fun
    | .plain c => [c]
    | .found item => f item

/-- Deletes every item. -/
def delete (p : Scanner α) (s : Text) : Text := p.replace (fun _ => []) s

/-- Reads items until the text ends, and nothing else. -/
def readAll? (p : Scanner α) (s : Text) : Option (List α) :=
  (p.pieces s).mapM fun
    | .plain _ => none
    | .found item => some item

/-- The pieces found first stay in front. -/
theorem piecesAfter_eq (p : Scanner α) (done : List (Piece α)) (s : Text)
    : p.piecesAfter done s = done.reverse ++ p.pieces s := by
  suffices ∀ n (done : List (Piece α)) (s : Text), s.length = n →
      p.piecesAfter done s = done.reverse ++ p.piecesAfter [] s from this _ done s rfl
  intro n
  induction n using Nat.strongRecOn with
  | _ n ih =>
    intro done s hs
    cases s with
    | nil => simp [piecesAfter]
    | cons c s =>
      rw [piecesAfter, piecesAfter]
      split
      · next item rest h =>
        have hr := hs ▸ p.shorter h
        rw [ih _ hr _ _ rfl, ih _ hr [_] _ rfl]
        simp
      · have hr : s.length < n := by rw [← hs]; simp
        rw [ih _ hr _ _ rfl, ih _ hr [_] _ rfl]
        simp

/-- An empty text has no pieces. -/
@[simp]
theorem pieces_nil (p : Scanner α) : p.pieces [] = [] := by simp [pieces, piecesAfter]

/-- Where an item is read it is the next piece. -/
theorem pieces_of_read (p : Scanner α) {s rest : Text} {item : α}
    (h : p.read s = some (item, rest))
    : p.pieces s = .found item :: p.pieces rest := by
  cases s with
  | nil => exact absurd (p.shorter h) (by simp)
  | cons c s =>
    rw [pieces, piecesAfter]
    split
    · next i r h' =>
      obtain ⟨rfl, rfl⟩ : i = item ∧ r = rest := by simpa [h] using h'.symm
      rw [piecesAfter_eq]
      rfl
    · next h' => simp [h] at h'

/-- Where no item is read the next character stands alone. -/
theorem pieces_of_read_none (p : Scanner α) {c : Char} {s : Text}
    (h : p.read (c :: s) = none)
    : p.pieces (c :: s) = .plain c :: p.pieces s := by
  rw [pieces, piecesAfter]
  split
  · next h' => simp [h] at h'
  · rw [piecesAfter_eq]; rfl

end Scanner

end SvgKit
