import SvgKit.Text.Basic

/-! Texts inside template literals of scripts. -/

namespace SvgKit.Component

/-- Puts a backslash before a backslash, before a backquote, and before a dollar sign that a
brace follows.
-/
def escapeTemplate (s : Text) : Text :=
  s.foldr step []
where
  step (c : Char) (rest : Text) : Text :=
    if c = '\\' || c = '\x60' || (c = '$' && rest.head? = some '\x7b') then '\\' :: c :: rest
    else c :: rest

/-- A text as a template literal. -/
def templateLiteral (s : Text) : Text := '\x60' :: escapeTemplate s ++ ['\x60']

end SvgKit.Component
