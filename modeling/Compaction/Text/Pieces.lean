/-!
# Pieces of a text

Cutting a text at separators, and joining texts by one. There is always a piece, if only an empty one (`pieces_ne_nil`).
-/

namespace Compaction.Text

/-- The stretches between the separators, empty ones included. -/
def pieces (sep : Char → Bool) : List Char → List (List Char)
  | [] => [[]]
  | c :: rest =>
    if sep c then [] :: pieces sep rest
    else match pieces sep rest with
      | [] => [[c]]
      | p :: ps => (c :: p) :: ps

def joinWith (sep : List Char) : List (List Char) → List Char
  | [] => []
  | [p] => p
  | p :: ps => p ++ sep ++ joinWith sep ps

/-- The text before the first `mark`, and the text after it if there is one. -/
def cutAt (mark : Char) : List Char → List Char × Option (List Char)
  | [] => ([], none)
  | c :: rest =>
    if c = mark then ([], some rest)
    else ((c :: (cutAt mark rest).1), (cutAt mark rest).2)

theorem pieces_ne_nil (sep : Char → Bool) (s : List Char) : pieces sep s ≠ [] := by
  cases s with
  | nil => simp [pieces]
  | cons c r => simp only [pieces]; split <;> simp; split <;> simp

/-- Comma-separated text in brackets, as lists are shown. -/
def listText (items : List (List Char)) : List Char := '[' :: (joinWith [',', ' '] items ++ [']'])

/-- As `listText` with parentheses; a single item is followed by a comma. -/
def tupleText : List (List Char) → List Char
  | [item] => '(' :: (item ++ [',', ')'])
  | items => '(' :: (joinWith [',', ' '] items ++ [')'])

/-- The lines of a text. -/
def lines (s : String) : List String := (pieces (· == '\n') s.toList).map String.ofList

/-- Lower case of the basic Latin letters; every other character is left as it is. -/
def lowered (s : List Char) : List Char := s.map Char.toLower

end Compaction.Text
