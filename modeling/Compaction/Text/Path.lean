import Compaction.Text.Pieces

/-!
# Paths

The normal form of a path: without empty parts and parts that are a single point. Two slashes at the start stay two;
any other number is one.
-/

namespace Compaction.Text

private def root : List Char → List Char
  | '/' :: '/' :: '/' :: _ => ['/']
  | '/' :: '/' :: _ => ['/', '/']
  | '/' :: _ => ['/']
  | _ => []

def normalPath (s : List Char) : List Char :=
  let parts := (pieces (· == '/') s).filter fun p => p ≠ [] ∧ p ≠ ['.']
  match root s ++ joinWith ['/'] parts with
  | [] => ['.']
  | path => path

end Compaction.Text
