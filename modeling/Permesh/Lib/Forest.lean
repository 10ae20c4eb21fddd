import Mathlib.Data.List.Basic

/-!
# Forest — labelled trees with text

A list of trees, each a text or an element with a name and a forest of its own: the first tree, what
is in it, and the trees behind it. An element is found by the names on the way to it.
-/

namespace Permesh.Lib

inductive Forest (α : Type) where
  | nil
  | text (piece : String) (rest : Forest α)
  | element (name : α) (children rest : Forest α)

namespace Forest

variable {α : Type}

/-- The number of elements around each other. -/
def depth : Forest α → Nat
  | .nil => 0
  | .text _ rest => rest.depth
  | .element _ children rest => max (children.depth + 1) rest.depth

/-- The texts that stand directly in a forest. -/
def directText : Forest α → String
  | .nil => ""
  | .text piece rest => piece ++ rest.directText
  | .element _ _ rest => rest.directText

/-- What is in the elements at `target`, if `path` is where the forest stands. -/
def contentsAt [DecidableEq α] (target path : List α) : Forest α → List (Forest α)
  | .nil => []
  | .text _ rest => rest.contentsAt target path
  | .element name children rest =>
    (if path ++ [name] = target then [children] else []) ++
      children.contentsAt target (path ++ [name]) ++ rest.contentsAt target path

end Forest

end Permesh.Lib
