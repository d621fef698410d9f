/-! Lists in order. Sorting inserts one element after the other, each before those that it need not
follow, so elements that neither has to follow keep their places. -/

namespace WordAsm

variable {α : Type}

/-- Inserts an element before the first one that it may precede. -/
def insertBy (le : α → α → Bool) (a : α) : List α → List α
  | [] => [a]
  | b :: rest => if le a b then a :: b :: rest else b :: insertBy le a rest

def sortBy (le : α → α → Bool) : List α → List α
  | [] => []
  | a :: rest => insertBy le a (sortBy le rest)

/-- Texts in the order of their characters. -/
def sortTexts (texts : List String) : List String :=
  sortBy (fun a b => decide (a ≤ b)) texts

/-- The least of some texts in the order of their characters. -/
def least? : List String → Option String
  | [] => none
  | text :: rest => some (rest.foldl (fun least text => if text < least then text else least) text)

end WordAsm
