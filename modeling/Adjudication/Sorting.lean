namespace Adjudication

variable {α : Type} (le : α → α → Prop) [DecidableRel le]

/-- Puts `x` in front of the first element that it may go before. -/
def insertBy (x : α) : List α → List α
  | [] => [x]
  | y :: ys => if le x y then x :: y :: ys else y :: insertBy x ys

/-- Sorts by insertion; elements that go before each other keep their order. The recursion is on the list
so that closed lists are sorted by evaluation. -/
def sortBy : List α → List α
  | [] => []
  | x :: xs => insertBy le x (sortBy xs)

end Adjudication
