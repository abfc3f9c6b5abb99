set_option autoImplicit false

/-! # Splitting at runs of separators

A text is cut at every maximal run of separators. A run at either end of the text leaves an
empty piece there, so a text has one piece more than it has runs. -/

namespace IconForge.Text

/-- The pieces of a text between its maximal runs of separators. A separator opens a new piece
unless another separator follows it. -/
def splitAtRuns {α : Type} (separator : α → Bool) : List α → List (List α)
  | [] => [[]]
  | c :: rest =>
    if separator c then
      match rest with
      | d :: _ =>
        if separator d then splitAtRuns separator rest else [] :: splitAtRuns separator rest
      | [] => [[], []]
    else
      match splitAtRuns separator rest with
      | piece :: pieces => (c :: piece) :: pieces
      | [] => [[c]]

end IconForge.Text
