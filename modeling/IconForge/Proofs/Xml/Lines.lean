import Mathlib
import IconForge.Text.LineEnds
import IconForge.Xml.Position

set_option autoImplicit false

/-! # Lines and positions

The lines of a text are what stands between its line ends, where a carriage return with a line feed
behind it is one line end. A position is counted character by character, but it can also be read off
the lines of what stands in front of it: there are as many of them as its line says, and the last
one has as many characters as its column says (`isEndOf_advance`).

A text without line ends in front of another one only makes the first line longer
(`lines_append`). So it moves positions on the first line by its length and no others
(`isEndOf_of_append`). -/

namespace IconForge

namespace Text

/-- A character that a line ends with. -/
def IsLineEnd (c : Char) : Prop :=
  c = '\n' ∨ c = '\r'

instance : DecidablePred IsLineEnd :=
  fun c => inferInstanceAs (Decidable (c = '\n' ∨ c = '\r'))

theorem not_isLineEnd_of_all {cs : List Char} (h : cs.all (¬ IsLineEnd ·)) :
    ∀ c ∈ cs, ¬ IsLineEnd c :=
  fun c hc => of_decide_eq_true (List.all_eq_true.1 h c hc)

/-- The lines of a text. The last one is what stands behind the last line end, maybe nothing. -/
def lines (cs : List Char) : List (List Char) :=
  (toLineFeeds cs).splitOn '\n'

theorem lines_of_toLineFeeds {cs rest : List Char} (h : toLineFeeds cs = '\n' :: toLineFeeds rest) :
    lines cs = [] :: lines rest := by
  rw [lines, h, List.splitOn, List.splitOnP_cons_eq_if_modifyHead]
  rfl

/-- Another character belongs to the first line. -/
theorem lines_cons {c : Char} (hc : ¬ IsLineEnd c) (cs : List Char) :
    lines (c :: cs) = (lines cs).modifyHead (c :: ·) := by
  rw [IsLineEnd, not_or] at hc
  have hfeeds : toLineFeeds (c :: cs) = c :: toLineFeeds cs :=
    toLineFeeds.eq_4 c cs (fun _ heq => absurd heq hc.2) hc.2
  rw [lines, hfeeds, List.splitOn, List.splitOnP_cons_eq_if_modifyHead,
    if_neg (by simpa using hc.1)]
  rfl

theorem exists_lines (cs : List Char) : ∃ first more, lines cs = first :: more :=
  List.exists_cons_of_ne_nil (List.splitOnP_ne_nil _ _)

/-- A text without line ends belongs to the first line of what stands behind it. -/
theorem lines_append {front : List Char} (hfront : ∀ c ∈ front, ¬ IsLineEnd c) (cs : List Char) :
    lines (front ++ cs) = (lines cs).modifyHead (front ++ ·) := by
  obtain ⟨first, more, hlines⟩ := exists_lines cs
  induction front with
  | nil =>
      rw [List.nil_append, hlines]
      rfl
  | cons c front ih =>
      obtain ⟨hc, hfront⟩ := List.forall_mem_cons.1 hfront
      rw [List.cons_append, lines_cons hc, ih hfront, hlines]
      rfl

theorem lines_eq_singleton {cs : List Char} (h : ∀ c ∈ cs, ¬ IsLineEnd c) : lines cs = [cs] := by
  have hlines := lines_append h []
  rw [List.append_nil] at hlines
  rw [hlines]
  show [cs ++ []] = [cs]
  rw [List.append_nil]

end Text

namespace Xml.Position

open Text

/-! ## Positions by lines -/

/-- The position behind lines that begin at a position, each but the last one with its end. -/
def behindLines (p : Position) : List (List Char) → Position
  | [] => p
  | [line] => ⟨p.line, p.column + line.length⟩
  | _ :: next :: more => behindLines ⟨p.line + 1, 0⟩ (next :: more)

theorem behindLines_cons (p : Position) (c : Char) (line : List Char) (more : List (List Char)) :
    p.behindLines ((c :: line) :: more) =
      (⟨p.line, p.column + 1⟩ : Position).behindLines (line :: more) := by
  cases more with
  | nil => rw [behindLines, behindLines, List.length_cons, Nat.add_assoc, Nat.add_comm 1]
  | cons next more => rfl

/-- **Counting character by character is counting by lines.** -/
theorem advance_eq_behindLines (p : Position) (cs : List Char) :
    p.advance cs = p.behindLines (lines cs) := by
  have hend : ∀ {p : Position} {cs rest : List Char}, toLineFeeds cs = '\n' :: toLineFeeds rest →
      p.behindLines (lines cs) = (⟨p.line + 1, 0⟩ : Position).behindLines (lines rest) := by
    intro p cs rest hcs
    obtain ⟨first, more, hlines⟩ := exists_lines rest
    rw [lines_of_toLineFeeds hcs, hlines]
    rfl
  -- Each of the three line ends begins with one line feed in the text that is cut into lines.
  fun_induction advance p cs with
  | case1 => rfl
  | case2 p rest ih => rw [hend (toLineFeeds.eq_2 rest), ih]
  | case3 p rest hfeed ih => rw [hend (toLineFeeds.eq_3 rest hfeed), ih]
  | case4 p rest ih => rw [hend (toLineFeeds.eq_4 '\n' rest (by rintro _ ⟨⟩) (by decide)), ih]
  | case5 p c rest _ hreturn hfeed ih =>
      obtain ⟨first, more, hlines⟩ := exists_lines rest
      rw [ih, lines_cons (not_or.2 ⟨hfeed, hreturn⟩), hlines]
      exact (behindLines_cons p c first more).symm

theorem behindLines_last (p : Position) (first : List Char) {more : List (List Char)}
    {last : List Char} (h : more.getLast? = some last) :
    p.behindLines (first :: more) = ⟨p.line + more.length, last.length⟩ := by
  induction more generalizing p first with
  | nil => cases h
  | cons next more ih =>
      rw [behindLines]
      cases more with
      | nil =>
          cases h
          rw [behindLines, Nat.zero_add]
          rfl
      | cons other more =>
          rw [List.getLast?_cons_cons] at h
          rw [ih ⟨p.line + 1, 0⟩ next h, Nat.add_right_comm]
          rfl

/-! ## The end of a text -/

/-- A position is that of the end of a text. -/
structure IsEndOf (position : Position) (cs : List Char) : Prop where
  line : position.line = (lines cs).length
  column : ∃ last, (lines cs).getLast? = some last ∧ position.column = last.length

/-- **The place behind a text is the end of its last line.** -/
theorem isEndOf_advance (cs : List Char) : (start.advance cs).IsEndOf cs := by
  obtain ⟨first, more, hlines⟩ := exists_lines cs
  rw [advance_eq_behindLines, hlines]
  cases hlast : more.getLast? with
  | none =>
      obtain rfl := List.getLast?_eq_none_iff.1 hlast
      exact ⟨by rw [hlines]; rfl, first, by rw [hlines]; rfl, Nat.zero_add _⟩
  | some last =>
      rw [behindLines_last start first hlast]
      refine ⟨?_, last, ?_, rfl⟩
      · rw [hlines, List.length_cons, Nat.add_comm]
        rfl
      · rw [hlines, List.getLast?_cons, hlast]
        rfl

/-- **A text without line ends in front moves the first line** and leaves the others as they are. -/
theorem isEndOf_of_append {front cs : List Char} {position : Position}
    (hfront : ∀ c ∈ front, ¬ IsLineEnd c) (h : position.IsEndOf (front ++ cs)) :
    (position.line = 1 → front.length ≤ position.column ∧
        (⟨1, position.column - front.length⟩ : Position).IsEndOf cs) ∧
      (2 ≤ position.line → position.IsEndOf cs) := by
  obtain ⟨first, more, hlines⟩ := exists_lines cs
  obtain ⟨hline, last, hlast, hcolumn⟩ := h
  rw [lines_append hfront, hlines, List.modifyHead_cons] at hline hlast
  cases more with
  | nil =>
      -- The last line is the first one, which the text in front belongs to.
      rw [List.getLast?_singleton, Option.some.injEq] at hlast
      rw [← hlast, List.length_append] at hcolumn
      have hlength : front.length ≤ position.column := hcolumn ▸ Nat.le_add_right _ _
      refine ⟨fun _ => ⟨hlength, ?_, first, ?_, Nat.sub_eq_of_eq_add' hcolumn⟩, fun hbelow => ?_⟩
      · rw [hlines]
        rfl
      · rw [hlines]
        rfl
      · rw [hline] at hbelow
        exact absurd hbelow (by simp)
  | cons next more =>
      -- The last line is another one, and there the text in front is not seen.
      refine ⟨fun hfirst => ?_, fun _ => ⟨?_, last, ?_, hcolumn⟩⟩
      · rw [hline] at hfirst
        exact absurd hfirst (by simp)
      · rw [hlines, hline]
        rfl
      · rwa [hlines, List.getLast?_cons_cons]

end Xml.Position

end IconForge
