import Mathlib
import IconForge.Proofs.Text.Characters
import IconForge.Proofs.Xml.Checking

set_option autoImplicit false

/-! # Trimming a forest

The text of a forest without the blanks around it is the text of another forest, which has the same
elements: blank characters at its ends are left out (`Forest.text_trim`). A tag that is well-formed
in a scope is well-formed in every scope that binds more prefixes (`WrittenTag.WellFormed.mono`). -/

namespace IconForge.Text

/-! ## Dropping trailing characters -/

theorem dropTrailing_append (class? : Char → Bool) (front cs : List Char) :
    dropTrailing class? (front ++ cs) =
      if dropTrailing class? cs = [] then dropTrailing class? front
      else front ++ dropTrailing class? cs := by
  have hempty : (cs.reverse.dropWhile class?).isEmpty ↔ dropTrailing class? cs = [] := by
    rw [dropTrailing, List.reverse_eq_nil_iff, List.isEmpty_iff]
  rw [dropTrailing, List.reverse_append, List.dropWhile_append]
  by_cases h : dropTrailing class? cs = []
  · rw [if_pos h, if_pos (hempty.2 h)]
    rfl
  · rw [if_neg h, if_neg (fun hnil => h (hempty.1 hnil)), List.reverse_append,
      List.reverse_reverse]
    rfl

/-- Nothing is dropped in front of a character that stays. -/
theorem dropTrailing_append_of_last {class? : Char → Bool} {front : List Char} {c : Char}
    (hc : class? c = false) (cs : List Char) :
    dropTrailing class? (front ++ c :: cs) = front ++ c :: dropTrailing class? cs := by
  have hfront : dropTrailing class? (front ++ [c]) = front ++ [c] := by
    apply dropTrailing_eq_self
    rw [List.getLast?_append]
    rintro d ⟨⟩
    exact hc
  rw [List.append_cons, dropTrailing_append, hfront]
  split
  · next hnil => rw [hnil]
  · rw [List.append_assoc, List.singleton_append]

end IconForge.Text

namespace IconForge.Xml

open IconForge.Text

/-! ## Blank characters at the ends -/

/-- A blank that stands for itself. -/
def Spelled.isBlank : Spelled → Bool
  | plain c => Text.isBlank c
  | _ => false

namespace Forest

/-- A forest without the blank characters at its front. -/
def trimStart : Forest → Forest
  | character spelled rest =>
    if spelled.isBlank then rest.trimStart else character spelled rest
  | forest => forest

/-- A forest without the blank characters at its end. -/
def trimEnd : Forest → Forest
  | empty => empty
  | character spelled rest =>
    if spelled.isBlank ∧ rest.trimEnd.text = [] then empty else character spelled rest.trimEnd
  | element tag content trailing rest => element tag content trailing rest.trimEnd
  | leaf tag rest => leaf tag rest.trimEnd

/-- A forest without the blank characters around it. -/
def trim (forest : Forest) : Forest :=
  forest.trimStart.trimEnd

/-- A character that is no blank is spelled without one at its ends. -/
theorem exists_spelled {spelled : Spelled} (h : spelled.isBlank = false) :
    (∃ c cs, spelled.text = c :: cs ∧ Text.isBlank c = false) ∧
      ∃ front c, spelled.text = front ++ [c] ∧ Text.isBlank c = false := by
  have hand : Text.isBlank '&' = false := by
    decide
  have hsemicolon : Text.isBlank ';' = false := by
    decide
  cases spelled with
  | plain c => exact ⟨⟨c, [], rfl, h⟩, [], c, rfl, h⟩
  | named name => exact ⟨⟨'&', _, rfl, hand⟩, '&' :: name, ';', rfl, hsemicolon⟩
  | decimal digits => exact ⟨⟨'&', _, rfl, hand⟩, '&' :: '#' :: digits, ';', rfl, hsemicolon⟩
  | hexadecimal digits =>
      exact ⟨⟨'&', _, rfl, hand⟩, '&' :: '#' :: 'x' :: digits, ';', rfl, hsemicolon⟩

theorem text_of_isBlank {spelled : Spelled} (h : spelled.isBlank) :
    ∃ c, spelled.text = [c] ∧ Text.isBlank c := by
  cases spelled with
  | plain c => exact ⟨c, rfl, h⟩
  | named name => cases h
  | decimal digits => cases h
  | hexadecimal digits => cases h

theorem text_trimStart (forest : Forest) :
    forest.trimStart.text = forest.text.dropWhile Text.isBlank := by
  have hlt : ¬ Text.isBlank '<' = true := by
    decide
  induction forest with
  | empty => rfl
  | character spelled rest ih =>
      rw [trimStart]
      split
      · next hblank =>
        obtain ⟨c, htext, hc⟩ := text_of_isBlank hblank
        rw [ih, text, htext, List.singleton_append, List.dropWhile_cons_of_pos hc]
      · next hno =>
        rw [Bool.not_eq_true] at hno
        obtain ⟨⟨c, cs, htext, hc⟩, -⟩ := exists_spelled hno
        rw [text, htext, List.cons_append, List.dropWhile_cons_of_neg (by rw [hc]; decide)]
  | element tag content trailing rest _ _ =>
      rw [trimStart, text, List.dropWhile_cons_of_neg hlt]
      · rintro _ _ ⟨⟩
  | leaf tag rest _ =>
      rw [trimStart, text, List.dropWhile_cons_of_neg hlt]
      · rintro _ _ ⟨⟩

theorem text_trimEnd (forest : Forest) :
    forest.trimEnd.text = dropTrailing Text.isBlank forest.text := by
  have hgreater : Text.isBlank '>' = false := by
    decide
  induction forest with
  | empty => rfl
  | character spelled rest ih =>
      rw [trimEnd, text, dropTrailing_append, ← ih]
      -- A character is trimmed only when nothing but blanks stands behind it.
      by_cases hrest : rest.trimEnd.text = []
      · rw [if_pos hrest]
        cases hblank : spelled.isBlank with
        | true =>
            obtain ⟨c, htext, hc⟩ := text_of_isBlank hblank
            rw [if_pos ⟨rfl, hrest⟩, htext, dropTrailing, List.reverse_singleton,
              List.dropWhile_cons_of_pos hc]
            rfl
        | false =>
            obtain ⟨-, front, c, htext, hc⟩ := exists_spelled hblank
            rw [if_neg (by simp), text, hrest, List.append_nil, htext,
              dropTrailing_append_of_last hc]
            rfl
      · rw [if_neg hrest, if_neg (fun hboth => hrest hboth.2), text]
  | element tag content trailing rest _ ih =>
      have htext : ∀ forest : Forest, (element tag content trailing forest).text =
          ('<' :: (tag.text ++ '>' :: (content.text ++ '<' :: '/' ::
            (tag.name.written ++ trailing)))) ++ '>' :: forest.text := by
        intro forest
        simp [text]
      rw [trimEnd, htext, htext, dropTrailing_append_of_last hgreater, ih]
  | leaf tag rest ih =>
      have htext : ∀ forest : Forest, (leaf tag forest).text =
          ('<' :: (tag.text ++ ['/'])) ++ '>' :: forest.text := by
        intro forest
        simp [text]
      rw [trimEnd, htext, htext, dropTrailing_append_of_last hgreater, ih]

/-- **The text of a trimmed forest** is the text without the blanks around it. -/
theorem text_trim (forest : Forest) : forest.trim.text = strip forest.text := by
  rw [trim, text_trimEnd, text_trimStart]
  rfl

/-! ## What trimming leaves alone -/

/-- A forest without text is empty. -/
theorem eq_empty_of_text {forest : Forest} (h : forest.text = []) : forest = empty := by
  cases forest with
  | empty => rfl
  | character spelled rest =>
      rw [text] at h
      cases hblank : spelled.isBlank with
      | true =>
          obtain ⟨c, hc, -⟩ := text_of_isBlank hblank
          rw [hc] at h
          cases h
      | false =>
          obtain ⟨⟨c, cs, hc, -⟩, -⟩ := exists_spelled hblank
          rw [hc] at h
          cases h
  | element tag content trailing rest => cases h
  | leaf tag rest => cases h

theorem elements_trim (forest : Forest) : forest.trim.elements = forest.elements := by
  have hend : ∀ forest : Forest, forest.trimEnd.elements = forest.elements := by
    intro forest
    induction forest with
    | empty => rfl
    | character spelled rest ih =>
        rw [trimEnd]
        split
        · next hboth =>
          -- Nothing but blanks was there, hence no elements.
          rw [eq_empty_of_text hboth.2] at ih
          exact ih
        · exact ih
    | element tag content trailing rest _ ih => rw [trimEnd, elements, elements, ih]
    | leaf tag rest ih => rw [trimEnd, elements, elements, ih]
  have hstart : ∀ forest : Forest, forest.trimStart.elements = forest.elements := by
    intro forest
    induction forest with
    | character spelled rest ih =>
        rw [trimStart]
        split
        · rw [elements, ih]
        · rfl
    | _ => rfl
  rw [trim, hend, hstart]

theorem Valid.trim {forest : Forest} (h : forest.Valid) : forest.trim.Valid := by
  have hend : ∀ {forest : Forest}, forest.Valid → forest.trimEnd.Valid := by
    intro forest h
    induction forest with
    | empty => trivial
    | character spelled rest ih =>
        obtain ⟨hspelled, hsection, hrest⟩ := h
        rw [trimEnd]
        split
        · trivial
        · refine ⟨hspelled, ?_, ih hrest⟩
          -- Trimming cuts the text behind, so no end of a section comes about.
          rintro ⟨hbracket, hprefix⟩
          rw [text_trimEnd] at hprefix
          exact hsection ⟨hbracket, hprefix.trans (dropTrailing_isPrefix _ _)⟩
    | element tag content trailing rest _ ih =>
        exact ⟨h.1, h.2.1, h.2.2.1, ih h.2.2.2⟩
    | leaf tag rest ih => exact ⟨h.1, ih h.2⟩
  have hstart : ∀ {forest : Forest}, forest.Valid → forest.trimStart.Valid := by
    intro forest h
    induction forest with
    | character spelled rest ih =>
        rw [trimStart]
        split
        · exact ih h.2.2
        · exact h
    | _ => exact h
  exact hend (hstart h)

theorem WellFormed.trim {scope : Scope} {forest : Forest} (h : forest.WellFormed scope) :
    forest.trim.WellFormed scope := by
  have hend : ∀ {forest : Forest}, forest.WellFormed scope → forest.trimEnd.WellFormed scope := by
    intro forest h
    induction forest with
    | empty => trivial
    | character spelled rest ih =>
        rw [trimEnd]
        split
        · trivial
        · exact ih h
    | element tag content trailing rest _ ih => exact ⟨h.1, h.2.1, ih h.2.2⟩
    | leaf tag rest ih => exact ⟨h.1, ih h.2⟩
  have hstart : ∀ {forest : Forest}, forest.WellFormed scope →
      forest.trimStart.WellFormed scope := by
    intro forest h
    induction forest with
    | character spelled rest ih =>
        rw [trimStart]
        split
        · exact ih h
        · exact h
    | _ => exact h
  exact hend (hstart h)

end Forest

/-! ## Larger scopes -/

/-- A scope binds every prefix that another one binds, to the same namespace name. -/
def Scope.Extends (larger scope : Scope) : Prop :=
  ∀ q uri, scope.lookup? q = some uri → larger.lookup? q = some uri

/-- A declaration comes before all that was in scope. -/
theorem Scope.Extends.cons {larger scope : Scope} (h : larger.Extends scope)
    (pair : List Char × List Char) : Scope.Extends (pair :: larger) (pair :: scope) := by
  intro q uri hlookup
  simp only [Scope.lookup?, KeyedList.get?] at hlookup ⊢
  split at hlookup
  · next heq =>
    rw [if_pos heq]
    exact hlookup
  · next hne =>
    rw [if_neg hne]
    exact h q uri hlookup

/-- So does an attribute that is the same in both. -/
theorem Scope.Extends.behind {larger scope : Scope} (h : larger.Extends scope) (name : Name)
    (value : List Char) : (larger.behind name value).Extends (scope.behind name value) := by
  rw [Scope.behind, Scope.behind]
  split
  · exact h.cons _
  · exact h

theorem Scope.Extends.declaring {larger scope : Scope} (h : larger.Extends scope)
    (attributes : List WrittenAttribute) :
    (larger.declaring attributes).Extends (scope.declaring attributes) := by
  induction attributes generalizing larger scope with
  | nil => exact h
  | cons a attributes ih =>
      rw [Scope.declaring_cons, Scope.declaring_cons]
      exact ih (h.behind a.name a.content)

theorem Scope.Extends.isSome {larger scope : Scope} (h : larger.Extends scope) {q : List Char}
    (hq : (scope.lookup? q).isSome) : (larger.lookup? q).isSome := by
  obtain ⟨uri, huri⟩ := Option.isSome_iff_exists.1 hq
  rw [h q uri huri]
  rfl

/-- Bound prefixes are expanded in the same way. -/
theorem Scope.Extends.expandedNames {larger scope : Scope} (h : larger.Extends scope)
    {names : List Name} (hbound : ∀ name ∈ names, ∀ q ∈ name.qualifier, (scope.lookup? q).isSome) :
    larger.expandedNames names = scope.expandedNames names := by
  rw [Scope.expandedNames, Scope.expandedNames]
  apply List.filterMap_congr
  intro name hname
  cases hq : name.qualifier with
  | none => rfl
  | some q =>
      obtain ⟨uri, huri⟩ := Option.isSome_iff_exists.1 (hbound name hname q hq)
      rw [Option.bind_some, Option.bind_some, huri, h q uri huri]

/-- **A well-formed tag stays so** in a scope that binds more. -/
theorem WrittenTag.WellFormed.mono {larger scope : Scope} (h : larger.Extends scope)
    {tag : WrittenTag} (htag : tag.WellFormed scope) : tag.WellFormed larger where
  names := htag.names
  declarations := htag.declarations
  bound := fun name hname q hq => (h.declaring _).isSome (htag.bound name hname q hq)
  expanded := by
    rw [(h.declaring _).expandedNames htag.bound]
    exact htag.expanded
  nameBound := fun q hq => (h.declaring _).isSome (htag.nameBound q hq)

end IconForge.Xml
