import Mathlib
import IconForge.Graphic.Root
import IconForge.Proofs.Text.Characters

set_option autoImplicit false

/-! # Which root a text has

The search for the closing tag of a root is described without the search: a text *holds* a closing
tag when one stands somewhere in it, and the content of a root is what stands in front of the first
one. A closing tag has a `<` at its front only, so no closing tag begins in a content and ends
behind it (`isCloser_of_append`). Hence a root that is written down is the root that is found
(`root?_rendered`), and the content of a root that was found can be written down again
(`not_holdsClosingTag_of_root?`). -/

namespace IconForge.Graphic

open IconForge.Text

/-! ## Closing tags -/

/-- A closing root tag: its name in any case, blanks and the closing bracket. -/
def IsClosingTag (tag : List Char) : Prop :=
  ∃ name blanks, tag = name ++ blanks ++ ['>'] ∧ name.map foldCase = ['<', '/', 's', 'v', 'g'] ∧
    ∀ c ∈ blanks, isBlank c

/-- A closing root tag stands somewhere in a text. -/
def HoldsClosingTag (cs : List Char) : Prop :=
  ∃ before tag behind, IsClosingTag tag ∧ cs = before ++ tag ++ behind

theorem isBlank_greater : isBlank '>' = false := by
  decide

theorem isCloser_iff {cs : List Char} :
    isCloser cs ↔ ∃ tag behind, IsClosingTag tag ∧ cs = tag ++ behind := by
  constructor
  · intro h
    rw [isCloser] at h
    split at h
    · next rest hdrop =>
      obtain ⟨name, rfl, hname⟩ := dropFolded?_eq_some_iff.1 hdrop
      rw [decide_eq_true_eq] at h
      obtain ⟨behind, hbehind⟩ := List.head?_eq_some_iff.1 h
      refine ⟨name ++ rest.takeWhile isBlank ++ ['>'], behind, ⟨name, _, rfl, hname, ?_⟩, ?_⟩
      · intro c hc
        exact List.mem_takeWhile_imp hc
      · rw [List.append_assoc, List.append_assoc, List.singleton_append, ← hbehind,
          List.takeWhile_append_dropWhile]
    · cases h
  · rintro ⟨tag, behind, ⟨name, blanks, rfl, hname, hblanks⟩, rfl⟩
    have hdrop : dropFolded? ['<', '/', 's', 'v', 'g'] (name ++ blanks ++ ['>'] ++ behind) =
        some (blanks ++ '>' :: behind) := by
      rw [dropFolded?_eq_some_iff]
      exact ⟨name, by simp, hname⟩
    rw [isCloser, hdrop]
    simp only
    rw [(takeWhile_dropWhile_cons hblanks isBlank_greater).2]
    rfl

/-- A closing tag has an opening bracket at its front and nowhere else. -/
theorem IsClosingTag.exists_tail {tag : List Char} (h : IsClosingTag tag) :
    ∃ tail, tag = '<' :: tail ∧ '<' ∉ tail := by
  obtain ⟨name, blanks, rfl, hname, hblanks⟩ := h
  obtain ⟨first, letters, rfl, hfirst, hletters⟩ := List.map_eq_cons_iff.1 hname
  refine ⟨letters ++ blanks ++ ['>'], ?_, ?_⟩
  · rw [eq_of_foldCase_eq hfirst (by decide)]
    rfl
  · rw [List.mem_append, List.mem_append]
    rintro ((hmem | hmem) | hmem)
    · have hfolded : foldCase '<' ∈ letters.map foldCase := List.mem_map_of_mem hmem
      rw [hletters] at hfolded
      exact absurd hfolded (by decide)
    · exact absurd (hblanks '<' hmem) (by decide)
    · exact absurd hmem (by decide)

theorem isCloser_append {cs : List Char} (h : isCloser cs) (rest : List Char) :
    isCloser (cs ++ rest) := by
  obtain ⟨tag, behind, htag, rfl⟩ := isCloser_iff.1 h
  exact isCloser_iff.2 ⟨tag, behind ++ rest, htag, List.append_assoc _ _ _⟩

/-- A closing tag that begins in front of an opening bracket ends in front of it. -/
theorem isCloser_of_append {cs rest : List Char} (hne : cs ≠ [])
    (h : isCloser (cs ++ '<' :: rest)) : isCloser cs := by
  obtain ⟨tag, behind, htag, heq⟩ := isCloser_iff.1 h
  obtain ⟨tail, rfl, hno⟩ := htag.exists_tail
  obtain ⟨first, cs, rfl⟩ := List.exists_cons_of_ne_nil hne
  -- The bracket is not at the front of the tag, and there is none behind its front.
  rw [List.cons_append, List.cons_append, List.cons.injEq] at heq
  obtain ⟨more, rfl, -⟩ := exists_append_of_notMem heq.2 hno
  exact isCloser_iff.2 ⟨'<' :: tail, more, htag, by rw [heq.1, List.cons_append]⟩

theorem holdsClosingTag_cons {c : Char} {rest : List Char} :
    HoldsClosingTag (c :: rest) ↔ isCloser (c :: rest) ∨ HoldsClosingTag rest := by
  constructor
  · rintro ⟨before, tag, behind, htag, heq⟩
    cases before with
    | nil => exact Or.inl (isCloser_iff.2 ⟨tag, behind, htag, heq⟩)
    | cons d before =>
        rw [List.cons_append, List.cons_append, List.cons.injEq] at heq
        exact Or.inr ⟨before, tag, behind, htag, heq.2⟩
  · rintro (h | ⟨before, tag, behind, htag, rfl⟩)
    · obtain ⟨tag, behind, htag, heq⟩ := isCloser_iff.1 h
      exact ⟨[], tag, behind, htag, heq⟩
    · exact ⟨c :: before, tag, behind, htag, rfl⟩

theorem not_holdsClosingTag_nil : ¬ HoldsClosingTag [] := by
  rintro ⟨before, tag, behind, htag, heq⟩
  obtain ⟨tail, rfl, -⟩ := htag.exists_tail
  have hmem : '<' ∈ before ++ '<' :: tail ++ behind := by simp
  rw [← heq] at hmem
  cases hmem

theorem HoldsClosingTag.of_isInfix {cs text : List Char} (h : HoldsClosingTag cs)
    (hpart : cs <:+: text) : HoldsClosingTag text := by
  obtain ⟨before, tag, behind, htag, rfl⟩ := h
  obtain ⟨left, right, rfl⟩ := hpart
  exact ⟨left ++ before, tag, behind ++ right, htag, by simp⟩

theorem eq_lt_of_isCloser {c : Char} {rest : List Char} (h : isCloser (c :: rest)) : c = '<' := by
  obtain ⟨tag, behind, htag, heq⟩ := isCloser_iff.1 h
  obtain ⟨tail, rfl, -⟩ := htag.exists_tail
  rw [List.cons_append, List.cons.injEq] at heq
  exact heq.1

/-- Without an opening bracket in front, a closing tag stands behind. -/
theorem HoldsClosingTag.of_append {front cs : List Char} (hfront : '<' ∉ front)
    (h : HoldsClosingTag (front ++ cs)) : HoldsClosingTag cs := by
  induction front with
  | nil => exact h
  | cons c front ih =>
      rw [List.mem_cons, not_or] at hfront
      rw [List.cons_append, holdsClosingTag_cons] at h
      rcases h with hcloser | hholds
      · exact absurd (eq_lt_of_isCloser hcloser).symm hfront.1
      · exact ih hfront.2 hholds

/-! ## The first closing tag -/

theorem exists_content_of_findCloser? {cs closer : List Char} (h : findCloser? cs = some closer) :
    ∃ content, cs = content ++ closer ∧ ¬ HoldsClosingTag content := by
  induction cs with
  | nil => cases h
  | cons c rest ih =>
      rw [findCloser?] at h
      split at h
      · cases h
        exact ⟨[], rfl, not_holdsClosingTag_nil⟩
      · next hno =>
        obtain ⟨content, rfl, hcontent⟩ := ih h
        refine ⟨c :: content, rfl, ?_⟩
        rw [holdsClosingTag_cons]
        rintro (hcloser | hholds)
        · exact hno (isCloser_append hcloser closer)
        · exact hcontent hholds

theorem findCloser?_eq_none_iff {cs : List Char} :
    findCloser? cs = none ↔ ¬ HoldsClosingTag cs := by
  induction cs with
  | nil => exact iff_of_true rfl not_holdsClosingTag_nil
  | cons c rest ih =>
      rw [findCloser?, holdsClosingTag_cons, not_or, ← ih]
      split
      · next h => exact iff_of_false (by simp) (fun hno => hno.1 h)
      · next h => exact ⟨fun hnone => ⟨h, hnone⟩, fun hno => hno.2⟩

instance (cs : List Char) : Decidable (HoldsClosingTag cs) :=
  decidable_of_iff (findCloser? cs ≠ none) (by rw [ne_eq, findCloser?_eq_none_iff, not_not])

/-- Behind a text that holds no closing tag, the first one is found. -/
theorem findCloser?_append {content closer : List Char} (hcontent : ¬ HoldsClosingTag content)
    (hcloser : isCloser closer) : findCloser? (content ++ closer) = some closer := by
  obtain ⟨tag, behind, htag, rfl⟩ := isCloser_iff.1 hcloser
  obtain ⟨tail, rfl, -⟩ := htag.exists_tail
  induction content with
  | nil => rw [List.cons_append] at hcloser ⊢; rw [List.nil_append, findCloser?, if_pos hcloser]
  | cons c content ih =>
      rw [holdsClosingTag_cons, not_or] at hcontent
      rw [List.cons_append, findCloser?, if_neg, ih hcontent.2]
      intro h
      exact hcontent.1 (isCloser_of_append (List.cons_ne_nil c content) h)

/-! ## The root -/

/-- What may stand behind the name of an opening root tag. -/
def endsRootName (c : Char) : Bool :=
  isBlank c || c = '/' || c = '>'

/-- **A root that is written down is the root that is found**: the text between the brackets of its
opening tag and the text up to its closing tag. -/
theorem root?_rendered {attributes content closer : List Char}
    (hstart : ∀ c ∈ attributes.head?, endsRootName c) (hattributes : '>' ∉ attributes)
    (hcontent : ¬ HoldsClosingTag content) (hcloser : isCloser closer) :
    root? (['<', 's', 'v', 'g'] ++ attributes ++ '>' :: (content ++ closer)) =
      some ⟨attributes, content⟩ := by
  have hopener : findOpener? (['<', 's', 'v', 'g'] ++ attributes ++ '>' :: (content ++ closer)) =
      some (attributes ++ '>' :: (content ++ closer)) := by
    have hdrop : dropFolded? ['<', 's', 'v', 'g']
        (['<', 's', 'v', 'g'] ++ attributes ++ '>' :: (content ++ closer)) =
          some (attributes ++ '>' :: (content ++ closer)) := by
      rw [dropFolded?_eq_some_iff]
      exact ⟨['<', 's', 'v', 'g'], List.append_assoc _ _ _, by decide⟩
    have hopens : opener? (['<', 's', 'v', 'g'] ++ attributes ++ '>' :: (content ++ closer)) =
        some (attributes ++ '>' :: (content ++ closer)) := by
      rw [opener?, hdrop]
      cases attributes with
      | nil => rfl
      | cons c attributes => exact if_pos (hstart c rfl)
    rw [List.append_assoc, List.cons_append] at hopens ⊢
    rw [findOpener?, hopens]
  -- The attributes end at the first closing bracket.
  have hall : ∀ c ∈ attributes, decide (c ≠ '>') = true := by
    intro c hc
    rw [decide_eq_true_eq]
    rintro rfl
    exact hattributes hc
  obtain ⟨htake, hdrop⟩ :
      (attributes ++ '>' :: (content ++ closer)).takeWhile (fun c => decide (c ≠ '>')) =
        attributes ∧
      (attributes ++ '>' :: (content ++ closer)).dropWhile (fun c => decide (c ≠ '>')) =
        '>' :: (content ++ closer) :=
    takeWhile_dropWhile_cons hall (by simp)
  rw [root?, hopener]
  simp only [htake, hdrop]
  rw [findCloser?_append hcontent hcloser, Option.map_some, List.length_append,
    Nat.add_sub_cancel, List.take_left]

theorem not_holdsClosingTag_of_root? {cs : List Char} {root : Root} (h : root? cs = some root) :
    ¬ HoldsClosingTag root.content := by
  rw [root?] at h
  split at h
  · cases h
  · split at h
    · cases h
    · next body hbody =>
      obtain ⟨closer, hcloser, rfl⟩ := Option.map_eq_some_iff.1 h
      obtain ⟨content, rfl, hcontent⟩ := exists_content_of_findCloser? hcloser
      have htake : (content ++ closer).take ((content ++ closer).length - closer.length) =
          content := by
        rw [List.length_append, Nat.add_sub_cancel, List.take_left]
      simp only [htake]
      exact hcontent

end IconForge.Graphic
