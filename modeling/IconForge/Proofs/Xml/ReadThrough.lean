import Mathlib
import IconForge.Proofs.Xml.Balance
import IconForge.Proofs.Xml.Trimming

set_option autoImplicit false

/-! # Content is read through

Content that is valid and well-formed in the scope of the open element is read through: the reader
ends in front of the tag behind it with the same elements open, and has added the elements of the
content and nothing else (`readContent_content`). Comments, instructions and sections add nothing,
whatever stands in them, since each is read up to its own end mark: the mark occurs nowhere before
(`readToken_part`). So a root with such content is a document that reads as the root and these
elements (`readDocument_root`).

A forest is content without comments, instructions and sections (`Forest.content`). -/

namespace IconForge.Xml

/-! ## Comments, instructions and sections -/

theorem Stretch.tail {mark body : List Char} {c : Char} (h : Stretch mark (c :: body)) :
    Stretch mark body where
  legal d hd := h.legal d (List.mem_cons_of_mem c hd)
  free hmark := h.free (hmark.trans (List.suffix_cons c body).isInfix)

theorem Stretch.not_prefix {mark body : List Char} (h : Stretch mark body) : ¬ mark <+: body :=
  fun hmark => h.free hmark.isInfix

/-- A comment is read up to its end: before it no two hyphens stand together. -/
theorem readComment_append {body : List Char} (h : Stretch ['-', '-'] (body ++ ['-']))
    (rest : List Char) : readComment (body ++ '-' :: '-' :: '>' :: rest) = .ok rest := by
  induction body with
  | nil => rfl
  | cons c body ih =>
      have hlegal : isLegal c := h.legal c (by simp)
      -- the hyphen behind the text counts, too: the text must not end with one
      have hno : ∀ more, c = '-' → body ++ '-' :: '-' :: '>' :: rest ≠ '-' :: more := by
        intro more hc heq
        have hnext : ∃ tail, body ++ ['-'] = '-' :: tail := by
          cases body with
          | nil => exact ⟨[], rfl⟩
          | cons d body => exact ⟨body ++ ['-'], by rw [(List.cons.inj heq).1]; rfl⟩
        obtain ⟨tail, htail⟩ := hnext
        exact h.not_prefix ⟨tail, by rw [hc]; exact congrArg ('-' :: ·) htail.symm⟩
      rw [List.cons_append, readComment]
      · rw [if_pos hlegal]
        exact ih h.tail
      · exact fun more => hno _
      · exact hno

theorem readInstructionText_append {body : List Char} (h : Stretch ['?', '>'] body)
    (rest : List Char) : readInstructionText (body ++ '?' :: '>' :: rest) = .ok rest := by
  induction body with
  | nil => rfl
  | cons c body ih =>
      have hlegal : isLegal c := h.legal c (by simp)
      rw [List.cons_append, readInstructionText]
      · rw [if_pos hlegal]
        exact ih h.tail
      · intro more hc heq
        cases body with
        | nil => exact absurd (List.cons.inj heq).1 (by decide)
        | cons d body =>
            refine h.not_prefix ⟨body, ?_⟩
            rw [hc, (List.cons.inj heq).1]
            rfl

/-- A section is read up to its end. That its text may end with brackets, too, takes a look at up
to two characters behind it. -/
theorem readSection_append {body : List Char} (h : Stretch [']', ']', '>'] body)
    (rest : List Char) : readSection (body ++ ']' :: ']' :: '>' :: rest) = .ok rest := by
  induction body with
  | nil => rfl
  | cons c body ih =>
      have hlegal : isLegal c := h.legal c (by simp)
      rw [List.cons_append, readSection]
      · rw [if_pos hlegal]
        exact ih h.tail
      · intro more hc heq
        match body with
        | [] => exact absurd (List.cons.inj (List.cons.inj heq).2).1 (by decide)
        | [d] => exact absurd (List.cons.inj (List.cons.inj heq).2).1 (by decide)
        | d :: e :: body =>
            refine h.not_prefix ⟨body, ?_⟩
            rw [hc, (List.cons.inj heq).1, (List.cons.inj (List.cons.inj heq).2).1]
            rfl

theorem readWord_append (word rest : List Char) : readWord word (word ++ rest) = .ok rest := by
  induction word with
  | nil => rfl
  | cons c word ih => rw [List.cons_append, readWord, if_pos rfl, ih]

theorem readInstruction_append {target body : List Char} (htarget : IsSimpleName target)
    (hkind : Target.of target = .ordinary) (hspace : ∀ c ∈ body.head?, isSpace c)
    (hbody : Stretch ['?', '>'] body) (rest : List Char) :
    readInstruction (target ++ (body ++ '?' :: '>' :: rest)) = .ok (false, rest) := by
  cases body with
  | nil =>
      have hname : readSimpleName (target ++ ([] ++ '?' :: '>' :: rest)) =
          .ok (target, '?' :: '>' :: rest) := readSimpleName_append htarget (by decide)
      rw [readInstruction, hname]
      simp [hkind]
  | cons c body =>
      have hc : isSpace c := hspace c rfl
      have hname : readSimpleName (target ++ (c :: body ++ '?' :: '>' :: rest)) =
          .ok (target, c :: (body ++ '?' :: '>' :: rest)) :=
        readSimpleName_append htarget (mem_nameStops_of_isSpace hc)
      have hmark : c ≠ '?' := by
        rintro rfl
        exact absurd hc (by decide)
      rw [readInstruction, hname]
      simp only [hc, hkind, hmark, Bool.true_or, if_true, if_false,
        readInstructionText_append hbody.tail rest]
      rfl

/-- **A part is read as one token that changes nothing.** -/
theorem readToken_part {item : Part} (h : item.Valid) {rest : List Char}
    (hsection : ¬ (item = .character (.plain ']') ∧ [']', '>'] <+: rest)) :
    ∃ c cs token, item.text ++ rest = c :: cs ∧ readToken (c :: cs) = .ok (token, rest) ∧
      ∀ (state : State) (source : List Char), state.take source token = .ok state := by
  cases item with
  | character s =>
      refine readToken_spelled h ?_
      rintro ⟨rfl, hmark⟩
      exact hsection ⟨rfl, hmark⟩
  | comment body =>
      refine ⟨'<', '!' :: '-' :: '-' :: (body ++ '-' :: '-' :: '>' :: rest), .comment,
        by simp [Part.text], ?_, fun _ _ => rfl⟩
      rw [readToken, readMarkup, readComment_append h]
      rfl
  | instruction target body =>
      obtain ⟨htarget, hkind, hspace, hbody⟩ := h
      refine ⟨'<', '?' :: (target ++ (body ++ '?' :: '>' :: rest)), .instruction,
        by simp [Part.text], ?_, fun _ _ => rfl⟩
      rw [readToken, readMarkup, readInstruction_append htarget hkind hspace hbody]
      rfl
  | «section» body =>
      refine ⟨'<', '!' :: '[' :: (['C', 'D', 'A', 'T', 'A', '['] ++
        (body ++ ']' :: ']' :: '>' :: rest)), .section, by simp [Part.text], ?_, fun _ _ => rfl⟩
      rw [readToken, readMarkup, readWord_append]
      simp only
      rw [readSection_append h]
      rfl

/-! ## Content in a scope -/

namespace Content

/-- All tags of content keep to the rules for namespaces in the scopes where they stand. -/
def WellFormed (scope : Scope) : Content → Prop
  | empty => True
  | part _ rest => rest.WellFormed scope
  | element tag content _ rest =>
    tag.WellFormed scope ∧ content.WellFormed (scope.declaring tag.attributes) ∧
      rest.WellFormed scope
  | leaf tag rest => tag.WellFormed scope ∧ rest.WellFormed scope

/-- What is well-formed in a scope is well-formed in every scope that binds more prefixes. -/
theorem WellFormed.mono {larger scope : Scope} (h : larger.Extends scope) {content : Content}
    (hcontent : content.WellFormed scope) : content.WellFormed larger := by
  induction content generalizing larger scope with
  | empty => trivial
  | part item rest ih => exact ih h hcontent
  | element tag content trailing rest ihContent ihRest =>
      exact ⟨hcontent.1.mono h, ihContent (h.declaring _) hcontent.2.1, ihRest h hcontent.2.2⟩
  | leaf tag rest ih => exact ⟨hcontent.1.mono h, ih h hcontent.2⟩

end Content

/-- The bracket of a tag behind a text is no part of the end of a section. -/
theorem section_prefix {cs rest : List Char} (h : [']', '>'] <+: cs ++ '<' :: rest) :
    [']', '>'] <+: cs := by
  obtain ⟨tail, htail⟩ := h
  rcases cs with _ | ⟨c, _ | ⟨d, more⟩⟩
  · cases htail
  · simp at htail
  · simp only [List.cons_append, List.nil_append, List.cons.injEq] at htail
    exact ⟨more, by rw [htail.1, htail.2.1]; rfl⟩

/-- **Content is read through**: inside of an element whose scope it is well-formed in, with a tag
behind it, it adds its elements and nothing else. -/
theorem readContent_content {content : Content} {frame : Frame} {outer : List Frame}
    {elements : List Element} (hvalid : content.Valid) (hwell : content.WellFormed frame.scope)
    (rest : List Char) :
    readContent ⟨frame :: outer, elements⟩ (content.text ++ '<' :: rest) =
      readContent ⟨frame :: outer, content.elements.reverse ++ elements⟩ ('<' :: rest) := by
  induction content generalizing frame outer elements rest with
  | empty => rfl
  | part item content ih =>
      obtain ⟨hitem, hsection, hcontent⟩ := hvalid
      have hsection' : ¬ (item = .character (.plain ']') ∧
          [']', '>'] <+: content.text ++ '<' :: rest) :=
        fun h => hsection ⟨h.1, section_prefix h.2⟩
      obtain ⟨c, cs, token, htext, htoken, htake⟩ := readToken_part hitem hsection'
      rw [Content.text, List.append_assoc, htext,
        readContent_step htoken (htake _ _) (List.cons_ne_nil _ _)]
      exact ih hcontent hwell rest
  | element tag content trailing follow ihContent ihFollow =>
      obtain ⟨htag, hcontent, htrailing, hfollow⟩ := hvalid
      obtain ⟨hwellTag, hwellContent, hwellFollow⟩ := hwell
      have hscope : (State.mk (frame :: outer) elements).scope = frame.scope := rfl
      obtain ⟨opened, hopening, hreads⟩ := readToken_opening htag false (content.text ++
        '<' :: '/' :: (tag.name.written ++ (trailing ++ '>' :: (follow.text ++ '<' :: rest))))
      have hclosing := readToken_closing htag.name htrailing (follow.text ++ '<' :: rest)
      have htext : (Content.element tag content trailing follow).text ++ '<' :: rest =
          '<' :: (tag.text ++ (tagEnd false ++ (content.text ++ '<' :: '/' ::
            (tag.name.written ++ (trailing ++ '>' :: (follow.text ++ '<' :: rest)))))) := by
        simp [Content.text, closingText]
      -- Open the element, read its content, close it and read on.
      rw [htext, readContent_step hopening (State.enter_open hscope hreads hwellTag _)
          (List.cons_ne_nil _ _),
        ihContent hcontent hwellContent,
        readContent_step hclosing (State.take_closing ⟨tag.name.written, _⟩ _ _ _)
          (List.cons_ne_nil _ _),
        ihFollow hfollow hwellFollow]
      simp [Content.elements]
  | leaf tag content ih =>
      obtain ⟨htag, hcontent⟩ := hvalid
      obtain ⟨hwellTag, hwellContent⟩ := hwell
      have hscope : (State.mk (frame :: outer) elements).scope = frame.scope := rfl
      obtain ⟨opened, hopening, hreads⟩ := readToken_opening htag true (content.text ++ '<' :: rest)
      have htext : (Content.leaf tag content).text ++ '<' :: rest =
          '<' :: (tag.text ++ (tagEnd true ++ (content.text ++ '<' :: rest))) := by
        simp [Content.text]
      rw [htext, readContent_step hopening (State.enter_leaf hscope hreads hwellTag _)
          (List.cons_ne_nil _ _),
        ih hcontent hwellContent]
      simp [Content.elements]

/-- **A root with content is a document**, which reads as the root and the elements in it. -/
theorem readDocument_root {root : WrittenTag} {content : Content} (hroot : root.Valid)
    (hwellRoot : root.WellFormed .initial) (hvalid : content.Valid)
    (hwell : content.WellFormed (Scope.initial.declaring root.attributes)) :
    readDocument ('<' :: (root.text ++ (tagEnd false ++ (content.text ++
        closingText root.name.written [] [])))) =
      .ok (root.element :: content.elements) := by
  have hspaces : IsSpaces [] := fun c hc => absurd hc List.not_mem_nil
  have hclosing := readToken_closing hroot.name hspaces []
  rw [readDocument_opening hroot hwellRoot, closingText, readContent_content hvalid hwell,
    readContent]
  split
  · next heq =>
    rw [hclosing] at heq
    cases heq
  · next heq =>
    rw [hclosing] at heq
    cases heq
    simp only [State.take, State.leave, if_true, List.isEmpty_nil]
    rw [readEpilog]
    simp [epilogFault?]

/-! ## Forests -/

namespace Forest

/-- A forest as content. -/
def content : Forest → Content
  | empty => .empty
  | character spelled rest => .part (.character spelled) rest.content
  | element tag inner trailing rest => .element tag inner.content trailing rest.content
  | leaf tag rest => .leaf tag rest.content

theorem text_content (forest : Forest) : forest.content.text = forest.text := by
  induction forest with
  | empty => rfl
  | character spelled rest ih => rw [content, Content.text, ih, text, Part.text]
  | element tag inner trailing rest ihInner ihRest =>
      simp [content, Content.text, text, closingText, tagEnd, ihInner, ihRest]
  | leaf tag rest ih => simp [content, Content.text, text, tagEnd, ih]

theorem elements_content (forest : Forest) : forest.content.elements = forest.elements := by
  induction forest with
  | empty => rfl
  | character spelled rest ih => exact ih
  | element tag inner trailing rest ihInner ihRest =>
      rw [content, Content.elements, elements, ihInner, ihRest]
  | leaf tag rest ih => rw [content, Content.elements, elements, ih]

theorem Valid.content {forest : Forest} (h : forest.Valid) : forest.content.Valid := by
  induction forest with
  | empty => trivial
  | character spelled rest ih =>
      obtain ⟨hspelled, hsection, hrest⟩ := h
      refine ⟨hspelled, ?_, ih hrest⟩
      rw [text_content]
      exact fun hmark => hsection ⟨Part.character.inj hmark.1, hmark.2⟩
  | element tag inner trailing rest ihInner ihRest =>
      exact ⟨h.1, ihInner h.2.1, h.2.2.1, ihRest h.2.2.2⟩
  | leaf tag rest ih => exact ⟨h.1, ih h.2⟩

theorem WellFormed.content {scope : Scope} {forest : Forest} (h : forest.WellFormed scope) :
    forest.content.WellFormed scope := by
  induction forest generalizing scope with
  | empty => trivial
  | character spelled rest ih => exact ih h
  | element tag inner trailing rest ihInner ihRest =>
      exact ⟨h.1, ihInner h.2.1, ihRest h.2.2⟩
  | leaf tag rest ih => exact ⟨h.1, ih h.2⟩

end Forest

end IconForge.Xml
