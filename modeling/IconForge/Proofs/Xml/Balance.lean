import Mathlib
import IconForge.Proofs.Xml.Content
import IconForge.Proofs.Xml.Recognition

set_option autoImplicit false

/-! # Balanced content

Content is a sequence of characters, comments, instructions, sections and elements that hold
content again (`Content`). Its text is balanced by construction: every tag of an element has its
closing tag behind the text of what the element holds, and no part is left without its end.

When a reader gets through to the end of a document, the text behind the opening tag of an element
is the text of content up to the closing tag of this very element (`content_of_readContent`). One
token is a `Passage`, which is either a part, a whole leaf, or one tag of an element; and the
content of an element is put together from passages by induction on the length of the text, since
the reader comes back to the same open elements only behind a closing tag. On the way the element
and all those around it stay open, which is what a `Walk` says. -/

namespace IconForge.Xml

/-! ## Content as it is written -/

/-- A part of content that no element is opened or closed by. -/
inductive Part where
  | character (spelled : Spelled)
  | comment (body : List Char)
  /-- A processing instruction; the white space behind its target belongs to its body. -/
  | instruction (target body : List Char)
  /-- A CDATA section. -/
  | section (body : List Char)

namespace Part

def text : Part → List Char
  | character spelled => spelled.text
  | comment body => '<' :: '!' :: '-' :: '-' :: (body ++ ['-', '-', '>'])
  | instruction target body => '<' :: '?' :: (target ++ (body ++ ['?', '>']))
  | .section body =>
    '<' :: '!' :: '[' :: (['C', 'D', 'A', 'T', 'A', '['] ++ (body ++ [']', ']', '>']))

/-- A part ends at its first end mark and nowhere before. -/
def Valid : Part → Prop
  | character spelled => spelled.Valid
  | comment body => Stretch ['-', '-'] (body ++ ['-'])
  | instruction target body =>
    IsSimpleName target ∧ Target.of target = .ordinary ∧ (∀ c ∈ body.head?, isSpace c) ∧
      Stretch ['?', '>'] body
  | .section body => Stretch [']', ']', '>'] body

end Part

/-- Parts and elements one after the other. -/
inductive Content where
  | empty
  | part (item : Part) (rest : Content)
  /-- An element with its content and the white space in its closing tag. -/
  | element (tag : WrittenTag) (content : Content) (trailing : List Char) (rest : Content)
  /-- An element whose tag closes it. -/
  | leaf (tag : WrittenTag) (rest : Content)

/-- A closing tag with a text behind it. -/
def closingText (name trailing rest : List Char) : List Char :=
  '<' :: '/' :: (name ++ (trailing ++ '>' :: rest))

theorem suffix_closingText (name trailing rest : List Char) :
    rest <:+ closingText name trailing rest :=
  ⟨'<' :: '/' :: (name ++ (trailing ++ ['>'])), by simp [closingText]⟩

namespace Content

def text : Content → List Char
  | empty => []
  | part item rest => item.text ++ rest.text
  | element tag content trailing rest =>
    '<' :: (tag.text ++ (tagEnd false ++
      (content.text ++ closingText tag.name.written trailing rest.text)))
  | leaf tag rest => '<' :: (tag.text ++ (tagEnd true ++ rest.text))

/-- The elements of content in the order of their opening tags. -/
def elements : Content → List Element
  | empty => []
  | part _ rest => rest.elements
  | element tag content _ rest => tag.element :: (content.elements ++ rest.elements)
  | leaf tag rest => tag.element :: rest.elements

/-- All parts of content may be written where they stand. The end of a CDATA section must not
stand in plain text. -/
def Valid : Content → Prop
  | empty => True
  | part item rest =>
    item.Valid ∧ ¬ (item = .character (.plain ']') ∧ [']', '>'] <+: rest.text) ∧ rest.Valid
  | element tag content trailing rest =>
    tag.Valid ∧ content.Valid ∧ IsSpaces trailing ∧ rest.Valid
  | leaf tag rest => tag.Valid ∧ rest.Valid

end Content

/-! ## One token -/

/-- What one token does to the open elements and to the elements so far. -/
inductive Passage : State → List Char → State → List Char → Prop where
  | part {state : State} (item : Part) {rest : List Char} (hvalid : item.Valid)
      (hsection : ¬ (item = .character (.plain ']') ∧ [']', '>'] <+: rest)) :
      Passage state (item.text ++ rest) state rest
  | leaf {frames : List Frame} {elements : List Element} {tag : WrittenTag} {rest : List Char}
      (hvalid : tag.Valid) :
      Passage ⟨frames, elements⟩ ('<' :: (tag.text ++ (tagEnd true ++ rest)))
        ⟨frames, tag.element :: elements⟩ rest
  | opening {frames : List Frame} {elements : List Element} {tag : WrittenTag} {scope : Scope}
      {rest : List Char} (hvalid : tag.Valid) :
      Passage ⟨frames, elements⟩ ('<' :: (tag.text ++ (tagEnd false ++ rest)))
        ⟨⟨tag.name.written, scope⟩ :: frames, tag.element :: elements⟩ rest
  | closing {frame : Frame} {outer : List Frame} {elements : List Element}
      {trailing rest : List Char} (htrailing : IsSpaces trailing) :
      Passage ⟨frame :: outer, elements⟩ (closingText frame.name trailing rest)
        ⟨outer, elements⟩ rest

theorem State.enter_eq_ok {state next : State} {tag : Tag} {source : List Char}
    (h : state.enter tag source = .ok next) :
    ∃ scope, tag.check source state.scope = .ok scope ∧
      next = if tag.selfClosing then ⟨state.frames, tag.element :: state.elements⟩
        else ⟨⟨tag.name.written, scope⟩ :: state.frames, tag.element :: state.elements⟩ := by
  rw [enter] at h
  split at h
  · cases h
  · next scope hcheck =>
    refine ⟨scope, hcheck, ?_⟩
    split at h
    · next hclosing =>
      cases h
      rw [if_pos hclosing]
    · next hopen =>
      cases h
      rw [if_neg hopen]

theorem State.leave_eq_ok {state next : State} {name source : List Char}
    (h : state.leave name source = .ok next) :
    ∃ frame, state.frames = frame :: next.frames ∧ frame.name = name ∧
      next.elements = state.elements := by
  rw [leave] at h
  split at h
  · next frame outer hframes =>
    split at h
    · next hname =>
      cases h
      exact ⟨frame, hframes, hname, rfl⟩
    · cases h
  · cases h

theorem Passage.of_enter {state next : State} {tag : Tag} {cs rest source : List Char}
    (hread : readTag cs = .ok (tag, rest)) (henter : state.enter tag source = .ok next) :
    Passage state ('<' :: cs) next rest := by
  obtain ⟨scope, hcheck, rfl⟩ := State.enter_eq_ok henter
  obtain ⟨written, hvalid, rfl, hreads⟩ := written_of_readTag hread (known_of_check hcheck)
  rw [hreads.element, hreads.name]
  cases tag.selfClosing with
  | true => exact .leaf hvalid
  | false => exact .opening hvalid

/-- A reference is a character, and never the bare bracket of a section's end. -/
theorem Passage.of_reference {state : State} {r : Reference} {c : Char} {cs rest : List Char}
    (hread : readReference cs = .ok (r, rest)) (hc : r.character? = .ok c) :
    Passage state ('&' :: cs) state rest := by
  obtain ⟨s, hvalid, hs, htext, -⟩ := spelled_of_readReference hread hc
  rw [htext]
  refine .part (.character s) hvalid ?_
  rintro ⟨heq, -⟩
  rw [Part.character.inj heq] at hs
  cases hs

theorem Passage.of_instruction {state : State} {cs rest : List Char}
    (hread : readInstruction cs = .ok (false, rest)) :
    Passage state ('<' :: '?' :: cs) state rest := by
  obtain ⟨target, body, htarget, hkind, hreserved, hspace, hbody, rfl⟩ :=
    stretch_of_readInstruction hread
  have hordinary : Target.of target = .ordinary := by
    cases hof : Target.of target with
    | ordinary => rfl
    | declaration =>
        rw [hof] at hkind
        cases hkind
    | reserved => exact absurd hof hreserved
  have hpart : Passage state ((Part.instruction target body).text ++ rest) state rest :=
    .part _ ⟨htarget, hordinary, hspace, hbody⟩ (by rintro ⟨⟨⟩, -⟩)
  simpa [Part.text] using hpart

/-- **Every token that is taken is a passage.** -/
theorem Passage.of_take {state next : State} {token : Token} {cs rest source : List Char}
    (htoken : readToken cs = .ok (token, rest)) (htake : state.take source token = .ok next) :
    Passage state cs next rest := by
  cases Token.from_of_readToken htoken with
  | @character c rest hlegal hlt hamp hsection =>
      cases htake
      refine .part (.character (.plain c)) ⟨hlegal, hlt, hamp⟩ ?_
      rintro ⟨heq, hmark⟩
      exact hsection ⟨Spelled.plain.inj (Part.character.inj heq), hmark⟩
  | reference hread =>
      rw [State.take] at htake
      split at htake
      · next hc =>
        cases htake
        exact .of_reference hread hc
      · cases htake
  | opening hread => exact .of_enter hread htake
  | @closing name cs rest hread =>
      obtain ⟨frames, elements⟩ := state
      obtain ⟨outer, elements'⟩ := next
      obtain ⟨frame, rfl, rfl, rfl⟩ := State.leave_eq_ok htake
      obtain ⟨trailing, htrailing, rfl⟩ := spaces_of_readClosingTag hread
      exact .closing htrailing
  | comment hread =>
      cases htake
      obtain ⟨body, hbody, rfl⟩ := stretch_of_readComment hread
      have hpart : Passage state ((Part.comment body).text ++ rest) state rest :=
        .part _ hbody (by rintro ⟨⟨⟩, -⟩)
      simpa [Part.text] using hpart
  | instruction hread =>
      cases htake
      exact .of_instruction hread
  | declaration => cases htake
  | «section» hread =>
      cases htake
      obtain ⟨body, hbody, rfl⟩ := stretch_of_readSection hread
      have hpart : Passage state ((Part.section body).text ++ rest) state rest :=
        .part _ hbody (by rintro ⟨⟨⟩, -⟩)
      simpa [Part.text] using hpart

/-! ## Walks -/

/-- Reading goes on token by token from one state in front of a text to another, and the elements
`base` are open all the way. -/
inductive Walk (base : List Frame) : State → List Char → State → List Char → Prop where
  | done {state : State} {cs : List Char} (hbase : base <:+ state.frames) :
      Walk base state cs state cs
  | step {state next last : State} {cs behind rest : List Char} {token : Token}
      (hbase : base <:+ state.frames) (htoken : readToken cs = .ok (token, behind))
      (htake : state.take cs token = .ok next) (hwalk : Walk base next behind last rest) :
      Walk base state cs last rest

theorem Walk.trans {base : List Frame} {state next last : State} {cs behind rest : List Char}
    (h : Walk base state cs next behind) (hnext : Walk base next behind last rest) :
    Walk base state cs last rest := by
  induction h with
  | done => exact hnext
  | step hbase htoken htake _ ih => exact .step hbase htoken htake (ih hnext)

theorem Walk.mono {base outer : List Frame} {state last : State} {cs rest : List Char}
    (h : Walk base state cs last rest) (houter : outer <:+ base) :
    Walk outer state cs last rest := by
  induction h with
  | done hbase => exact .done (houter.trans hbase)
  | step hbase htoken htake _ ih => exact .step (houter.trans hbase) htoken htake ih

/-! ## The content of an element -/

/-- Read on: in the element that is open, or behind the root when none is. -/
def readOn (state : State) (cs : List Char) : Except Fault (List Element) :=
  if state.frames.isEmpty then readEpilog state.elements.reverse cs else readContent state cs

/-- Reading content begins with a token and reads on behind it. -/
theorem readOn_of_readContent {state : State} {cs : List Char} {result : List Element}
    (h : readContent state cs = .ok result) :
    ∃ token behind next, readToken cs = .ok (token, behind) ∧
      state.take cs token = .ok next ∧ readOn next behind = .ok result := by
  unfold readContent at h
  split at h
  · cases h
  · split at h
    · cases h
    · next token behind htoken =>
      simp only at h
      split at h
      · cases h
      · next next htake => exact ⟨token, behind, next, htoken, htake, h⟩

theorem readContent_eq_readOn {state next : State} {cs behind : List Char} {token : Token}
    (htoken : readToken cs = .ok (token, behind)) (htake : state.take cs token = .ok next) :
    readContent state cs = readOn next behind := by
  unfold readContent
  split
  · cases htoken
  · split
    · next heq =>
      rw [htoken] at heq
      cases heq
    · next heq =>
      rw [htoken] at heq
      obtain ⟨rfl, rfl⟩ := Prod.mk.inj (Except.ok.inj heq)
      simp only [htake]
      rfl

/-- The text `cs` inside the element `frame` is this content with the closing tag of `frame`, and
the elements around stay open up to that tag. -/
structure Encloses (frame : Frame) (outer : List Frame) (elements : List Element)
    (cs : List Char) (content : Content) (trailing rest : List Char) : Prop where
  valid : content.Valid
  spaces : IsSpaces trailing
  text : cs = content.text ++ closingText frame.name trailing rest
  walk : Walk (frame :: outer) ⟨frame :: outer, elements⟩ cs
    ⟨frame :: outer, content.elements.reverse ++ elements⟩ (closingText frame.name trailing rest)

namespace Encloses

variable {frame : Frame} {outer : List Frame} {elements : List Element} {content : Content}
  {token : Token} {cs trailing rest : List Char}

theorem empty (htrailing : IsSpaces trailing) :
    Encloses frame outer elements (closingText frame.name trailing rest) .empty trailing rest :=
  ⟨trivial, htrailing, rfl, .done (List.suffix_refl _)⟩

theorem part {item : Part} (htoken : readToken (item.text ++ cs) = .ok (token, cs))
    (htake : State.take ⟨frame :: outer, elements⟩ (item.text ++ cs) token =
      .ok ⟨frame :: outer, elements⟩)
    (hvalid : item.Valid) (hsection : ¬ (item = .character (.plain ']') ∧ [']', '>'] <+: cs))
    (h : Encloses frame outer elements cs content trailing rest) :
    Encloses frame outer elements (item.text ++ cs) (.part item content) trailing rest where
  valid := by
    refine ⟨hvalid, ?_, h.valid⟩
    rintro ⟨heq, hmark⟩
    exact hsection ⟨heq, h.text ▸ hmark.trans (List.prefix_append _ _)⟩
  spaces := h.spaces
  text := by rw [Content.text, List.append_assoc, ← h.text]
  walk := .step (List.suffix_refl _) htoken htake h.walk

theorem leaf {tag : WrittenTag}
    (htoken : readToken ('<' :: (tag.text ++ (tagEnd true ++ cs))) = .ok (token, cs))
    (htake : State.take ⟨frame :: outer, elements⟩ ('<' :: (tag.text ++ (tagEnd true ++ cs)))
      token = .ok ⟨frame :: outer, tag.element :: elements⟩)
    (hvalid : tag.Valid)
    (h : Encloses frame outer (tag.element :: elements) cs content trailing rest) :
    Encloses frame outer elements ('<' :: (tag.text ++ (tagEnd true ++ cs))) (.leaf tag content)
      trailing rest where
  valid := ⟨hvalid, h.valid⟩
  spaces := h.spaces
  text := by simp only [Content.text, List.cons_append, List.append_assoc, ← h.text]
  walk := by
    have helements : (Content.leaf tag content).elements.reverse ++ elements =
        content.elements.reverse ++ tag.element :: elements := by
      simp [Content.elements]
    rw [helements]
    exact .step (List.suffix_refl _) htoken htake h.walk

/-- The content of an element, its closing tag and what follows it in the element around. -/
theorem element {tag : WrittenTag} {scope : Scope} {follow : Content}
    {trailing' rest' : List Char}
    (htoken : readToken ('<' :: (tag.text ++ (tagEnd false ++ cs))) = .ok (token, cs))
    (htake : State.take ⟨frame :: outer, elements⟩ ('<' :: (tag.text ++ (tagEnd false ++ cs)))
      token = .ok ⟨⟨tag.name.written, scope⟩ :: frame :: outer, tag.element :: elements⟩)
    (hvalid : tag.Valid)
    (h : Encloses ⟨tag.name.written, scope⟩ (frame :: outer) (tag.element :: elements) cs content
      trailing rest)
    (hfollow : Encloses frame outer (content.elements.reverse ++ tag.element :: elements) rest
      follow trailing' rest') :
    Encloses frame outer elements ('<' :: (tag.text ++ (tagEnd false ++ cs)))
      (.element tag content trailing follow) trailing' rest' where
  valid := ⟨hvalid, h.valid, h.spaces, hfollow.valid⟩
  spaces := hfollow.spaces
  text := by
    rw [h.text, hfollow.text]
    simp only [Content.text, closingText, List.cons_append, List.append_assoc]
  walk := by
    have helements : (Content.element tag content trailing follow).elements.reverse ++ elements =
        follow.elements.reverse ++ (content.elements.reverse ++ tag.element :: elements) := by
      simp [Content.elements]
    have hclosing := readToken_closing hvalid.name h.spaces rest
    have hinner := h.walk.mono (List.suffix_cons _ (frame :: outer))
    rw [helements]
    exact .step (List.suffix_refl _) htoken htake (hinner.trans
      (.step (List.suffix_cons _ _) hclosing (State.take_closing ⟨tag.name.written, scope⟩ _ _ _)
        hfollow.walk))

theorem length_rest_lt (h : Encloses frame outer elements cs content trailing rest) :
    rest.length < cs.length := by
  rw [h.text]
  simp only [closingText, List.length_append, List.length_cons]
  omega

end Encloses

/-- **An element that is read through encloses content**, up to its own closing tag. The element
stays open until there, its content has added exactly its elements, and reading goes on behind the
closing tag in the elements around. -/
theorem content_of_readContent {cs : List Char} {frame : Frame} {outer : List Frame}
    {elements result : List Element}
    (h : readContent ⟨frame :: outer, elements⟩ cs = .ok result) :
    ∃ (content : Content) (trailing rest : List Char),
      Encloses frame outer elements cs content trailing rest ∧
      readOn ⟨outer, content.elements.reverse ++ elements⟩ rest = .ok result := by
  induction hlength : cs.length using Nat.strong_induction_on
    generalizing cs frame outer elements with
  | _ n ih =>
  obtain ⟨token, behind, next, htoken, htake, hon⟩ := readOn_of_readContent h
  have hlt : behind.length < n := hlength ▸ length_lt_of_readToken htoken
  cases Passage.of_take htoken htake with
  | part item hvalid hsection =>
      obtain ⟨content, trailing, rest, hencloses, hrest⟩ := ih _ hlt hon rfl
      exact ⟨.part item content, trailing, rest, .part htoken htake hvalid hsection hencloses,
        hrest⟩
  | @leaf _ _ tag _ hvalid =>
      obtain ⟨content, trailing, rest, hencloses, hrest⟩ := ih _ hlt hon rfl
      refine ⟨.leaf tag content, trailing, rest, .leaf htoken htake hvalid hencloses, ?_⟩
      simpa [Content.elements] using hrest
  | @opening _ _ tag scope _ hvalid =>
      -- The content of the element that is opened, then that which follows its closing tag.
      obtain ⟨content, trailing, rest, hencloses, hon'⟩ := ih _ hlt hon rfl
      have hlt' : rest.length < n := hencloses.length_rest_lt.trans hlt
      obtain ⟨follow, trailing', rest', hfollow, hrest⟩ := ih _ hlt' hon' rfl
      refine ⟨.element tag content trailing follow, trailing', rest',
        .element htoken htake hvalid hencloses hfollow, ?_⟩
      simpa [Content.elements] using hrest
  | closing htrailing => exact ⟨.empty, _, behind, .empty htrailing, hon⟩

/-! ## Behind the root -/

/-- The ends of what may stand behind the root: white space, comments and instructions. -/
def miscellaneousEnds : List (List Char) :=
  [[' '], ['\t'], ['\n'], ['\r'], ['-', '>'], ['?', '>']]

theorem mem_miscellaneousEnds_of_isSpace {c : Char} (h : isSpace c) : [c] ∈ miscellaneousEnds :=
  List.contains_iff_mem.1 (of_isSpace (p := fun d => miscellaneousEnds.contains [d]) (by decide) h)

theorem end_of_skipMiscellaneous? {cs rest : List Char}
    (h : skipMiscellaneous? cs = some (.ok rest)) :
    ∃ front, cs = front ++ rest ∧ ∃ mark ∈ miscellaneousEnds, mark <:+ front := by
  unfold skipMiscellaneous? at h
  split at h
  · split at h
    · cases h
    · cases h
    · next hread =>
      cases h
      obtain ⟨target, body, -, -, -, -, -, rfl⟩ := stretch_of_readInstruction hread
      refine ⟨'<' :: '?' :: (target ++ (body ++ ['?', '>'])), by simp, ['?', '>'], by decide, ?_⟩
      exact ⟨'<' :: '?' :: (target ++ body), by simp⟩
  · split at h
    · cases h
    · next hread =>
      cases h
      obtain ⟨body, -, rfl⟩ := stretch_of_readComment hread
      refine ⟨'<' :: '!' :: '-' :: '-' :: (body ++ ['-', '-', '>']), by simp, ['-', '>'],
        by decide, ?_⟩
      exact ⟨'<' :: '!' :: '-' :: '-' :: (body ++ ['-']), by simp⟩
  · cases h
  · cases h

/-- **Nothing stands behind the root**, or it has one of these ends. -/
theorem end_of_epilogFault? {fuel : Nat} {cs : List Char} (hfuel : cs.length < fuel)
    (h : epilogFault? fuel cs = none) : cs = [] ∨ ∃ mark ∈ miscellaneousEnds, mark <:+ cs := by
  induction fuel generalizing cs with
  | zero => exact absurd hfuel (Nat.not_lt_zero _)
  | succ fuel ih =>
      -- What is skipped first has such an end, and so has what follows, if anything does.
      have hskip : ∀ {front rest mark}, cs = front ++ rest → mark ∈ miscellaneousEnds →
          mark <:+ front → epilogFault? fuel rest = none →
          ∃ mark ∈ miscellaneousEnds, mark <:+ cs := by
        intro front rest mark hcs hmark hfront hrest
        have hshort : rest.length < fuel := by
          have hne : ∀ mark ∈ miscellaneousEnds, 0 < mark.length := by decide
          have hpos := hne mark hmark
          have hle := hfront.length_le
          rw [hcs, List.length_append] at hfuel
          omega
        rcases ih hshort hrest with rfl | ⟨other, hother, hsuffix⟩
        · rw [List.append_nil] at hcs
          exact ⟨mark, hmark, hcs ▸ hfront⟩
        · exact ⟨other, hother, hcs ▸ hsuffix.trans (List.suffix_append front rest)⟩
      rw [epilogFault?.eq_def] at h
      simp only at h
      split at h
      · exact Or.inl rfl
      · next c rest =>
        refine Or.inr ?_
        split at h
        · next hc =>
          exact hskip (List.singleton_append.symm) (mem_miscellaneousEnds_of_isSpace hc)
            (List.suffix_refl _) h
        · split at h
          · next rest' hrest' =>
            obtain ⟨front, hcs, mark, hmark, hfront⟩ := end_of_skipMiscellaneous? hrest'
            exact hskip hcs hmark hfront h
          · cases h
          · split at h
            · cases h
            · cases h

end IconForge.Xml
