import Mathlib
import IconForge.Proofs.Markup.CleanIcon
import IconForge.Proofs.Xml.Balance

set_option autoImplicit false

/-! # What passes the check may be wrapped

Markup is pasted between two tags. It could try to close the wrapper early and open it again, or to
swallow the closing tag in a comment, a section, an instruction or a value. The check lets none of
this pass: markup without an offence is balanced on its own, and its wrapper is closed by the tag
that was put behind it (`enclosed_of_no_offence`).

The wrapped text has three parts, and the reader is followed from one to the next. The opening tag
of the wrapper ends where it was written to end, since its values hold neither quotes nor brackets
(`end_of_readTag_wrapperTag`). The wrapper encloses balanced content up to some closing tag
(`content_of_readContent`). What stands behind that tag would have to end like a comment, an
instruction or white space, but the whole text ends like a tag; so nothing stands there, and the
closing tag is the last one (`eq_nil_of_readEpilog`). -/

namespace IconForge

/-! ## Declarations of a root -/

namespace Markup

/-- A prefix and a namespace name as they are found on a root. -/
structure Extracted (pair : String × String) : Prop where
  name : ∀ c ∈ pair.1.toList, Graphic.isPrefixCharacter c
  uri : ∀ c ∈ pair.2.toList, Graphic.isQuote c = false ∧ c ≠ '>'

/-- **All declarations of a graphic are found so.** -/
theorem extracted_of_extract {defaultSize : Json} {text : String} {graphic : Graphic}
    (h : Graphic.extract defaultSize text = .ok graphic) :
    ∀ pair ∈ graphic.namespaces, Extracted pair := by
  obtain ⟨root, hroot, -, hgraphic⟩ := Graphic.root_of_extract h
  have hnamespaces : graphic.namespaces = Graphic.declarations root.attributes := by
    rw [hgraphic]
    rfl
  have hbracket : ∀ c ∈ root.attributes, c ≠ '>' := by
    rw [Graphic.root?] at hroot
    split at hroot
    · cases hroot
    · split at hroot
      · cases hroot
      · obtain ⟨closer, -, rfl⟩ := Option.map_eq_some_iff.1 hroot
        intro c hc
        simpa using List.mem_takeWhile_imp hc
  intro pair hpair
  rw [hnamespaces] at hpair
  obtain ⟨⟨name, value⟩, hmem, rfl⟩ := List.mem_map.1 hpair
  obtain ⟨hname, hvalue⟩ := Graphic.parts_of_mem_findDeclarations hmem
  constructor
  · simpa only [String.toList_ofList] using hname
  · intro c hc
    rw [String.toList_ofList] at hc
    exact ⟨(hvalue c hc).1, hbracket c (hvalue c hc).2⟩

end Markup

/-! ## The end of an opening tag -/

namespace Xml

/-- The rest of a text behind the bracket that ends the tag it begins in. A bracket between quotes
ends nothing; the quote that is open, if one is, is handed on. -/
def behindTag (quote? : Option Char) : List Char → List Char
  | [] => []
  | c :: rest =>
    match quote? with
    | some quote => behindTag (if c = quote then none else some quote) rest
    | none =>
      if c = '>' then rest else behindTag (if c = '"' ∨ c = '\'' then some c else none) rest

/-- The signs of a tag that say where it ends. -/
def tagSigns : List Char :=
  ['>', '"', '\'']

theorem notMem_tagSigns_of_all {cs : List Char} (h : cs.all (!tagSigns.contains ·)) :
    ∀ c ∈ cs, c ∉ tagSigns :=
  fun _ hc hsign => notMem_of_all h (List.contains_iff_mem.2 hsign) hc

theorem behindTag_plain {cs : List Char} (h : ∀ c ∈ cs, c ∉ tagSigns) (rest : List Char) :
    behindTag none (cs ++ rest) = behindTag none rest := by
  induction cs with
  | nil => rfl
  | cons c cs ih =>
      have hc := h c List.mem_cons_self
      simp only [tagSigns, List.mem_cons, List.not_mem_nil, or_false, not_or] at hc
      have hquotes : ¬ (c = '"' ∨ c = '\'') := not_or.2 hc.2
      rw [List.cons_append, behindTag, if_neg hc.1, if_neg hquotes]
      exact ih fun d hd => h d (List.mem_cons_of_mem c hd)

theorem behindTag_value {quote : Char} {value : List Char} (h : quote ∉ value)
    (rest : List Char) :
    behindTag (some quote) (value ++ quote :: rest) = behindTag none rest := by
  induction value with
  | nil => rw [List.nil_append, behindTag, if_pos rfl]
  | cons c value ih =>
      rw [List.mem_cons, not_or] at h
      rw [List.cons_append, behindTag, if_neg (Ne.symm h.1)]
      exact ih h.2

/-- An attribute in whose text only its quotes are signs of the end of a tag, and only at the ends
of its value, but for what stands between them. -/
structure WrittenAttribute.Contained (a : WrittenAttribute) : Prop where
  gap : ∀ c ∈ a.gap, c ∉ tagSigns
  name : ∀ c ∈ a.name.written, c ∉ tagSigns
  beforeEquals : ∀ c ∈ a.beforeEquals, c ∉ tagSigns
  afterEquals : ∀ c ∈ a.afterEquals, c ∉ tagSigns
  quote : a.quote = '"' ∨ a.quote = '\''
  value : a.quote ∉ a.value.flatMap Spelled.text

/-- A tag with such attributes and no signs between them. -/
structure WrittenTag.Contained (tag : WrittenTag) : Prop where
  name : ∀ c ∈ tag.name.written, c ∉ tagSigns
  attributes : ∀ a ∈ tag.attributes, a.Contained
  trailing : ∀ c ∈ tag.trailing, c ∉ tagSigns

theorem WrittenAttribute.Contained.behindTag_eq {a : WrittenAttribute} (h : a.Contained)
    (rest : List Char) : behindTag none (a.text ++ rest) = behindTag none rest := by
  have hequals : ∀ c ∈ ['='], c ∉ tagSigns := notMem_tagSigns_of_all rfl
  have htext : a.text ++ rest = a.gap ++ (a.name.written ++ (a.beforeEquals ++ (['='] ++
      (a.afterEquals ++ a.quote :: (a.value.flatMap Spelled.text ++ a.quote :: rest))))) := by
    simp [text, body]
  have hopening : a.quote ≠ '>' := by
    rcases h.quote with hquote | hquote
    · rw [hquote]
      decide
    · rw [hquote]
      decide
  rw [htext, behindTag_plain h.gap, behindTag_plain h.name, behindTag_plain h.beforeEquals,
    behindTag_plain hequals, behindTag_plain h.afterEquals, behindTag, if_neg hopening,
    if_pos h.quote]
  exact behindTag_value h.value rest

theorem behindTag_attributes {attributes : List WrittenAttribute}
    (h : ∀ a ∈ attributes, a.Contained) (rest : List Char) :
    behindTag none (attributes.flatMap WrittenAttribute.text ++ rest) = behindTag none rest := by
  induction attributes with
  | nil => rfl
  | cons a attributes ih =>
      rw [List.flatMap_cons, List.append_assoc, (h a List.mem_cons_self).behindTag_eq]
      exact ih fun b hb => h b (List.mem_cons_of_mem a hb)

theorem WrittenTag.Contained.behindTag_eq {tag : WrittenTag} (h : tag.Contained)
    (selfClosing : Bool) (rest : List Char) :
    behindTag none (tag.text ++ (tagEnd selfClosing ++ rest)) = rest := by
  have hend : behindTag none (tagEnd selfClosing ++ rest) = rest := by
    cases selfClosing with
    | false => rfl
    | true => rfl
  rw [text, List.append_assoc, List.append_assoc, behindTag_plain h.name,
    behindTag_attributes h.attributes, behindTag_plain h.trailing, hend]

theorem notMem_tagSigns_of_mem_written {name : Name} (h : name.Valid) :
    ∀ c ∈ name.written, c ∉ tagSigns :=
  fun c hc => notMem_of_all (by decide) (h.isClosingNameCharacter c hc)

theorem notMem_tagSigns_of_isSpaces {spaces : List Char} (h : IsSpaces spaces) :
    ∀ c ∈ spaces, c ∉ tagSigns :=
  fun c hc => notMem_of_all (by decide) (h c hc)

theorem WrittenAttribute.Valid.contained {a : WrittenAttribute} (h : a.Valid) : a.Contained where
  gap := notMem_tagSigns_of_isSpaces h.gap
  name := notMem_tagSigns_of_mem_written h.name
  beforeEquals := notMem_tagSigns_of_isSpaces h.beforeEquals
  afterEquals := notMem_tagSigns_of_isSpaces h.afterEquals
  quote := h.quote
  value := by
    have hstop : a.quote ∈ valueStops := by
      rcases h.quote with hquote | hquote
      · rw [hquote]
        decide
      · rw [hquote]
        decide
    rw [List.mem_flatMap]
    rintro ⟨s, hs, hmem⟩
    exact (h.value s hs).1.notMem_text hstop (h.value s hs).2 hmem

theorem WrittenTag.Valid.contained {tag : WrittenTag} (h : tag.Valid) : tag.Contained where
  name := notMem_tagSigns_of_mem_written h.name
  attributes := fun a ha => (h.attributes a ha).contained
  trailing := notMem_tagSigns_of_isSpaces h.trailing

theorem readName_of_readTag {cs rest : List Char} {tag : Tag}
    (h : readTag cs = .ok (tag, rest)) : ∃ behind, readName cs = .ok (tag.name, behind) := by
  unfold readTag at h
  split at h
  · cases h
  · next name behind hname =>
    split at h
    · cases h
    · cases h
      exact ⟨behind, hname⟩

end Xml

namespace Markup

open Xml

section Wrapper

variable {namespaces : List (String × String)}

theorem extracted_of_mem (h : ∀ pair ∈ namespaces, Extracted pair) :
    ∀ pair ∈ wrapperDeclarations namespaces, Extracted pair := by
  intro pair hmem
  rcases KeyedList.mem_setAll hmem with hmem | hmem
  · rw [List.mem_singleton.1 hmem]
    constructor
    · exact List.all_eq_true.1 (by decide)
    · intro c hc
      have hall : xlinkNamespace.toList.all fun c => !Graphic.isQuote c && c ≠ '>' := by decide
      have hc := List.all_eq_true.1 hall c hc
      rwa [Bool.and_eq_true, Bool.not_eq_true', decide_eq_true_eq] at hc
  · exact h pair hmem

theorem contained_declaration {name : Name} {uri : List Char}
    (hname : ∀ c ∈ name.written, c ∉ tagSigns) (huri : '"' ∉ uri) :
    (declaration name uri).Contained where
  gap := by
    intro c hc
    rw [List.mem_singleton.1 hc]
    decide
  name := hname
  beforeEquals := fun c hc => absurd hc List.not_mem_nil
  afterEquals := fun c hc => absurd hc List.not_mem_nil
  quote := Or.inl rfl
  value := by
    have htext : (uri.map Spelled.plain).flatMap Spelled.text = uri := by
      rw [List.flatMap_map]
      exact List.flatMap_singleton' uri
    show '"' ∉ (uri.map Spelled.plain).flatMap Spelled.text
    rwa [htext]

theorem contained_wrapperTag (h : ∀ pair ∈ namespaces, Extracted pair) :
    (wrapperTag namespaces).Contained where
  name := notMem_tagSigns_of_all rfl
  attributes := by
    intro a ha
    rcases List.mem_cons.1 ha with rfl | ha
    · exact contained_declaration (notMem_tagSigns_of_all rfl) (by decide)
    · obtain ⟨pair, hpair, rfl⟩ := List.mem_map.1 ha
      obtain ⟨hname, huri⟩ := extracted_of_mem h pair hpair
      refine contained_declaration ?_ ?_
      · have hlead : ∀ c ∈ xmlnsName ++ [':'], c ∉ tagSigns := notMem_tagSigns_of_all rfl
        intro c hc
        have hsplit : (Name.mk (some xmlnsName) pair.1.toList).written =
            (xmlnsName ++ [':']) ++ pair.1.toList := rfl
        rw [hsplit, List.mem_append] at hc
        rcases hc with hc | hc
        · exact hlead c hc
        · exact notMem_of_all (by decide +kernel) (hname c hc)
      · intro hquote
        have hno := (huri '"' hquote).1
        cases hno
  trailing := fun c hc => absurd hc List.not_mem_nil

/-- **The opening tag of the wrapper is read as it was written**, when it is read at all. -/
theorem end_of_readTag_wrapperTag (h : ∀ pair ∈ namespaces, Extracted pair) {tag : Tag}
    {rest behind : List Char}
    (hread : readTag ((wrapperTag namespaces).text ++ (tagEnd false ++ rest)) = .ok (tag, behind))
    (hknown : ∀ item ∈ tag.attributes, item.Known) :
    behind = rest ∧ tag.name.written = wrapperName.toList := by
  constructor
  · obtain ⟨written, hvalid, htext, -⟩ := written_of_readTag hread hknown
    calc behind = behindTag none (written.text ++ (tagEnd tag.selfClosing ++ behind)) :=
          (hvalid.contained.behindTag_eq _ _).symm
      _ = behindTag none ((wrapperTag namespaces).text ++ (tagEnd false ++ rest)) := by rw [htext]
      _ = rest := (contained_wrapperTag h).behindTag_eq _ _
  · have hname : (Name.mk none wrapperName.toList).Valid :=
      ⟨by rintro q ⟨⟩, isSimpleName_of_all (by decide) (by decide)⟩
    have htext : ∃ cs, (wrapperTag namespaces).text ++ (tagEnd false ++ rest) =
        (Name.mk none wrapperName.toList).written ++ ' ' :: cs := by
      rw [WrittenTag.text, wrapperTag, List.flatMap_cons, text_declaration]
      exact ⟨_, by simp only [List.append_assoc, List.cons_append]; rfl⟩
    obtain ⟨cs, hcs⟩ := htext
    obtain ⟨after, hafter⟩ := readName_of_readTag hread
    rw [hcs, readName_append hname (by decide) (by decide), Except.ok.injEq,
      Prod.mk.injEq] at hafter
    rw [← hafter.1]
    rfl

/-! ## The end of the wrapper -/

/-- Nothing stands behind the root of a text that ends like the wrapper. -/
theorem eq_nil_of_readEpilog {elements result : List Element} {rest front : List Char}
    (h : readEpilog elements rest = .ok result) (hrest : rest <:+ front ++ wrapperEnd.toList) :
    rest = [] := by
  rw [readEpilog] at h
  split at h
  · cases h
  · next hfault =>
    rcases end_of_epilogFault? (Nat.lt_succ_self _) hfault with hnil | ⟨mark, hmark, hsuffix⟩
    · exact hnil
    · exfalso
      have hwhole : ['t', '>'] <:+ front ++ wrapperEnd.toList :=
        List.IsSuffix.trans (by decide) (List.suffix_append front wrapperEnd.toList)
      have hshort : ∀ mark ∈ miscellaneousEnds, mark.length ≤ ['t', '>'].length := by decide
      have hno : ∀ mark ∈ miscellaneousEnds, ¬ mark <:+ ['t', '>'] := by decide
      exact hno mark hmark (List.suffix_of_suffix_length_le (hsuffix.trans hrest) hwhole
        (hshort mark hmark))

theorem toList_wrapperEnd : wrapperEnd.toList = closingText wrapperName.toList [] [] := by
  simp [wrapperEnd, closingText]

/-- What stands in front of the wrapper's closing tag is what was put there. -/
theorem eq_of_append_closingText {front text trailing : List Char} (htrailing : IsSpaces trailing)
    (h : front ++ closingText wrapperName.toList [] [] =
      text ++ closingText wrapperName.toList trailing []) :
    trailing = [] ∧ text = front := by
  have hnil : trailing = [] := by
    rcases List.eq_nil_or_concat trailing with hnil | ⟨spaces, c, hconcat⟩
    · exact hnil
    · -- The name of the wrapper does not end in white space.
      exfalso
      have hends : (front ++ "</fragmen".toList) ++ ['t', '>'] =
          (text ++ '<' :: '/' :: (wrapperName.toList ++ spaces)) ++ [c, '>'] := by
        rw [hconcat] at h
        simpa [closingText, wrapperName] using h
      have hlast := (List.append_inj' hends rfl).2
      rw [List.cons.injEq] at hlast
      have hspace := htrailing c (by rw [hconcat]; simp)
      rw [← hlast.1] at hspace
      exact absurd hspace (by decide)
  rw [hnil] at h
  exact ⟨hnil, (List.append_cancel_right h).symm⟩

end Wrapper

/-! ## Enclosed markup -/

/-- Markup is enclosed by its wrapper, and `inner` is what it consists of. -/
structure Enclosed (namespaces : List (String × String)) (content : String) (inner : Content) :
    Prop where
  /-- The markup is the text of this content, -/
  text : inner.text = content.toList
  /-- which is balanced, with all of its parts complete. -/
  valid : inner.Valid
  /-- The wrapper is opened by its opening tag alone, it stays open throughout the markup, where
  exactly the elements of the markup are opened and closed, and its closing tag closes it. -/
  reading : ∃ (tag : Tag) (scope : Scope),
    readToken (wrap namespaces content).toList =
      .ok (.opening tag, content.toList ++ wrapperEnd.toList) ∧
    State.initial.take (wrap namespaces content).toList (.opening tag) =
      .ok ⟨[⟨wrapperName.toList, scope⟩], [tag.element]⟩ ∧
    Walk [⟨wrapperName.toList, scope⟩]
      ⟨[⟨wrapperName.toList, scope⟩], [tag.element]⟩ (content.toList ++ wrapperEnd.toList)
      ⟨[⟨wrapperName.toList, scope⟩], inner.elements.reverse ++ [tag.element]⟩
      wrapperEnd.toList ∧
    readToken wrapperEnd.toList = .ok (.closing wrapperName.toList, []) ∧
    State.take ⟨[⟨wrapperName.toList, scope⟩], inner.elements.reverse ++ [tag.element]⟩
      wrapperEnd.toList (.closing wrapperName.toList) =
        .ok ⟨[], inner.elements.reverse ++ [tag.element]⟩

section Enclosure

variable {namespaces : List (String × String)} {content : String}

theorem toList_wrap : (wrap namespaces content).toList = '<' :: ((wrapperTag namespaces).text ++
    (tagEnd false ++ (content.toList ++ wrapperEnd.toList))) := by
  rw [wrap, String.toList_append, String.toList_append, toList_wrapperStart]
  simp [tagEnd]

/-- A wrapped text that is read begins with an opening tag that is taken, and reading goes on behind
it. -/
theorem opening_of_readDocument {result : List Element}
    (h : readDocument (wrap namespaces content).toList = .ok result) :
    ∃ tag behind next, readToken (wrap namespaces content).toList = .ok (.opening tag, behind) ∧
      readTag ((wrapperTag namespaces).text ++ (tagEnd false ++
        (content.toList ++ wrapperEnd.toList))) = .ok (tag, behind) ∧
      State.initial.take (wrap namespaces content).toList (.opening tag) = .ok next ∧
      readOn next behind = .ok result := by
  rw [readDocument] at h
  split at h
  · cases h
  · next tag behind hopening =>
    obtain ⟨token, behind', next, htoken, htake, hon⟩ := readOn_of_readContent h
    rw [hopening] at htoken
    cases htoken
    refine ⟨tag, behind, next, hopening, ?_, htake, hon⟩
    have hfrom := Token.from_of_readToken hopening
    rw [toList_wrap] at hfrom
    cases hfrom with
    | opening hread => exact hread
  · cases h

/-- **A wrapped text that is read encloses its markup**: all elements but that of the wrapper are
elements of the markup. -/
theorem enclosed_of_readDocument (hnamespaces : ∀ pair ∈ namespaces, Extracted pair)
    {result : List Element}
    (h : readDocument (wrap namespaces content).toList = .ok result) :
    ∃ inner : Content, Enclosed namespaces content inner ∧
      ∃ wrapper, result = wrapper :: inner.elements := by
  obtain ⟨tag, behind, next, hopening, hread, htake, hon⟩ := opening_of_readDocument h
  obtain ⟨scope, hcheck, hnext⟩ := State.enter_eq_ok htake
  obtain ⟨rfl, hname⟩ :=
    end_of_readTag_wrapperTag hnamespaces hread (known_of_check hcheck)
  cases hclosing : tag.selfClosing with
  | true =>
      -- Behind a root without content the closing tag would be left over.
      rw [hclosing] at hnext
      rw [hnext] at hon
      have hnil := eq_nil_of_readEpilog hon (List.suffix_refl _)
      exact absurd (List.append_eq_nil_iff.1 hnil).2 (by decide)
  | false =>
      rw [hclosing] at hnext
      rw [hnext] at hon htake
      obtain ⟨inner, trailing, rest, ⟨hvalid, htrailing, htext, hwalk⟩, hrest⟩ :=
        content_of_readContent hon
      change readEpilog (inner.elements.reverse ++ [tag.element]).reverse rest = _ at hrest
      have hend : rest <:+ content.toList ++ wrapperEnd.toList :=
        htext ▸ (suffix_closingText _ _ _).trans (List.suffix_append _ _)
      obtain rfl := eq_nil_of_readEpilog hrest hend
      rw [hname] at htake htext hwalk
      rw [toList_wrapperEnd] at htext
      obtain ⟨rfl, hinner⟩ := eq_of_append_closingText htrailing htext
      rw [← toList_wrapperEnd] at hwalk
      have hleave := State.take_closing ⟨wrapperName.toList, scope⟩ []
        (inner.elements.reverse ++ [tag.element]) wrapperEnd.toList
      refine ⟨inner, ⟨hinner, hvalid, tag, scope, hopening, htake, hwalk, rfl, hleave⟩,
        tag.element, ?_⟩
      cases hrest
      simp

/-- **What passes the check is safe to wrap.** Markup without an offence is enclosed by its
wrapper, and none of its elements, at whatever depth and with whatever prefix, holds a script or
has an attribute for events. -/
theorem enclosed_of_no_offence (hnamespaces : ∀ pair ∈ namespaces, Extracted pair)
    (hcontent : content ≠ "") {limit : Json} (h : offence? limit namespaces content = .ok none) :
    ∃ inner : Content, Enclosed namespaces content inner ∧
      ∀ element ∈ inner.elements, small element.name ≠ ['s', 'c', 'r', 'i', 'p', 't'] ∧
        ∀ name ∈ element.attributes, ¬ ['o', 'n'] <+: small name := by
  have hstructure : structureOffence? namespaces content = none := by
    rw [offence?] at h
    split at h
    · cases h
    · obtain ⟨_, -, ⟨⟩⟩ := sizeOffence_eq_ok h
    · exact Except.ok.inj h
  have hnonempty : ¬ content.isEmpty = true := by
    rw [String.isEmpty_iff]
    exact hcontent
  rw [structureOffence?, if_neg hnonempty] at hstructure
  simp only at hstructure
  split at hstructure
  · cases hstructure
  · next elements hread =>
    obtain ⟨inner, henclosed, wrapper, rfl⟩ := enclosed_of_readDocument hnamespaces hread
    have hall := List.findSome?_eq_none_iff.1 hstructure
    refine ⟨inner, henclosed, fun element helement => ?_⟩
    exact elementOffence?_eq_none_iff.1 (hall element (List.mem_cons_of_mem _ helement))

/-- The group of a labelled icon is enclosed in a wrapper that declares the prefix of its label. -/
theorem enclosed_labelled :
    ∃ box, Graphic.extract .null "<svg xmlns:i=\"u\"><g i:l=\"x\"/></svg>" =
        .ok ⟨box, "<g i:l=\"x\"/>", [("i", "u")]⟩ ∧
      offence? (.integer 13) [("i", "u")] "<g i:l=\"x\"/>" = .ok none ∧
      ∃ inner : Content, Enclosed [("i", "u")] "<g i:l=\"x\"/>" inner ∧
        ∀ element ∈ inner.elements, small element.name ≠ ['s', 'c', 'r', 'i', 'p', 't'] ∧
          ∀ name ∈ element.attributes, ¬ ['o', 'n'] <+: small name := by
  have hmarkup : String.ofList (Text.strip labelledForest.text) = "<g i:l=\"x\"/>" := by
    decide
  obtain ⟨box, hextract⟩ : ∃ box, Graphic.extract .null "<svg xmlns:i=\"u\"><g i:l=\"x\"/></svg>" =
      .ok ⟨box, "<g i:l=\"x\"/>", [("i", "u")]⟩ := by
    rw [← hmarkup]
    exact extract_clean cleanRoot_labelledRoot (fun c hc => absurd hc List.not_mem_nil)
      cleanForest_labelledForest .null
  have hstructure : structureOffence? [("i", "u")] "<g i:l=\"x\"/>" = none := by
    rw [← hmarkup]
    exact structureOffence?_eq_none cleanRoot_labelledRoot.declarable
      cleanRoot_labelledRoot.nodup cleanForest_labelledForest
  have hcheck : offence? (.integer 13) [("i", "u")] "<g i:l=\"x\"/>" = .ok none := by
    rw [offence?, hstructure]
    rfl
  exact ⟨box, hextract, hcheck,
    enclosed_of_no_offence (extracted_of_extract hextract) (by decide) hcheck⟩

end Enclosure

end Markup

end IconForge
