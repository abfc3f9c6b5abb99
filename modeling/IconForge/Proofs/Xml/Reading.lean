import Mathlib
import IconForge.Proofs.Text.Characters
import IconForge.Proofs.Xml.Written

set_option autoImplicit false

/-! # Reading what was written

A reader takes every part of written markup off the front of a text and leaves what stands behind
it. The lemmas go from the smallest parts to the largest that one token holds: names, references,
values, attributes, and at last opening and closing tags (`readToken_opening`,
`readToken_closing`). -/

namespace IconForge.Xml

/-! ## Names -/

/-- The signs of markup and its white space. -/
def nameStops : List Char :=
  [':', ';', '=', '/', '>', '<', '&', ' ', '\t', '\n', '\r', '"', '\'', '!', '?', '#']

theorem isNameCharacter_of_mem_nameStops {c : Char} (h : c ∈ nameStops) :
    isNameCharacter c = false := by
  have hall : nameStops.all (!isNameCharacter ·) := by
    decide
  simpa only [Bool.not_eq_true'] using List.all_eq_true.1 hall c h

/-- What all four characters of white space are, every one of them is. -/
theorem of_isSpace {p : Char → Bool} (hall : [' ', '\t', '\n', '\r'].all p) {c : Char}
    (h : isSpace c) : p c := by
  simp only [isSpace, Bool.or_eq_true, decide_eq_true_eq, or_assoc] at h
  refine List.all_eq_true.1 hall c ?_
  simpa only [List.mem_cons, List.not_mem_nil, or_false] using h

theorem mem_nameStops_of_isSpace {c : Char} (h : isSpace c) : c ∈ nameStops :=
  List.contains_iff_mem.1 (of_isSpace (p := nameStops.contains) (by decide) h)

/-- A character of one kind is none of the signs that are all of another kind. -/
theorem notMem_of_all {p : Char → Bool} {signs : List Char} (hall : signs.all (!p ·)) {c : Char}
    (h : p c) : c ∉ signs := by
  intro hmem
  have hno := List.all_eq_true.1 hall c hmem
  rw [h] at hno
  cases hno

theorem notMem_nameStops_of_isNameStart {c : Char} (h : isNameStart c) : c ∉ nameStops :=
  notMem_of_all (by decide) (isNameCharacter_of_isNameStart h)

theorem IsSimpleName.isNameCharacter {name : List Char} (h : IsSimpleName name) :
    ∀ c ∈ name, isNameCharacter c := by
  obtain ⟨first, rest, rfl, hfirst, hrest⟩ := h
  intro c hc
  rcases List.mem_cons.1 hc with rfl | hc
  · exact isNameCharacter_of_isNameStart hfirst
  · exact hrest c hc

theorem readSimpleName_append {name rest : List Char} {c : Char} (h : IsSimpleName name)
    (hc : c ∈ nameStops) : readSimpleName (name ++ c :: rest) = .ok (name, c :: rest) := by
  have hsplit : (name ++ c :: rest).takeWhile isNameCharacter = name ∧
      (name ++ c :: rest).dropWhile isNameCharacter = c :: rest :=
    Text.takeWhile_dropWhile_cons h.isNameCharacter (isNameCharacter_of_mem_nameStops hc)
  obtain ⟨first, tail, rfl, hfirst, -⟩ := h
  rw [List.cons_append] at hsplit ⊢
  simp only [readSimpleName, hfirst, if_true, hsplit]

/-- A name is read up to a character that cannot go on with it. -/
theorem readName_append {name : Name} {rest : List Char} {c : Char} (h : name.Valid)
    (hc : c ∈ nameStops) (hcolon : c ≠ ':') :
    readName (name.written ++ c :: rest) = .ok (name, c :: rest) := by
  obtain ⟨qualifier, localPart⟩ := name
  cases qualifier with
  | none =>
      rw [Name.written, readName, readSimpleName_append h.localPart hc]
      simp only
      split
      · next heq => cases heq
      · next heq =>
        simp only [Except.ok.injEq, Prod.mk.injEq, List.cons.injEq] at heq
        exact absurd heq.2.1 hcolon
      · next heq =>
        cases heq
        rfl
  | some q =>
      have hsplit : Name.written ⟨some q, localPart⟩ ++ c :: rest =
          q ++ ':' :: (localPart ++ c :: rest) := by
        simp [Name.written]
      have hcolon : ':' ∈ nameStops := List.mem_cons_self
      rw [hsplit, readName, readSimpleName_append (h.qualifier q rfl) hcolon]
      simp only
      rw [readSimpleName_append h.localPart hc]

/-- The first character of a written name begins a name. -/
theorem Name.Valid.exists_cons {name : Name} (h : name.Valid) :
    ∃ first rest, name.written = first :: rest ∧ isNameStart first := by
  obtain ⟨qualifier, localPart⟩ := name
  cases qualifier with
  | none =>
      obtain ⟨first, rest, hpart, hfirst, -⟩ := h.localPart
      exact ⟨first, rest, hpart, hfirst⟩
  | some q =>
      obtain ⟨first, rest, rfl, hfirst, -⟩ := h.qualifier q rfl
      exact ⟨first, rest ++ ':' :: localPart, rfl, hfirst⟩

/-- A written name consists of name characters and colons. -/
theorem Name.Valid.isClosingNameCharacter {name : Name} (h : name.Valid) :
    ∀ c ∈ name.written, isClosingNameCharacter c := by
  intro c hc
  rw [Xml.isClosingNameCharacter, Bool.or_eq_true, decide_eq_true_eq]
  obtain ⟨qualifier, localPart⟩ := name
  cases qualifier with
  | none => exact Or.inl (h.localPart.isNameCharacter c hc)
  | some q =>
      rw [Name.written, List.mem_append, List.mem_cons] at hc
      rcases hc with hc | hc | hc
      · exact Or.inl ((h.qualifier q rfl).isNameCharacter c hc)
      · exact Or.inr hc
      · exact Or.inl (h.localPart.isNameCharacter c hc)

theorem isClosingNameCharacter_of_mem_nameStops {c : Char} (h : c ∈ nameStops) (hcolon : c ≠ ':') :
    isClosingNameCharacter c = false := by
  rw [isClosingNameCharacter, isNameCharacter_of_mem_nameStops h, Bool.false_or,
    decide_eq_false_iff_not]
  exact hcolon

/-! ## References -/

theorem readNumber_append {base : Nat} {digit? : Char → Option Nat} {digits : List Char}
    (hne : digits ≠ []) (hdigits : ∀ d ∈ digits, (digit? d).isSome) (hstop : digit? ';' = none)
    (rest : List Char) :
    readNumber base digit? (digits ++ ';' :: rest) =
      .ok (.character (Spelled.number base digit? digits), rest) := by
  obtain ⟨htake, hdrop⟩ : (digits ++ ';' :: rest).takeWhile (fun c => (digit? c).isSome) = digits ∧
      (digits ++ ';' :: rest).dropWhile (fun c => (digit? c).isSome) = ';' :: rest :=
    Text.takeWhile_dropWhile_cons hdigits (by rw [hstop]; rfl)
  rw [readNumber]
  simp only [htake, hdrop, List.isEmpty_iff, hne, if_false]
  rfl

theorem isSimpleName_of_predefinedEntity? {name : List Char}
    (h : (predefinedEntity? name).isSome) : IsSimpleName name := by
  have hletters : ['l', 't', 'g', 'a', 'm', 'p', 'q', 'u', 'o', 's'].all isNameStart := by
    decide
  have hstart : ∀ c ∈ ['l', 't', 'g', 'a', 'm', 'p', 'q', 'u', 'o', 's'], isNameStart c :=
    List.all_eq_true.1 hletters
  have hname : ∀ first rest, name = first :: rest →
      (∀ c ∈ name, c ∈ ['l', 't', 'g', 'a', 'm', 'p', 'q', 'u', 'o', 's']) →
      IsSimpleName name := by
    rintro first rest rfl hmem
    exact ⟨first, rest, rfl, hstart first (hmem first List.mem_cons_self), fun c hc =>
      isNameCharacter_of_isNameStart (hstart c (hmem c (List.mem_cons_of_mem first hc)))⟩
  unfold predefinedEntity? at h
  split at h
  · exact hname _ _ rfl (by simp)
  · exact hname _ _ rfl (by simp)
  · exact hname _ _ rfl (by simp)
  · exact hname _ _ rfl (by simp)
  · exact hname _ _ rfl (by simp)
  · cases h

/-- The name of an entity does not begin with the sign of a number. -/
theorem readReference_named {name : List Char} (h : (predefinedEntity? name).isSome)
    (rest : List Char) :
    readReference (name ++ ';' :: rest) = .ok (.entity name, rest) := by
  have hname := isSimpleName_of_predefinedEntity? h
  have hread : readSimpleName (name ++ ';' :: rest) = .ok (name, ';' :: rest) :=
    readSimpleName_append hname (by decide)
  obtain ⟨first, tail, rfl, hfirst, -⟩ := hname
  have hnumber : first ≠ '#' := by
    rintro rfl
    exact notMem_nameStops_of_isNameStart hfirst (by decide)
  unfold readReference
  split
  · next heq =>
    rw [List.cons_append, List.cons.injEq] at heq
    exact absurd heq.1 hnumber
  · next heq =>
    rw [List.cons_append, List.cons.injEq] at heq
    exact absurd heq.1 hnumber
  · rw [hread]
    rfl

/-- A decimal number does not begin with the sign of a hexadecimal one. -/
theorem readReference_decimal {digits : List Char} (hne : digits ≠ [])
    (hdigits : ∀ d ∈ digits, (decimalValue? d).isSome) (rest : List Char) :
    readReference ('#' :: (digits ++ ';' :: rest)) =
      .ok (.character (Spelled.number 10 decimalValue? digits), rest) := by
  obtain ⟨first, tail, rfl⟩ := List.exists_cons_of_ne_nil hne
  have hx : first ≠ 'x' := by
    rintro rfl
    exact absurd (hdigits 'x' List.mem_cons_self) (by decide)
  unfold readReference
  split
  · next heq =>
    rw [List.cons_append, List.cons.injEq, List.cons.injEq] at heq
    exact absurd heq.2.1 hx
  · next heq =>
    rw [List.cons.injEq] at heq
    rw [← heq.2]
    exact readNumber_append hne hdigits (by decide) rest
  · next hno => exact absurd rfl (hno _)

/-- A character that is spelled with a reference is read as that reference, which stands for it. -/
theorem readReference_text {s : Spelled} {r : Reference} (h : s.Valid) (hs : s.reference? = some r)
    (rest : List Char) :
    ∃ cs, s.text ++ rest = '&' :: cs ∧ readReference cs = .ok (r, rest) ∧
      r.character? = .ok s.char := by
  cases s with
  | plain c => cases hs
  | named name =>
      cases hs
      obtain ⟨c, hc⟩ := Option.isSome_iff_exists.1 h
      refine ⟨name ++ ';' :: rest, by simp [Spelled.text], readReference_named h rest, ?_⟩
      simp only [Reference.character?, Spelled.char, hc, Option.getD_some]
  | decimal digits =>
      cases hs
      obtain ⟨hne, hdigits, hcharacter⟩ := h
      obtain ⟨c, hc⟩ := Option.isSome_iff_exists.1 hcharacter
      refine ⟨'#' :: (digits ++ ';' :: rest), by simp [Spelled.text],
        readReference_decimal hne hdigits rest, ?_⟩
      simp only [Reference.character?, Spelled.char, hc, Option.getD_some]
  | hexadecimal digits =>
      cases hs
      obtain ⟨hne, hdigits, hcharacter⟩ := h
      obtain ⟨c, hc⟩ := Option.isSome_iff_exists.1 hcharacter
      refine ⟨'#' :: 'x' :: (digits ++ ';' :: rest), by simp [Spelled.text], ?_, ?_⟩
      · rw [readReference]
        exact readNumber_append hne hdigits (by decide) rest
      · simp only [Reference.character?, Spelled.char, hc, Option.getD_some]

/-- The signs that must not stand in a value, but as what ends it. -/
def valueStops : List Char :=
  ['<', '"', '\'']

/-- A spelled character shows such a sign only when it is the sign itself. -/
theorem Spelled.Valid.notMem_text {s : Spelled} (h : s.Valid) {c : Char} (hc : c ∈ valueStops)
    (hne : s ≠ .plain c) : c ∉ s.text := by
  have hsigns : c ∈ nameStops ∧ c ∉ ['&', ';', '#', 'x'] ∧
      decimalValue? c = none ∧ Text.hexValue? c = none := by
    simp only [valueStops, List.mem_cons, List.not_mem_nil, or_false] at hc
    rcases hc with rfl | rfl | rfl
    · decide
    · decide
    · decide
  obtain ⟨hstop, hother, hdecimal, hhexadecimal⟩ := hsigns
  simp only [List.mem_cons, List.not_mem_nil, or_false, not_or] at hother
  -- A reference is made of a name or digits and of four other signs.
  obtain ⟨hamp, hsemicolon, hnumber, hx⟩ := hother
  cases s with
  | plain d =>
      rw [text, List.mem_singleton]
      rintro rfl
      exact hne rfl
  | named name =>
      have hname : c ∉ name := fun hmem => by
        have hno := (isSimpleName_of_predefinedEntity? h).isNameCharacter c hmem
        rw [isNameCharacter_of_mem_nameStops hstop] at hno
        cases hno
      simp [text, hname, hamp, hsemicolon]
  | decimal digits =>
      have hdigits : c ∉ digits := fun hmem => by
        have hdigit := h.2.1 c hmem
        rw [hdecimal] at hdigit
        cases hdigit
      simp [text, hdigits, hamp, hsemicolon, hnumber]
  | hexadecimal digits =>
      have hdigits : c ∉ digits := fun hmem => by
        have hdigit := h.2.1 c hmem
        rw [hhexadecimal] at hdigit
        cases hdigit
      simp [text, hdigits, hamp, hsemicolon, hnumber, hx]

/-! ## Values -/

/-- A piece of a value is what is read for a spelled character. -/
inductive Piece.Reads : Piece → Spelled → Prop where
  | character (c : Char) : Piece.Reads (.character c) (.plain c)
  | reference {s : Spelled} {r : Reference} (source : List Char) (hs : s.reference? = some r)
      (hr : r.character? = .ok s.char) : Piece.Reads (.reference r source) s

theorem readValue_text {quote : Char} {value : List Spelled} (hquote : quote ≠ '&')
    (hvalue : ∀ s ∈ value, s.Valid ∧ s ≠ .plain quote) (rest : List Char) :
    ∃ pieces, readValue quote (value.flatMap Spelled.text ++ quote :: rest) = .ok (pieces, rest) ∧
      List.Forall₂ Piece.Reads pieces value := by
  induction value with
  | nil =>
      refine ⟨[], ?_, List.Forall₂.nil⟩
      rw [List.flatMap_nil, List.nil_append, readValue, if_pos rfl]
  | cons s value ih =>
      obtain ⟨hvalid, hne⟩ := hvalue s List.mem_cons_self
      obtain ⟨pieces, hread, hpieces⟩ := ih fun t ht => hvalue t (List.mem_cons_of_mem s ht)
      rw [List.flatMap_cons, List.append_assoc]
      cases hs : s.reference? with
      | none =>
          cases s with
          | plain c =>
              obtain ⟨hlegal, hlt, hamp⟩ := hvalid
              have hc : c ≠ quote := fun heq => hne (by rw [heq])
              -- A character is taken as itself unless it ends the value, begins a reference or is
              -- illegal.
              have hstop : ¬ (c = '<' || !isLegal c) = true := by
                rw [hlegal]
                simpa using hlt
              refine ⟨.character c :: pieces, ?_, List.Forall₂.cons (.character c) hpieces⟩
              rw [Spelled.text, List.singleton_append, readValue, if_neg hc, if_neg hamp,
                if_neg hstop]
              simp only [hread]
          | named name => cases hs
          | decimal digits => cases hs
          | hexadecimal digits => cases hs
      | some r =>
          obtain ⟨cs, htext, hreference, hcharacter⟩ :=
            readReference_text hvalid hs (value.flatMap Spelled.text ++ quote :: rest)
          refine ⟨.reference r ('&' :: cs) :: pieces, ?_,
            List.Forall₂.cons (.reference _ hs hcharacter) hpieces⟩
          rw [htext, readValue, if_neg hquote.symm, if_pos rfl]
          split
          · next heq =>
            rw [hreference] at heq
            cases heq
          · next heq =>
            rw [hreference] at heq
            cases heq
            simp only [hread]

/-- The value that is looked up from the pieces is the value that was written. -/
theorem resolveValue_of_reads {pieces : List Piece} {value : List Spelled} (source : List Char)
    (h : List.Forall₂ Piece.Reads pieces value) :
    resolveValue source pieces = .ok (resolved value) := by
  fun_induction resolved value generalizing pieces with
  | case1 =>
      cases h
      rfl
  | case2 value ih =>
      -- A carriage return and a line feed are one line end only when both are written as
      -- themselves.
      obtain _ | @⟨_, _, _, _, hfirst, hrest⟩ := h
      obtain _ | @⟨_, _, _, _, hsecond, hrest⟩ := hrest
      cases hfirst with
      | reference _ hs _ => cases hs
      | character =>
          cases hsecond with
          | reference _ hs _ => cases hs
          | character =>
              rw [resolveValue, ih hrest]
              rfl
  | case3 c value hno ih =>
      obtain _ | @⟨_, _, _, _, hfirst, hrest⟩ := h
      cases hfirst with
      | reference _ hs _ => cases hs
      | character =>
          rw [resolveValue, ih hrest]
          · rfl
          · rintro pieces rfl rfl
            obtain _ | @⟨_, _, _, _, hsecond, hrest⟩ := hrest
            cases hsecond
            exact hno _ rfl rfl
  | case4 s value hno hplain ih =>
      obtain _ | @⟨_, _, _, _, hfirst, hrest⟩ := h
      cases hfirst with
      | character => exact absurd rfl (hplain _)
      | reference source' hs hr =>
          rw [resolveValue, hr, ih hrest]
          rfl

/-! ## Attributes -/

theorem skipSpace_append {spaces rest : List Char} (h : IsSpaces spaces)
    (hrest : ∀ c ∈ rest.head?, ¬ isSpace c) : skipSpace (spaces ++ rest) = rest := by
  have hstop : ∀ c ∈ rest.head?, isSpace c = false := by
    simpa only [Bool.not_eq_true] using hrest
  exact (Text.takeWhile_dropWhile_append h hstop).2

/-- An attribute that was read for a written one. -/
structure Attribute.Reads (item : Attribute) (a : WrittenAttribute) : Prop where
  name : item.name = a.name
  value : List.Forall₂ Piece.Reads item.value a.value

/-- White space and then a sign end a name. -/
theorem exists_stop_of_spaces {spaces : List Char} (h : IsSpaces spaces) {c : Char}
    (hc : c ∈ nameStops) (hcolon : c ≠ ':') (rest : List Char) :
    ∃ d cs, spaces ++ c :: rest = d :: cs ∧ d ∈ nameStops ∧ d ≠ ':' := by
  cases spaces with
  | nil => exact ⟨c, rest, rfl, hc, hcolon⟩
  | cons d spaces =>
      have hd := h d List.mem_cons_self
      refine ⟨d, spaces ++ c :: rest, rfl, mem_nameStops_of_isSpace hd, ?_⟩
      rintro rfl
      exact absurd hd (by decide)

theorem readAttribute_body {a : WrittenAttribute} (h : a.Valid) (rest : List Char) :
    ∃ item, readAttribute (a.body ++ rest) = .ok (item, rest) ∧ item.Reads a := by
  have hquote : ¬ isSpace a.quote ∧ a.quote ≠ '&' ∧ (a.quote = '"' || a.quote = '\'') := by
    rcases h.quote with hquote | hquote
    · rw [hquote]
      decide
    · rw [hquote]
      decide
  have hbody : a.body ++ rest = a.name.written ++ (a.beforeEquals ++ '=' :: (a.afterEquals ++
      a.quote :: (a.value.flatMap Spelled.text ++ a.quote :: rest))) := by
    simp [WrittenAttribute.body]
  obtain ⟨pieces, hvalue, hpieces⟩ := readValue_text hquote.2.1 h.value rest
  obtain ⟨d, cs, hname, hd, hcolon⟩ := exists_stop_of_spaces h.beforeEquals
    (show '=' ∈ nameStops by decide) (by decide)
    (a.afterEquals ++ a.quote :: (a.value.flatMap Spelled.text ++ a.quote :: rest))
  -- White space may stand on both sides of the equals sign, and nowhere else.
  have hequals : skipSpace (d :: cs) =
      '=' :: (a.afterEquals ++ a.quote :: (a.value.flatMap Spelled.text ++ a.quote :: rest)) := by
    rw [← hname]
    refine skipSpace_append h.beforeEquals ?_
    rintro c ⟨⟩
    decide
  have hopening : skipSpace (a.afterEquals ++ a.quote ::
      (a.value.flatMap Spelled.text ++ a.quote :: rest)) =
        a.quote :: (a.value.flatMap Spelled.text ++ a.quote :: rest) := by
    refine skipSpace_append h.afterEquals ?_
    rintro c ⟨⟩
    exact hquote.1
  refine ⟨⟨a.name, pieces, a.body ++ rest⟩, ?_, rfl, hpieces⟩
  rw [readAttribute]
  rw [hbody, hname, readName_append h.name hd hcolon]
  simp only [hequals, hopening, hquote.2.2, if_true, hvalue]

/-! ## Tags -/

/-- How an opening tag ends. -/
def tagEnd (selfClosing : Bool) : List Char :=
  if selfClosing then ['/', '>'] else ['>']

theorem not_tagEnd_of_isSpace {c : Char} (h : isSpace c) : c ≠ '>' ∧ c ≠ '/' := by
  constructor
  · rintro rfl
    exact absurd h (by decide)
  · rintro rfl
    exact absurd h (by decide)

theorem readAttributes_tagEnd (selfClosing : Bool) (rest : List Char) :
    readAttributes (tagEnd selfClosing ++ rest) = .ok (([], selfClosing), rest) := by
  cases selfClosing with
  | false =>
      show readAttributes ('>' :: rest) = _
      rw [readAttributes]
  | true =>
      show readAttributes ('/' :: '>' :: rest) = _
      rw [readAttributes]

/-- White space and the end of a tag end its attributes. -/
theorem readAttributes_close {c : Char} {cs rest : List Char} {selfClosing : Bool}
    (hc : isSpace c) (h : skipSpace cs = tagEnd selfClosing ++ rest) :
    readAttributes (c :: cs) = .ok (([], selfClosing), rest) := by
  obtain ⟨hgreater, hsolidus⟩ := not_tagEnd_of_isSpace hc
  rw [readAttributes.eq_def]
  split
  · next heq => cases heq
  · next heq => exact absurd (List.cons.inj heq).1 hgreater
  · next heq => exact absurd (List.cons.inj heq).1 hsolidus
  · next heq => exact absurd (List.cons.inj heq).1 hsolidus
  · next heq =>
    rw [List.cons.injEq] at heq
    obtain ⟨rfl, rfl⟩ := heq
    rw [if_pos hc]
    -- Only the end that stands there is read.
    cases selfClosing with
    | false =>
        change skipSpace cs = '>' :: rest at h
        split
        · next heq =>
          rw [h, List.cons.injEq] at heq
          rw [heq.2]
        · next heq => rw [h] at heq; cases heq
        · next heq => rw [h] at heq; cases heq
        · next hno _ _ => exact absurd h (hno rest)
    | true =>
        change skipSpace cs = '/' :: '>' :: rest at h
        split
        · next heq => rw [h] at heq; cases heq
        · next heq =>
          rw [h, List.cons.injEq, List.cons.injEq] at heq
          rw [heq.2.2]
        · next hno heq =>
          rw [h, List.cons.injEq] at heq
          exact absurd heq.2.symm (hno rest)
        · next _ hno _ => exact absurd h (hno rest)

/-- White space and an attribute: the attributes behind it follow. -/
theorem readAttributes_cons {c first : Char} {cs tail behind rest : List Char} {item : Attribute}
    {items : List Attribute} {selfClosing : Bool} (hc : isSpace c)
    (h : skipSpace cs = first :: tail) (hfirst : isNameStart first)
    (hitem : readAttribute (first :: tail) = .ok (item, behind))
    (hitems : readAttributes behind = .ok ((items, selfClosing), rest)) :
    readAttributes (c :: cs) = .ok ((item :: items, selfClosing), rest) := by
  obtain ⟨hgreater, hsolidus⟩ := not_tagEnd_of_isSpace hc
  -- The name of an attribute begins like no end of a tag.
  have hgreater' : first ≠ '>' := by
    rintro rfl
    exact notMem_nameStops_of_isNameStart hfirst (by decide)
  have hsolidus' : first ≠ '/' := by
    rintro rfl
    exact notMem_nameStops_of_isNameStart hfirst (by decide)
  rw [readAttributes.eq_def]
  split
  · next heq => cases heq
  · next heq => exact absurd (List.cons.inj heq).1 hgreater
  · next heq => exact absurd (List.cons.inj heq).1 hsolidus
  · next heq => exact absurd (List.cons.inj heq).1 hsolidus
  · next heq =>
    rw [List.cons.injEq] at heq
    obtain ⟨rfl, rfl⟩ := heq
    rw [if_pos hc]
    split
    · next heq =>
      rw [h] at heq
      exact absurd (List.cons.inj heq).1 hgreater'
    · next heq =>
      rw [h] at heq
      exact absurd (List.cons.inj heq).1 hsolidus'
    · next heq =>
      rw [h] at heq
      exact absurd (List.cons.inj heq).1 hsolidus'
    · split
      · next hread =>
        rw [h, hitem] at hread
        cases hread
      · next hread =>
        rw [h, hitem] at hread
        cases hread
        simp only [hitems]

/-- The attributes of a tag are read one by one. -/
theorem readAttributes_text {attributes : List WrittenAttribute} {trailing : List Char}
    (h : ∀ a ∈ attributes, a.Valid) (htrailing : IsSpaces trailing) (selfClosing : Bool)
    (rest : List Char) :
    ∃ items, readAttributes (attributes.flatMap WrittenAttribute.text ++
        (trailing ++ (tagEnd selfClosing ++ rest))) = .ok ((items, selfClosing), rest) ∧
      List.Forall₂ Attribute.Reads items attributes := by
  induction attributes with
  | nil =>
      refine ⟨[], ?_, List.Forall₂.nil⟩
      rw [List.flatMap_nil, List.nil_append]
      cases trailing with
      | nil => exact readAttributes_tagEnd selfClosing rest
      | cons c trailing =>
          refine readAttributes_close (htrailing c List.mem_cons_self) (skipSpace_append ?_ ?_)
          · exact fun d hd => htrailing d (List.mem_cons_of_mem c hd)
          · cases selfClosing with
            | false => rintro d ⟨⟩; decide
            | true => rintro d ⟨⟩; decide
  | cons a attributes ih =>
      have ha := h a List.mem_cons_self
      obtain ⟨items, hitems, hreads⟩ := ih fun b hb => h b (List.mem_cons_of_mem a hb)
      obtain ⟨item, hitem, hread⟩ := readAttribute_body ha (attributes.flatMap
        WrittenAttribute.text ++ (trailing ++ (tagEnd selfClosing ++ rest)))
      refine ⟨item :: items, ?_, List.Forall₂.cons hread hreads⟩
      obtain ⟨c, gap, hgap⟩ := List.exists_cons_of_ne_nil ha.gap_ne
      obtain ⟨first, tail, hname, hfirst⟩ := ha.name.exists_cons
      have hbody : ∃ cs, a.body ++ (attributes.flatMap WrittenAttribute.text ++
          (trailing ++ (tagEnd selfClosing ++ rest))) = first :: cs := by
        rw [WrittenAttribute.body, hname]
        exact ⟨_, rfl⟩
      obtain ⟨cs, hcs⟩ := hbody
      have hspaces : IsSpaces gap := by
        intro d hd
        exact ha.gap d (by rw [hgap]; exact List.mem_cons_of_mem c hd)
      have hspace : isSpace c := ha.gap c (by rw [hgap]; exact List.mem_cons_self)
      have hnoSpace : ¬ isSpace first := fun hs =>
        notMem_nameStops_of_isNameStart hfirst (mem_nameStops_of_isSpace hs)
      rw [List.flatMap_cons, WrittenAttribute.text, hgap, List.append_assoc, List.cons_append,
        List.cons_append, List.append_assoc, hcs]
      rw [hcs] at hitem
      refine readAttributes_cons hspace (skipSpace_append hspaces ?_) hfirst hitem hitems
      rintro d ⟨⟩
      exact hnoSpace

/-- A tag that was read for a written one. -/
structure Tag.Reads (tag : Tag) (written : WrittenTag) (selfClosing : Bool) : Prop where
  name : tag.name = written.name
  attributes : List.Forall₂ Attribute.Reads tag.attributes written.attributes
  selfClosing : tag.selfClosing = selfClosing

/-- What stands behind the name of a tag ends the name. -/
theorem WrittenTag.exists_stop {written : WrittenTag} (h : written.Valid) (selfClosing : Bool)
    (rest : List Char) :
    ∃ c cs, written.attributes.flatMap WrittenAttribute.text ++
        (written.trailing ++ (tagEnd selfClosing ++ rest)) = c :: cs ∧ c ∈ nameStops ∧ c ≠ ':' := by
  cases hattributes : written.attributes with
  | nil =>
      cases selfClosing with
      | false => exact exists_stop_of_spaces h.trailing (by decide) (by decide) rest
      | true => exact exists_stop_of_spaces h.trailing (by decide) (by decide) ('>' :: rest)
  | cons a attributes =>
      have ha := h.attributes a (by rw [hattributes]; exact List.mem_cons_self)
      obtain ⟨c, gap, hgap⟩ := List.exists_cons_of_ne_nil ha.gap_ne
      have hspace : isSpace c := ha.gap c (by rw [hgap]; exact List.mem_cons_self)
      refine ⟨c, gap ++ a.body ++ attributes.flatMap WrittenAttribute.text ++
        (written.trailing ++ (tagEnd selfClosing ++ rest)), ?_, mem_nameStops_of_isSpace hspace, ?_⟩
      · simp [WrittenAttribute.text, hgap]
      · rintro rfl
        exact absurd hspace (by decide)

theorem readTag_text {written : WrittenTag} (h : written.Valid) (selfClosing : Bool)
    (rest : List Char) :
    ∃ tag, readTag (written.text ++ (tagEnd selfClosing ++ rest)) = .ok (tag, rest) ∧
      tag.Reads written selfClosing := by
  obtain ⟨items, hitems, hreads⟩ := readAttributes_text h.attributes h.trailing selfClosing rest
  obtain ⟨c, cs, hcs, hc, hcolon⟩ := WrittenTag.exists_stop h selfClosing rest
  refine ⟨⟨written.name, items, selfClosing⟩, ?_, rfl, hreads, rfl⟩
  rw [hcs] at hitems
  rw [WrittenTag.text, List.append_assoc, List.append_assoc, hcs, readTag,
    readName_append h.name hc hcolon]
  simp only [hitems]

/-- **An opening tag** is read as a token. -/
theorem readToken_opening {written : WrittenTag} (h : written.Valid) (selfClosing : Bool)
    (rest : List Char) :
    ∃ tag, readToken ('<' :: (written.text ++ (tagEnd selfClosing ++ rest))) =
        .ok (.opening tag, rest) ∧ tag.Reads written selfClosing := by
  obtain ⟨tag, htag, hreads⟩ := readTag_text h selfClosing rest
  refine ⟨tag, ?_, hreads⟩
  obtain ⟨first, tail, hname, hfirst⟩ := h.name.exists_cons
  have hstart : ∃ cs, written.text ++ (tagEnd selfClosing ++ rest) = first :: cs := by
    rw [WrittenTag.text, hname]
    exact ⟨_, rfl⟩
  obtain ⟨cs, hcs⟩ := hstart
  -- A name begins with none of the signs that other markup begins with.
  have hno : ∀ c ∈ ['!', '?', '/'], first ≠ c := by
    rintro c hc rfl
    refine notMem_nameStops_of_isNameStart hfirst ?_
    simp only [List.mem_cons, List.not_mem_nil, or_false] at hc
    rcases hc with rfl | rfl | rfl
    · decide
    · decide
    · decide
  rw [hcs] at htag ⊢
  rw [readToken, readMarkup]
  · rw [htag]
    rfl
  · rintro _ heq
    exact hno '!' (by decide) (List.cons.inj heq).1
  · rintro _ heq
    exact hno '!' (by decide) (List.cons.inj heq).1
  · rintro _ heq
    exact hno '!' (by decide) (List.cons.inj heq).1
  · rintro _ heq
    exact hno '!' (by decide) (List.cons.inj heq).1
  · rintro _ heq
    exact hno '?' (by decide) (List.cons.inj heq).1
  · rintro _ heq
    exact hno '/' (by decide) (List.cons.inj heq).1

/-- **A closing tag** is read as a token with the name as it is written. -/
theorem readToken_closing {name : Name} {trailing : List Char} (h : name.Valid)
    (htrailing : IsSpaces trailing) (rest : List Char) :
    readToken ('<' :: '/' :: (name.written ++ (trailing ++ '>' :: rest))) =
      .ok (.closing name.written, rest) := by
  obtain ⟨c, cs, hcs, hc, hcolon⟩ := exists_stop_of_spaces htrailing
    (show '>' ∈ nameStops by decide) (by decide) rest
  have hskip : skipSpace (c :: cs) = '>' :: rest := by
    rw [← hcs]
    refine skipSpace_append htrailing ?_
    rintro d ⟨⟩
    decide
  have hsplit : (name.written ++ c :: cs).takeWhile isClosingNameCharacter = name.written ∧
      (name.written ++ c :: cs).dropWhile isClosingNameCharacter = c :: cs :=
    Text.takeWhile_dropWhile_cons h.isClosingNameCharacter
      (isClosingNameCharacter_of_mem_nameStops hc hcolon)
  obtain ⟨first, tail, hname, hfirst⟩ := h.exists_cons
  rw [hcs, readToken, readMarkup]
  rw [hname, List.cons_append] at hsplit ⊢
  simp only [readClosingTag, hfirst, if_true, hsplit, hskip]
  rfl

end IconForge.Xml
