import Mathlib
import IconForge.Proofs.Xml.Checking
import IconForge.Proofs.Xml.Reading

set_option autoImplicit false

/-! # What was read was written

A reader that succeeds has taken the text of a written part off the front: nothing else can be
read as a name, a value, a tag, a comment, an instruction or a section. This is the way back from
`readToken_opening` and its like, and it follows the readers from the smallest parts up to tokens.

References are the one thing that reading does not settle. Any entity and any number can be read,
and only looking them up shows whether they stand for a character; so the values of attributes are
taken to be *known* here, which a tag that passes its check has shown of all of its values
(`known_of_check`). -/

namespace IconForge.Xml

/-! ## White space and names -/

theorem exists_spaces (cs : List Char) :
    ∃ spaces, IsSpaces spaces ∧ cs = spaces ++ skipSpace cs :=
  ⟨cs.takeWhile isSpace, fun _ hc => List.mem_takeWhile_imp hc,
    List.takeWhile_append_dropWhile.symm⟩

theorem isSimpleName_of_readSimpleName {cs name rest : List Char}
    (h : readSimpleName cs = .ok (name, rest)) : IsSimpleName name ∧ cs = name ++ rest := by
  unfold readSimpleName at h
  split at h
  · next first tail =>
    split at h
    · next hfirst =>
      cases h
      have hname : (first :: tail).takeWhile isNameCharacter =
          first :: tail.takeWhile isNameCharacter :=
        List.takeWhile_cons_of_pos (isNameCharacter_of_isNameStart hfirst)
      constructor
      · exact ⟨first, _, hname, hfirst, fun c hc => List.mem_takeWhile_imp hc⟩
      · exact List.takeWhile_append_dropWhile.symm
    · cases h
  · cases h

theorem valid_of_readName {cs rest : List Char} {name : Name}
    (h : readName cs = .ok (name, rest)) : name.Valid ∧ cs = name.written ++ rest := by
  unfold readName at h
  split at h
  · cases h
  · next first behind hfirst =>
    obtain ⟨hqualifier, rfl⟩ := isSimpleName_of_readSimpleName hfirst
    split at h
    · cases h
    · next second after hsecond =>
      obtain ⟨hlocal, rfl⟩ := isSimpleName_of_readSimpleName hsecond
      cases h
      refine ⟨⟨?_, hlocal⟩, ?_⟩
      · rintro q ⟨⟩
        exact hqualifier
      · simp only [Name.written, List.append_assoc, List.cons_append]
  · next hsimple =>
    obtain ⟨hlocal, rfl⟩ := isSimpleName_of_readSimpleName hsimple
    cases h
    refine ⟨⟨?_, hlocal⟩, rfl⟩
    rintro q ⟨⟩

/-! ## References -/

theorem digits_of_readNumber {base : Nat} {digit? : Char → Option Nat} {cs rest : List Char}
    {r : Reference} (h : readNumber base digit? cs = .ok (r, rest)) :
    ∃ digits, digits ≠ [] ∧ (∀ d ∈ digits, (digit? d).isSome) ∧ cs = digits ++ ';' :: rest ∧
      r = .character (Spelled.number base digit? digits) := by
  unfold readNumber at h
  simp only at h
  split at h
  · next behind hsemicolon =>
    split at h
    · cases h
    · next hne =>
      cases h
      refine ⟨cs.takeWhile fun c => (digit? c).isSome, ?_, ?_, ?_, rfl⟩
      · rwa [List.isEmpty_iff] at hne
      · intro d hd
        exact List.mem_takeWhile_imp (p := fun c => (digit? c).isSome) hd
      · rw [← hsemicolon]
        exact List.takeWhile_append_dropWhile.symm
  · cases h

theorem characterOfNumber?_of_character? {number : Nat} {c : Char}
    (h : (Reference.character number).character? = .ok c) :
    characterOfNumber? number = some c := by
  simp only [Reference.character?] at h
  split at h
  · next hsome =>
    cases h
    exact hsome
  · cases h

theorem predefinedEntity?_of_character? {name : List Char} {c : Char}
    (h : (Reference.entity name).character? = .ok c) : predefinedEntity? name = some c := by
  simp only [Reference.character?] at h
  split at h
  · next hsome =>
    cases h
    exact hsome
  · cases h

/-- A reference that stands for a character is read off a way to spell this character. -/
theorem spelled_of_readReference {cs rest : List Char} {r : Reference} {c : Char}
    (h : readReference cs = .ok (r, rest)) (hc : r.character? = .ok c) :
    ∃ s : Spelled, s.Valid ∧ s.reference? = some r ∧ '&' :: cs = s.text ++ rest ∧ s.char = c := by
  unfold readReference at h
  split at h
  · obtain ⟨digits, hne, hdigits, rfl, rfl⟩ := digits_of_readNumber h
    have hcharacter := characterOfNumber?_of_character? hc
    refine ⟨.hexadecimal digits, ⟨hne, hdigits, ?_⟩, rfl, by simp [Spelled.text], ?_⟩
    · rw [hcharacter, Option.isSome_some]
    · rw [Spelled.char, hcharacter, Option.getD_some]
  · obtain ⟨digits, hne, hdigits, rfl, rfl⟩ := digits_of_readNumber h
    have hcharacter := characterOfNumber?_of_character? hc
    refine ⟨.decimal digits, ⟨hne, hdigits, ?_⟩, rfl, by simp [Spelled.text], ?_⟩
    · rw [hcharacter, Option.isSome_some]
    · rw [Spelled.char, hcharacter, Option.getD_some]
  · split at h
    · cases h
    · next hname =>
      obtain ⟨-, rfl⟩ := isSimpleName_of_readSimpleName hname
      cases h
      have hentity := predefinedEntity?_of_character? hc
      refine ⟨.named _, ?_, rfl, by simp [Spelled.text], ?_⟩
      · rw [Spelled.Valid, hentity, Option.isSome_some]
      · rw [Spelled.char, hentity, Option.getD_some]
    · cases h

/-! ## Values -/

/-- A piece of a value stands for a character. -/
def Piece.Known : Piece → Prop
  | .character _ => True
  | .reference r _ => ∃ c, r.character? = .ok c

/-- An attribute whose references are all known. -/
def Attribute.Known (item : Attribute) : Prop :=
  ∀ piece ∈ item.value, piece.Known

theorem known_of_resolveValue {source : List Char} {pieces : List Piece} {value : List Char}
    (h : resolveValue source pieces = .ok value) : ∀ piece ∈ pieces, piece.Known := by
  have hmap : ∀ {f : List Char → List Char} {reading : Except Fault (List Char)}
      {value : List Char}, reading.map f = .ok value → ∃ inner, reading = .ok inner := by
    intro f reading value hreading
    cases reading with
    | error fault => cases hreading
    | ok inner => exact ⟨inner, rfl⟩
  fun_induction resolveValue source pieces generalizing value with
  | case1 => exact fun piece hmem => absurd hmem List.not_mem_nil
  | case2 pieces ih =>
      obtain ⟨inner, hinner⟩ := hmap h
      intro piece hmem
      rcases List.mem_cons.1 hmem with rfl | hmem
      · trivial
      · rcases List.mem_cons.1 hmem with rfl | hmem
        · trivial
        · exact ih hinner piece hmem
  | case3 c pieces _ ih =>
      obtain ⟨inner, hinner⟩ := hmap h
      intro piece hmem
      rcases List.mem_cons.1 hmem with rfl | hmem
      · trivial
      · exact ih hinner piece hmem
  | case4 r place pieces c hc ih =>
      obtain ⟨inner, hinner⟩ := hmap h
      intro piece hmem
      rcases List.mem_cons.1 hmem with rfl | hmem
      · exact ⟨c, hc⟩
      · exact ih hinner piece hmem
  | case5 => cases h
  | case6 => cases h

theorem known_of_checkAttributes {source : List Char} {seen : List Name} {scope inner : Scope}
    {items : List Attribute} (h : checkAttributes source seen scope items = .ok inner) :
    ∀ item ∈ items, item.Known := by
  induction items generalizing seen scope with
  | nil => exact fun item hmem => absurd hmem List.not_mem_nil
  | cons first items ih =>
      obtain ⟨-, value, hvalue, -, hrest⟩ := checkAttributes_cons_eq_ok_iff.1 h
      exact List.forall_mem_cons.2 ⟨known_of_resolveValue hvalue, ih hrest⟩

/-- A tag that passes its check has known values. -/
theorem known_of_check {tag : Tag} {source : List Char} {scope inner : Scope}
    (h : tag.check source scope = .ok inner) : ∀ item ∈ tag.attributes, item.Known :=
  known_of_checkAttributes (Tag.check_eq_ok_iff.1 h).1

theorem value_of_readValue {quote : Char} {cs rest : List Char} {pieces : List Piece}
    (h : readValue quote cs = .ok (pieces, rest)) (hknown : ∀ piece ∈ pieces, piece.Known) :
    ∃ value : List Spelled, (∀ s ∈ value, s.Valid ∧ s ≠ .plain quote) ∧
      cs = value.flatMap Spelled.text ++ quote :: rest ∧
      List.Forall₂ Piece.Reads pieces value := by
  fun_induction readValue quote cs generalizing pieces rest with
  | case1 => cases h
  | case2 =>
      cases h
      exact ⟨[], fun s hs => absurd hs List.not_mem_nil, rfl, .nil⟩
  | case3 => cases h
  | case4 => cases h
  | case5 =>
      rename_i hreference _ _ _ hvalue _ ih
      cases h
      -- A reference was looked up later, so it is known to stand for a character.
      obtain ⟨c, hc⟩ := hknown _ List.mem_cons_self
      obtain ⟨s, hvalid, hs, htext, hchar⟩ := spelled_of_readReference hreference hc
      obtain ⟨value, hall, rfl, hreads⟩ :=
        ih hvalue fun piece hmem => hknown piece (List.mem_cons_of_mem _ hmem)
      refine ⟨s :: value, ?_, ?_, .cons (.reference _ hs ?_) hreads⟩
      · intro t ht
        rcases List.mem_cons.1 ht with rfl | ht
        · refine ⟨hvalid, ?_⟩
          rintro rfl
          cases hs
        · exact hall t ht
      · rw [htext, List.flatMap_cons, List.append_assoc]
      · rw [hc, hchar]
  | case6 => cases h
  | case7 => cases h
  | case8 =>
      rename_i c tail hquote hamp hstop pieces' after hvalue ih
      cases h
      obtain ⟨value, hall, rfl, hreads⟩ :=
        ih hvalue fun piece hmem => hknown piece (List.mem_cons_of_mem _ hmem)
      simp only [Bool.or_eq_true, decide_eq_true_eq, Bool.not_eq_true', not_or,
        Bool.not_eq_false] at hstop
      refine ⟨.plain c :: value, ?_, rfl, .cons (.character c) hreads⟩
      intro t ht
      rcases List.mem_cons.1 ht with rfl | ht
      · exact ⟨⟨hstop.2, hstop.1, hamp⟩, fun heq => hquote (Spelled.plain.inj heq)⟩
      · exact hall t ht

/-! ## Tags -/

theorem attribute_of_readAttribute {cs rest : List Char} {item : Attribute}
    (h : readAttribute cs = .ok (item, rest)) (hknown : item.Known) {gap : List Char}
    (hne : gap ≠ []) (hgap : IsSpaces gap) :
    ∃ a : WrittenAttribute, a.Valid ∧ gap ++ cs = a.text ++ rest ∧ item.Reads a := by
  unfold readAttribute at h
  split at h
  · cases h
  · next name afterName hname =>
    obtain ⟨hvalid, rfl⟩ := valid_of_readName hname
    obtain ⟨before, hbefore, hbeforeText⟩ := exists_spaces afterName
    split at h
    · next afterSign hsign =>
      obtain ⟨after, hafter, hafterText⟩ := exists_spaces afterSign
      split at h
      · next quote tail hopening =>
        split at h
        · next hquote =>
          split at h
          · cases h
          · next value behind hvalue =>
            cases h
            -- All parts are known now, so the attribute is written as it was read.
            obtain ⟨spelled, hall, rfl, hreads⟩ := value_of_readValue hvalue hknown
            rw [Bool.or_eq_true, decide_eq_true_eq, decide_eq_true_eq] at hquote
            refine ⟨⟨gap, name, before, after, quote, spelled⟩,
              ⟨hne, hgap, hvalid, hbefore, hafter, hquote, hall⟩, ?_, rfl, hreads⟩
            rw [hbeforeText, hsign, hafterText, hopening]
            simp [WrittenAttribute.text, WrittenAttribute.body]
        · cases h
      · cases h
    · cases h

theorem isSpaces_cons {c : Char} {spaces : List Char} (hc : isSpace c) (h : IsSpaces spaces) :
    IsSpaces (c :: spaces) :=
  List.forall_mem_cons.2 ⟨hc, h⟩

theorem attributes_of_readAttributes {cs rest : List Char} {items : List Attribute}
    {selfClosing : Bool} (h : readAttributes cs = .ok ((items, selfClosing), rest))
    (hknown : ∀ item ∈ items, item.Known) :
    ∃ (attributes : List WrittenAttribute) (trailing : List Char), (∀ a ∈ attributes, a.Valid) ∧
      IsSpaces trailing ∧ cs = attributes.flatMap WrittenAttribute.text ++
        (trailing ++ (tagEnd selfClosing ++ rest)) ∧
      List.Forall₂ Attribute.Reads items attributes := by
  have hnone : ∀ a ∈ ([] : List WrittenAttribute), a.Valid :=
    fun a ha => absurd ha List.not_mem_nil
  have hspaces : IsSpaces [] := fun c hc => absurd hc List.not_mem_nil
  -- The cases that end well are the ends of a tag and one more attribute.
  fun_induction readAttributes cs generalizing items selfClosing rest with
  | case1 => cases h
  | case2 =>
      cases h
      exact ⟨[], [], hnone, hspaces, rfl, .nil⟩
  | case3 =>
      cases h
      exact ⟨[], [], hnone, hspaces, rfl, .nil⟩
  | case4 => cases h
  | case5 =>
      rename_i c tail _ _ _ hc behind hnext
      cases h
      obtain ⟨spaces, hall, htext⟩ := exists_spaces tail
      refine ⟨[], c :: spaces, hnone, isSpaces_cons hc hall, ?_, .nil⟩
      rw [htext, hnext]
      rfl
  | case6 =>
      rename_i c tail _ _ _ hc behind hnext
      cases h
      obtain ⟨spaces, hall, htext⟩ := exists_spaces tail
      refine ⟨[], c :: spaces, hnone, isSpaces_cons hc hall, ?_, .nil⟩
      rw [htext, hnext]
      rfl
  | case7 => cases h
  | case8 => cases h
  | case9 => cases h
  | case10 =>
      rename_i c tail _ _ _ hc _ _ _ _ _ hattributes _ _ _ hitem _ ih
      cases h
      obtain ⟨spaces, hall, htext⟩ := exists_spaces tail
      obtain ⟨a, ha, hattribute, hread⟩ := attribute_of_readAttribute hitem
        (hknown _ List.mem_cons_self) (List.cons_ne_nil c spaces) (isSpaces_cons hc hall)
      obtain ⟨attributes, trailing, hvalid, htrailing, rfl, hreads⟩ :=
        ih hattributes fun other hmem => hknown other (List.mem_cons_of_mem _ hmem)
      refine ⟨a :: attributes, trailing, List.forall_mem_cons.2 ⟨ha, hvalid⟩, htrailing, ?_,
        .cons hread hreads⟩
      calc c :: tail = c :: spaces ++ skipSpace tail := by rw [List.cons_append, ← htext]
        _ = _ := by rw [hattribute, List.flatMap_cons, List.append_assoc]
  | case11 => cases h

/-- What is read as an opening tag is a tag as it is written, with its end. -/
theorem written_of_readTag {cs rest : List Char} {tag : Tag} (h : readTag cs = .ok (tag, rest))
    (hknown : ∀ item ∈ tag.attributes, item.Known) :
    ∃ written : WrittenTag, written.Valid ∧
      cs = written.text ++ (tagEnd tag.selfClosing ++ rest) ∧
      tag.Reads written tag.selfClosing := by
  unfold readTag at h
  split at h
  · cases h
  · next name behind hname =>
    obtain ⟨hvalid, rfl⟩ := valid_of_readName hname
    split at h
    · cases h
    · next hattributes =>
      cases h
      obtain ⟨attributes, trailing, hall, htrailing, rfl, hreads⟩ :=
        attributes_of_readAttributes hattributes hknown
      refine ⟨⟨name, attributes, trailing⟩, ⟨hvalid, hall, htrailing⟩, ?_, rfl, hreads, rfl⟩
      simp only [WrittenTag.text, List.append_assoc]

theorem spaces_of_readClosingTag {cs name rest : List Char}
    (h : readClosingTag cs = .ok (name, rest)) :
    ∃ trailing, IsSpaces trailing ∧ cs = name ++ (trailing ++ '>' :: rest) := by
  unfold readClosingTag at h
  split at h
  · cases h
  · split at h
    · split at h
      · next tail _ _ hend =>
        cases h
        obtain ⟨trailing, htrailing, htext⟩ :=
          exists_spaces (List.dropWhile isClosingNameCharacter _)
        rw [hend] at htext
        refine ⟨trailing, htrailing, ?_⟩
        rw [← htext]
        exact List.takeWhile_append_dropWhile.symm
      · cases h
    · cases h

/-! ## Comments, instructions and sections -/

/-- Legal characters among which a mark does not occur. -/
structure Stretch (mark body : List Char) : Prop where
  legal : ∀ c ∈ body, isLegal c
  free : ¬ mark <:+: body

theorem Stretch.nil {mark : List Char} (h : mark ≠ []) : Stretch mark [] where
  legal := fun _ hc => absurd hc List.not_mem_nil
  free := fun hmark => h (List.infix_nil.1 hmark)

/-- A character in front of a stretch, when the mark does not begin with it in the whole text. -/
theorem Stretch.cons {mark body : List Char} {c : Char} (h : Stretch mark body) (hc : isLegal c)
    (rest : List Char) (hmark : ¬ mark <+: c :: (body ++ rest)) : Stretch mark (c :: body) where
  legal := List.forall_mem_cons.2 ⟨hc, h.legal⟩
  free := by
    rw [List.infix_cons_iff, not_or]
    exact ⟨fun hbody => hmark (hbody.trans (List.prefix_append (c :: body) rest)), h.free⟩

/-- Two hyphens stand nowhere in a comment, and no hyphen at its end. -/
theorem stretch_of_readComment {cs rest : List Char} (h : readComment cs = .ok rest) :
    ∃ body, Stretch ['-', '-'] (body ++ ['-']) ∧ cs = body ++ '-' :: '-' :: '>' :: rest := by
  fun_induction readComment cs with
  | case1 => cases h
  | case2 =>
      cases h
      exact ⟨[], (Stretch.nil (List.cons_ne_nil _ _)).cons (by decide) [] (by decide), rfl⟩
  | case3 => cases h
  | case4 c tail _ hhyphens hlegal ih =>
      obtain ⟨body, hbody, rfl⟩ := ih h
      refine ⟨c :: body, hbody.cons hlegal ('-' :: '>' :: rest) ?_, rfl⟩
      rw [List.append_assoc]
      rintro ⟨more, hmore⟩
      have hmore := List.cons.inj hmore
      exact hhyphens _ hmore.1.symm hmore.2.symm
  | case5 => cases h

theorem stretch_of_readInstructionText {cs rest : List Char}
    (h : readInstructionText cs = .ok rest) :
    ∃ body, Stretch ['?', '>'] body ∧ cs = body ++ '?' :: '>' :: rest := by
  fun_induction readInstructionText cs with
  | case1 => cases h
  | case2 =>
      cases h
      exact ⟨[], .nil (List.cons_ne_nil _ _), rfl⟩
  | case3 c tail hend hlegal ih =>
      obtain ⟨body, hbody, rfl⟩ := ih h
      refine ⟨c :: body, hbody.cons hlegal ('?' :: '>' :: rest) ?_, rfl⟩
      rintro ⟨more, hmore⟩
      have hmore := List.cons.inj hmore
      exact hend _ hmore.1.symm hmore.2.symm
  | case4 => cases h

theorem stretch_of_readSection {cs rest : List Char} (h : readSection cs = .ok rest) :
    ∃ body, Stretch [']', ']', '>'] body ∧ cs = body ++ ']' :: ']' :: '>' :: rest := by
  fun_induction readSection cs with
  | case1 => cases h
  | case2 =>
      cases h
      exact ⟨[], .nil (List.cons_ne_nil _ _), rfl⟩
  | case3 c tail hend hlegal ih =>
      obtain ⟨body, hbody, rfl⟩ := ih h
      refine ⟨c :: body, hbody.cons hlegal (']' :: ']' :: '>' :: rest) ?_, rfl⟩
      rintro ⟨more, hmore⟩
      have hmore := List.cons.inj hmore
      exact hend _ hmore.1.symm hmore.2.symm
  | case4 => cases h

theorem eq_append_of_readWord {word cs rest : List Char} (h : readWord word cs = .ok rest) :
    cs = word ++ rest := by
  fun_induction readWord word cs with
  | case1 =>
      cases h
      rfl
  | case2 => cases h
  | case3 w word cs ih => rw [ih h, List.cons_append]
  | case4 => cases h

/-- What is read as an instruction has a target, and white space behind it when more follows. -/
theorem stretch_of_readInstruction {cs rest : List Char} {isDeclaration : Bool}
    (h : readInstruction cs = .ok (isDeclaration, rest)) :
    ∃ target body, IsSimpleName target ∧ isDeclaration = decide (Target.of target = .declaration) ∧
      Target.of target ≠ .reserved ∧ (∀ c ∈ body.head?, isSpace c) ∧ Stretch ['?', '>'] body ∧
      cs = target ++ (body ++ '?' :: '>' :: rest) := by
  unfold readInstruction at h
  split at h
  · cases h
  · cases h
  · next target c tail hname =>
    obtain ⟨htarget, rfl⟩ := isSimpleName_of_readSimpleName hname
    split at h
    · next hc =>
      split at h
      · cases h
      · next hreserved =>
        simp only at h
        split at h
        · next hmark =>
          split at h
          · cases h
            refine ⟨target, [], htarget, rfl, hreserved, ?_, .nil (List.cons_ne_nil _ _), ?_⟩
            · rintro d ⟨⟩
            · rw [hmark, List.nil_append]
          · cases h
        · next hmark =>
          split at h
          · cases h
          · next htext =>
            cases h
            obtain ⟨body, hbody, rfl⟩ := stretch_of_readInstructionText htext
            rw [decide_eq_false hmark, Bool.or_false] at hc
            -- The white space behind the target belongs to the body.
            refine ⟨target, c :: body, htarget, rfl, hreserved, ?_, ?_, rfl⟩
            · rintro d ⟨⟩
              exact hc
            · refine hbody.cons (of_isSpace (by decide) hc) [] ?_
              rintro ⟨more, hmore⟩
              exact hmark (List.cons.inj hmore).1.symm
    · cases h

/-! ## Tokens -/

/-- How a token was read off a text, with the rest behind it: what it begins with says which part
was read. -/
inductive Token.From : Token → List Char → List Char → Prop where
  | character {c : Char} {rest : List Char} (hlegal : isLegal c) (hlt : c ≠ '<') (hamp : c ≠ '&')
      (hsection : ¬ (c = ']' ∧ [']', '>'] <+: rest)) : Token.From (.character c) (c :: rest) rest
  | reference {r : Reference} {cs rest : List Char} (h : readReference cs = .ok (r, rest)) :
      Token.From (.reference r) ('&' :: cs) rest
  | opening {tag : Tag} {cs rest : List Char} (h : readTag cs = .ok (tag, rest)) :
      Token.From (.opening tag) ('<' :: cs) rest
  | closing {name cs rest : List Char} (h : readClosingTag cs = .ok (name, rest)) :
      Token.From (.closing name) ('<' :: '/' :: cs) rest
  | comment {cs rest : List Char} (h : readComment cs = .ok rest) :
      Token.From .comment ('<' :: '!' :: '-' :: '-' :: cs) rest
  | instruction {cs rest : List Char} (h : readInstruction cs = .ok (false, rest)) :
      Token.From .instruction ('<' :: '?' :: cs) rest
  | declaration {cs rest : List Char} (h : readInstruction cs = .ok (true, rest)) :
      Token.From .declaration ('<' :: '?' :: cs) rest
  | section {cs rest : List Char} (h : readSection cs = .ok rest) :
      Token.From .section ('<' :: '!' :: '[' :: (['C', 'D', 'A', 'T', 'A', '['] ++ cs)) rest

theorem Token.from_of_readMarkup {cs rest : List Char} {token : Token}
    (h : readMarkup cs = .ok (token, rest)) : token.From ('<' :: cs) rest := by
  unfold readMarkup at h
  split at h
  · obtain ⟨_, hread, heq⟩ := ok_of_map_eq_ok h
    cases heq
    exact .comment hread
  · cases h
  · split at h
    · cases h
    · next hword =>
      obtain ⟨_, hread, heq⟩ := ok_of_map_eq_ok h
      cases heq
      rw [eq_append_of_readWord hword]
      exact .section hread
  · cases h
  · obtain ⟨⟨isDeclaration, _⟩, hread, heq⟩ := ok_of_map_eq_ok h
    cases heq
    cases isDeclaration with
    | true => exact .declaration hread
    | false => exact .instruction hread
  · obtain ⟨_, hread, heq⟩ := ok_of_map_eq_ok h
    cases heq
    exact .closing hread
  · obtain ⟨_, hread, heq⟩ := ok_of_map_eq_ok h
    cases heq
    exact .opening hread

/-- **Every token comes from its own kind of part.** -/
theorem Token.from_of_readToken {cs rest : List Char} {token : Token}
    (h : readToken cs = .ok (token, rest)) : token.From cs rest := by
  unfold readToken at h
  split at h
  · cases h
  · exact from_of_readMarkup h
  · obtain ⟨_, hread, heq⟩ := ok_of_map_eq_ok h
    cases heq
    exact .reference hread
  · cases h
  · next c tail hlt hamp hsection =>
    split at h
    · next hlegal =>
      cases h
      refine .character hlegal hlt hamp ?_
      rintro ⟨hbracket, more, hmore⟩
      exact hsection more hbracket hmore.symm
    · cases h

end IconForge.Xml
