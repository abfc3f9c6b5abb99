import Mathlib
import IconForge.Proofs.Xml.Balance

set_option autoImplicit false

/-! # Faults lie in the text

The place of a fault is kept as the rest of the text from there on. It is the rest at the character
that cannot be read, at the front of a token, of a tag's name, of an attribute or of a reference, or
at the end of the text; and in all of these cases it is a rest of the very text that is read. Each
reader is shown to stay in its text (`StaysIn`), whether it stops or succeeds, together with the
places that it hands on for later faults. So every token does (`staysIn_readToken`), a step finds
its fault in the text from its token on (`suffix_of_take`), and a fault of content lies in the
content or in what follows it (`suffix_of_readContent`). -/

namespace IconForge.Xml

variable {cs text : List Char}

/-! ## Where a reader stops -/

/-- The rest of a text from where a reader stopped. Nothing is left of a text that ends early. -/
def Stop.rest : Stop → List Char
  | .invalid rest => rest
  | .unfinished => []
  | .unclosedSection => []

theorem Stop.rest_before (cs : List Char) : (Stop.before cs).rest = cs := by
  cases cs with
  | nil => rfl
  | cons c cs => rfl

/-- A reader stays in a text: it stops inside of it, or what it reads keeps to it. -/
def StaysIn (text : List Char) {α : Type} (keeps : α → Prop) : Except Stop α → Prop
  | .ok a => keeps a
  | .error stop => stop.rest <:+ text

namespace StaysIn

variable {α β : Type} {keeps : α → Prop} {reading : Except Stop α}

theorem ok (h : StaysIn text keeps reading) {a : α} (hreading : reading = .ok a) : keeps a := by
  rwa [hreading] at h

theorem error (h : StaysIn text keeps reading) {stop : Stop} (hreading : reading = .error stop) :
    stop.rest <:+ text := by
  rwa [hreading] at h

/-- A reader that stays in the rest of a text stays in the text. -/
theorem mono {keeps' : α → Prop} (h : StaysIn cs keeps reading) (hcs : cs <:+ text)
    (hkeeps : ∀ a, keeps a → keeps' a) : StaysIn text keeps' reading := by
  cases reading with
  | ok a => exact hkeeps a h
  | error stop => exact List.IsSuffix.trans h hcs

theorem of_suffix {behind : α → List Char} (h : StaysIn cs (fun a => behind a <:+ cs) reading)
    (hcs : cs <:+ text) : StaysIn text (fun a => behind a <:+ text) reading :=
  h.mono hcs fun _ hbehind => hbehind.trans hcs

theorem map {f : α → β} {keeps : β → Prop} (h : StaysIn text (fun a => keeps (f a)) reading) :
    StaysIn text keeps (reading.map f) := by
  cases reading with
  | ok a => exact h
  | error stop => exact h

theorem before {keeps : α → Prop} (h : cs <:+ text) :
    StaysIn text keeps (.error (Stop.before cs)) := by
  rwa [StaysIn, Stop.rest_before]

end StaysIn

theorem skipSpace_suffix (cs : List Char) : skipSpace cs <:+ cs :=
  List.dropWhile_suffix isSpace

theorem suffix_of_cons {c : Char} (h : c :: cs <:+ text) : cs <:+ text :=
  (List.suffix_cons c cs).trans h

/-! ## Names and references -/

theorem staysIn_readSimpleName (cs : List Char) :
    StaysIn cs (fun answer => answer.2 <:+ cs) (readSimpleName cs) := by
  unfold readSimpleName
  split
  · split
    · exact List.dropWhile_suffix _
    · exact List.suffix_refl _
  · exact List.suffix_refl _

theorem staysIn_readName (cs : List Char) :
    StaysIn cs (fun answer => answer.2 <:+ cs) (readName cs) := by
  unfold readName
  split
  · next hfirst => exact (staysIn_readSimpleName cs).error hfirst
  · next rest hfirst =>
    have hrest : rest <:+ cs := suffix_of_cons ((staysIn_readSimpleName cs).ok hfirst)
    split
    · next hsecond => exact ((staysIn_readSimpleName rest).error hsecond).trans hrest
    · next hsecond => exact ((staysIn_readSimpleName rest).ok hsecond).trans hrest
  · next hfirst => exact (staysIn_readSimpleName cs).ok hfirst

theorem staysIn_readNumber (base : Nat) (digit? : Char → Option Nat) (cs : List Char) :
    StaysIn cs (fun answer => answer.2 <:+ cs) (readNumber base digit? cs) := by
  have hdigits : cs.dropWhile (fun c => (digit? c).isSome) <:+ cs := List.dropWhile_suffix _
  unfold readNumber
  simp only
  split
  · next rest hrest =>
    rw [hrest] at hdigits
    split
    · exact hdigits
    · exact suffix_of_cons hdigits
  · exact .before hdigits

theorem staysIn_readReference (cs : List Char) :
    StaysIn cs (fun answer => answer.2 <:+ cs) (readReference cs) := by
  unfold readReference
  split
  · next rest =>
    have hrest : rest <:+ '#' :: 'x' :: rest := suffix_of_cons (List.suffix_cons '#' _)
    exact (staysIn_readNumber _ _ rest).of_suffix hrest
  · next rest _ =>
    have hrest : rest <:+ '#' :: rest := List.suffix_cons '#' rest
    exact (staysIn_readNumber _ _ rest).of_suffix hrest
  · split
    · next hname => exact (staysIn_readSimpleName _).error hname
    · next hname => exact suffix_of_cons ((staysIn_readSimpleName _).ok hname)
    · next hname => exact .before ((staysIn_readSimpleName _).ok hname)

/-! ## Tags -/

/-- The place of a reference in a value is in the text. -/
def Piece.LiesIn (text : List Char) : Piece → Prop
  | .character _ => True
  | .reference _ source => source <:+ text

structure Attribute.LiesIn (text : List Char) (item : Attribute) : Prop where
  source : item.source <:+ text
  value : ∀ piece ∈ item.value, piece.LiesIn text

def Tag.LiesIn (text : List Char) (tag : Tag) : Prop :=
  ∀ item ∈ tag.attributes, item.LiesIn text

theorem Piece.LiesIn.mono {piece : Piece} (h : piece.LiesIn cs) (hcs : cs <:+ text) :
    piece.LiesIn text := by
  cases piece with
  | character c => trivial
  | reference r source => exact List.IsSuffix.trans h hcs

theorem Attribute.LiesIn.mono {item : Attribute} (h : item.LiesIn cs) (hcs : cs <:+ text) :
    item.LiesIn text where
  source := h.source.trans hcs
  value := fun piece hpiece => (h.value piece hpiece).mono hcs

theorem staysIn_readValue (quote : Char) (cs : List Char) :
    StaysIn cs (fun answer => answer.2 <:+ cs ∧ ∀ piece ∈ answer.1, piece.LiesIn cs)
      (readValue quote cs) := by
  fun_induction readValue quote cs with
  | case1 => exact List.suffix_refl _
  | case2 => exact ⟨List.suffix_cons _ _, List.forall_mem_nil _⟩
  | case3 =>
      rename_i hreference _
      exact ((staysIn_readReference _).error hreference).trans (List.suffix_cons _ _)
  | case4 =>
      rename_i hreference _ _ hvalue _ ih
      exact ((ih.error hvalue).trans ((staysIn_readReference _).ok hreference)).trans
        (List.suffix_cons _ _)
  | case5 =>
      rename_i hreference _ _ _ hvalue _ ih
      have hbehind := ((staysIn_readReference _).ok hreference).trans (List.suffix_cons '&' _)
      obtain ⟨hrest, hpieces⟩ := ih.ok hvalue
      refine ⟨hrest.trans hbehind, List.forall_mem_cons.2 ⟨List.suffix_refl _, ?_⟩⟩
      exact fun piece hpiece => (hpieces piece hpiece).mono hbehind
  | case6 => exact List.suffix_refl _
  | case7 =>
      rename_i hvalue ih
      exact (ih.error hvalue).trans (List.suffix_cons _ _)
  | case8 =>
      rename_i hvalue ih
      obtain ⟨hrest, hpieces⟩ := ih.ok hvalue
      refine ⟨hrest.trans (List.suffix_cons _ _), List.forall_mem_cons.2 ⟨trivial, ?_⟩⟩
      exact fun piece hpiece => (hpieces piece hpiece).mono (List.suffix_cons _ _)

theorem staysIn_readAttribute (cs : List Char) :
    StaysIn cs (fun answer => answer.2 <:+ cs ∧ answer.1.LiesIn cs) (readAttribute cs) := by
  unfold readAttribute
  split
  · next hname => exact (staysIn_readName cs).error hname
  · next afterName hname =>
    -- Each reader begins behind the last one, so what it leaves is a rest of the whole.
    have hafterName : skipSpace afterName <:+ cs :=
      (skipSpace_suffix afterName).trans ((staysIn_readName cs).ok hname)
    split
    · next afterEquals hequals =>
      rw [hequals] at hafterName
      have hafterEquals : skipSpace afterEquals <:+ cs :=
        (skipSpace_suffix afterEquals).trans (suffix_of_cons hafterName)
      split
      · next quote afterQuote hquote =>
        rw [hquote] at hafterEquals
        have hafterQuote : afterQuote <:+ cs := suffix_of_cons hafterEquals
        split
        · split
          · next hvalue =>
            exact ((staysIn_readValue quote afterQuote).error hvalue).trans hafterQuote
          · next hvalue =>
            obtain ⟨hrest, hpieces⟩ := (staysIn_readValue quote afterQuote).ok hvalue
            exact ⟨hrest.trans hafterQuote, List.suffix_refl _,
              fun piece hpiece => (hpieces piece hpiece).mono hafterQuote⟩
        · exact hafterEquals
      · exact List.nil_suffix
    · exact .before hafterName

/-- What white space is skipped from is a rest of the text in front of it. -/
theorem suffix_of_skipSpace {c : Char} {next : List Char} (h : skipSpace cs = next) :
    next <:+ c :: cs :=
  (h ▸ skipSpace_suffix cs).trans (List.suffix_cons c cs)

theorem staysIn_readAttributes (cs : List Char) :
    StaysIn cs (fun answer => answer.2 <:+ cs ∧ ∀ item ∈ answer.1.1, item.LiesIn cs)
      (readAttributes cs) := by
  -- The cases are the ends of a tag, a fault of an attribute and one more attribute.
  fun_induction readAttributes cs with
  | case1 => exact List.suffix_refl _
  | case2 => exact ⟨List.suffix_cons _ _, List.forall_mem_nil _⟩
  | case3 => exact ⟨suffix_of_cons (List.suffix_cons _ _), List.forall_mem_nil _⟩
  | case4 => exact .before (List.suffix_cons _ _)
  | case5 =>
      rename_i hnext
      exact ⟨suffix_of_cons (suffix_of_skipSpace hnext), List.forall_mem_nil _⟩
  | case6 =>
      rename_i hnext
      exact ⟨suffix_of_cons (suffix_of_cons (suffix_of_skipSpace hnext)), List.forall_mem_nil _⟩
  | case7 =>
      rename_i hnext
      exact .before (suffix_of_cons (suffix_of_skipSpace hnext))
  | case8 =>
      rename_i hitem
      exact ((staysIn_readAttribute _).error hitem).trans (suffix_of_skipSpace rfl)
  | case9 =>
      rename_i hattributes _ _ _ hitem _ ih
      have hbehind := ((staysIn_readAttribute _).ok hitem).1
      exact (ih.error hattributes).trans (hbehind.trans (suffix_of_skipSpace rfl))
  | case10 =>
      rename_i hattributes _ _ _ hitem _ ih
      obtain ⟨hbehind, hfirst⟩ := (staysIn_readAttribute _).ok hitem
      obtain ⟨hrest, hitems⟩ := ih.ok hattributes
      refine ⟨(hrest.trans hbehind).trans (suffix_of_skipSpace rfl),
        List.forall_mem_cons.2 ⟨hfirst.mono (suffix_of_skipSpace rfl), fun item hmem => ?_⟩⟩
      exact ((hitems item hmem).mono hbehind).mono (suffix_of_skipSpace rfl)
  | case11 => exact List.suffix_refl _

theorem staysIn_readTag (cs : List Char) :
    StaysIn cs (fun answer => answer.2 <:+ cs ∧ answer.1.LiesIn cs) (readTag cs) := by
  unfold readTag
  split
  · next hname => exact (staysIn_readName cs).error hname
  · next rest hname =>
    have hrest : rest <:+ cs := (staysIn_readName cs).ok hname
    split
    · next hattributes => exact ((staysIn_readAttributes rest).error hattributes).trans hrest
    · next hattributes =>
      obtain ⟨hbehind, hitems⟩ := (staysIn_readAttributes rest).ok hattributes
      exact ⟨hbehind.trans hrest, fun item hmem => (hitems item hmem).mono hrest⟩

theorem staysIn_readClosingTag (cs : List Char) :
    StaysIn cs (fun answer => answer.2 <:+ cs) (readClosingTag cs) := by
  unfold readClosingTag
  split
  · exact List.suffix_refl _
  · next c tail =>
    have hskip : skipSpace ((c :: tail).dropWhile isClosingNameCharacter) <:+ c :: tail :=
      (skipSpace_suffix _).trans (List.dropWhile_suffix _)
    split
    · split
      · next hrest => exact suffix_of_cons (hrest ▸ hskip)
      · exact .before hskip
    · exact List.suffix_refl _

/-! ## Comments, instructions and sections -/

theorem staysIn_readComment (cs : List Char) : StaysIn cs (· <:+ cs) (readComment cs) := by
  fun_induction readComment cs with
  | case1 => exact List.suffix_refl _
  | case2 rest => exact suffix_of_cons (suffix_of_cons (List.suffix_cons _ _))
  | case3 rest => exact .before (suffix_of_cons (List.suffix_cons _ _))
  | case4 c rest _ _ _ ih => exact ih.of_suffix (List.suffix_cons c rest)
  | case5 => exact List.suffix_refl _

theorem staysIn_readInstructionText (cs : List Char) :
    StaysIn cs (· <:+ cs) (readInstructionText cs) := by
  fun_induction readInstructionText cs with
  | case1 => exact List.suffix_refl _
  | case2 rest => exact suffix_of_cons (List.suffix_cons _ _)
  | case3 c rest _ _ ih => exact ih.of_suffix (List.suffix_cons c rest)
  | case4 => exact List.suffix_refl _

theorem staysIn_readSection (cs : List Char) : StaysIn cs (· <:+ cs) (readSection cs) := by
  fun_induction readSection cs with
  | case1 => exact List.suffix_refl _
  | case2 rest => exact suffix_of_cons (suffix_of_cons (List.suffix_cons _ _))
  | case3 c rest _ _ ih => exact ih.of_suffix (List.suffix_cons c rest)
  | case4 => exact List.suffix_refl _

theorem staysIn_readWord (word cs : List Char) : StaysIn cs (· <:+ cs) (readWord word cs) := by
  fun_induction readWord word cs with
  | case1 => exact List.suffix_refl _
  | case2 => exact List.suffix_refl _
  | case3 word c cs ih => exact ih.of_suffix (List.suffix_cons c cs)
  | case4 => exact List.suffix_refl _

theorem staysIn_readInstruction (cs : List Char) :
    StaysIn cs (fun answer => answer.2 <:+ cs) (readInstruction cs) := by
  unfold readInstruction
  split
  · next hname => exact (staysIn_readSimpleName cs).error hname
  · exact List.nil_suffix
  · next name c rest hname =>
    have hrest : c :: rest <:+ cs := (staysIn_readSimpleName cs).ok hname
    split
    · split
      · exact hrest
      · have htail : rest <:+ cs := suffix_of_cons hrest
        simp only
        split
        · split
          · exact suffix_of_cons htail
          · exact .before htail
        · split
          · next htext => exact ((staysIn_readInstructionText rest).error htext).trans htail
          · next htext => exact ((staysIn_readInstructionText rest).ok htext).trans htail
    · exact hrest

/-! ## Tokens -/

def Token.LiesIn (text : List Char) : Token → Prop
  | .opening tag => tag.LiesIn text
  | _ => True

theorem staysIn_readMarkup (cs : List Char) :
    StaysIn cs (fun answer => answer.2 <:+ cs ∧ answer.1.LiesIn cs) (readMarkup cs) := by
  unfold readMarkup
  split
  · next rest =>
    have hrest : rest <:+ '!' :: '-' :: '-' :: rest :=
      suffix_of_cons (suffix_of_cons (List.suffix_cons _ _))
    exact .map ((staysIn_readComment rest).mono hrest fun _ h => ⟨h.trans hrest, trivial⟩)
  · exact .before (suffix_of_cons (List.suffix_cons _ _))
  · next rest =>
    have hrest : rest <:+ '!' :: '[' :: rest := suffix_of_cons (List.suffix_cons _ _)
    split
    · next hword => exact ((staysIn_readWord _ rest).error hword).trans hrest
    · next body hword =>
      have hbody := ((staysIn_readWord _ rest).ok hword).trans hrest
      exact .map ((staysIn_readSection body).mono hbody fun _ h => ⟨h.trans hbody, trivial⟩)
  · exact .before (List.suffix_cons _ _)
  · next rest =>
    have hrest : rest <:+ '?' :: rest := List.suffix_cons _ _
    refine .map ((staysIn_readInstruction rest).mono hrest fun answer h => ⟨h.trans hrest, ?_⟩)
    obtain ⟨isDeclaration, behind⟩ := answer
    cases isDeclaration with
    | true => trivial
    | false => trivial
  · next rest =>
    have hrest : rest <:+ '/' :: rest := List.suffix_cons _ _
    exact .map ((staysIn_readClosingTag rest).mono hrest fun _ h => ⟨h.trans hrest, trivial⟩)
  · exact .map (staysIn_readTag _)

theorem Token.LiesIn.mono {token : Token} (h : token.LiesIn cs) (hcs : cs <:+ text) :
    token.LiesIn text := by
  cases token with
  | opening tag => exact fun item hmem => (h item hmem).mono hcs
  | _ => trivial

/-- **A token is read inside of the text**, and so are the places that it keeps. -/
theorem staysIn_readToken (cs : List Char) :
    StaysIn cs (fun answer => answer.2 <:+ cs ∧ answer.1.LiesIn cs) (readToken cs) := by
  unfold readToken
  split
  · exact List.suffix_refl _
  · next rest =>
    have hrest : rest <:+ '<' :: rest := List.suffix_cons _ _
    exact (staysIn_readMarkup rest).mono hrest fun _ h => ⟨h.1.trans hrest, h.2.mono hrest⟩
  · next rest =>
    have hrest : rest <:+ '&' :: rest := List.suffix_cons _ _
    exact .map ((staysIn_readReference rest).mono hrest fun _ h => ⟨h.trans hrest, trivial⟩)
  · exact suffix_of_cons (List.suffix_cons _ _)
  · split
    · exact ⟨List.suffix_cons _ _, trivial⟩
    · exact List.suffix_refl _

/-! ## Steps -/

theorem suffix_toFault {stop : Stop} (h : stop.rest <:+ text) (hcs : cs <:+ text) :
    (stop.toFault cs).rest <:+ text := by
  cases stop with
  | invalid rest => exact h
  | unfinished => exact hcs
  | unclosedSection => exact List.nil_suffix

/-- A mapped reading fails only where the reading does. -/
theorem error_of_map_eq_error {ε α β : Type} {f : α → β} {reading : Except ε α} {fault : ε}
    (h : reading.map f = .error fault) : reading = .error fault := by
  cases reading with
  | error other => exact congrArg Except.error (Except.error.inj h)
  | ok a => cases h

section

variable {source : List Char} {fault : Fault}

theorem suffix_of_resolveValue {pieces : List Piece}
    (hpieces : ∀ piece ∈ pieces, piece.LiesIn source)
    (h : resolveValue source pieces = .error fault) : fault.rest <:+ source := by
  fun_induction resolveValue source pieces with
  | case1 => cases h
  | case2 pieces ih =>
      refine ih (fun piece hmem => hpieces piece ?_) (error_of_map_eq_error h)
      exact List.mem_cons_of_mem _ (List.mem_cons_of_mem _ hmem)
  | case3 c pieces _ ih =>
      exact ih (fun piece hmem => hpieces piece (List.mem_cons_of_mem _ hmem))
        (error_of_map_eq_error h)
  | case4 r place pieces c _ ih =>
      exact ih (fun piece hmem => hpieces piece (List.mem_cons_of_mem _ hmem))
        (error_of_map_eq_error h)
  | case5 r place pieces =>
      -- A number that stands for no character is a fault of the reference, which kept its place.
      cases h
      exact hpieces _ List.mem_cons_self
  | case6 =>
      -- An unknown entity is a fault of the whole tag.
      cases h
      exact List.suffix_refl _

theorem suffix_of_checkAttributes {items : List Attribute}
    (hitems : ∀ item ∈ items, item.LiesIn source) {seen : List Name} {scope : Scope}
    (h : checkAttributes source seen scope items = .error fault) : fault.rest <:+ source := by
  induction items generalizing seen scope with
  | nil => cases h
  | cons item items ih =>
      obtain ⟨hitem, hitems⟩ := List.forall_mem_cons.1 hitems
      rw [checkAttributes] at h
      split at h
      · cases h
        exact hitem.source
      · split at h
        · next hvalue =>
          cases h
          exact suffix_of_resolveValue hitem.value hvalue
        · split at h
          · exact ih hitems h
          · split at h
            · cases h
              exact List.suffix_refl _
            · exact ih hitems h

theorem suffix_of_check {tag : Tag} (htag : tag.LiesIn source) {scope : Scope}
    (h : tag.check source scope = .error fault) : fault.rest <:+ source := by
  rw [Tag.check] at h
  split at h
  · next hattributes =>
    cases h
    exact suffix_of_checkAttributes htag hattributes
  · split at h
    · cases h
      exact List.suffix_refl _
    · split at h
      · cases h
      · split at h
        · cases h
        · cases h
          exact List.suffix_refl _

/-- **A step that fails has its fault in what is left of the text with the token.** -/
theorem suffix_of_take {state : State} {token : Token} (htoken : token.LiesIn source)
    (h : state.take source token = .error fault) : fault.rest <:+ source := by
  cases token with
  | opening tag =>
      rw [State.take, State.enter] at h
      split at h
      · next hcheck =>
        cases h
        exact suffix_of_check htoken hcheck
      · simp only at h
        split at h
        · cases h
        · cases h
  | closing name =>
      -- The fault of a closing tag is at its name, behind the two signs that the tag begins with.
      rw [State.take, State.leave] at h
      split at h
      · split at h
        · cases h
        · cases h
          exact List.drop_suffix 2 source
      · cases h
        exact List.drop_suffix 2 source
  | reference r =>
      rw [State.take] at h
      split at h
      · cases h
      · cases h
        exact List.suffix_refl _
  | declaration =>
      cases h
      exact List.suffix_refl _
  | character c => cases h
  | comment => cases h
  | instruction => cases h
  | «section» => cases h

end

/-! ## Behind the root -/

/-- A reader that only looks at a text and stops inside of it, if it stops. -/
def LooksIn (text : List Char) (reading : Except Stop Unit) : Prop :=
  StaysIn text (fun _ => True) reading

theorem LooksIn.mono {reading : Except Stop Unit} (h : LooksIn cs reading) (hcs : cs <:+ text) :
    LooksIn text reading :=
  StaysIn.mono h hcs fun _ hdone => hdone

theorem looksIn_readKeyword (cs : List Char) : LooksIn cs (readKeyword cs) := by
  fun_induction readKeyword cs with
  | case1 => exact List.suffix_refl _
  | case2 => exact List.nil_suffix
  | case3 => exact List.suffix_refl _
  | case4 => trivial
  | case5 => trivial
  | case6 c rest _ _ _ _ ih => exact ih.mono (List.suffix_cons c rest)
  | case7 => exact List.suffix_refl _

theorem looksIn_readLiteral (quote : Char) (cs : List Char) :
    LooksIn cs (readLiteral quote cs) := by
  fun_induction readLiteral quote cs with
  | case1 => exact List.suffix_refl _
  | case2 => exact List.suffix_refl _
  | case3 => trivial
  | case4 => trivial
  | case5 => exact List.suffix_cons _ _
  | case6 c rest _ _ ih => exact ih.mono (List.suffix_cons c rest)

theorem looksIn_readParameterReference (cs : List Char) :
    LooksIn cs (readParameterReference cs) := by
  unfold readParameterReference
  split
  · exact List.suffix_refl _
  · split
    · trivial
    · split
      · next hname => exact (staysIn_readSimpleName _).error hname
      · trivial
      · next hname => exact .before ((staysIn_readSimpleName _).ok hname)

theorem looksIn_readReservedName (cs : List Char) : LooksIn cs (readReservedName cs) := by
  unfold readReservedName
  split
  · next hname => exact (staysIn_readSimpleName _).error hname
  · trivial
  · next hname =>
    split
    · trivial
    · exact (staysIn_readSimpleName _).ok hname

theorem looksIn_readNameToken (kind : NameKind) (cs : List Char) :
    LooksIn cs (readNameToken kind cs) := by
  fun_induction readNameToken kind cs with
  | case1 => trivial
  | case2 => exact List.nil_suffix
  | case3 next rest _ ih => exact ih.mono (suffix_of_cons (List.suffix_cons _ _))
  | case4 next rest _ ih => exact ih.mono (List.suffix_cons _ _)
  | case5 kind rest _ _ ih => exact ih.mono (List.suffix_cons _ _)
  | case6 kind c rest _ _ _ _ ih => exact ih.mono (List.suffix_cons _ _)
  | case7 => trivial
  | case8 => trivial
  | case9 => exact List.suffix_refl _

theorem looksIn_readEpilogToken (cs : List Char) : LooksIn cs (readEpilogToken cs) := by
  unfold readEpilogToken
  split
  · exact List.suffix_refl _
  · exact List.nil_suffix
  · exact List.nil_suffix
  · trivial
  · next c rest _ =>
    have hrest : c :: rest <:+ '<' :: '!' :: c :: rest := suffix_of_cons (List.suffix_cons _ _)
    split
    · exact (looksIn_readKeyword rest).mono (suffix_of_cons hrest)
    · exact hrest
  · split
    · trivial
    · exact List.suffix_cons _ _
  · exact List.nil_suffix
  · split
    · trivial
    · exact List.suffix_cons _ _
  · exact (looksIn_readParameterReference _).mono (List.suffix_cons _ _)
  · exact (looksIn_readReservedName _).mono (List.suffix_cons _ _)
  · next c rest _ _ _ _ _ _ _ =>
    split
    · exact (looksIn_readLiteral _ _).mono (List.suffix_cons _ _)
    · split
      · trivial
      · split
        · exact (looksIn_readNameToken _ _).mono (List.suffix_cons _ _)
        · split
          · exact (looksIn_readNameToken _ _).mono (List.suffix_cons _ _)
          · exact List.suffix_refl _

theorem suffix_of_skipMiscellaneous? {rest : List Char}
    (h : skipMiscellaneous? cs = some (.ok rest)) : rest <:+ cs := by
  obtain ⟨front, htext, -⟩ := end_of_skipMiscellaneous? h
  exact ⟨front, htext.symm⟩

theorem suffix_of_skipMiscellaneous?_fault {fault : Fault}
    (h : skipMiscellaneous? cs = some (.error fault)) : fault.rest <:+ cs := by
  unfold skipMiscellaneous? at h
  split at h
  · next rest =>
    have hrest : rest <:+ '<' :: '?' :: rest := suffix_of_cons (List.suffix_cons _ _)
    split at h
    · next hstop =>
      cases h
      exact suffix_toFault (((staysIn_readInstruction rest).error hstop).trans hrest)
        (List.suffix_refl _)
    · cases h
      exact List.suffix_refl _
    · cases h
  · next rest =>
    have hrest : rest <:+ '<' :: '!' :: '-' :: '-' :: rest :=
      suffix_of_cons (suffix_of_cons (suffix_of_cons (List.suffix_cons _ _)))
    split at h
    · next hstop =>
      cases h
      exact suffix_toFault (((staysIn_readComment rest).error hstop).trans hrest)
        (List.suffix_refl _)
    · cases h
  · next rest _ =>
    cases h
    refine suffix_toFault ?_ (List.suffix_refl _)
    rw [Stop.rest_before]
    exact suffix_of_cons (suffix_of_cons (List.suffix_cons _ _))
  · cases h

/-- **A fault behind the root lies in what stands there.** -/
theorem suffix_of_epilogFault? {fuel : Nat} {fault : Fault}
    (h : epilogFault? fuel cs = some fault) : fault.rest <:+ cs := by
  -- By induction on the number of skips: what is left after one of them is a rest of the text.
  induction fuel generalizing cs with
  | zero => cases h
  | succ fuel ih =>
      rw [epilogFault?.eq_def] at h
      simp only at h
      split at h
      · cases h
      · split at h
        · exact (ih h).trans (List.suffix_cons _ _)
        · split at h
          · next hskip => exact (ih h).trans (suffix_of_skipMiscellaneous? hskip)
          · next hskip =>
            cases h
            exact suffix_of_skipMiscellaneous?_fault hskip
          · split at h
            · cases h
              exact List.suffix_refl _
            · next hstop =>
              cases h
              exact suffix_toFault ((looksIn_readEpilogToken _).error hstop) (List.suffix_refl _)

/-! ## Content -/

/-- **A fault of content lies in the content or in what follows it.** -/
theorem suffix_of_readContent {state : State} {fault : Fault}
    (h : readContent state cs = .error fault) : fault.rest <:+ cs := by
  -- The reader stops at the end of the text, in a token, in a step or behind the root; in the last
  -- case it has gone one token on, and what is left is a rest of the text.
  fun_induction readContent state cs with
  | case1 =>
      cases h
      exact List.nil_suffix
  | case2 state c rest stop hstop =>
      cases h
      exact suffix_toFault ((staysIn_readToken _).error hstop) (List.suffix_refl _)
  | case3 state c rest token behind htoken _ fault htake =>
      cases h
      exact suffix_of_take ((staysIn_readToken _).ok htoken).2 htake
  | case4 state c rest token behind htoken _ next _ _ =>
      rw [readEpilog] at h
      split at h
      · next hepilog =>
        cases h
        exact (suffix_of_epilogFault? hepilog).trans ((staysIn_readToken _).ok htoken).1
      · cases h
  | case5 state c rest token behind htoken _ next _ _ ih =>
      exact (ih h).trans ((staysIn_readToken _).ok htoken).1

end IconForge.Xml
