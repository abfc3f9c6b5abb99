import Mathlib
import IconForge.Graphic.Attribute
import IconForge.Proofs.Text.Characters

set_option autoImplicit false

/-! # The opening tag of a root as a list of attributes

Values and declarations are searched for in the plain text of an opening tag. For the text of a
list of attributes this finds what the list says: the first attribute with the name and a value
that is not empty (`findAttribute?_tagText`), and every declaration in order
(`findDeclarations_tagText`).

Both searches try a reader at every place where a name may begin. A stretch of text is *quiet* for
a reader when it fails at all of its places. Most of an attribute is quiet for one of three
reasons: no name begins with the character, the place is inside a name, or the next quote comes
before an equals sign, so that there is no value ahead. -/

namespace IconForge.Graphic

open IconForge.Text

/-! ## Attributes -/

/-- Small and capital letters of ASCII and the low line. -/
def isNameInitial (c : Char) : Bool :=
  c.isAlpha || c = '_'

/-- The characters of a declared prefix: letters and digits of ASCII and the low line. -/
def isDeclaredCharacter (c : Char) : Bool :=
  c.isAlphanum || c = '_'

/-- The characters of a plain name: those of a declared prefix and the hyphen. -/
def isPlainCharacter (c : Char) : Bool :=
  isDeclaredCharacter c || c = '-'

/-- The name of an attribute of a root. -/
inductive RootName where
  /-- A name without a prefix. -/
  | plain (word : List Char)
  /-- The declaration of a prefix. -/
  | declared (word : List Char)
deriving DecidableEq, Repr

namespace RootName

/-- The name itself, or the prefix that is declared. -/
def word : RootName → List Char
  | .plain word => word
  | .declared word => word

/-- What stands in front of the word. -/
def lead : RootName → List Char
  | .plain _ => []
  | .declared _ => ['x', 'm', 'l', 'n', 's', ':']

def text (name : RootName) : List Char :=
  name.lead ++ name.word

/-- The characters that a name may have behind its first one. -/
def allows : RootName → Char → Bool
  | .plain _ => isPlainCharacter
  | .declared _ => isDeclaredCharacter

/-- A name begins with a letter or the low line and goes on with characters that it may have. -/
def Valid (name : RootName) : Prop :=
  ∃ first rest, name.word = first :: rest ∧ isNameInitial first ∧ ∀ c ∈ rest, name.allows c

end RootName

/-- The characters of a value: neither quotes nor the signs of markup. -/
def isValueCharacter (c : Char) : Bool :=
  !(isQuote c || c = '=' || c = '<' || c = '>' || c = '&' || c = '}')

/-- An attribute of a root with the blanks around its parts. -/
structure RootAttribute where
  /-- The blanks in front of the attribute. -/
  gap : List Char
  name : RootName
  /-- The blanks in front of the equals sign. -/
  beforeEquals : List Char
  /-- The blanks behind the equals sign. -/
  afterEquals : List Char
  /-- The quote that the value stands between. -/
  quote : Char
  value : List Char

namespace RootAttribute

/-- The text behind the name, up to the value. -/
def link (a : RootAttribute) : List Char :=
  a.beforeEquals ++ '=' :: (a.afterEquals ++ [a.quote])

def text (a : RootAttribute) : List Char :=
  a.gap ++ a.name.text ++ a.link ++ a.value ++ [a.quote]

/-- An attribute stands behind blanks and has its value between quotes of one kind. -/
structure Valid (a : RootAttribute) : Prop where
  gap_ne : a.gap ≠ []
  gap : ∀ c ∈ a.gap, isBlank c
  name : a.name.Valid
  beforeEquals : ∀ c ∈ a.beforeEquals, isBlank c
  afterEquals : ∀ c ∈ a.afterEquals, isBlank c
  quote : isQuote a.quote
  value : ∀ c ∈ a.value, isValueCharacter c

/-- An attribute stands behind blanks and has its value between quotes, with nothing but blanks
around its equals sign, whatever its name and its value are. -/
structure Spaced (a : RootAttribute) : Prop where
  gap_ne : a.gap ≠ []
  gap : ∀ c ∈ a.gap, isBlank c
  beforeEquals : ∀ c ∈ a.beforeEquals, isBlank c
  afterEquals : ∀ c ∈ a.afterEquals, isBlank c
  quote : isQuote a.quote

/-- What the searches need of an attribute: its name has characters of names only, and no other
attribute can begin inside of its value, nor the tag end there. -/
structure Regular (a : RootAttribute) : Prop where
  gap_ne : a.gap ≠ []
  gap : ∀ c ∈ a.gap, isBlank c
  word_ne : a.name.word ≠ []
  word : ∀ c ∈ a.name.word, isPlainCharacter c
  beforeEquals : ∀ c ∈ a.beforeEquals, isBlank c
  afterEquals : ∀ c ∈ a.afterEquals, isBlank c
  quote : isQuote a.quote
  value : ∀ c ∈ a.value, isQuote c = false ∧ c ≠ '=' ∧ c ≠ '>'

theorem Regular.spaced {a : RootAttribute} (h : a.Regular) : a.Spaced :=
  ⟨h.gap_ne, h.gap, h.beforeEquals, h.afterEquals, h.quote⟩

theorem regular_iff (a : RootAttribute) :
    a.Regular ↔ (!a.gap.isEmpty && a.gap.all isBlank && !a.name.word.isEmpty &&
      a.name.word.all isPlainCharacter && a.beforeEquals.all isBlank &&
      a.afterEquals.all isBlank && isQuote a.quote &&
      a.value.all fun c => !(isQuote c || c = '=' || c = '>')) := by
  simp only [Bool.and_eq_true, List.all_eq_true, Bool.not_eq_true', List.isEmpty_eq_false_iff,
    Bool.or_eq_false_iff, decide_eq_false_iff_not, and_assoc]
  constructor
  · intro h
    exact ⟨h.gap_ne, h.gap, h.word_ne, h.word, h.beforeEquals, h.afterEquals, h.quote, h.value⟩
  · rintro ⟨hgapNe, hgap, hwordNe, hword, hbefore, hafter, hquote, hvalue⟩
    exact ⟨hgapNe, hgap, hwordNe, hword, hbefore, hafter, hquote, hvalue⟩

instance (a : RootAttribute) : Decidable a.Regular :=
  decidable_of_iff' _ a.regular_iff

end RootAttribute

/-- The text of the attributes of an opening tag, with blanks at its end. -/
def tagText (attributes : List RootAttribute) (trailing : List Char) : List Char :=
  attributes.flatMap RootAttribute.text ++ trailing

/-! ## Classes of characters -/

theorem eq_of_isQuote {c : Char} (h : isQuote c) : c = '"' ∨ c = '\'' := by
  rwa [isQuote, Bool.or_eq_true, decide_eq_true_eq, decide_eq_true_eq] at h

theorem isBlank_of_isQuote {c : Char} (h : isQuote c) : isBlank c = false := by
  rcases eq_of_isQuote h with rfl | rfl
  · decide
  · decide

theorem isLower_foldCase_of_isQuote {c : Char} (h : isQuote c) : ¬ (foldCase c).isLower := by
  rcases eq_of_isQuote h with rfl | rfl
  · decide
  · decide

theorem isPrefixCharacter_of_isQuote {c : Char} (h : isQuote c) : isPrefixCharacter c = false := by
  rcases eq_of_isQuote h with rfl | rfl
  · decide +kernel
  · decide +kernel

theorem isPrefixCharacter_of_isBlank {c : Char} (h : isBlank c) : isPrefixCharacter c = false := by
  rw [isPrefixCharacter, isWordCharacter_of_isBlank h]
  simp only [Bool.false_or, Bool.or_eq_false_iff, decide_eq_false_iff_not]
  constructor
  · rintro rfl
    exact absurd h (by decide)
  · rintro rfl
    exact absurd h (by decide)

theorem isPrefixCharacter_equals : isPrefixCharacter '=' = false := by
  decide +kernel

theorem isPlainCharacter_of_isNameInitial {c : Char} (h : isNameInitial c) :
    isPlainCharacter c := by
  rw [isNameInitial, Bool.or_eq_true] at h
  rw [isPlainCharacter, isDeclaredCharacter, Char.isAlphanum]
  rcases h with h | h
  · rw [h]
    rfl
  · rw [h, Bool.or_true, Bool.true_or]

/-- What a name consists of is no blank and no equals sign, and no name begins behind it. -/
theorem of_isPlainCharacter {c : Char} (h : isPlainCharacter c) :
    isBlank c = false ∧ c ≠ '=' ∧ c ≠ ':' ∧ atBoundary (some c) = false := by
  have hword : isWordCharacter c ∨ c = '-' := by
    simp only [isPlainCharacter, isDeclaredCharacter, Bool.or_eq_true, decide_eq_true_eq] at h
    rcases h with (h | rfl) | h
    · exact Or.inl (isWordCharacter_of_isAlphanum h)
    · exact Or.inl rfl
    · exact Or.inr h
  refine ⟨?_, ?_, ?_, ?_⟩
  · rw [← Bool.not_eq_true]
    intro hblank
    rcases hword with hword | rfl
    · rw [isWordCharacter_of_isBlank hblank] at hword
      cases hword
    · exact absurd hblank (by decide)
  · rintro rfl
    exact absurd h (by decide)
  · rintro rfl
    exact absurd h (by decide)
  · rw [atBoundary, Bool.not_eq_false', Bool.or_eq_true, decide_eq_true_eq]
    exact hword

theorem of_isValueCharacter {c : Char} (h : isValueCharacter c) :
    isQuote c = false ∧ c ≠ '=' ∧ c ≠ '>' := by
  simp only [isValueCharacter, Bool.not_eq_true', Bool.or_eq_false_iff,
    decide_eq_false_iff_not] at h
  obtain ⟨⟨⟨⟨⟨hquote, hequals⟩, -⟩, hgreater⟩, -⟩, -⟩ := h
  exact ⟨hquote, hequals, hgreater⟩

theorem RootName.Valid.plain {name : RootName} (h : name.Valid) :
    ∀ c ∈ name.word, isPlainCharacter c := by
  obtain ⟨first, rest, hword, hfirst, hrest⟩ := h
  intro c hc
  rw [hword, List.mem_cons] at hc
  rcases hc with rfl | hc
  · exact isPlainCharacter_of_isNameInitial hfirst
  · cases name with
    | plain word => exact hrest c hc
    | declared word =>
        have hdeclared : isDeclaredCharacter c := hrest c hc
        rw [isPlainCharacter, hdeclared, Bool.true_or]

theorem RootAttribute.Valid.regular {a : RootAttribute} (h : a.Valid) : a.Regular where
  gap_ne := h.gap_ne
  gap := h.gap
  word_ne := by
    obtain ⟨first, rest, hword, -, -⟩ := h.name
    rw [hword]
    exact List.cons_ne_nil _ _
  word := h.name.plain
  beforeEquals := h.beforeEquals
  afterEquals := h.afterEquals
  quote := h.quote
  value c hc := of_isValueCharacter (h.value c hc)

theorem atBoundary_of_isBlank {c : Char} (h : isBlank c) : atBoundary (some c) := by
  rw [atBoundary, Bool.not_eq_true', Bool.or_eq_false_iff, decide_eq_false_iff_not]
  refine ⟨isWordCharacter_of_isBlank h, ?_⟩
  rintro rfl
  exact absurd h (by decide)

/-! ## Values -/

/-- The next quote of a text comes before its next equals sign. -/
def Unassigned (cs : List Char) : Prop :=
  ∃ front quote rest, cs = front ++ quote :: rest ∧ '=' ∉ front ∧ isQuote quote

theorem Unassigned.of_append {front cs : List Char} (h : Unassigned (front ++ cs))
    (hfront : ∀ c ∈ front, isQuote c = false) : Unassigned cs := by
  obtain ⟨before, quote, rest, heq, hno, hquote⟩ := h
  have hnone : quote ∉ front := by
    intro hmem
    have hfalse := hfront quote hmem
    rw [hquote] at hfalse
    cases hfalse
  obtain ⟨more, rfl, hcs⟩ := exists_append_of_notMem heq.symm hnone
  exact ⟨more, quote, rest, hcs, fun hmem => hno (List.mem_append_right front hmem), hquote⟩

theorem value?_eq_none {cs : List Char} (h : ∀ c ∈ (cs.dropWhile isBlank).head?, c ≠ '=') :
    value? cs = none := by
  unfold value?
  split
  · next rest heq => exact absurd rfl (h '=' (by rw [heq]; rfl))
  · rfl

theorem value?_cons {c : Char} {rest : List Char} (hblank : isBlank c = false) (hc : c ≠ '=') :
    value? (c :: rest) = none := by
  apply value?_eq_none
  rw [List.dropWhile_cons_of_neg (by rw [hblank]; decide)]
  rintro d ⟨⟩
  exact hc

theorem Unassigned.value? {cs : List Char} (h : Unassigned cs) :
    IconForge.Graphic.value? cs = none := by
  obtain ⟨front, quote, rest, rfl, hno, hquote⟩ := h
  apply value?_eq_none
  induction front with
  | nil =>
      rw [List.nil_append, List.dropWhile_cons_of_neg (by rw [isBlank_of_isQuote hquote]; decide)]
      rintro c ⟨⟩ rfl
      exact absurd hquote (by decide)
  | cons c front ih =>
      rw [List.mem_cons, not_or] at hno
      rw [List.cons_append, List.dropWhile_cons]
      split
      · exact ih hno.2
      · rintro d ⟨⟩ rfl
        exact hno.1 rfl

/-- A text assigns a value: an equals sign with blanks around it, and the value between quotes. -/
def Assigns (cs value rest : List Char) : Prop :=
  ∃ before after opening closing,
    cs = before ++ '=' :: (after ++ opening :: (value ++ closing :: rest)) ∧
      (∀ c ∈ before, isBlank c) ∧ (∀ c ∈ after, isBlank c) ∧ isQuote opening ∧ isQuote closing ∧
        ∀ c ∈ value, isQuote c = false

theorem Assigns.of_value? {cs value rest : List Char}
    (h : IconForge.Graphic.value? cs = some (value, rest)) : Assigns cs value rest := by
  unfold IconForge.Graphic.value? at h
  split at h
  · next _ afterName hequals =>
    split at h
    · next _ opening afterEquals hopening =>
      split at h
      · next hquote =>
        split at h
        · next _ closing behind hclosing =>
          cases h
          have hclosingQuote : isQuote closing := by simpa using of_dropWhile_eq_cons hclosing
          refine ⟨cs.takeWhile isBlank, afterName.takeWhile isBlank, opening, closing, ?_,
            fun c hc => List.mem_takeWhile_imp hc,
            fun c hc => List.mem_takeWhile_imp hc, hquote, hclosingQuote,
            fun c hc => by simpa using List.mem_takeWhile_imp hc⟩
          rw [← hclosing, List.takeWhile_append_dropWhile, ← hopening,
            List.takeWhile_append_dropWhile, ← hequals, List.takeWhile_append_dropWhile]
        · cases h
      · cases h
    · cases h
  · cases h

/-- **The value that is read** behind a name is the one that the text assigns. -/
theorem value?_eq_some_iff {cs value rest : List Char} :
    value? cs = some (value, rest) ↔ Assigns cs value rest := by
  refine ⟨Assigns.of_value?, ?_⟩
  rintro ⟨before, after, opening, closing, rfl, hbefore, hafter, hopening, hclosing, hvalue⟩
  have hname :
      (before ++ '=' :: (after ++ opening :: (value ++ closing :: rest))).dropWhile isBlank =
      '=' :: (after ++ opening :: (value ++ closing :: rest)) :=
    (takeWhile_dropWhile_cons hbefore (by decide)).2
  have hequals : (after ++ opening :: (value ++ closing :: rest)).dropWhile isBlank =
      opening :: (value ++ closing :: rest) :=
    (takeWhile_dropWhile_cons hafter (isBlank_of_isQuote hopening)).2
  have hinside : (value ++ closing :: rest).takeWhile (!isQuote ·) = value ∧
      (value ++ closing :: rest).dropWhile (!isQuote ·) = closing :: rest :=
    takeWhile_dropWhile_cons (by simpa using hvalue) (by simp [hclosing])
  rw [value?, hname]
  simp only [hequals, hopening, hinside.1, hinside.2, if_true]

theorem value?_link {a : RootAttribute} (h : a.Regular) (rest : List Char) :
    value? (a.link ++ a.value ++ a.quote :: rest) = some (a.value, rest) :=
  value?_eq_some_iff.2 ⟨a.beforeEquals, a.afterEquals, a.quote, a.quote,
    by simp [RootAttribute.link], h.beforeEquals, h.afterEquals, h.quote, h.quote,
    fun c hc => (h.value c hc).1⟩

/-! ## Quiet stretches -/

/-- The last character of a text, or the one in front of it. -/
def lastOf (previous : Option Char) (cs : List Char) : Option Char :=
  cs.foldl (fun _ c => some c) previous

theorem lastOf_append (previous : Option Char) (front cs : List Char) :
    lastOf previous (front ++ cs) = lastOf (lastOf previous front) cs :=
  List.foldl_append

theorem lastOf_mem (previous : Option Char) {cs : List Char} (h : cs ≠ []) :
    ∃ c ∈ cs, lastOf previous cs = some c := by
  refine ⟨cs.getLast h, List.getLast_mem h, ?_⟩
  conv_lhs => rw [← List.dropLast_append_getLast h, lastOf_append]
  rfl

/-- A reader fails wherever a name may begin in the front of a text. -/
def Quiet {β : Type} (reader : List Char → Option β) (previous : Option Char) :
    List Char → List Char → Prop
  | [], _ => True
  | c :: front, rest =>
    (atBoundary previous → reader (c :: (front ++ rest)) = none) ∧
      Quiet reader (some c) front rest

section Quiet

variable {β : Type} {reader : List Char → Option β} {previous : Option Char}
  {front middle rest : List Char}

theorem quiet_append : Quiet reader previous (front ++ middle) rest ↔
    Quiet reader previous front (middle ++ rest) ∧
      Quiet reader (lastOf previous front) middle rest := by
  induction front generalizing previous with
  | nil => exact (iff_of_eq (true_and _)).symm
  | cons c front ih =>
      rw [List.cons_append, Quiet, Quiet, ih, List.append_assoc, and_assoc]
      rfl

/-- A stretch is quiet when the reader fails behind each of its fronts. -/
theorem quiet_iff : Quiet reader previous front rest ↔
    ∀ before behind, front = before ++ behind → behind ≠ [] →
      atBoundary (lastOf previous before) → reader (behind ++ rest) = none := by
  induction front generalizing previous with
  | nil =>
      refine ⟨fun _ before behind heq hne => ?_, fun _ => trivial⟩
      exact absurd (List.append_eq_nil_iff.1 heq.symm).2 hne
  | cons c front ih =>
      rw [Quiet, ih]
      constructor
      · rintro ⟨hfirst, hrest⟩ before behind heq hne hboundary
        cases before with
        | nil =>
            rw [List.nil_append] at heq
            rw [← heq]
            exact hfirst hboundary
        | cons d before =>
            rw [List.cons_append, List.cons.injEq] at heq
            obtain ⟨rfl, rfl⟩ := heq
            exact hrest before behind rfl hne hboundary
      · intro h
        refine ⟨h [] (c :: front) rfl (List.cons_ne_nil c front), ?_⟩
        rintro before behind rfl hne hboundary
        exact h (c :: before) behind rfl hne hboundary

theorem quiet_of_first (h : ∀ c ∈ front, ∀ cs, reader (c :: cs) = none) :
    Quiet reader previous front rest := by
  induction front generalizing previous with
  | nil => trivial
  | cons c front ih =>
      exact ⟨fun _ => h c List.mem_cons_self _, ih fun d hd => h d (List.mem_cons_of_mem c hd)⟩

theorem quiet_of_name (hprevious : atBoundary previous = false)
    (h : ∀ c ∈ front, isPlainCharacter c) : Quiet reader previous front rest := by
  induction front generalizing previous with
  | nil => trivial
  | cons c front ih =>
      refine ⟨fun hboundary => ?_, ih ?_ fun d hd => h d (List.mem_cons_of_mem c hd)⟩
      · rw [hprevious] at hboundary
        cases hboundary
      · exact (of_isPlainCharacter (h c List.mem_cons_self)).2.2.2

theorem quiet_of_value {quote : Char} (hreader : ∀ cs, Unassigned cs → reader cs = none)
    (hquote : isQuote quote) (h : ∀ c ∈ front, c ≠ '=') :
    Quiet reader previous front (quote :: rest) := by
  induction front generalizing previous with
  | nil => trivial
  | cons c front ih =>
      exact ⟨fun _ => hreader _ ⟨c :: front, quote, rest, rfl, fun hmem => h '=' hmem rfl, hquote⟩,
        ih fun d hd => h d (List.mem_cons_of_mem c hd)⟩

end Quiet

theorem findAttribute?_of_quiet {key : List Char} {previous : Option Char}
    {front rest : List Char} (h : Quiet (attributeAt? key) previous front rest) :
    findAttribute? key previous (front ++ rest) =
      findAttribute? key (lastOf previous front) rest := by
  induction front generalizing previous with
  | nil => rfl
  | cons c front ih =>
      have hnone : (if atBoundary previous then attributeAt? key (c :: (front ++ rest)) else none) =
          none := by
        split
        · next hboundary => exact h.1 hboundary
        · rfl
      rw [List.cons_append, findAttribute?, hnone]
      exact ih h.2

theorem findDeclarations_of_quiet {previous : Option Char} {front rest : List Char}
    (h : Quiet declaration? previous front rest) :
    findDeclarations previous (front ++ rest) = findDeclarations (lastOf previous front) rest := by
  induction front generalizing previous with
  | nil => rfl
  | cons c front ih =>
      rw [List.cons_append, findDeclarations]
      split
      · next hsome =>
        split at hsome
        · next hboundary =>
          rw [h.1 hboundary] at hsome
          cases hsome
        · cases hsome
      · exact ih h.2

/-! ## Readers of names -/

/-- A reader that finds nothing where no name begins and nothing without a value ahead. -/
structure SeeksNames {β : Type} (reader : List Char → Option β) : Prop where
  first : ∀ {c : Char}, isBlank c ∨ isQuote c ∨ c = '=' → ∀ cs, reader (c :: cs) = none
  unassigned : ∀ {cs : List Char}, Unassigned cs → reader cs = none

/-- A word that is a key has only characters that are small letters without case. -/
theorem notMem_of_folded {word key : List Char} {c : Char} (hkey : ∀ k ∈ key, k.isLower)
    (hword : word.map foldCase = key) (hc : ¬ (foldCase c).isLower) : c ∉ word := by
  intro hmem
  apply hc
  apply hkey
  rw [← hword]
  exact List.mem_map_of_mem hmem

/-- A key in small letters matches a whole word or has no value behind it. -/
theorem bind_value?_word {key word tail : List Char} {c : Char} (hkey : ∀ k ∈ key, k.isLower)
    (hword : ∀ d ∈ word, isPlainCharacter d) (hc : ¬ (foldCase c).isLower) :
    (dropFolded? key (word ++ c :: tail)).bind value? =
      if word.map foldCase = key then value? (c :: tail) else none := by
  by_cases h : word.map foldCase = key
  · rw [if_pos h, dropFolded?_eq_some_iff.2 ⟨word, rfl, h⟩, Option.bind_some]
  · rw [if_neg h]
    cases hdrop : dropFolded? key (word ++ c :: tail) with
    | none => rfl
    | some rest =>
        obtain ⟨front, heq, hfront⟩ := dropFolded?_eq_some_iff.1 hdrop
        obtain ⟨more, rfl, rfl⟩ :=
          exists_append_of_notMem heq (notMem_of_folded hkey hfront hc)
        rw [Option.bind_some]
        cases more with
        | nil => exact absurd (by rw [List.append_nil]; exact hfront) h
        | cons d more =>
            -- The word goes on behind the key, so no equals sign follows.
            obtain ⟨hblank, hequals, -, -⟩ := of_isPlainCharacter (hword d (by simp))
            exact value?_cons hblank hequals

theorem not_isLower_foldCase {c : Char} (h : isBlank c ∨ isQuote c ∨ c = '=') :
    ¬ (foldCase c).isLower := by
  rcases h with h | h | rfl
  · exact isLower_foldCase_of_isBlank h
  · exact isLower_foldCase_of_isQuote h
  · decide

theorem seeksNames_attributeAt? {key : List Char} (hne : key ≠ [])
    (hkey : ∀ k ∈ key, k.isLower) : SeeksNames (attributeAt? key) := by
  constructor
  · intro c hc cs
    obtain ⟨k, key, rfl⟩ := List.exists_cons_of_ne_nil hne
    rw [attributeAt?, dropFolded?, if_neg]
    · rfl
    · rintro rfl
      exact not_isLower_foldCase hc (hkey _ List.mem_cons_self)
  · intro cs hcs
    rw [attributeAt?]
    cases hdrop : dropFolded? key cs with
    | none => rfl
    | some rest =>
        obtain ⟨front, rfl, hfront⟩ := dropFolded?_eq_some_iff.1 hdrop
        have hrest : Unassigned rest := by
          refine hcs.of_append fun c hc => ?_
          rw [← Bool.not_eq_true]
          intro hquote
          refine isLower_foldCase_of_isQuote hquote (hkey _ ?_)
          rw [← hfront]
          exact List.mem_map_of_mem hc
        rw [Option.bind_some, hrest.value?]

theorem declaration?_first {c : Char} (h : c ≠ 'x') (cs : List Char) :
    declaration? (c :: cs) = none := by
  unfold declaration?
  split
  · next heq =>
    rw [List.cons.injEq] at heq
    exact absurd heq.1 h
  · rfl

theorem seeksNames_declaration? : SeeksNames declaration? := by
  constructor
  · intro c hc cs
    apply declaration?_first
    rintro rfl
    exact not_isLower_foldCase hc (by decide)
  · intro cs hcs
    unfold declaration?
    split
    · next rest =>
      simp only
      split
      · rfl
      · have hsplit : 'x' :: 'm' :: 'l' :: 'n' :: 's' :: ':' :: rest =
            (['x', 'm', 'l', 'n', 's', ':'] ++ rest.takeWhile isPrefixCharacter) ++
              rest.dropWhile isPrefixCharacter := by
          rw [List.append_assoc, List.takeWhile_append_dropWhile]
          rfl
        have hlead : ['x', 'm', 'l', 'n', 's', ':'].all (!isQuote ·) := by
          decide
        -- The prefix holds no quote, so no value is assigned behind it either.
        have hrest : Unassigned (rest.dropWhile isPrefixCharacter) := by
          rw [hsplit] at hcs
          refine hcs.of_append fun c hc => ?_
          rcases List.mem_append.1 hc with hc | hc
          · simpa only [Bool.not_eq_true'] using List.all_eq_true.1 hlead c hc
          · rw [← Bool.not_eq_true]
            intro hquote
            have hprefix := List.mem_takeWhile_imp hc
            rw [isPrefixCharacter_of_isQuote hquote] at hprefix
            cases hprefix
        rw [hrest.value?, Option.map_none]
    · rfl

theorem declaration?_word {word tail : List Char} {c : Char}
    (hword : ∀ d ∈ word, isPlainCharacter d) (hc : isBlank c ∨ isQuote c ∨ c = '=') :
    declaration? (word ++ c :: tail) = none := by
  unfold declaration?
  split
  · next rest heq =>
    exfalso
    change word ++ c :: tail = ['x', 'm', 'l', 'n', 's', ':'] ++ rest at heq
    have hlead : c ∉ ['x', 'm', 'l', 'n', 's', ':'] := by
      intro hmem
      simp only [List.mem_cons, List.not_mem_nil, or_false] at hmem
      rcases hmem with rfl | rfl | rfl | rfl | rfl | rfl
      all_goals exact absurd hc (by decide)
    obtain ⟨more, rfl, -⟩ := exists_append_of_notMem heq hlead
    exact (of_isPlainCharacter (hword ':' (by simp))).2.2.1 rfl
  · rfl

/-! ## One attribute -/

namespace RootAttribute

variable {a : RootAttribute} {β : Type} {reader : List Char → Option β} {previous : Option Char}

/-- The text behind the name. -/
def behind (a : RootAttribute) : List Char :=
  a.link ++ a.value ++ [a.quote]

theorem text_append (a : RootAttribute) (rest : List Char) :
    a.text ++ rest = a.gap ++ (a.name.lead ++ (a.name.word ++ (a.behind ++ rest))) := by
  simp [text, behind, RootName.text]

theorem behind_append (a : RootAttribute) (rest : List Char) :
    a.behind ++ rest = a.link ++ a.value ++ a.quote :: rest := by
  simp [behind]

/-- Behind a name come blanks or an equals sign. -/
theorem exists_behind (h : a.Spaced) (rest : List Char) :
    ∃ c cs, a.behind ++ rest = c :: cs ∧ (isBlank c ∨ isQuote c ∨ c = '=') := by
  cases hbefore : a.beforeEquals with
  | nil =>
      exact ⟨'=', a.afterEquals ++ [a.quote] ++ a.value ++ [a.quote] ++ rest,
        by simp [behind, link, hbefore], Or.inr (Or.inr rfl)⟩
  | cons c cs =>
      exact ⟨c, cs ++ '=' :: (a.afterEquals ++ [a.quote]) ++ a.value ++ [a.quote] ++ rest,
        by simp [behind, link, hbefore],
        Or.inl (h.beforeEquals c (by rw [hbefore]; exact List.mem_cons_self))⟩

theorem quiet_gap (h : a.Spaced) (hreader : SeeksNames reader) (rest : List Char) :
    Quiet reader previous a.gap rest :=
  quiet_of_first fun c hc => hreader.first (Or.inl (h.gap c hc))

theorem quiet_link (h : a.Spaced) (hreader : SeeksNames reader) (rest : List Char) :
    Quiet reader previous a.link rest := by
  refine quiet_of_first fun c hc => hreader.first ?_
  simp only [link, List.mem_append, List.mem_cons, List.not_mem_nil, or_false] at hc
  rcases hc with hc | rfl | hc | rfl
  · exact Or.inl (h.beforeEquals c hc)
  · exact Or.inr (Or.inr rfl)
  · exact Or.inl (h.afterEquals c hc)
  · exact Or.inr (Or.inl h.quote)

theorem quiet_quote (h : a.Spaced) (hreader : SeeksNames reader) (rest : List Char) :
    Quiet reader previous [a.quote] rest := by
  refine quiet_of_first fun c hc => hreader.first (Or.inr (Or.inl ?_))
  rw [List.mem_singleton.1 hc]
  exact h.quote

theorem quiet_behind (h : a.Regular) (hreader : SeeksNames reader) (rest : List Char) :
    Quiet reader previous a.behind rest := by
  rw [behind, quiet_append, quiet_append]
  refine ⟨⟨quiet_link h.spaced hreader _, ?_⟩, quiet_quote h.spaced hreader rest⟩
  exact quiet_of_value (fun _ hcs => hreader.unassigned hcs) h.quote fun c hc => (h.value c hc).2.1

theorem atBoundary_gap (h : a.Spaced) : atBoundary (lastOf previous a.gap) := by
  obtain ⟨c, hc, hlast⟩ := lastOf_mem previous h.gap_ne
  rw [hlast]
  exact atBoundary_of_isBlank (h.gap c hc)

theorem isPlainCharacter_of_mem_xmlns {c : Char} (h : c ∈ ['x', 'm', 'l', 'n', 's']) :
    isPlainCharacter c := by
  have hall : ['x', 'm', 'l', 'n', 's'].all isPlainCharacter := by
    decide
  exact List.all_eq_true.1 hall c h

/-- Inside `xmlns:` no name begins. -/
theorem quiet_lead {name : RootName} {rest : List Char}
    (hlead : name.lead ≠ [] → reader (name.lead ++ rest) = none) :
    Quiet reader previous name.lead rest := by
  cases name with
  | plain word => trivial
  | declared word =>
      have hinside : ∀ c ∈ ['x', 'm', 'l', 'n', 's'], atBoundary (some c) = false := by
        intro c hc
        exact (of_isPlainCharacter (isPlainCharacter_of_mem_xmlns hc)).2.2.2
      refine ⟨fun _ => hlead (List.cons_ne_nil _ _), ?_, ?_, ?_, ?_, ?_, trivial⟩
      · intro hx; rw [hinside 'x' (by decide)] at hx; cases hx
      · intro hm; rw [hinside 'm' (by decide)] at hm; cases hm
      · intro hl; rw [hinside 'l' (by decide)] at hl; cases hl
      · intro hn; rw [hinside 'n' (by decide)] at hn; cases hn
      · intro hs; rw [hinside 's' (by decide)] at hs; cases hs

theorem atBoundary_lead {name : RootName} (h : atBoundary previous) :
    atBoundary (lastOf previous name.lead) := by
  cases name with
  | plain word => exact h
  | declared word =>
      show atBoundary (some ':')
      decide +kernel

theorem quiet_word {rest : List Char} (h : a.Regular)
    (hword : reader (a.name.word ++ rest) = none) :
    Quiet reader previous a.name.word rest := by
  have hplain := h.word
  obtain ⟨first, tail, hname⟩ := List.exists_cons_of_ne_nil h.word_ne
  rw [hname] at hword hplain ⊢
  exact ⟨fun _ => hword, quiet_of_name (of_isPlainCharacter (hplain first List.mem_cons_self)).2.2.2
    fun c hc => hplain c (List.mem_cons_of_mem first hc)⟩

/-- An attribute is quiet when a reader fails at both places where its name may begin. -/
theorem quiet (h : a.Regular) (hreader : SeeksNames reader) {rest : List Char}
    (hlead : a.name.lead ≠ [] →
      reader (a.name.lead ++ (a.name.word ++ (a.behind ++ rest))) = none)
    (hword : reader (a.name.word ++ (a.behind ++ rest)) = none) :
    Quiet reader previous a.text rest := by
  have htext : a.text = a.gap ++ (a.name.lead ++ (a.name.word ++ a.behind)) := by
    have happend := text_append a []
    rwa [List.append_nil, List.append_nil] at happend
  rw [htext, quiet_append, quiet_append, quiet_append]
  refine ⟨quiet_gap h.spaced hreader _, quiet_lead ?_, quiet_word h hword,
    quiet_behind h hreader rest⟩
  rwa [List.append_assoc]

theorem lastOf_text (a : RootAttribute) : lastOf previous a.text = some a.quote := by
  rw [text, lastOf_append]
  rfl

/-- The word of an attribute is found when it is the key without case and has a value. -/
theorem attributeAt?_text {key : List Char} (h : a.Regular) (hkey : ∀ k ∈ key, k.isLower)
    (rest : List Char) :
    attributeAt? key (a.name.word ++ (a.behind ++ rest)) =
      if a.name.word.map foldCase = key ∧ a.value ≠ [] then some a.value else none := by
  obtain ⟨c, cs, hbehind, hc⟩ := exists_behind h.spaced rest
  rw [attributeAt?, hbehind, bind_value?_word hkey h.word (not_isLower_foldCase hc),
    ← hbehind, behind_append, value?_link h]
  by_cases hname : a.name.word.map foldCase = key
  · rw [if_pos hname]
    by_cases hvalue : a.value = []
    · rw [if_neg (fun hboth => hboth.2 hvalue)]
      simp only [hvalue, List.isEmpty_nil, if_true]
    · rw [if_pos ⟨hname, hvalue⟩]
      simp only [List.isEmpty_iff, hvalue, if_false]
  · rw [if_neg hname, if_neg (fun hboth => hname hboth.1)]

theorem attributeAt?_lead {key rest : List Char} {name : RootName}
    (hkey : ∀ k ∈ key, k.isLower) (hlead : name.lead ≠ []) :
    attributeAt? key (name.lead ++ rest) = none := by
  cases name with
  | plain word => exact absurd rfl hlead
  | declared word =>
      have hnone : (dropFolded? key ((RootName.declared word).lead ++ rest)).bind value? =
          none := by
        show (dropFolded? key (['x', 'm', 'l', 'n', 's'] ++ ':' :: rest)).bind value? = none
        rw [bind_value?_word hkey (fun _ => isPlainCharacter_of_mem_xmlns) (by decide),
          value?_cons (by decide) (by decide), ite_self]
      rw [attributeAt?, hnone]

/-- **Searching through one attribute** finds its value or goes on behind it. -/
theorem findAttribute?_text {key : List Char} (h : a.Regular) (hne : key ≠ [])
    (hkey : ∀ k ∈ key, k.isLower) (rest : List Char) :
    findAttribute? key previous (a.text ++ rest) =
      if a.name.word.map foldCase = key ∧ a.value ≠ [] then some a.value
      else findAttribute? key (some a.quote) rest := by
  have hreader := seeksNames_attributeAt? hne hkey
  have hword := attributeAt?_text h hkey rest
  by_cases hfound : a.name.word.map foldCase = key ∧ a.value ≠ []
  · rw [if_pos hfound] at hword ⊢
    rw [text_append, findAttribute?_of_quiet (quiet_gap h.spaced hreader _),
      findAttribute?_of_quiet (quiet_lead (attributeAt?_lead hkey))]
    have hboundary : atBoundary (lastOf (lastOf previous a.gap) a.name.lead) :=
      atBoundary_lead (atBoundary_gap h.spaced)
    obtain ⟨first, tail, hname⟩ := List.exists_cons_of_ne_nil h.word_ne
    rw [hname, List.cons_append] at hword ⊢
    rw [findAttribute?, if_pos hboundary, hword]
  · rw [if_neg hfound] at hword ⊢
    rw [findAttribute?_of_quiet (quiet h hreader (attributeAt?_lead hkey) hword), lastOf_text]

theorem findDeclarations_plain {word : List Char} (h : a.Regular) (hname : a.name = .plain word)
    (rest : List Char) :
    findDeclarations previous (a.text ++ rest) = findDeclarations (some a.quote) rest := by
  obtain ⟨c, cs, hbehind, hc⟩ := exists_behind h.spaced rest
  have hquiet : Quiet declaration? previous a.text rest := by
    refine quiet h seeksNames_declaration? (fun hlead => ?_) ?_
    · rw [hname] at hlead
      exact absurd rfl hlead
    · rw [hbehind]
      exact declaration?_word h.word hc
  rw [findDeclarations_of_quiet hquiet, lastOf_text]

theorem isPrefixCharacter_of_isPlainCharacter {c : Char} (h : isPlainCharacter c) :
    isPrefixCharacter c := by
  have hboundary := (of_isPlainCharacter h).2.2.2
  rw [atBoundary, Bool.not_eq_false'] at hboundary
  rw [isPrefixCharacter, Bool.or_assoc, Bool.or_comm (decide (c = '.')), ← Bool.or_assoc, hboundary,
    Bool.true_or]

theorem declaration?_text {word : List Char} (h : a.Regular) (hname : a.name = .declared word)
    (rest : List Char) :
    declaration? (a.name.lead ++ (a.name.word ++ (a.behind ++ rest))) =
      some (word, a.value, rest) := by
  have hplain := h.word
  obtain ⟨first, tail, hword⟩ := List.exists_cons_of_ne_nil h.word_ne
  obtain ⟨c, cs, hbehind, hc⟩ := exists_behind h.spaced rest
  have hprefix : ∀ d ∈ word, isPrefixCharacter d := by
    intro d hd
    rw [hname] at hplain
    exact isPrefixCharacter_of_isPlainCharacter (hplain d hd)
  have hstop : ¬ isPrefixCharacter c := by
    rw [Bool.not_eq_true]
    rcases hc with hc | hc | rfl
    · exact isPrefixCharacter_of_isBlank hc
    · exact isPrefixCharacter_of_isQuote hc
    · exact isPrefixCharacter_equals
  have hempty : word.isEmpty = false := by
    rw [hname] at hword
    rw [show word = first :: tail from hword]
    rfl
  rw [hname]
  show declaration? ('x' :: 'm' :: 'l' :: 'n' :: 's' :: ':' :: (word ++ (a.behind ++ rest))) = _
  rw [declaration?, hbehind, List.takeWhile_append_of_pos hprefix,
    List.dropWhile_append_of_pos hprefix, List.takeWhile_cons_of_neg hstop,
    List.dropWhile_cons_of_neg hstop, List.append_nil, ← hbehind, behind_append, value?_link h]
  simp only [hempty, Bool.false_eq_true, if_false, Option.map_some]

theorem findDeclarations_declared {word : List Char} (h : a.Regular)
    (hname : a.name = .declared word) (rest : List Char) :
    findDeclarations previous (a.text ++ rest) =
      (word, a.value) :: findDeclarations (some '"') rest := by
  have hdeclaration := declaration?_text h hname rest
  have hboundary : atBoundary (lastOf previous a.gap) := atBoundary_gap h.spaced
  rw [text_append, findDeclarations_of_quiet (quiet_gap h.spaced seeksNames_declaration? _)]
  rw [show a.name.lead = 'x' :: ['m', 'l', 'n', 's', ':'] by rw [hname]; rfl,
    List.cons_append] at hdeclaration ⊢
  rw [findDeclarations]
  split
  · next hsome =>
    rw [if_pos hboundary, hdeclaration, Option.some.injEq, Prod.mk.injEq, Prod.mk.injEq] at hsome
    obtain ⟨rfl, rfl, rfl⟩ := hsome
    rfl
  · next hnone =>
    rw [if_pos hboundary, hdeclaration] at hnone
    cases hnone

end RootAttribute

/-! ## All attributes -/

section Attributes

variable {attributes : List RootAttribute} {trailing : List Char} {previous : Option Char}

theorem tagText_cons (a : RootAttribute) (attributes : List RootAttribute)
    (trailing : List Char) :
    tagText (a :: attributes) trailing = a.text ++ tagText attributes trailing := by
  rw [tagText, tagText, List.flatMap_cons, List.append_assoc]

/-- **A value that is looked up** is that of the first attribute with the name, ignoring case, and
a value that is not empty. A declared prefix counts as a name here. -/
theorem findAttribute?_tagText {key : List Char} (hattributes : ∀ a ∈ attributes, a.Regular)
    (htrailing : ∀ c ∈ trailing, isBlank c) (hne : key ≠ []) (hkey : ∀ k ∈ key, k.isLower) :
    findAttribute? key previous (tagText attributes trailing) =
      (attributes.find? fun a => a.name.word.map foldCase = key ∧ a.value ≠ []).map
        RootAttribute.value := by
  induction attributes generalizing previous with
  | nil =>
      have hquiet : Quiet (attributeAt? key) previous trailing [] :=
        quiet_of_first fun c hc => (seeksNames_attributeAt? hne hkey).first
          (Or.inl (htrailing c hc))
      have hsearch := findAttribute?_of_quiet hquiet
      rw [List.append_nil] at hsearch
      rw [tagText, List.flatMap_nil, List.nil_append, hsearch]
      rfl
  | cons a attributes ih =>
      rw [tagText_cons, RootAttribute.findAttribute?_text (hattributes a List.mem_cons_self) hne
        hkey, List.find?_cons]
      by_cases hfound : a.name.word.map foldCase = key ∧ a.value ≠ []
      · rw [if_pos hfound, decide_eq_true hfound]
        rfl
      · rw [if_neg hfound, decide_eq_false hfound]
        exact ih fun b hb => hattributes b (List.mem_cons_of_mem a hb)

/-- The declarations among attributes: the prefixes with their values. -/
def declarationsOf (attributes : List RootAttribute) : List (List Char × List Char) :=
  attributes.filterMap fun a =>
    match a.name with
    | .plain _ => none
    | .declared word => some (word, a.value)

/-- **The declarations that are found** are all declarations among the attributes, in order. -/
theorem findDeclarations_tagText (hattributes : ∀ a ∈ attributes, a.Regular)
    (htrailing : ∀ c ∈ trailing, isBlank c) :
    findDeclarations previous (tagText attributes trailing) = declarationsOf attributes := by
  induction attributes generalizing previous with
  | nil =>
      have hquiet : Quiet declaration? previous trailing [] :=
        quiet_of_first fun c hc => seeksNames_declaration?.first (Or.inl (htrailing c hc))
      have hsearch := findDeclarations_of_quiet hquiet
      rw [List.append_nil] at hsearch
      rw [tagText, List.flatMap_nil, List.nil_append, hsearch, findDeclarations]
      rfl
  | cons a attributes ih =>
      have ha := hattributes a List.mem_cons_self
      have htail := fun b hb => hattributes b (List.mem_cons_of_mem a hb)
      rw [tagText_cons, declarationsOf, List.filterMap_cons]
      cases hname : a.name with
      | plain word => rw [RootAttribute.findDeclarations_plain ha hname, ih htail]; rfl
      | declared word => rw [RootAttribute.findDeclarations_declared ha hname, ih htail]; rfl

theorem head?_tagText (hattributes : ∀ a ∈ attributes, a.Spaced)
    (htrailing : ∀ c ∈ trailing, isBlank c) :
    ∀ c ∈ (tagText attributes trailing).head?, isBlank c := by
  cases attributes with
  | nil => exact fun c hc => htrailing c (List.mem_of_mem_head? hc)
  | cons a attributes =>
      intro c hc
      have ha := hattributes a List.mem_cons_self
      obtain ⟨first, gap, hgap⟩ := List.exists_cons_of_ne_nil ha.gap_ne
      rw [tagText_cons, RootAttribute.text_append, hgap, Option.mem_def, List.cons_append,
        List.head?_cons, Option.some.injEq] at hc
      exact ha.gap c (by rw [hgap, hc]; exact List.mem_cons_self)

/-- What is neither a blank, a quote nor an equals sign stands in a name or in a value. -/
theorem of_mem_tagText (hattributes : ∀ a ∈ attributes, a.Spaced)
    (htrailing : ∀ c ∈ trailing, isBlank c) {c : Char} (hc : c ∈ tagText attributes trailing) :
    isBlank c ∨ isQuote c ∨ c = '=' ∨ ∃ a ∈ attributes, c ∈ a.name.text ∨ c ∈ a.value := by
  rw [tagText, List.mem_append, List.mem_flatMap] at hc
  rcases hc with ⟨a, ha, hmem⟩ | hmem
  · have hspaced := hattributes a ha
    simp only [RootAttribute.text, RootAttribute.link, List.mem_append, List.mem_cons,
      List.not_mem_nil, or_false] at hmem
    rcases hmem with (((hgap | hname) | hbefore | rfl | hafter | rfl) | hvalue) | rfl
    · exact Or.inl (hspaced.gap c hgap)
    · exact Or.inr (Or.inr (Or.inr ⟨a, ha, Or.inl hname⟩))
    · exact Or.inl (hspaced.beforeEquals c hbefore)
    · exact Or.inr (Or.inr (Or.inl rfl))
    · exact Or.inl (hspaced.afterEquals c hafter)
    · exact Or.inr (Or.inl hspaced.quote)
    · exact Or.inr (Or.inr (Or.inr ⟨a, ha, Or.inr hvalue⟩))
    · exact Or.inr (Or.inl hspaced.quote)
  · exact Or.inl (htrailing c hmem)

/-- The opening tag ends at its own bracket only. -/
theorem greater_notMem_tagText (hattributes : ∀ a ∈ attributes, a.Regular)
    (htrailing : ∀ c ∈ trailing, isBlank c) : '>' ∉ tagText attributes trailing := by
  intro hmem
  rcases of_mem_tagText (fun a ha => (hattributes a ha).spaced) htrailing hmem with
    hblank | hquote | hequals | ⟨a, ha, hname | hvalue⟩
  · exact absurd hblank (by decide)
  · exact absurd hquote (by decide)
  · exact absurd hequals (by decide)
  · rcases List.mem_append.1 hname with hlead | hword
    · cases hplain : a.name with
      | plain word => rw [hplain] at hlead; cases hlead
      | declared word =>
          rw [hplain] at hlead
          change '>' ∈ ['x', 'm', 'l', 'n', 's', ':'] at hlead
          exact absurd hlead (by decide)
    · exact absurd ((hattributes a ha).word '>' hword) (by decide)
  · exact ((hattributes a ha).value '>' hvalue).2.2 rfl

end Attributes

/-! ## Declarations of any text

Whatever text a declaration is found in, its prefix consists of the characters of prefixes, and its
value is a piece of the text without quotes. -/

theorem unquoted_of_value? {cs value rest : List Char} (h : value? cs = some (value, rest)) :
    (∀ c ∈ value, isQuote c = false ∧ c ∈ cs) ∧ rest <:+ cs := by
  obtain ⟨before, after, opening, closing, rfl, -, -, -, -, hvalue⟩ := value?_eq_some_iff.1 h
  refine ⟨fun c hc => ⟨hvalue c hc, by simp [hc]⟩,
    before ++ '=' :: (after ++ opening :: (value ++ [closing])), by simp⟩

theorem parts_of_declaration? {cs name value rest : List Char}
    (h : declaration? cs = some (name, value, rest)) :
    (∀ c ∈ name, isPrefixCharacter c) ∧ (∀ c ∈ value, isQuote c = false ∧ c ∈ cs) ∧
      rest <:+ cs := by
  unfold declaration? at h
  split at h
  · next behind =>
    simp only at h
    split at h
    · cases h
    · obtain ⟨⟨_, _⟩, hvalue, heq⟩ := Option.map_eq_some_iff.1 h
      cases heq
      obtain ⟨hall, hrest⟩ := unquoted_of_value? hvalue
      have hbehind : behind.dropWhile isPrefixCharacter <:+
          'x' :: 'm' :: 'l' :: 'n' :: 's' :: ':' :: behind :=
        (List.dropWhile_suffix _).trans (List.suffix_append ['x', 'm', 'l', 'n', 's', ':'] behind)
      refine ⟨fun c hc => List.mem_takeWhile_imp hc, ?_, hrest.trans hbehind⟩
      exact fun c hc => ⟨(hall c hc).1, hbehind.subset (hall c hc).2⟩
  · cases h

theorem parts_of_mem_findDeclarations {previous : Option Char} {cs name value : List Char}
    (h : (name, value) ∈ findDeclarations previous cs) :
    (∀ c ∈ name, isPrefixCharacter c) ∧ ∀ c ∈ value, isQuote c = false ∧ c ∈ cs := by
  fun_induction findDeclarations previous cs with
  | case1 => cases h
  | case2 =>
      rename_i hfound _ ih
      have hdeclaration := (Option.ite_none_right_eq_some.1 hfound).2
      obtain ⟨hname, hvalue, hrest⟩ := parts_of_declaration? hdeclaration
      rcases List.mem_cons.1 h with heq | hmem
      · cases heq
        exact ⟨hname, hvalue⟩
      · obtain ⟨hname', hvalue'⟩ := ih hmem
        exact ⟨hname', fun c hc => ⟨(hvalue' c hc).1, hrest.subset (hvalue' c hc).2⟩⟩
  | case3 =>
      rename_i ih
      obtain ⟨hname, hvalue⟩ := ih h
      exact ⟨hname, fun c hc => ⟨(hvalue c hc).1, List.mem_cons_of_mem _ (hvalue c hc).2⟩⟩

end IconForge.Graphic
