import Mathlib
import IconForge.Proofs.Graphic.AttributeLookup
import IconForge.Proofs.Graphic.QuotedTag
import IconForge.Proofs.Number.LeadingNumber

set_option autoImplicit false

/-! # A view box that is present

A search reads a value up to its first quote of either kind and wants a character there. For
attributes with any values that is not what XML says: a view box that is empty, or begins with the
other kind of quote, is passed over as if it were missing, and a longer one is cut. It can also be
hidden, by an attribute in front of it that the search takes for a view box: one with a prefix, or
one that has an assignment inside of its value.

`extract_present_viewBox` says when a view box is followed all the same. What the search finds in an
attribute with any value is `RootAttribute.Matches`; an attribute that does not match is quiet
(`RootAttribute.quiet_of_not_matches`), and one that matches is found when another follows it
(`RootAttribute.exists_matchedBehind`). -/

namespace IconForge.Graphic

open IconForge.Text

theorem atBoundary_of_isQuote {c : Char} (h : isQuote c) : atBoundary (some c) := by
  rcases eq_of_isQuote h with rfl | rfl
  · decide +kernel
  · decide +kernel

theorem atBoundary_append {front piece : List Char} (hfront : atBoundary front.getLast?)
    (hpiece : atBoundary piece.getLast?) : atBoundary (front ++ piece).getLast? := by
  rcases List.eq_nil_or_concat piece with rfl | ⟨piece, c, rfl⟩
  · rwa [List.append_nil]
  · simpa using hpiece

/-- Where a name may begin behind a piece of a text, it may begin behind the piece alone. -/
theorem atBoundary_of_lastOf {previous : Option Char} {piece : List Char}
    (h : atBoundary (lastOf previous piece)) : atBoundary piece.getLast? := by
  rcases List.eq_nil_or_concat piece with rfl | ⟨piece, c, rfl⟩
  · rfl
  · rw [List.concat_eq_append, lastOf_append] at h
    simpa [lastOf] using h

/-- An opening quote with another quote behind it makes a value. -/
theorem assigns_of_quote {before after cs : List Char} {opening quote : Char}
    (hbefore : ∀ c ∈ before, isBlank c) (hafter : ∀ c ∈ after, isBlank c)
    (hopening : isQuote opening) (hmem : quote ∈ cs) (hquote : isQuote quote) :
    ∃ rest, Assigns (before ++ '=' :: (after ++ opening :: cs)) (cs.takeWhile (!isQuote ·))
      rest := by
  cases hdrop : cs.dropWhile (!isQuote ·) with
  | nil =>
      rw [List.dropWhile_eq_nil_iff] at hdrop
      have hnone := hdrop quote hmem
      rw [hquote] at hnone
      cases hnone
  | cons closing rest =>
      refine ⟨rest, before, after, opening, closing, ?_, hbefore, hafter, hopening,
        by simpa using of_dropWhile_eq_cons hdrop,
        fun c hc => by simpa using List.mem_takeWhile_imp hc⟩
      rw [← hdrop, List.takeWhile_append_dropWhile]

/-! ## What a search finds in an attribute -/

namespace RootAttribute

/-- The front of a value that is read, up to the first quote of either kind. -/
def seen (a : RootAttribute) : List Char :=
  a.value.takeWhile (!isQuote ·)

/-- The rest of a value, which is not read. -/
def unseen (a : RootAttribute) : List Char :=
  a.value.dropWhile (!isQuote ·)

/-- A name ends in a key, behind a place where a name may begin, and the value has something in
front of its first quote. There may be blanks at the end, as one character of names counts as a
blank. -/
def NamesKey (key : String) (a : RootAttribute) : Prop :=
  ∃ front word blanks, a.name.text = front ++ (word ++ blanks) ∧ atBoundary front.getLast? ∧
    word.map foldCase = key.toList ∧ (∀ c ∈ blanks, isBlank c) ∧ a.seen ≠ []

/-- A value holds a key with its equals sign, and behind that the value ends, or a quote comes with
something else than a quote behind it. -/
def HoldsKey (key : String) (a : RootAttribute) : Prop :=
  ∃ front word before after more,
    a.value = front ++ (word ++ (before ++ '=' :: (after ++ more))) ∧ atBoundary front.getLast? ∧
      word.map foldCase = key.toList ∧ (∀ c ∈ before, isBlank c) ∧ (∀ c ∈ after, isBlank c) ∧
      (more = [] ∨
        ∃ quote c rest, more = quote :: c :: rest ∧ isQuote quote ∧ isQuote c = false)

/-- An attribute passes for one with a key, by its name or inside of its value. -/
def Matches (key : String) (a : RootAttribute) : Prop :=
  a.NamesKey key ∨ a.HoldsKey key

section One

variable {a : RootAttribute} {key : String} {previous : Option Char}

theorem seen_append_unseen (a : RootAttribute) : a.seen ++ a.unseen = a.value :=
  List.takeWhile_append_dropWhile

theorem isQuote_of_mem_seen {c : Char} (hc : c ∈ a.seen) : isQuote c = false := by
  rw [seen] at hc
  simpa using List.mem_takeWhile_imp hc

theorem isQuote_of_mem_head?_unseen {c : Char} (hc : c ∈ a.unseen.head?) : isQuote c := by
  simpa using of_mem_head?_dropWhile hc

theorem seen_eq (h : a.Spaced) (rest : List Char) :
    (a.value ++ a.quote :: rest).takeWhile (!isQuote ·) = a.seen := by
  rw [← seen_append_unseen, List.append_assoc]
  refine (takeWhile_dropWhile_append (fun c hc => by simp [isQuote_of_mem_seen hc]) ?_).1
  intro c hc
  cases hunseen : a.unseen with
  | nil =>
      rw [hunseen, List.nil_append, List.head?_cons, Option.mem_some_iff] at hc
      simp [← hc, h.quote]
  | cons d unseen =>
      rw [hunseen, List.cons_append, List.head?_cons, Option.mem_some_iff] at hc
      simp [← hc, isQuote_of_mem_head?_unseen (a := a) (c := d) (by rw [hunseen]; rfl)]

theorem exists_value?_behind (h : a.Spaced) {blanks : List Char} (hblanks : ∀ c ∈ blanks, isBlank c)
    (rest : List Char) : ∃ tail, value? (blanks ++ (a.behind ++ rest)) = some (a.seen, tail) := by
  have hbefore : ∀ c ∈ blanks ++ a.beforeEquals, isBlank c := by
    intro c hc
    rcases List.mem_append.1 hc with hc | hc
    · exact hblanks c hc
    · exact h.beforeEquals c hc
  have hmem : a.quote ∈ a.value ++ a.quote :: rest := by simp
  obtain ⟨tail, hassigns⟩ := assigns_of_quote hbefore h.afterEquals h.quote hmem h.quote
  rw [seen_eq h] at hassigns
  refine ⟨tail, value?_eq_some_iff.2 ?_⟩
  rwa [show blanks ++ (a.behind ++ rest) = blanks ++ a.beforeEquals ++
    '=' :: (a.afterEquals ++ a.quote :: (a.value ++ a.quote :: rest)) by simp [behind, link]]

/-- A key at the end of a name is found, unless the value begins with a quote. -/
theorem attributeAt?_of_name (h : a.Spaced) {key word blanks : List Char}
    (hword : word.map foldCase = key) (hblanks : ∀ c ∈ blanks, isBlank c) (hseen : a.seen ≠ [])
    (rest : List Char) :
    attributeAt? key (word ++ (blanks ++ (a.behind ++ rest))) = some a.seen := by
  obtain ⟨tail, hvalue⟩ := exists_value?_behind h hblanks rest
  rw [attributeAt?, dropFolded?_eq_some_iff.2 ⟨word, rfl, hword⟩, Option.bind_some, hvalue]
  simp [hseen]

/-- What is found in a piece of a name is a key at its end. -/
theorem of_attributeAt?_name (h : a.Quoted) (hkey : ∀ k ∈ key.toList, k.isLower)
    {front piece rest value : List Char} (hname : a.name.text = front ++ piece)
    (hfront : atBoundary front.getLast?)
    (hat : attributeAt? key.toList (piece ++ (a.behind ++ rest)) = some value) :
    a.NamesKey key := by
  obtain ⟨word, tail, _, htext, hword, hassigns, hne⟩ := attributeAt?_eq_some_iff.1 hat
  obtain ⟨c, cs, hbehind, hc⟩ := exists_behind h.toSpaced rest
  rw [hbehind] at htext
  obtain ⟨blanks, rfl, rfl⟩ :=
    exists_append_of_notMem htext (notMem_of_folded hkey hword (not_isLower_foldCase hc))
  rw [← hbehind] at hassigns
  -- Neither the name nor what follows it has an equals sign but the one of the attribute.
  have hblanks : ∀ d ∈ blanks, isBlank d := by
    obtain ⟨before, after, opening, closing, heq, hbefore, -⟩ := hassigns
    have hequals : '=' ∉ blanks ++ a.beforeEquals := by
      rw [List.mem_append, not_or]
      constructor
      · exact fun hmem => (h.name '=' (by rw [hname]; simp [hmem])).1 rfl
      · exact fun hmem => absurd (h.beforeEquals '=' hmem) (by decide)
    rw [show blanks ++ (a.behind ++ rest) = blanks ++ a.beforeEquals ++
        '=' :: (a.afterEquals ++ a.quote :: (a.value ++ a.quote :: rest)) by
      simp [behind, link]] at heq
    obtain ⟨more, rfl, -⟩ := exists_append_of_notMem heq.symm hequals
    exact fun d hd => hbefore d (by simp [hd])
  have hseen : a.seen ≠ [] := by
    obtain ⟨tail, hvalue⟩ := exists_value?_behind h.toSpaced hblanks rest
    rw [value?_eq_some_iff.2 hassigns, Option.some.injEq, Prod.mk.injEq] at hvalue
    rwa [← hvalue.1]
  exact ⟨front, word, blanks, hname, hfront, hword, hblanks, hseen⟩

/-- What is found in a piece of a value is a key with its equals sign. -/
theorem of_attributeAt?_value (h : a.Spaced) (hkey : ∀ k ∈ key.toList, k.isLower)
    {front piece rest value : List Char} (hvalue : a.value = front ++ piece)
    (hfront : atBoundary front.getLast?)
    (hat : attributeAt? key.toList (piece ++ a.quote :: rest) = some value) : a.HoldsKey key := by
  have hquote : ∀ {cs : List Char}, (∀ c ∈ cs, isBlank c) → a.quote ∉ cs := by
    intro cs hcs hmem
    have hblank := hcs _ hmem
    rw [isBlank_of_isQuote h.quote] at hblank
    cases hblank
  obtain ⟨word, tail, behind, htext, hword, hassigns, hne⟩ := attributeAt?_eq_some_iff.1 hat
  obtain ⟨tail, rfl, rfl⟩ := exists_append_of_notMem htext
    (notMem_of_folded hkey hword (not_isLower_foldCase (Or.inr (Or.inl h.quote))))
  obtain ⟨before, after, opening, closing, heq, hbefore, hafter, hopening, -, hunquoted⟩ := hassigns
  have hequals : a.quote ∉ before ++ ['='] := by
    rw [List.mem_append, not_or, List.mem_singleton]
    refine ⟨hquote hbefore, fun heq => ?_⟩
    exact absurd (heq ▸ h.quote) (by decide)
  rw [List.append_cons before] at heq
  obtain ⟨tail, rfl, hbehind⟩ := exists_append_of_notMem heq hequals
  obtain ⟨more, rfl, hmore⟩ := exists_append_of_notMem hbehind.symm (hquote hafter)
  refine ⟨front, word, before, after, more, by simp [hvalue], hfront, hword, hbefore, hafter, ?_⟩
  cases more with
  | nil => exact Or.inl rfl
  | cons quote more =>
      rw [List.cons_append, List.cons.injEq] at hmore
      obtain ⟨rfl, hmore⟩ := hmore
      cases more with
      | nil =>
          -- The quote of the attribute would be inside of the value that was found.
          obtain ⟨d, value, rfl⟩ := List.exists_cons_of_ne_nil hne
          rw [List.nil_append, List.cons_append, List.cons.injEq] at hmore
          have hd := hunquoted d List.mem_cons_self
          rw [hmore.1, h.quote] at hd
          cases hd
      | cons c more =>
          obtain ⟨d, value, rfl⟩ := List.exists_cons_of_ne_nil hne
          rw [List.cons_append, List.cons_append, List.cons.injEq] at hmore
          refine Or.inr ⟨_, c, more, rfl, hopening, ?_⟩
          rw [← hmore.1]
          exact hunquoted d List.mem_cons_self

/-- **An attribute that does not match is quiet**, whatever follows it. -/
theorem quiet_of_not_matches (h : a.Quoted) (hne : key.toList ≠ [])
    (hkey : ∀ k ∈ key.toList, k.isLower) (hnot : ¬ a.Matches key) (rest : List Char) :
    Quiet (attributeAt? key.toList) previous a.text rest := by
  have hreader := seeksNames_attributeAt? hne hkey
  rw [text, quiet_append, quiet_append, quiet_append, quiet_append]
  refine ⟨⟨⟨⟨quiet_gap h.toSpaced hreader _, ?name⟩, quiet_link h.toSpaced hreader _⟩, ?value⟩,
    quiet_quote h.toSpaced hreader _⟩
  case name =>
    rw [quiet_iff]
    intro before piece hname _ hboundary
    by_contra hsome
    obtain ⟨value, hvalue⟩ := Option.ne_none_iff_exists'.1 hsome
    have hat : attributeAt? key.toList (piece ++ (a.behind ++ rest)) = some value := by
      rw [← hvalue]
      simp [behind]
    exact hnot (Or.inl (of_attributeAt?_name h hkey hname (atBoundary_of_lastOf hboundary) hat))
  case value =>
    rw [quiet_iff]
    intro before piece hvalue _ hboundary
    by_contra hsome
    obtain ⟨value, hat⟩ := Option.ne_none_iff_exists'.1 hsome
    exact hnot (Or.inr (of_attributeAt?_value h.toSpaced hkey hvalue
      (atBoundary_of_lastOf hboundary) hat))

/-! ### Matches -/

/-- Behind the blanks in front of an attribute a name may begin, whatever stands in front of
them. -/
theorem atBoundary_append_gap (h : a.Spaced) (front : List Char) :
    atBoundary (front ++ a.gap).getLast? := by
  rw [← lastOf_none, lastOf_append]
  exact atBoundary_gap h

theorem NamesKey.exists_matchedBehind (h : a.Spaced) (hkey : a.NamesKey key)
    (front rest : List Char) :
    ∃ place value, MatchedBehind place key (front ++ (a.text ++ rest)) value ∧
      place.length < front.length + a.text.length := by
  obtain ⟨before, word, blanks, hname, hboundary, hword, hblanks, hseen⟩ := hkey
  obtain ⟨tail, hvalue⟩ := exists_value?_behind h hblanks rest
  have htext : a.text = a.gap ++ (before ++ (word ++ (blanks ++ a.behind))) := by
    simp [text, behind, hname]
  refine ⟨front ++ a.gap ++ before, a.seen, ⟨word, blanks ++ (a.behind ++ rest), tail, ?_,
    atBoundary_append (atBoundary_append_gap h front) hboundary, hword,
    value?_eq_some_iff.1 hvalue, hseen⟩, ?_⟩
  · simp [htext]
  · simp [htext, behind]

/-- A text that begins with something else than a quote and has one later gives the value of a
key that stands at the end of another value. -/
theorem HoldsKey.exists_matchedBehind (h : a.Spaced) (hkey : a.HoldsKey key)
    (front : List Char) {c quote : Char} {rest : List Char} (hc : isQuote c = false)
    (hmem : quote ∈ rest) (hquote : isQuote quote) :
    ∃ place value, MatchedBehind place key (front ++ (a.text ++ c :: rest)) value ∧
      place.length < front.length + a.text.length := by
  obtain ⟨start, word, before, after, more, hvalue, hboundary, hword, hbefore, hafter, hmore⟩ :=
    hkey
  have htext : a.text = a.gap ++ a.name.text ++ a.link ++
      (start ++ (word ++ (before ++ '=' :: (after ++ more)))) ++ [a.quote] := by
    rw [text, hvalue]
  -- Either the closing quote of the value opens another one, or a quote inside of it does.
  obtain ⟨opening, d, tail, hopen, hopening, hd, closing, hclosing, hclosingQuote⟩ :
      ∃ opening d tail, more ++ a.quote :: c :: rest = opening :: d :: tail ∧ isQuote opening ∧
        isQuote d = false ∧ ∃ closing ∈ tail, isQuote closing := by
    rcases hmore with rfl | ⟨opening, d, tail, rfl, hopening, hd⟩
    · exact ⟨a.quote, c, rest, rfl, h.quote, hc, quote, hmem, hquote⟩
    · exact ⟨opening, d, tail ++ a.quote :: c :: rest, rfl, hopening, hd, a.quote, by simp,
        h.quote⟩
  obtain ⟨behind, hassigns⟩ := assigns_of_quote hbefore hafter hopening
    (List.mem_cons_of_mem d hclosing) hclosingQuote
  refine ⟨front ++ (a.gap ++ a.name.text ++ a.link) ++ start, _,
    ⟨word, before ++ '=' :: (after ++ opening :: d :: tail), behind, ?_, ?_, hword, hassigns, ?_⟩,
    ?_⟩
  · rw [htext, ← hopen]
    simp
  · refine atBoundary_append ?_ hboundary
    rw [show front ++ (a.gap ++ a.name.text ++ a.link) = front ++ a.gap ++ a.name.text ++
        a.beforeEquals ++ '=' :: a.afterEquals ++ [a.quote] by simp [link], List.getLast?_concat]
    exact atBoundary_of_isQuote h.quote
  · rw [List.takeWhile_cons_of_pos (by simp [hd])]
    exact List.cons_ne_nil _ _
  · simp [htext]

/-- **An attribute that matches is found** when another one follows it. -/
theorem Matches.exists_matchedBehind (h : a.Spaced) (hmatches : a.Matches key)
    {next : RootAttribute} (hnext : next.Spaced) (front rest : List Char) :
    ∃ place value, MatchedBehind place key (front ++ (a.text ++ (next.text ++ rest))) value ∧
      place.length < front.length + a.text.length := by
  rcases hmatches with hkey | hkey
  · exact hkey.exists_matchedBehind h front _
  · obtain ⟨c, gap, hgap⟩ := List.exists_cons_of_ne_nil hnext.gap_ne
    have hc : isQuote c = false := by
      rw [← Bool.not_eq_true]
      intro hquote
      have hblank := hnext.gap c (by rw [hgap]; exact List.mem_cons_self)
      rw [isBlank_of_isQuote hquote] at hblank
      cases hblank
    rw [text_append next, hgap, List.cons_append]
    exact hkey.exists_matchedBehind h front hc (by simp [behind]) hnext.quote

/-- An attribute with a plain name and without an assignment in its value matches a key only by
being called so. -/
theorem matches_iff_of_plain (hname : ∀ c ∈ a.name.text, isPlainCharacter c)
    (hvalue : '=' ∉ a.value) :
    a.Matches key ↔ a.name.text.map foldCase = key.toList ∧ a.seen ≠ [] := by
  constructor
  · rintro (⟨front, word, blanks, htext, hboundary, hword, hblanks, hseen⟩ |
      ⟨front, word, before, after, more, hholds, -⟩)
    · -- A plain name has neither a place in it where a name may begin nor a blank.
      have hfront : front = [] := by
        rcases List.eq_nil_or_concat front with hnil | ⟨front, c, rfl⟩
        · exact hnil
        · have hc := (of_isPlainCharacter (hname c (by simp [htext]))).2.2.2
          rw [List.concat_eq_append, List.getLast?_concat, hc] at hboundary
          cases hboundary
      have hnone : blanks = [] := by
        rw [List.eq_nil_iff_forall_not_mem]
        intro c hc
        have hblank := (of_isPlainCharacter (hname c (by simp [htext, hc]))).1
        rw [hblanks c hc] at hblank
        cases hblank
      rw [htext, hfront, hnone, List.nil_append, List.append_nil]
      exact ⟨hword, hseen⟩
    · exact absurd (by simp [hholds]) hvalue
  · rintro ⟨hword, hseen⟩
    exact Or.inl ⟨[], a.name.text, [], by simp, rfl, hword, nofun, hseen⟩

end One

end RootAttribute

/-! ## Numbers that are cut off -/

theorem notMem_text_of_isQuote {c : Char} (h : isQuote c) {p : Numeral.Form} (hp : p.Valid) :
    c ∉ p.text := by
  intro hmem
  rcases eq_of_isQuote h with rfl | rfl
  · rcases Numeral.mem_text hp hmem with hdigit | hmark
    · exact absurd hdigit (by decide)
    · exact absurd hmark (by decide)
  · rcases Numeral.mem_text hp hmem with hdigit | hmark
    · exact absurd hdigit (by decide)
    · exact absurd hmark (by decide)

theorem leadingNumber?_append_quote {unseen : List Char} (hunseen : ∀ c ∈ unseen.head?, isQuote c)
    (seen : List Char) : Numeral.leadingNumber? (seen ++ unseen) = Numeral.leadingNumber? seen := by
  cases unseen with
  | nil => rw [List.append_nil]
  | cons quote rest =>
      have hquote := hunseen quote rfl
      exact Numeral.leadingNumber?_append_cons (isBlank_of_isQuote hquote)
        fun p hp => notMem_text_of_isQuote hquote hp

/-- Four numbers at the front of a value are those of the value when no blank is behind them. -/
theorem fourNumbers_append_iff {seen unseen : List Char} {r : Rectangle} (h : FourNumbers seen r)
    (hunseen : ∀ c ∈ unseen.head?, isQuote c) :
    FourNumbers (seen ++ unseen) r ↔ ∀ c ∈ unseen, isBlank c = false := by
  obtain ⟨x, run₁, y, run₂, width, run₃, height, rfl, hx, hy, hwidth, hheight, hrun₁, hrun₂,
    hrun₃⟩ := h
  have hvalue : x ++ (run₁ ++ (y ++ (run₂ ++ (width ++ (run₃ ++ height))))) ++ unseen =
      x ++ (run₁ ++ (y ++ (run₂ ++ (width ++ (run₃ ++ (height ++ unseen)))))) := by
    simp
  rw [hvalue]
  constructor
  · intro hall
    -- The whole value splits at the same three runs, so its last part has no blank.
    have hread := viewBoxOfValue?_eq_some_iff.2 ⟨r, hall, rfl⟩
    rw [viewBoxOfValue?, splitAtRuns_token hx hrun₁ (hy.unblank_head? _),
      splitAtRuns_token hy hrun₂ (hwidth.unblank_head? _),
      splitAtRuns_token hwidth hrun₃ (hheight.unblank_head? _)] at hread
    split at hread
    · next hnumbers =>
      simp only [List.map_cons, List.cons.injEq] at hnumbers
      have hlast := isToken_of_singleton hnumbers.2.2.2
      exact fun c hc => hlast.unblank c (List.mem_append_right height hc)
    · cases hread
  · intro hunblank
    refine ⟨x, run₁, y, run₂, width, run₃, height ++ unseen, rfl, hx, hy, hwidth, ?_, hrun₁, hrun₂,
      hrun₃⟩
    refine .of_number ?_ ?_
    · intro c hc
      rcases List.mem_append.1 hc with hc | hc
      · exact hheight.unblank c hc
      · exact hunblank c hc
    · rw [leadingNumber?_append_quote hunseen, hheight.number]

theorem FourNumbers.seen_ne_nil {a : RootAttribute} {r : Rectangle} (h : FourNumbers a.value r) :
    a.seen ≠ [] := by
  obtain ⟨x, run₁, y, run₂, width, run₃, height, hvalue, hx, -⟩ := h
  intro hseen
  have hunseen : a.unseen = a.value := by
    rw [← a.seen_append_unseen, hseen, List.nil_append]
  obtain ⟨c, rest, rfl⟩ := List.exists_cons_of_ne_nil hx.ne_nil
  have hc : isQuote c :=
    RootAttribute.isQuote_of_mem_head?_unseen (a := a) (by rw [hunseen, hvalue]; rfl)
  have hhead : ∀ d ∈ (c :: rest).head?, isQuote d := by
    rintro d ⟨⟩
    exact hc
  have hnone := leadingNumber?_append_quote hhead []
  rw [List.nil_append, hx.number, leadingNumber?_nil] at hnone
  cases hnone

/-! ## The search -/

theorem MatchedBehind.exists_matched {front cs value : List Char} {key : String}
    (h : MatchedBehind front key cs value) :
    ∃ first seen, MatchedBehind first key cs seen ∧ first.length ≤ front.length ∧
      Matched key cs seen := by
  obtain ⟨⟨first, seen⟩, hfirst, hmin⟩ :=
    (measure fun place : List Char × List Char => place.1.length).wf.has_min
      {place | MatchedBehind place.1 key cs place.2} ⟨(front, value), h⟩
  have hle : ∀ other otherValue, MatchedBehind other key cs otherValue →
      first.length ≤ other.length :=
    fun other otherValue hother => Nat.le_of_not_lt (hmin (other, otherValue) hother)
  exact ⟨first, seen, hfirst, hle front value h, first, hfirst, hle⟩

section Search

variable {key : String} {previous : Option Char} {attributes before behind : List RootAttribute}
  {a : RootAttribute} {trailing : List Char}

theorem quiet_attributes (hattributes : ∀ b ∈ attributes, b.Quoted) (hne : key.toList ≠ [])
    (hkey : ∀ k ∈ key.toList, k.isLower) (hnot : ∀ b ∈ attributes, ¬ b.Matches key)
    (rest : List Char) :
    Quiet (attributeAt? key.toList) previous (attributes.flatMap RootAttribute.text) rest := by
  induction attributes generalizing previous with
  | nil => trivial
  | cons b attributes ih =>
      rw [List.flatMap_cons, quiet_append]
      exact ⟨RootAttribute.quiet_of_not_matches (hattributes b List.mem_cons_self) hne hkey
          (hnot b List.mem_cons_self) _,
        ih (fun d hd => hattributes d (List.mem_cons_of_mem b hd))
          fun d hd => hnot d (List.mem_cons_of_mem b hd)⟩

theorem attribute?_of_not_matches (hattributes : ∀ b ∈ attributes, b.Quoted)
    (htrailing : ∀ c ∈ trailing, isBlank c) (hne : key.toList ≠ [])
    (hkey : ∀ k ∈ key.toList, k.isLower) (hnot : ∀ b ∈ attributes, ¬ b.Matches key) :
    attribute? key (tagText attributes trailing) = none := by
  have hquiet : Quiet (attributeAt? key.toList) none (tagText attributes trailing) [] := by
    rw [tagText, quiet_append]
    exact ⟨quiet_attributes hattributes hne hkey hnot _,
      quiet_of_first fun c hc => (seeksNames_attributeAt? hne hkey).first (Or.inl (htrailing c hc))⟩
  have hsearch := findAttribute?_of_quiet hquiet
  rw [List.append_nil] at hsearch
  rw [attribute?, hsearch]
  rfl

/-- The front of a value is found where no attribute in front of it matches. -/
theorem matched_of_seen (hbefore : ∀ b ∈ before, b.Quoted) (ha : a.Spaced)
    (hne : key.toList ≠ []) (hkey : ∀ k ∈ key.toList, k.isLower)
    (hname : a.name.text.map foldCase = key.toList) (hnot : ∀ b ∈ before, ¬ b.Matches key)
    (hseen : a.seen ≠ []) :
    Matched key (tagText (before ++ a :: behind) trailing) a.seen := by
  have htext : tagText (before ++ a :: behind) trailing = before.flatMap RootAttribute.text ++
      (a.gap ++ (a.name.text ++ ([] ++ (a.behind ++ tagText behind trailing)))) := by
    simp [tagText, RootAttribute.text, RootAttribute.behind]
  have hblanks : ∀ c ∈ [], isBlank c := by simp
  have hat := a.attributeAt?_of_name ha hname hblanks hseen (tagText behind trailing)
  rw [← attribute?_eq_some_iff, attribute?, htext,
    findAttribute?_of_quiet (quiet_attributes hbefore hne hkey hnot _),
    findAttribute?_of_quiet (RootAttribute.quiet_gap ha (seeksNames_attributeAt? hne hkey) _)]
  obtain ⟨c, name, hcons⟩ : ∃ c name, a.name.text = c :: name := by
    apply List.exists_cons_of_ne_nil
    rintro hnil
    rw [hnil, List.map_nil] at hname
    exact hne hname.symm
  rw [hcons, List.cons_append] at hat ⊢
  rw [findAttribute?, if_pos (RootAttribute.atBoundary_gap ha), hat]

/-- An attribute that matches hides all attributes behind it. -/
theorem exists_matchedBehind_of_matches (hattributes : ∀ b ∈ before ++ a :: behind, b.Spaced)
    (hmatches : ∃ b ∈ before, b.Matches key) :
    ∃ front seen, MatchedBehind front key (tagText (before ++ a :: behind) trailing) seen ∧
      front.length < (before.flatMap RootAttribute.text).length ∧
      Matched key (tagText (before ++ a :: behind) trailing) seen := by
  obtain ⟨b, hb, hmatches⟩ := hmatches
  obtain ⟨start, rest, rfl⟩ := List.append_of_mem hb
  obtain ⟨next, others, hnext⟩ : ∃ next others, rest ++ a :: behind = next :: others :=
    List.exists_cons_of_ne_nil (by simp)
  have htext : tagText (start ++ b :: rest ++ a :: behind) trailing =
      start.flatMap RootAttribute.text ++ (b.text ++ (next.text ++ tagText others trailing)) := by
    rw [List.append_assoc, List.cons_append, hnext]
    simp [tagText]
  obtain ⟨place, value, hplace, hlength⟩ := hmatches.exists_matchedBehind
    (hattributes b (by simp)) (hattributes next (by simp [hnext]))
    (start.flatMap RootAttribute.text) (tagText others trailing)
  rw [← htext] at hplace
  obtain ⟨front, seen, hfront, hle, hmatched⟩ := hplace.exists_matched
  refine ⟨front, seen, hfront, ?_, hmatched⟩
  rw [List.flatMap_append, List.flatMap_cons, List.length_append, List.length_append]
  omega

theorem exists_matched_of_seen (hattributes : ∀ b ∈ before ++ a :: behind, b.Quoted)
    (hne : key.toList ≠ []) (hkey : ∀ k ∈ key.toList, k.isLower)
    (hname : a.name.text.map foldCase = key.toList) (hseen : a.seen ≠ []) :
    ∃ seen, Matched key (tagText (before ++ a :: behind) trailing) seen := by
  by_cases hmatches : ∃ b ∈ before, b.Matches key
  · obtain ⟨-, seen, -, -, hmatched⟩ :=
      exists_matchedBehind_of_matches (fun b hb => (hattributes b hb).toSpaced) hmatches
    exact ⟨seen, hmatched⟩
  · refine ⟨a.seen, matched_of_seen (fun b hb => hattributes b (List.mem_append_left _ hb))
      (hattributes a (by simp)).toSpaced hne hkey hname ?_ hseen⟩
    exact fun b hb hmatch => hmatches ⟨b, hb, hmatch⟩

end Search

/-! ## The decision -/

/-- A view box value is followed: a graphic has its four numbers, or the text is unusable for its
view box. -/
def Follows (defaultSize : Json) (text : String) (value : List Char) : Prop :=
  (∃ graphic r, extract defaultSize text = .ok graphic ∧ FourNumbers value r ∧
    graphic.viewBox = r.box) ∨
  ∃ shown, extract defaultSize text = .error (.malformedViewBox shown)

theorem Rectangle.box_injective {r s : Rectangle} (h : r.box = s.box) : r = s := by
  obtain ⟨x, y, width, height⟩ := r
  obtain ⟨x', y', width', height'⟩ := s
  simp only [Rectangle.box, ViewBox.mk.injEq, Json.real.injEq, Option.some.injEq] at h
  obtain ⟨rfl, rfl, rfl, rfl⟩ := h
  rfl

section Decision

variable {text : String} {root : Root} {value seen : List Char} {defaultSize : Json}

/-- A value is followed when the text that is found is not four numbers or the value is the same
four. -/
theorem follows_iff_of_matched (hroot : root? text.toList = some root)
    (hseen : Matched "viewbox" root.attributes seen) :
    Follows defaultSize text value ↔ ∀ r, FourNumbers seen r → FourNumbers value r := by
  obtain ⟨hread, hmalformed⟩ := extract_of_viewBox hroot hseen defaultSize
  constructor
  · rintro (⟨graphic, s, hextract, hs, hbox⟩ | ⟨shown, hextract⟩) r hr
    · rw [hread r hr, Except.ok.injEq] at hextract
      subst hextract
      rwa [Rectangle.box_injective hbox]
    · rw [hread r hr] at hextract
      cases hextract
  · intro hall
    by_cases hnumbers : ∃ r, FourNumbers seen r
    · obtain ⟨r, hr⟩ := hnumbers
      exact Or.inl ⟨root.graphic r.box, r, hread r hr, hall r hr, rfl⟩
    · exact Or.inr ⟨_, hmalformed hnumbers⟩

/-- Where no view box is found, there is a graphic whatever the width and height are. -/
theorem extract_of_attribute?_eq_none (hroot : root? text.toList = some root)
    (hnone : attribute? "viewbox" root.attributes = none) :
    extract defaultSize text = .ok (root.graphic ((sizeOfValues?
      (attribute? "width" root.attributes) (attribute? "height" root.attributes)).getD
        (atOrigin defaultSize defaultSize))) := by
  rw [extract_of_root? hroot, hnone]
  rfl

theorem follows_iff (hroot : root? text.toList = some root)
    (hvalue : (∃ r, FourNumbers value r) → ∃ seen, Matched "viewbox" root.attributes seen) :
    Follows defaultSize text value ↔
      ∃ seen, Matched "viewbox" root.attributes seen ∧
        ∀ r, FourNumbers seen r → FourNumbers value r := by
  constructor
  · intro hfollows
    obtain ⟨seen, hseen⟩ : ∃ seen, Matched "viewbox" root.attributes seen := by
      by_contra hnone
      rcases hfollows with ⟨graphic, r, -, hr, -⟩ | ⟨shown, hextract⟩
      · exact hnone (hvalue ⟨r, hr⟩)
      · rw [extract_of_attribute?_eq_none hroot (attribute?_eq_none_iff.2 hnone)] at hextract
        cases hextract
    exact ⟨seen, hseen, (follows_iff_of_matched hroot hseen).1 hfollows⟩
  · rintro ⟨seen, hseen, hall⟩
    exact (follows_iff_of_matched hroot hseen).2 hall

end Decision

/-- **When a view box is followed.** An attribute of the root is called `viewBox` in any letter
case, among attributes with any values. Its value is followed exactly when the leftmost match has
no four numbers or the value has the same. In terms of the attributes:

* When an attribute in front of it matches, what is found begins in front of it.
* When none does and the value has something in front of its first quote, that text is found. Then
  the value is followed unless that text is four numbers and a blank comes behind the quote.
* When no attribute matches, the view box itself included, it is not followed: the rectangle is
  that of width and height, or the default. -/
theorem extract_present_viewBox {text : String} {before behind : List RootAttribute}
    {a : RootAttribute} {trailing content : List Char}
    (hattributes : ∀ b ∈ before ++ a :: behind, b.Quoted) (htrailing : ∀ c ∈ trailing, isBlank c)
    (hname : a.name.text.map foldCase = "viewbox".toList)
    (hroot : root? text.toList = some ⟨tagText (before ++ a :: behind) trailing, content⟩)
    (defaultSize : Json) :
    (Follows defaultSize text a.value ↔
      ∃ seen, Matched "viewbox" (tagText (before ++ a :: behind) trailing) seen ∧
        ∀ r, FourNumbers seen r → FourNumbers a.value r) ∧
    ((∃ b ∈ before, b.Matches "viewbox") →
      ∃ front seen, MatchedBehind front "viewbox" (tagText (before ++ a :: behind) trailing) seen ∧
        front.length < (before.flatMap RootAttribute.text).length ∧
        Matched "viewbox" (tagText (before ++ a :: behind) trailing) seen) ∧
    ((∀ b ∈ before, ¬ b.Matches "viewbox") → a.seen ≠ [] →
      (Follows defaultSize text a.value ↔
        ((∃ r, FourNumbers a.seen r) → ∀ c ∈ a.unseen, isBlank c = false))) ∧
    ((∀ b ∈ before ++ a :: behind, ¬ b.Matches "viewbox") →
      ¬ Follows defaultSize text a.value ∧
      extract defaultSize text = .ok (Root.graphic
        ⟨tagText (before ++ a :: behind) trailing, content⟩
        ((sizeOfValues? (attribute? "width" (tagText (before ++ a :: behind) trailing))
          (attribute? "height" (tagText (before ++ a :: behind) trailing))).getD
          (atOrigin defaultSize defaultSize)))) := by
  have hkey : ∀ k ∈ "viewbox".toList, k.isLower := isLower_of_mem_geometryNames (by decide)
  have hne : "viewbox".toList ≠ [] := ne_nil_of_mem_geometryNames (by decide)
  have ha : a.Quoted := hattributes a (by simp)
  have hfollows : Follows defaultSize text a.value ↔ _ := follows_iff hroot
    fun ⟨r, hr⟩ => exists_matched_of_seen hattributes hne hkey hname hr.seen_ne_nil
  refine ⟨hfollows, exists_matchedBehind_of_matches fun b hb => (hattributes b hb).toSpaced,
    ?found, ?missed⟩
  case found =>
    intro hnot hseen
    -- Nothing in front matches, so the view box itself is matched, up to its first quote.
    have hmatched : Matched "viewbox" (tagText (before ++ a :: behind) trailing) a.seen :=
      matched_of_seen (fun b hb => hattributes b (List.mem_append_left _ hb)) ha.toSpaced hne hkey
        hname hnot hseen
    have hcut : ∀ r, FourNumbers a.seen r →
        (FourNumbers a.value r ↔ ∀ c ∈ a.unseen, isBlank c = false) := by
      intro r hr
      rw [← a.seen_append_unseen]
      exact fourNumbers_append_iff hr fun c hc => RootAttribute.isQuote_of_mem_head?_unseen hc
    rw [follows_iff_of_matched hroot hmatched]
    constructor
    · rintro hall ⟨r, hr⟩
      exact (hcut r hr).1 (hall r hr)
    · exact fun hall r hr => (hcut r hr).2 (hall ⟨r, hr⟩)
  case missed =>
    intro hnot
    have hnone := attribute?_of_not_matches hattributes htrailing hne hkey hnot
    refine ⟨?_, extract_of_attribute?_eq_none hroot hnone⟩
    rw [hfollows]
    rintro ⟨seen, hseen, -⟩
    exact attribute?_eq_none_iff.1 hnone ⟨seen, hseen⟩

/-- An empty view box with a width and a height. -/
def emptyViewBox : List RootAttribute :=
  [⟨[' '], .plain "viewBox".toList, [], [], '"', []⟩,
    ⟨[' '], .plain "width".toList, [], [], '"', ['0']⟩,
    ⟨[' '], .plain "height".toList, [], [], '\'', ['0']⟩]

/-- A view box with a quote in its value, behind another attribute. -/
def quotedViewBox (name : String) : List RootAttribute :=
  [⟨[' '], .plain name.toList, [], [], '\'', ['1']⟩,
    ⟨[' '], .plain "VIEWBOX".toList, [], [], '"', "0 0 0 0'px".toList⟩]

theorem not_matches_emptyViewBox : ∀ b ∈ emptyViewBox, ¬ b.Matches "viewbox" := by
  have hall : emptyViewBox.all fun b => b.name.text.all isPlainCharacter &&
      !b.value.contains '=' && !(b.name.text.map foldCase = "viewbox".toList && b.seen ≠ []) := by
    decide
  intro b hb
  have hplain := List.all_eq_true.1 hall b hb
  simp only [Bool.and_eq_true, List.all_eq_true, Bool.not_eq_true', List.contains_eq_mem,
    decide_eq_false_iff_not, Bool.and_eq_false_iff] at hplain
  rw [RootAttribute.matches_iff_of_plain hplain.1.1 hplain.1.2, not_and_or]
  exact hplain.2

set_option maxRecDepth 4000 in
/-- An empty view box gives way to width and height; one with a quote in it is followed behind an
identifier and hidden behind a name with a prefix. -/
theorem extract_present_viewBox_empty :
    (¬ Follows .null "<svg viewBox=\"\" width=\"0\" height='0'></svg>" [] ∧
      ∃ graphic, extract .null "<svg viewBox=\"\" width=\"0\" height='0'></svg>" = .ok graphic ∧
        graphic.viewBox = atOrigin (.real .zero) (.real .zero)) ∧
    Follows .null "<svg id='1' VIEWBOX=\"0 0 0 0'px\"></svg>" "0 0 0 0'px".toList ∧
    ∃ front seen, MatchedBehind front "viewbox"
        (tagText (quotedViewBox "x:viewBox") []) seen ∧ front.length < " x:viewBox='1'".length := by
  refine ⟨?empty, ?followed, ?hidden⟩
  case empty =>
    have hroot : root? "<svg viewBox=\"\" width=\"0\" height='0'></svg>".toList =
        some ⟨tagText emptyViewBox [], []⟩ := by decide
    obtain ⟨-, -, -, hmissed⟩ := extract_present_viewBox
      (show ∀ b ∈ [] ++ emptyViewBox, b.Quoted by decide) (show ∀ c ∈ [], isBlank c from nofun)
      (by decide) hroot .null
    obtain ⟨hnot, hextract⟩ := hmissed not_matches_emptyViewBox
    exact ⟨hnot, _, hextract, rfl⟩
  case followed =>
    have hroot : root? "<svg id='1' VIEWBOX=\"0 0 0 0'px\"></svg>".toList =
        some ⟨tagText (quotedViewBox "id") [], []⟩ := by decide
    obtain ⟨-, -, hfound, -⟩ := extract_present_viewBox
      (show ∀ b ∈ (quotedViewBox "id").take 1 ++ (quotedViewBox "id").drop 1, b.Quoted by decide)
      (show ∀ c ∈ [], isBlank c from nofun) (by decide) hroot .null
    have hunblank : ("0 0 0 0'px".toList.dropWhile (!isQuote ·)).all (!isBlank ·) := by
      decide
    refine (hfound ?_ (by decide)).2 fun _ c hc => by simpa using List.all_eq_true.1 hunblank c hc
    intro b hb
    obtain rfl : b = ⟨[' '], .plain "id".toList, [], [], '\'', ['1']⟩ := List.mem_singleton.1 hb
    rw [RootAttribute.matches_iff_of_plain (List.all_eq_true.1 (by decide)) (by decide)]
    decide
  case hidden =>
    have hroot : root? "<svg x:viewBox='1' VIEWBOX=\"0 0 0 0'px\"></svg>".toList =
        some ⟨tagText (quotedViewBox "x:viewBox") [], []⟩ := by decide
    obtain ⟨-, hhidden, -, -⟩ := extract_present_viewBox
      (show ∀ b ∈ (quotedViewBox "x:viewBox").take 1 ++ (quotedViewBox "x:viewBox").drop 1,
        b.Quoted by decide)
      (show ∀ c ∈ [], isBlank c from nofun) (by decide) hroot .null
    obtain ⟨front, seen, hfront, hlength, -⟩ := hhidden ⟨_, List.mem_cons_self, Or.inl
      ⟨"x:".toList, "viewBox".toList, [], rfl, by decide +kernel, by decide, nofun, by decide⟩⟩
    exact ⟨front, seen, hfront, hlength⟩

end IconForge.Graphic
