import Mathlib
import IconForge.Proofs.Json.Numbers
import IconForge.Proofs.Json.Same
import IconForge.Proofs.Json.Strings

set_option autoImplicit false

/-! # Values written and read

A value that is written is read back with the members of its objects in order
(`read_write`), if it is storable and there is room for its depth.

A text *reads as* a value (`ReadsAs`) when the reader takes just this text for the value whatever
ends it there. The parts of a list or an object stand between commas and new lines, which are such
ends: so the texts of its parts make up a text that reads as the whole (`readItems_parts`,
`readMembers_parts`), and the proof goes by induction on the value. A list or an object takes one
place of the room for what is in it. -/

namespace IconForge.Json

/-! ## Depth -/

mutual

/-- How many lists and objects are inside of each other at most. -/
def depth : Json → Nat
  | .list items => depthItems items + 1
  | .object members => depthMembers members + 1
  | _ => 0

/-- The depth of the deepest of items. -/
def depthItems : List Json → Nat
  | [] => 0
  | item :: items => max item.depth (depthItems items)

/-- The depth of the deepest value of members. -/
def depthMembers : List (CodeText × Json) → Nat
  | [] => 0
  | (_, value) :: members => max value.depth (depthMembers members)

end

theorem depth_le_depthItems {item : Json} {items : List Json} (h : item ∈ items) :
    item.depth ≤ depthItems items := by
  induction items with
  | nil => cases h
  | cons first items ih =>
      rw [depthItems]
      rcases List.mem_cons.1 h with rfl | h
      · exact le_max_left _ _
      · exact (ih h).trans (le_max_right _ _)

theorem depth_le_depthMembers {m : CodeText × Json} {members : List (CodeText × Json)}
    (h : m ∈ members) : m.2.depth ≤ depthMembers members := by
  induction members with
  | nil => cases h
  | cons first members ih =>
      rw [depthMembers]
      rcases List.mem_cons.1 h with rfl | h
      · exact le_max_left _ _
      · exact (ih h).trans (le_max_right _ _)

/-! ## White space -/

theorem skipSpace_of_head {cs : List Char} (h : ∀ c ∈ cs.head?, isSpace c = false) :
    skipSpace cs = cs :=
  Text.dropWhile_eq_self h

theorem toList_newLine (depth : Nat) :
    (newLine depth).toList = '\n' :: List.replicate (2 * depth) ' ' := by
  rw [newLine, String.toList_ofList]

theorem skipSpace_newLine (depth : Nat) (cs : List Char) :
    skipSpace ((newLine depth).toList ++ cs) = skipSpace cs := by
  have hspaces : ∀ c ∈ (newLine depth).toList, isSpace c := by
    intro c hc
    rw [toList_newLine, List.mem_cons] at hc
    rcases hc with rfl | hc
    · rfl
    · rw [List.eq_of_mem_replicate hc]
      rfl
  exact List.dropWhile_append_of_pos hspaces

theorem skipSpace_closing {c : Char} (h : c = ']' ∨ c = '\x7d' ∨ c = ',') (cs : List Char) :
    skipSpace (c :: cs) = c :: cs := by
  refine skipSpace_of_head ?_
  rintro _ ⟨⟩
  rcases h with rfl | rfl | rfl <;> rfl

theorem ended_newLine (depth : Nat) (cs : List Char) : Ended ((newLine depth).toList ++ cs) := by
  rw [toList_newLine]
  rintro c ⟨⟩
  exact Or.inr rfl

theorem ended_comma (cs : List Char) : Ended (',' :: cs) := by
  rintro c ⟨⟩
  exact Or.inl rfl

/-! ## Texts that read as values -/

/-- Whether a text begins as values do: white space, the end of a list and the byte order mark do
not begin one. -/
def Opens (text : List Char) : Prop :=
  ∃ c cs, text = c :: cs ∧ isSpace c = false ∧ c ≠ ']' ∧ c ≠ '\ufeff'

theorem Opens.skipSpace {text : List Char} (h : Opens text) (rest : List Char) :
    Json.skipSpace (text ++ rest) = text ++ rest := by
  obtain ⟨c, cs, rfl, hc, -⟩ := h
  refine skipSpace_of_head ?_
  rintro _ ⟨⟩
  exact hc

theorem Opens.head?_ne {text : List Char} (h : Opens text) (rest : List Char) :
    (text ++ rest).head? ≠ some ']' := by
  obtain ⟨c, cs, rfl, -, hc, -⟩ := h
  exact fun heq => hc (Option.some.inj heq)

theorem Opens.exists_fuel {text : List Char} (h : Opens text) {fuel : Nat}
    (hfuel : text.length ≤ fuel) : ∃ less, fuel = less + 1 := by
  obtain ⟨c, cs, rfl, -⟩ := h
  rw [List.length_cons] at hfuel
  exact ⟨fuel - 1, by omega⟩

theorem opens_of_mem {c : Char} (h : c ∈ ['"', '[', '\x7b']) (cs : List Char) : Opens (c :: cs) := by
  simp only [List.mem_cons, List.not_mem_nil, or_false] at h
  rcases h with rfl | rfl | rfl
  · exact ⟨_, _, rfl, rfl, by decide, by decide⟩
  · exact ⟨_, _, rfl, rfl, by decide, by decide⟩
  · exact ⟨_, _, rfl, rfl, by decide, by decide⟩

/-- Whether the reader takes just a text for a value, whatever ends it, with room for a number of
lists and objects inside of each other. -/
structure ReadsAs (room : Nat) (text : List Char) (value : Json) : Prop where
  opens : Opens text
  reads : ∀ fuel rest, text.length ≤ fuel → Ended rest →
    readValue fuel room (text ++ rest) = .ok (value, rest)

/-- What begins neither a string nor a list nor an object is a word or a number. -/
theorem readValue_plain {fuel room : Nat} {cs : List Char}
    (h : ∀ c ∈ cs.head?, c ≠ '"' ∧ c ≠ '[' ∧ c ≠ '\x7b') :
    readValue (fuel + 1) room cs = readPlain cs := by
  rw [readValue.eq_def]
  dsimp only
  split
  · exact absurd rfl (h '"' rfl).1
  · exact absurd rfl (h '[' rfl).2.1
  · exact absurd rfl (h '\x7b' rfl).2.2
  · rfl

/-! ## Scalars -/

variable {room : Nat}

/-- A text that begins with a letter, a digit or a minus sign reads as what it is as a word or a
number. -/
theorem ReadsAs.of_plain {text : List Char} {value : Json} {c : Char} {cs : List Char}
    (htext : text = c :: cs) (hc : c.isAlphanum ∨ c = '-')
    (h : ∀ rest, Ended rest → readPlain (text ++ rest) = .ok (value, rest)) :
    ReadsAs room text value := by
  have hmarks : ∀ mark ∈ ['"', '[', ']', '\x7b', '\ufeff', ' ', '\t', '\n', '\r'],
      mark.isAlphanum = false ∧ mark ≠ '-' := by simp
  have hplain : ∀ mark ∈ ['"', '[', ']', '\x7b', '\ufeff', ' ', '\t', '\n', '\r'], c ≠ mark := by
    rintro mark hmark rfl
    obtain ⟨halphanum, hminus⟩ := hmarks c hmark
    exact hc.elim (fun h => absurd h (by simp [halphanum])) hminus
  simp only [List.forall_mem_cons] at hplain
  obtain ⟨hquote, hlist, hclosing, hobject, hmark, hblank, htab, hfeed, hreturn, -⟩ := hplain
  have hopens : Opens text :=
    ⟨c, cs, htext, by simp [isSpace, hblank, htab, hfeed, hreturn], hclosing, hmark⟩
  refine ⟨hopens, fun fuel rest hfuel hrest => ?_⟩
  obtain ⟨fuel, rfl⟩ := hopens.exists_fuel hfuel
  rw [readValue_plain, h rest hrest]
  rw [htext]
  rintro _ ⟨⟩
  exact ⟨hquote, hlist, hobject⟩

theorem readsAs_word {word : String} {value : Json} (h : (word, value) ∈ words) :
    ReadsAs room word.toList value := by
  have hopens : ∀ item ∈ words, ∃ c cs, item.1.toList = c :: cs ∧ (c.isAlphanum ∨ c = '-') := by
    simp only [words, List.forall_mem_cons]
    refine ⟨?_, ?_, ?_, ?_, ?_, ?_, List.forall_mem_nil _⟩
    all_goals exact ⟨_, _, rfl, by decide⟩
  obtain ⟨c, cs, htext, hc⟩ := hopens _ h
  exact .of_plain htext hc fun rest _ => readPlain_word h rest

theorem exists_head_number (negative : Bool) {whole : List Char} (hne : whole ≠ [])
    (hdigits : ∀ c ∈ whole, c.isDigit) (behind : List Char) :
    ∃ c cs, (if negative then ['-'] else []) ++ (whole ++ behind) = c :: cs ∧
      (c.isAlphanum ∨ c = '-') := by
  cases negative with
  | true => exact ⟨'-', whole ++ behind, rfl, Or.inr rfl⟩
  | false =>
      obtain ⟨c, digits, rfl⟩ := List.exists_cons_of_ne_nil hne
      refine ⟨c, digits ++ behind, rfl, Or.inl ?_⟩
      rw [Char.isAlphanum, hdigits c List.mem_cons_self, Bool.or_true]

theorem readsAs_integer {value : Int} (h : (Nat.toDigits 10 value.natAbs).length ≤ maxDigits) :
    ReadsAs room (toString value).toList (.integer value) := by
  have hdigits : ∀ c ∈ Nat.toDigits 10 value.natAbs, c.isDigit :=
    fun _ hc => isDigit_of_mem_toDigits hc
  obtain ⟨c, cs, htext, hc⟩ :=
    exists_head_number (decide (value < 0)) Nat.toDigits_ne_nil hdigits []
  rw [List.append_nil, ← toList_toString_int] at htext
  refine .of_plain htext hc fun rest hrest => ?_
  rw [toList_toString_int, List.append_assoc,
    readPlain_number _ Nat.toDigits_ne_nil hdigits,
    readNumber_integer _ (leads_toDigits _) hdigits h hrest, integerOfDigits_toDigits]

theorem readsAs_real (value : Binary64) : ReadsAs room (writeReal value).toList (.real value) := by
  cases value with
  | notANumber => exact readsAs_word (by simp [words, writeReal])
  | infinite negative =>
      cases negative with
      | true => exact readsAs_word (by simp [words, writeReal])
      | false => exact readsAs_word (by simp [words, writeReal])
  | finite negative m =>
      obtain ⟨s, hs, htext, hvalue⟩ := NumberLayout.exists_complete_of_render negative m
      have hparts : s.text = s.whole ++ (s.fractionText ++ s.exponentText) := by
        rw [Spelling.text, List.append_assoc]
      obtain ⟨c, cs, hopens, hc⟩ := exists_head_number negative hs.valid.whole_ne hs.valid.whole
        (s.fractionText ++ s.exponentText)
      rw [← hparts, ← htext] at hopens
      refine .of_plain hopens hc fun rest hrest => ?_
      show readPlain ((NumberLayout.record.render (.finite negative m)).toList ++ rest) = _
      rw [htext, ← hvalue, ← readNumber_real negative hs hrest, hparts]
      simp only [List.append_assoc]
      exact readPlain_number negative hs.valid.whole_ne hs.valid.whole _

theorem toList_writeString (value : CodeText) :
    (writeString .record value).toList =
      '"' :: (value.flatMap (writePoint .record) ++ ['"']) := by
  rw [writeString, String.toList_ofList, List.cons_append]

theorem readsAs_text {value : CodeText} (h : ∀ point ∈ value, point.isSurrogate = false) :
    ReadsAs room (writeString .record value).toList (.text value) := by
  rw [toList_writeString]
  have hopens := opens_of_mem (c := '"') (by simp) (value.flatMap (writePoint .record) ++ ['"'])
  refine ⟨hopens, fun fuel rest hfuel hrest => ?_⟩
  obtain ⟨fuel, rfl⟩ := hopens.exists_fuel hfuel
  rw [List.cons_append, List.append_assoc, List.singleton_append]
  show (readString _ [] _ >>= _) = _
  rw [readString_written _ _ h]
  rfl

/-! ## Blocks -/

/-- The text of a block behind its first part: the other parts and what closes the block. -/
def behindPart (depth : Nat) (closing : List Char) : List String → List Char
  | [] => closing
  | next :: parts =>
    ',' :: ((newLine depth).toList ++ (next.toList ++ behindPart depth closing parts))

theorem behindPart_append (depth : Nat) (closing rest : List Char) (parts : List String) :
    behindPart depth closing parts ++ rest = behindPart depth (closing ++ rest) parts := by
  induction parts with
  | nil => rfl
  | cons next parts ih => simp only [behindPart, List.cons_append, List.append_assoc, ih]

theorem length_behindPart (depth : Nat) (closing : List Char) (parts : List String) :
    (behindPart depth closing parts).length =
      (behindPart depth [] parts).length + closing.length := by
  rw [← List.length_append, behindPart_append, List.nil_append]

theorem ended_behindPart (depth : Nat) {closing : List Char} (h : Ended closing)
    (parts : List String) : Ended (behindPart depth closing parts) := by
  cases parts with
  | nil => exact h
  | cons next parts => exact ended_comma _

theorem toList_writeBlock_cons (depth : Nat) (opening closing part : String)
    (parts : List String) :
    (writeBlock depth opening closing (part :: parts)).toList =
      opening.toList ++ ((newLine (depth + 1)).toList ++ (part.toList ++
        behindPart (depth + 1) ((newLine depth).toList ++ closing.toList) parts)) := by
  have hparts : ∀ (part : String) (parts : List String) (rest : List Char),
      ("," ++ newLine (depth + 1)).toList.intercalate ((part :: parts).map String.toList) ++ rest =
        part.toList ++ behindPart (depth + 1) rest parts := by
    intro part parts rest
    induction parts generalizing part with
    | nil => simp [behindPart]
    | cons next parts ih =>
        rw [List.map_cons, List.map_cons, List.intercalate_cons_cons, ← List.map_cons,
          List.append_assoc, ih, List.append_assoc, String.toList_append]
        rfl
  simp only [writeBlock, String.toList_append, String.toList_intercalate, List.append_assoc]
  rw [← String.toList_append, hparts]

/-! ## Lists -/

theorem readItems_part {item : String × Json} (h : ReadsAs room item.1.toList item.2) {fuel : Nat}
    (hfuel : item.1.toList.length ≤ fuel) (done : List Json) {cs : List Char}
    (hended : Ended cs) :
    readItems (fuel + 1) room done (item.1.toList ++ cs) =
      match skipSpace cs with
      | ']' :: rest => .ok (.list (item.2 :: done).reverse, rest)
      | ',' :: rest => readItems fuel room (item.2 :: done) (skipSpace rest)
      | rest => .error ⟨.expectedComma, rest⟩ := by
  rw [readItems, h.reads fuel cs hfuel hended]
  rfl

/-- The items of a list are read one after the other up to its end. -/
theorem readItems_parts {depth depth' : Nat} {part : String × Json} {parts : List (String × Json)}
    (h : ∀ p ∈ part :: parts, ReadsAs room p.1.toList p.2) {fuel : Nat}
    (hfuel : (part.1.toList ++ behindPart depth [] (parts.map (·.1))).length < fuel)
    (done : List Json) (rest : List Char) :
    readItems fuel room done (part.1.toList ++
        behindPart depth ((newLine depth').toList ++ ']' :: rest) (parts.map (·.1))) =
      .ok (.list (done.reverse ++ (part :: parts).map (·.2)), rest) := by
  have hended := ended_newLine depth' (']' :: rest)
  -- What is read already and the fuel change from item to item; the end of the list does not.
  induction parts generalizing part fuel done with
  | nil =>
      obtain ⟨fuel, rfl⟩ := Nat.exists_eq_add_one_of_ne_zero (Nat.ne_zero_of_lt hfuel)
      rw [List.map_nil, behindPart, List.append_nil] at hfuel
      rw [List.map_nil, behindPart,
        readItems_part (h part List.mem_cons_self) (by omega) done hended, skipSpace_newLine,
        skipSpace_closing (Or.inl rfl)]
      simp only [List.reverse_cons, List.map_singleton]
  | cons next parts ih =>
      obtain ⟨fuel, rfl⟩ := Nat.exists_eq_add_one_of_ne_zero (Nat.ne_zero_of_lt hfuel)
      have hlater : ∀ p ∈ next :: parts, ReadsAs room p.1.toList p.2 :=
        fun p hp => h p (List.mem_cons_of_mem _ hp)
      rw [List.map_cons, behindPart, List.length_append, List.length_cons, List.length_append]
        at hfuel
      rw [List.map_cons, behindPart,
        readItems_part (h part List.mem_cons_self) (by omega) done (ended_comma _),
        skipSpace_closing (Or.inr (Or.inr rfl))]
      simp only [skipSpace_newLine, (hlater next List.mem_cons_self).opens.skipSpace]
      rw [ih hlater (by omega), List.reverse_cons, List.append_assoc]
      rfl

theorem exists_toList_writeBlock {opening : String} {c : Char} (hopening : opening.toList = [c])
    (depth : Nat) (closing : String) (parts : List String) :
    ∃ cs, (writeBlock depth opening closing parts).toList = c :: cs := by
  cases parts with
  | nil =>
      rw [writeBlock, String.toList_append, hopening, List.singleton_append]
      exact ⟨_, rfl⟩
  | cons part parts =>
      rw [toList_writeBlock_cons, hopening, List.singleton_append]
      exact ⟨_, rfl⟩

theorem exists_toList_listBlock (depth : Nat) (parts : List String) :
    ∃ cs, (writeBlock depth "[" "]" parts).toList = '[' :: cs := by
  have hopening : "[".toList = ['['] := rfl
  exact exists_toList_writeBlock hopening depth "]" parts

theorem opens_listBlock (depth : Nat) (parts : List String) :
    Opens (writeBlock depth "[" "]" parts).toList := by
  obtain ⟨cs, htext⟩ := exists_toList_listBlock depth parts
  rw [htext]
  exact opens_of_mem (by simp) cs

/-- A list that is not empty is read from its first item on. -/
theorem readValue_listBlock (depth : Nat) {part : String} {parts : List String}
    (hopens : Opens part.toList) {fuel : Nat} (rest : List Char)
    (hfuel : (writeBlock depth "[" "]" (part :: parts)).toList.length ≤ fuel) :
    ∃ less, (part.toList ++ behindPart (depth + 1) [] parts).length < less ∧
      readValue fuel (room + 1) ((writeBlock depth "[" "]" (part :: parts)).toList ++ rest) =
        readItems less room [] (part.toList ++
          behindPart (depth + 1) ((newLine depth).toList ++ ']' :: rest) parts) := by
  obtain ⟨less, rfl⟩ := (opens_listBlock depth _).exists_fuel hfuel
  rw [toList_writeBlock_cons, show "[".toList = ['['] from rfl] at hfuel ⊢
  refine ⟨less, ?_, ?_⟩
  · simp only [List.length_cons, List.length_append, toList_newLine,
      length_behindPart (depth + 1) (_ ++ _)] at hfuel ⊢
    omega
  · simp only [List.cons_append, List.nil_append, List.append_assoc, behindPart_append]
    rw [readValue]
    simp only [skipSpace_newLine, hopens.skipSpace]
    -- The reader looks for the end of the list first, and an item does not begin with it.
    split
    · next heq => exact absurd (congrArg List.head? heq) (hopens.head?_ne _)
    · rfl

/-- A block of texts that read as items reads as their list. -/
theorem readsAs_list (depth : Nat) {items : List (String × Json)}
    (h : ∀ item ∈ items, ReadsAs room item.1.toList item.2) :
    ReadsAs (room + 1) (writeBlock depth "[" "]" (items.map (·.1))).toList
      (.list (items.map (·.2))) := by
  refine ⟨opens_listBlock depth _, fun fuel rest hfuel hrest => ?_⟩
  cases items with
  | nil =>
      have htext : (writeBlock depth "[" "]" []).toList = ['[', ']'] := by simp [writeBlock]
      obtain ⟨fuel, rfl⟩ := (opens_listBlock depth _).exists_fuel hfuel
      rw [List.map_nil, htext, List.cons_append, List.cons_append, List.nil_append, readValue]
      simp only [skipSpace_closing (Or.inl rfl)]
      rfl
  | cons item items =>
      obtain ⟨less, hless, hread⟩ :=
        readValue_listBlock depth (h item List.mem_cons_self).opens rest hfuel
      rw [List.map_cons, hread, readItems_parts h hless]
      rfl

/-! ## Objects -/

/-- A member on its line, with the text of its value. -/
def memberText (m : CodeText × String × Json) : String :=
  writeString .record m.1 ++ ": " ++ m.2.1

/-- Whether the text of a member reads as it. -/
structure MemberReads (room : Nat) (m : CodeText × String × Json) : Prop where
  name : ∀ point ∈ m.1, point.isSurrogate = false
  value : ReadsAs room m.2.1.toList m.2.2

theorem toList_memberText (m : CodeText × String × Json) (rest : List Char) :
    (memberText m).toList ++ rest =
      '"' :: (m.1.flatMap (writePoint .record) ++ '"' :: ':' :: ' ' :: (m.2.1.toList ++ rest)) := by
  simp [memberText, toList_writeString]

theorem skipSpace_memberText (m : CodeText × String × Json) (rest : List Char) :
    skipSpace ((memberText m).toList ++ rest) = (memberText m).toList ++ rest := by
  rw [toList_memberText]
  rfl

theorem length_value_le (m : CodeText × String × Json) :
    m.2.1.toList.length ≤ (memberText m).toList.length := by
  rw [memberText, String.toList_append, List.length_append]
  omega

theorem readMembers_part {m : CodeText × String × Json} (h : MemberReads room m) {fuel : Nat}
    (hfuel : m.2.1.toList.length ≤ fuel) (done : List (CodeText × Json)) {cs : List Char}
    (hended : Ended cs) :
    readMembers (fuel + 1) room done ((memberText m).toList ++ cs) =
      match skipSpace cs with
      | '\x7d' :: rest => .ok (.object (KeyedList.set done m.1 m.2.2), rest)
      | ',' :: rest => readMembers fuel room (KeyedList.set done m.1 m.2.2) (skipSpace rest)
      | rest => .error ⟨.expectedComma, rest⟩ := by
  have hblank : skipSpace (' ' :: (m.2.1.toList ++ cs)) = m.2.1.toList ++ cs :=
    h.value.opens.skipSpace cs
  have hcolon : ∀ rest, skipSpace (':' :: rest) = ':' :: rest := fun rest => rfl
  have hread := readMembers.eq_2 room done fuel
    (m.1.flatMap (writePoint .record) ++ '"' :: ':' :: ' ' :: (m.2.1.toList ++ cs))
  simp only [readString_written _ _ h.name, hcolon, hblank, h.value.reads fuel cs hfuel hended,
    bind, Except.bind, List.reverse_nil, List.nil_append] at hread
  rw [toList_memberText]
  exact hread

/-- The members of an object are read one after the other up to its end. -/
theorem readMembers_parts {depth depth' : Nat} {part : CodeText × String × Json}
    {parts : List (CodeText × String × Json)} (h : ∀ p ∈ part :: parts, MemberReads room p)
    {fuel : Nat}
    (hfuel : ((memberText part).toList ++
      behindPart depth [] (parts.map memberText)).length < fuel)
    (done : List (CodeText × Json))
    (hdistinct : (done.map (·.1) ++ (part :: parts).map (·.1)).Nodup) (rest : List Char) :
    readMembers fuel room done ((memberText part).toList ++
        behindPart depth ((newLine depth').toList ++ '\x7d' :: rest) (parts.map memberText)) =
      .ok (.object (done ++ (part :: parts).map fun p => (p.1, p.2.2)), rest) := by
  have hended := ended_newLine depth' ('\x7d' :: rest)
  induction parts generalizing part fuel done with
  | nil =>
      obtain ⟨fuel, rfl⟩ := Nat.exists_eq_add_one_of_ne_zero (Nat.ne_zero_of_lt hfuel)
      have hnew : part.1 ∉ done.map (·.1) := by
        rw [List.map_singleton, List.nodup_append] at hdistinct
        exact fun hmem => hdistinct.2.2 _ hmem _ (List.mem_singleton_self _) rfl
      have hvalue := length_value_le part
      rw [List.map_nil, behindPart, List.append_nil] at hfuel
      rw [List.map_nil, behindPart,
        readMembers_part (h part List.mem_cons_self) (by omega) done hended, skipSpace_newLine,
        skipSpace_closing (Or.inr (Or.inl rfl)), KeyedList.set_of_notMem hnew]
      rfl
  | cons next parts ih =>
      obtain ⟨fuel, rfl⟩ := Nat.exists_eq_add_one_of_ne_zero (Nat.ne_zero_of_lt hfuel)
      have hnew : part.1 ∉ done.map (·.1) := by
        rw [List.map_cons, List.nodup_append] at hdistinct
        exact fun hmem => hdistinct.2.2 _ hmem _ List.mem_cons_self rfl
      have hvalue := length_value_le part
      -- A name that is new is put behind the names that are read already.
      have hlater : ((done ++ [(part.1, part.2.2)]).map (·.1) ++
          (next :: parts).map (·.1)).Nodup := by
        rw [List.map_append, List.append_assoc]
        exact hdistinct
      rw [List.map_cons, behindPart, List.length_append, List.length_cons, List.length_append]
        at hfuel
      rw [List.map_cons, behindPart,
        readMembers_part (h part List.mem_cons_self) (by omega) done (ended_comma _),
        skipSpace_closing (Or.inr (Or.inr rfl)), KeyedList.set_of_notMem hnew]
      simp only [skipSpace_newLine, skipSpace_memberText]
      rw [ih (fun p hp => h p (List.mem_cons_of_mem _ hp)) (by omega) _ hlater, List.append_assoc]
      rfl

theorem exists_toList_objectBlock (depth : Nat) (parts : List String) :
    ∃ cs, (writeBlock depth "\x7b" "\x7d" parts).toList = '\x7b' :: cs := by
  have hopening : "\x7b".toList = ['\x7b'] := rfl
  exact exists_toList_writeBlock hopening depth "\x7d" parts

theorem opens_objectBlock (depth : Nat) (parts : List String) :
    Opens (writeBlock depth "\x7b" "\x7d" parts).toList := by
  obtain ⟨cs, htext⟩ := exists_toList_objectBlock depth parts
  rw [htext]
  exact opens_of_mem (by simp) cs

theorem readValue_objectBlock (depth : Nat) {m : CodeText × String × Json}
    {members : List (CodeText × String × Json)} {fuel : Nat} (rest : List Char)
    (hfuel : (writeBlock depth "\x7b" "\x7d" ((m :: members).map memberText)).toList.length ≤
      fuel) :
    ∃ less, ((memberText m).toList ++
        behindPart (depth + 1) [] (members.map memberText)).length < less ∧
      readValue fuel (room + 1)
          ((writeBlock depth "\x7b" "\x7d" ((m :: members).map memberText)).toList ++ rest) =
        readMembers less room [] ((memberText m).toList ++ behindPart (depth + 1)
          ((newLine depth).toList ++ '\x7d' :: rest) (members.map memberText)) := by
  obtain ⟨less, rfl⟩ := (opens_objectBlock depth _).exists_fuel hfuel
  rw [List.map_cons, toList_writeBlock_cons, show "\x7b".toList = ['\x7b'] from rfl] at hfuel ⊢
  refine ⟨less, ?_, ?_⟩
  · simp only [List.length_cons, List.length_append, toList_newLine,
      length_behindPart (depth + 1) (_ ++ _)] at hfuel ⊢
    omega
  · simp only [List.cons_append, List.nil_append, List.append_assoc, behindPart_append]
    rw [readValue]
    simp only [skipSpace_newLine, skipSpace_memberText]
    split
    · next heq =>
      rw [toList_memberText] at heq
      exact absurd (List.cons.inj heq).1 (by decide)
    · rfl

/-- A block of texts that read as members with distinct names reads as their object. -/
theorem readsAs_object (depth : Nat) {members : List (CodeText × String × Json)}
    (h : ∀ m ∈ members, MemberReads room m) (hdistinct : (members.map (·.1)).Nodup) :
    ReadsAs (room + 1) (writeBlock depth "\x7b" "\x7d" (members.map memberText)).toList
      (.object (members.map fun m => (m.1, m.2.2))) := by
  refine ⟨opens_objectBlock depth _, fun fuel rest hfuel hrest => ?_⟩
  cases members with
  | nil =>
      have htext : (writeBlock depth "\x7b" "\x7d" []).toList = ['\x7b', '\x7d'] := by
        simp [writeBlock]
      obtain ⟨fuel, rfl⟩ := (opens_objectBlock depth _).exists_fuel hfuel
      rw [List.map_nil, htext, List.cons_append, List.cons_append, List.nil_append, readValue]
      simp only [skipSpace_closing (Or.inr (Or.inl rfl))]
      rfl
  | cons m members =>
      obtain ⟨less, hless, hread⟩ := readValue_objectBlock depth rest hfuel
      rw [hread, readMembers_parts h hless [] hdistinct]
      rfl

/-! ## Values -/

/-- The items of a list with their texts, as they are read. -/
def writtenItems (level : Nat) (items : List Json) : List (String × Json) :=
  items.map fun item => (writeAt level item, item.sorted)

/-- The members of an object in order with the texts of their values, as they are read. -/
def writtenMembers (level : Nat) (members : List (CodeText × Json)) :
    List (CodeText × String × Json) :=
  (inOrder members).map fun m => (m.1, writeAt level m.2, m.2.sorted)

theorem writeAt_list_eq (level : Nat) (items : List Json) :
    writeAt level (.list items) =
      writeBlock level "[" "]" ((writtenItems (level + 1) items).map (·.1)) := by
  rw [writeAt_list, writtenItems, List.map_map]
  rfl

theorem writeAt_object_eq (level : Nat) (members : List (CodeText × Json)) :
    writeAt level (.object members) =
      writeBlock level "\x7b" "\x7d" ((writtenMembers (level + 1) members).map memberText) := by
  rw [writeAt_object, ← map_inOrder, writtenMembers, List.map_map, List.map_map]
  rfl

theorem sorted_list_eq (level : Nat) (items : List Json) :
    (list items).sorted = .list ((writtenItems level items).map (·.2)) := by
  rw [sorted_list, writtenItems, List.map_map]
  rfl

theorem sorted_object_eq (level : Nat) (members : List (CodeText × Json)) :
    (object members).sorted =
      .object ((writtenMembers level members).map fun m => (m.1, m.2.2)) := by
  rw [sorted_object, writtenMembers, List.map_map]
  rfl

/-- **The text of a value reads as the value with the members of its objects in order.** -/
theorem Storable.readsAs {value : Json} (h : value.Storable) (level : Nat) {room : Nat}
    (hroom : value.depth ≤ room) : ReadsAs room (writeAt level value).toList value.sorted := by
  induction h generalizing level room with
  | null => exact readsAs_word (by simp [words, writeAt, sorted])
  | boolean value =>
      cases value with
      | true => exact readsAs_word (by simp [words, writeAt, sorted])
      | false => exact readsAs_word (by simp [words, writeAt, sorted])
  | integer value few => exact readsAs_integer few
  | real value => exact readsAs_real value
  | text value whole => exact readsAs_text whole
  | list items each ih =>
      rw [depth] at hroom
      obtain ⟨room, rfl⟩ := Nat.exists_eq_add_one_of_ne_zero (Nat.ne_zero_of_lt hroom)
      -- One level of room is spent on the list, and each item fits into what is left.
      rw [writeAt_list_eq, sorted_list_eq (level + 1)]
      refine readsAs_list level fun part hpart => ?_
      obtain ⟨item, hitem, rfl⟩ := List.mem_map.1 hpart
      have hdepth := depth_le_depthItems hitem
      exact ih item hitem (level + 1) (by omega)
  | object members distinct whole each ih =>
      rw [depth] at hroom
      obtain ⟨room, rfl⟩ := Nat.exists_eq_add_one_of_ne_zero (Nat.ne_zero_of_lt hroom)
      rw [writeAt_object_eq, sorted_object_eq (level + 1)]
      refine readsAs_object level (fun part hpart => ?_) ?_
      · obtain ⟨m, hm, rfl⟩ := List.mem_map.1 hpart
        have hmember := mem_inOrder.1 hm
        have hdepth := depth_le_depthMembers hmember
        exact ⟨whole m hmember, ih m hmember (level + 1) (by omega)⟩
      · rw [writtenMembers, List.map_map]
        exact (names_inOrder_perm members).nodup_iff.2 distinct

/-- A text that begins as values do is read as one from its first character on. -/
theorem readDocument_of_opens {text : List Char} (h : Opens text) (room : Nat) :
    readDocument room text =
      (readValue (2 * text.length + 2) room text >>= fun reading =>
        match Json.skipSpace reading.2 with
        | [] => .ok reading.1
        | rest => .error ⟨.extraData, rest⟩) := by
  have hskip := h.skipSpace []
  obtain ⟨c, cs, rfl, -, -, hmark⟩ := h
  rw [List.append_nil] at hskip
  have hread := readDocument.eq_2 room (c :: cs) fun _ heq => hmark (List.cons.inj heq).1
  rw [hskip] at hread
  exact hread

/-- **A value that is written is read back with the members of its objects in order**, if there is
room for its depth. -/
theorem readWithin_write {value : Json} (h : value.Storable) {room : Nat}
    (hroom : value.depth ≤ room) : readWithin room value.write = .ok value.sorted := by
  have hreads := h.readsAs 0 hroom
  have hread := hreads.reads (2 * (writeAt 0 value).toList.length + 2) [] (by omega)
    (by rintro _ ⟨⟩)
  rw [List.append_nil] at hread
  rw [readWithin, write, readDocument_of_opens hreads.opens, hread]
  rfl

end IconForge.Json
