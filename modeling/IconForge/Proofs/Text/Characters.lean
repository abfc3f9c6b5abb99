import Mathlib
import IconForge.Text.Blank
import IconForge.Text.LetterCase
import IconForge.Text.Split
import IconForge.Text.WordCharacter

set_option autoImplicit false

/-! # Characters, blanks and pieces

What the searches through a text need to know about classes of characters: which characters of
ASCII are word characters, what folding the case leaves alone, and how a text is stripped of its
blanks and cut at them. -/

namespace IconForge.Text

/-! ## Letter case -/

theorem toNat_toLower (c : Char) :
    c.toLower.toNat = if 65 ≤ c.toNat ∧ c.toNat ≤ 90 then c.toNat + 32 else c.toNat := by
  have hiff : (c.val ≥ 'A'.val ∧ c.val ≤ 'Z'.val) ↔ 65 ≤ c.toNat ∧ c.toNat ≤ 90 := Iff.rfl
  rw [Char.toLower]
  by_cases h : 65 ≤ c.toNat ∧ c.toNat ≤ 90
  · rw [dif_pos (hiff.2 h), if_pos h]
    show (c.val + ('a'.val - 'A'.val)).toNat = c.toNat + 32
    have hgap : ('a'.val - 'A'.val).toNat = 32 := by decide
    have hval : c.val.toNat = c.toNat := rfl
    rw [UInt32.toNat_add, hgap]
    omega
  · rw [dif_neg (fun hc => h (hiff.1 hc)), if_neg h]

theorem isLower_iff {c : Char} : c.isLower ↔ 97 ≤ c.toNat ∧ c.toNat ≤ 122 := by
  rw [Char.isLower, Bool.and_eq_true, decide_eq_true_eq, decide_eq_true_eq]
  exact Iff.rfl

/-- What folding the case leads to is what was there before, unless it is a small letter. -/
theorem eq_of_foldCase_eq {c d : Char} (h : foldCase c = d) (hd : ¬ d.isLower) : c = d := by
  subst h
  unfold foldCase at hd ⊢
  split at hd
  · exact absurd (by decide) hd
  · exact absurd (by decide) hd
  · exact absurd (by decide) hd
  · exact absurd (by decide) hd
  · rw [isLower_iff, toNat_toLower] at hd
    apply Char.toNat_inj.1
    rw [toNat_toLower, if_neg]
    intro hupper
    rw [if_pos hupper] at hd
    omega

/-- What folds to a small letter is a word character: no blank and no sign. -/
theorem toNat_of_isLower_foldCase {c : Char} (h : (foldCase c).isLower) :
    (65 ≤ c.toNat ∧ c.toNat ≤ 90) ∨ (97 ≤ c.toNat ∧ c.toNat ≤ 122) ∨
      c ∈ ['ſ', 'İ', 'ı', '\u212a'] := by
  by_cases hspecial : c ∈ ['ſ', 'İ', 'ı', '\u212a']
  · exact Or.inr (Or.inr hspecial)
  · have hfold : foldCase c = c.toLower := by
      unfold foldCase
      split
      · exact absurd (by decide) hspecial
      · exact absurd (by decide) hspecial
      · exact absurd (by decide) hspecial
      · exact absurd (by decide) hspecial
      · rfl
    rw [hfold, isLower_iff, toNat_toLower] at h
    split at h
    · next hupper => exact Or.inl hupper
    · exact Or.inr (Or.inl h)

/-- What a pattern drops from a text are the characters that it equals without case. -/
theorem dropFolded?_eq_some_iff {pattern cs rest : List Char} :
    dropFolded? pattern cs = some rest ↔
      ∃ front, cs = front ++ rest ∧ front.map foldCase = pattern := by
  induction pattern generalizing cs with
  | nil =>
      rw [dropFolded?, Option.some.injEq]
      constructor
      · intro h
        exact ⟨[], h, rfl⟩
      · rintro ⟨front, rfl, hfront⟩
        rw [List.map_eq_nil_iff.1 hfront, List.nil_append]
  | cons p pattern ih =>
      cases cs with
      | nil =>
          constructor
          · intro h
            cases h
          · rintro ⟨front, hcs, hfront⟩
            rw [(List.append_eq_nil_iff.1 hcs.symm).1] at hfront
            cases hfront
      | cons c cs =>
          rw [dropFolded?]
          constructor
          · intro h
            split at h
            · next hc =>
              obtain ⟨front, rfl, hfront⟩ := ih.1 h
              refine ⟨c :: front, rfl, ?_⟩
              rw [List.map_cons, hc, hfront]
            · cases h
          · rintro ⟨front, hcs, hfront⟩
            cases front with
            | nil => cases hfront
            | cons d front =>
                rw [List.map_cons, List.cons.injEq] at hfront
                rw [List.cons_append, List.cons.injEq] at hcs
                rw [if_pos (by rw [hcs.1, hfront.1])]
                exact ih.2 ⟨front, hcs.2, hfront.2⟩

/-! ## Word characters of ASCII -/

theorem lettersAndNumbers_ranges :
    lettersAndNumbers.ranges = (0x30, 0x39) :: (0x41, 0x5a) :: (0x61, 0x7a) ::
      lettersAndNumbers.ranges.drop 3 := by
  have htake : lettersAndNumbers.ranges.take 3 = [(0x30, 0x39), (0x41, 0x5a), (0x61, 0x7a)] := by
    decide
  calc lettersAndNumbers.ranges
      = lettersAndNumbers.ranges.take 3 ++ lettersAndNumbers.ranges.drop 3 :=
        (List.take_append_drop 3 _).symm
    _ = _ := by rw [htake]; rfl

/-- The word characters of ASCII are its digits, its letters and the low line. -/
theorem isWordCharacter_iff_of_lt {c : Char} (h : c.toNat < 0x80) :
    isWordCharacter c ↔ c = '_' ∨ (0x30 ≤ c.toNat ∧ c.toNat ≤ 0x39) ∨
      (0x41 ≤ c.toNat ∧ c.toNat ≤ 0x5a) ∨ (0x61 ≤ c.toNat ∧ c.toNat ≤ 0x7a) := by
  have hhigh : (lettersAndNumbers.ranges.drop 3).all (fun range => 0x80 ≤ range.1) := by
    decide +kernel
  have hnone : ¬ ∃ range ∈ lettersAndNumbers.ranges.drop 3,
      range.1 ≤ c.toNat && c.toNat ≤ range.2 := by
    rintro ⟨range, hrange, hc⟩
    have hlow := List.all_eq_true.1 hhigh range hrange
    simp only [Bool.and_eq_true, decide_eq_true_eq] at hc hlow
    omega
  rw [isWordCharacter, CharTable.contains, CharTable.rangeOf?, Bool.or_eq_true, decide_eq_true_eq,
    List.find?_isSome, lettersAndNumbers_ranges]
  simp only [List.mem_cons, exists_eq_or_imp, hnone, or_false]
  simp only [Bool.and_eq_true, decide_eq_true_eq]

theorem isWordCharacter_of_isAlphanum {c : Char} (h : c.isAlphanum) : isWordCharacter c := by
  have hranges : (65 ≤ c.toNat ∧ c.toNat ≤ 90) ∨ (97 ≤ c.toNat ∧ c.toNat ≤ 122) ∨
      (48 ≤ c.toNat ∧ c.toNat ≤ 57) := by
    simp only [Char.isAlphanum, Char.isAlpha, Char.isUpper, Char.isLower, Char.isDigit,
      Bool.or_eq_true, Bool.and_eq_true, decide_eq_true_eq, or_assoc] at h
    exact h
  rw [isWordCharacter_iff_of_lt (by omega)]
  omega

/-- The code points of the blanks. -/
def blankCodes : List Nat :=
  [0x09, 0x0a, 0x0b, 0x0c, 0x0d, 0x1c, 0x1d, 0x1e, 0x1f, 0x20, 0x85, 0xa0, 0x1680, 0x2000, 0x2001,
    0x2002, 0x2003, 0x2004, 0x2005, 0x2006, 0x2007, 0x2008, 0x2009, 0x200a, 0x2028, 0x2029, 0x202f,
    0x205f, 0x3000]

theorem mem_blankCodes {c : Char} (h : isBlank c) : c.toNat ∈ blankCodes := by
  simp only [isBlank, Bool.or_eq_true, Bool.and_eq_true, decide_eq_true_eq] at h
  simp only [blankCodes, List.mem_cons, List.not_mem_nil, or_false]
  omega

theorem isWordCharacter_of_isBlank {c : Char} (h : isBlank c) : isWordCharacter c = false := by
  have hcodes : blankCodes.all (fun code => lettersAndNumbers.ranges.all fun range =>
      !(range.1 ≤ code && code ≤ range.2)) := by
    decide +kernel
  have hcode := List.all_eq_true.1 hcodes c.toNat (mem_blankCodes h)
  rw [isWordCharacter, Bool.or_eq_false_iff]
  constructor
  · rw [decide_eq_false_iff_not]
    rintro rfl
    exact absurd h (by decide)
  · rw [CharTable.contains, Option.isSome_eq_false_iff, Option.isNone_iff_eq_none,
      CharTable.rangeOf?, List.find?_eq_none]
    intro range hrange
    have hout := List.all_eq_true.1 hcode range hrange
    simpa only [Bool.not_eq_true', Bool.not_eq_true] using hout

theorem isLower_foldCase_of_isBlank {c : Char} (h : isBlank c) : ¬ (foldCase c).isLower := by
  intro hlower
  have hcode := mem_blankCodes h
  simp only [blankCodes, List.mem_cons, List.not_mem_nil, or_false] at hcode
  rcases toNat_of_isLower_foldCase hlower with hupper | hsmall | hspecial
  · omega
  · omega
  · simp only [List.mem_cons, List.not_mem_nil, or_false] at hspecial
    rcases hspecial with rfl | rfl | rfl | rfl
    · exact absurd h (by decide)
    · exact absurd h (by decide)
    · exact absurd h (by decide)
    · exact absurd h (by decide)

/-! ## The characters of a class at the front -/

section Front

variable {α : Type} {p : α → Bool} {cs front rest : List α} {c : α}

/-- What is left behind the characters of a class begins with another one. -/
theorem of_mem_head?_dropWhile (h : c ∈ (cs.dropWhile p).head?) : p c = false := by
  have hhead := List.head?_dropWhile_not p cs
  rw [Option.mem_def.1 h] at hhead
  simpa using hhead

theorem of_dropWhile_eq_cons (h : cs.dropWhile p = c :: rest) : p c = false :=
  of_mem_head?_dropWhile (by rw [h]; rfl)

theorem dropWhile_eq_self (h : ∀ c ∈ cs.head?, p c = false) : cs.dropWhile p = cs := by
  cases cs with
  | nil => rfl
  | cons c rest => exact List.dropWhile_cons_of_neg (by simp [h c rfl])

theorem takeWhile_dropWhile_append (hfront : ∀ c ∈ front, p c)
    (hrest : ∀ c ∈ rest.head?, p c = false) :
    (front ++ rest).takeWhile p = front ∧ (front ++ rest).dropWhile p = rest := by
  have hstop : rest.takeWhile p = [] := by
    cases rest with
    | nil => rfl
    | cons c rest => exact List.takeWhile_cons_of_neg (by simp [hrest c rfl])
  rw [List.takeWhile_append_of_pos hfront, List.dropWhile_append_of_pos hfront, hstop,
    List.append_nil]
  exact ⟨rfl, dropWhile_eq_self hrest⟩

theorem takeWhile_dropWhile_cons (hfront : ∀ d ∈ front, p d) (hc : p c = false) :
    (front ++ c :: rest).takeWhile p = front ∧ (front ++ c :: rest).dropWhile p = c :: rest := by
  refine takeWhile_dropWhile_append hfront ?_
  rintro d ⟨⟩
  exact hc

/-- A piece at the front of a text that lacks a character ends in front of it. -/
theorem exists_append_of_notMem {piece tail : List α} (heq : front ++ c :: rest = piece ++ tail)
    (hc : c ∉ piece) : ∃ more, front = piece ++ more ∧ tail = more ++ c :: rest := by
  rcases List.append_eq_append_iff.1 heq with ⟨more, rfl, htail⟩ | ⟨more, rfl, rfl⟩
  · cases more with
    | nil => exact ⟨[], by simp, htail.symm⟩
    | cons d more =>
        rw [List.cons_append, List.cons.injEq] at htail
        exact absurd (by simp [htail.1]) hc
  · exact ⟨more, rfl, rfl⟩

/-- Two texts that are equal are so in front of a character that is first in both, and behind it. -/
theorem append_cons_inj {other more : List α} (hfront : c ∉ front) (hother : c ∉ other)
    (heq : front ++ c :: rest = other ++ c :: more) : front = other ∧ rest = more := by
  obtain ⟨between, rfl, hmore⟩ := exists_append_of_notMem heq hother
  cases between with
  | nil => exact ⟨List.append_nil other, (List.cons.inj hmore).2.symm⟩
  | cons d between =>
      rw [List.cons_append, List.cons.injEq] at hmore
      exact absurd (by simp [hmore.1]) hfront

end Front

/-! ## Stripping -/

theorem dropTrailing_eq_self {class? : Char → Bool} {cs : List Char}
    (h : ∀ c ∈ cs.getLast?, class? c = false) : dropTrailing class? cs = cs := by
  rw [← List.head?_reverse] at h
  rw [dropTrailing, dropWhile_eq_self h, List.reverse_reverse]

theorem dropTrailing_isPrefix (class? : Char → Bool) (cs : List Char) :
    dropTrailing class? cs <+: cs := by
  have hsuffix : cs.reverse.dropWhile class? <:+ cs.reverse := List.dropWhile_suffix class?
  rw [dropTrailing, ← List.reverse_suffix, List.reverse_reverse]
  exact hsuffix

theorem getLast?_dropTrailing {class? : Char → Bool} {cs : List Char} {c : Char}
    (h : c ∈ (dropTrailing class? cs).getLast?) : class? c = false := by
  rw [dropTrailing, List.getLast?_reverse] at h
  exact of_mem_head?_dropWhile h

theorem stripBy_isInfix (class? : Char → Bool) (cs : List Char) : stripBy class? cs <:+: cs :=
  (dropTrailing_isPrefix class? _).isInfix.trans (List.dropWhile_suffix class?).isInfix

theorem head?_stripBy {class? : Char → Bool} {cs : List Char} {c : Char}
    (h : c ∈ (stripBy class? cs).head?) : class? c = false := by
  obtain ⟨rest, hrest⟩ := dropTrailing_isPrefix class? (cs.dropWhile class?)
  rw [stripBy] at h
  have hhead : c ∈ (cs.dropWhile class?).head? := by
    rw [← hrest]
    exact List.mem_head?_append_of_mem_head? h
  exact of_mem_head?_dropWhile hhead

theorem stripBy_eq_self {class? : Char → Bool} {cs : List Char}
    (hhead : ∀ c ∈ cs.head?, class? c = false) (hlast : ∀ c ∈ cs.getLast?, class? c = false) :
    stripBy class? cs = cs := by
  rw [stripBy, dropWhile_eq_self hhead, dropTrailing_eq_self hlast]

theorem strip_strip (cs : List Char) : strip (strip cs) = strip cs :=
  stripBy_eq_self (fun _ hc => head?_stripBy hc) (fun _ hc => getLast?_dropTrailing hc)

/-! ## Pieces -/

section Pieces

variable {α : Type} {separator : α → Bool} {cs piece run rest : List α}

theorem splitAtRuns_of_no_separator (h : ∀ c ∈ piece, separator c = false) :
    splitAtRuns separator piece = [piece] := by
  induction piece with
  | nil => rfl
  | cons c piece ih =>
      rw [splitAtRuns.eq_def]
      simp only [h c List.mem_cons_self, Bool.false_eq_true, if_false]
      rw [ih (fun d hd => h d (List.mem_cons_of_mem c hd))]

/-- A whole run of separators opens one piece. -/
theorem splitAtRuns_run (hne : run ≠ []) (hrun : ∀ c ∈ run, separator c)
    (hrest : ∀ c ∈ rest.head?, separator c = false) :
    splitAtRuns separator (run ++ rest) = [] :: splitAtRuns separator rest := by
  induction run with
  | nil => exact absurd rfl hne
  | cons s run ih =>
      have hs : separator s := hrun s List.mem_cons_self
      cases run with
      | nil =>
          cases rest with
          | nil => simp [splitAtRuns, hs]
          | cons d rest => simp [splitAtRuns, hs, hrest d rfl]
      | cons t run =>
          have ht : separator t := hrun t (by simp)
          rw [← ih (List.cons_ne_nil t run) fun c hc => hrun c (List.mem_cons_of_mem s hc)]
          simp [splitAtRuns, hs, ht]

/-- A piece ends at a run of separators. -/
theorem splitAtRuns_append (hpiece : ∀ c ∈ piece, separator c = false) (hne : run ≠ [])
    (hrun : ∀ c ∈ run, separator c) (hrest : ∀ c ∈ rest.head?, separator c = false) :
    splitAtRuns separator (piece ++ (run ++ rest)) = piece :: splitAtRuns separator rest := by
  induction piece with
  | nil => exact splitAtRuns_run hne hrun hrest
  | cons c piece ih =>
      rw [List.cons_append, splitAtRuns.eq_def]
      simp only [hpiece c List.mem_cons_self, Bool.false_eq_true, if_false]
      rw [ih (fun d hd => hpiece d (List.mem_cons_of_mem c hd))]

/-- **A text is its first piece**, and if there is a second one, a run of separators and the text
of the other pieces behind it. -/
theorem splitAtRuns_cases (separator : α → Bool) (cs : List α) :
    ∃ piece, (∀ c ∈ piece, separator c = false) ∧
      (cs = piece ∧ splitAtRuns separator cs = [piece] ∨
        ∃ run rest, cs = piece ++ (run ++ rest) ∧ run ≠ [] ∧ (∀ c ∈ run, separator c) ∧
          splitAtRuns separator cs = piece :: splitAtRuns separator rest) := by
  have hpiece : ∀ c ∈ cs.takeWhile (!separator ·), separator c = false :=
    fun c hc => by simpa using List.mem_takeWhile_imp hc
  -- The first piece goes up to the first separator, its run up to what is none again.
  refine ⟨cs.takeWhile (!separator ·), hpiece, ?_⟩
  have hcs : cs.takeWhile (!separator ·) ++ cs.dropWhile (!separator ·) = cs :=
    List.takeWhile_append_dropWhile
  cases hdrop : cs.dropWhile (!separator ·) with
  | nil =>
      rw [hdrop, List.append_nil] at hcs
      refine Or.inl ⟨hcs.symm, ?_⟩
      rw [← splitAtRuns_of_no_separator hpiece, hcs]
  | cons s behind =>
      have hs : separator s := by simpa using of_dropWhile_eq_cons hdrop
      have hsplit : (s :: behind).takeWhile separator ++ (s :: behind).dropWhile separator =
          s :: behind := List.takeWhile_append_dropWhile
      have hrun : (s :: behind).takeWhile separator ≠ [] := by
        simp [hs]
      have hall : ∀ c ∈ (s :: behind).takeWhile separator, separator c :=
        fun c hc => List.mem_takeWhile_imp hc
      have hrest : ∀ c ∈ ((s :: behind).dropWhile separator).head?, separator c = false :=
        fun c hc => of_mem_head?_dropWhile hc
      rw [hdrop, ← hsplit] at hcs
      refine Or.inr ⟨_, _, hcs.symm, hrun, hall, ?_⟩
      rw [← splitAtRuns_append hpiece hrun hall hrest, hcs]

end Pieces

end IconForge.Text
