import Mathlib
import IconForge.Graphic.Extraction
import IconForge.Proofs.Graphic.RootSearch

set_option autoImplicit false

/-! # Where the root stands

The place of a root, said without a search. An opening tag *opens* at a place, its bracket is the
first `>` behind the name, and a closing tag *closes* at a place. A root stands at the least such
places (`RootAt`): the first opener of the whole text, the first bracket behind it, the first closer
behind that.

Any opener with a bracket and a closer behind it makes a root (`isSome_root?`), though not the one
that it opens itself: the first opener of the text stands in front of it and has the same bracket or
an earlier one, so it has a closer behind its bracket, too. Hence a text has a root exactly when
some opener, bracket and closer follow each other (`root_location`). -/

namespace IconForge.Graphic

open IconForge.Text

/-! ## Names without case -/

/-- The letters of the root's name, each with the characters that equal it when case is ignored.
The long s equals an `s`. -/
def rootLetters : List (List Char) :=
  [['s', 'S', 'ſ'], ['v', 'V'], ['g', 'G']]

/-- A name that equals the root's when case is ignored. -/
def IsRootName (name : List Char) : Prop :=
  List.Forall₂ (· ∈ ·) name rootLetters

theorem toLower_eq_iff {c d : Char} (hd : d.isLower) :
    c.toLower = d ↔ c.toNat = d.toNat ∨ c.toNat + 32 = d.toNat := by
  rw [isLower_iff] at hd
  rw [← Char.toNat_inj, toNat_toLower]
  split <;> omega

/-- A letter that is neither `s`, `i` nor `k` equals its two forms only. -/
theorem foldCase_eq_iff {c d : Char} (hd : d.isLower) (hspecial : d ∉ ['s', 'i', 'k']) :
    foldCase c = d ↔ c = d ∨ c = d.toUpper := by
  have hlower := hd
  rw [isLower_iff] at hlower
  have hupper : d.toUpper.toNat = d.toNat - 32 := by
    rw [Char.toUpper, dif_pos (show 'a'.val ≤ d.val ∧ d.val ≤ 'z'.val from hlower)]
    show (d.val + ('A'.val - 'a'.val)).toNat = d.toNat - 32
    have hgap : ('A'.val - 'a'.val).toNat = 2 ^ 32 - 32 := by decide
    have hval : d.val.toNat = d.toNat := rfl
    rw [UInt32.toNat_add, hgap]
    omega
  have hcase : c.toLower = d ↔ c = d ∨ c = d.toUpper := by
    rw [toLower_eq_iff hd, ← Char.toNat_inj, ← Char.toNat_inj, hupper]
    omega
  simp only [List.mem_cons, List.not_mem_nil, or_false, not_or] at hspecial
  rw [← hcase]
  unfold foldCase
  split
  · exact iff_of_false (Ne.symm hspecial.1) (by rw [toLower_eq_iff hd]; simp; omega)
  · exact iff_of_false (Ne.symm hspecial.2.1) (by rw [toLower_eq_iff hd]; simp; omega)
  · exact iff_of_false (Ne.symm hspecial.2.1) (by rw [toLower_eq_iff hd]; simp; omega)
  · exact iff_of_false (Ne.symm hspecial.2.2) (by rw [toLower_eq_iff hd]; simp; omega)
  · exact Iff.rfl

theorem foldCase_eq_s_iff {c : Char} : foldCase c = 's' ↔ c ∈ ['s', 'S', 'ſ'] := by
  constructor
  · intro h
    by_cases hlong : c = 'ſ'
    · simp [hlong]
    · have hlower : c.toLower = 's' := by
        revert h
        unfold foldCase
        split
        · exact absurd rfl hlong
        · decide
        · decide
        · decide
        · exact id
      rw [toLower_eq_iff (by decide)] at hlower
      simp only [List.mem_cons, List.not_mem_nil, or_false, ← Char.toNat_inj]
      change c.toNat = 115 ∨ c.toNat + 32 = 115 at hlower
      show c.toNat = 115 ∨ c.toNat = 83 ∨ c.toNat = 383
      omega
  · intro h
    simp only [List.mem_cons, List.not_mem_nil, or_false] at h
    rcases h with rfl | rfl | rfl
    · decide
    · decide
    · decide

theorem map_foldCase_eq_iff {name : List Char} :
    name.map foldCase = ['s', 'v', 'g'] ↔ IsRootName name := by
  have hv : ∀ c, foldCase c = 'v' ↔ c ∈ ['v', 'V'] := by
    intro c
    rw [foldCase_eq_iff (by decide) (by decide)]
    simp
  have hg : ∀ c, foldCase c = 'g' ↔ c ∈ ['g', 'G'] := by
    intro c
    rw [foldCase_eq_iff (by decide) (by decide)]
    simp
  rw [IsRootName, rootLetters]
  rcases name with _ | ⟨a, _ | ⟨b, _ | ⟨c, _ | ⟨d, name⟩⟩⟩⟩
  · simp
  · simp
  · simp
  · simp only [List.map_cons, List.map_nil, List.cons.injEq, and_true, List.forall₂_cons,
      List.Forall₂.nil, foldCase_eq_s_iff, hv, hg]
  · simp

/-! ## Openers and closers -/

/-- An opening root tag stands at the front of a text. -/
def Opens (cs : List Char) : Prop :=
  ∃ name c behind, cs = '<' :: (name ++ c :: behind) ∧ IsRootName name ∧ endsRootName c

/-- A closing root tag stands at the front of a text. -/
def Closes (cs : List Char) : Prop :=
  ∃ name blanks behind, cs = '<' :: '/' :: (name ++ (blanks ++ '>' :: behind)) ∧ IsRootName name ∧
    ∀ c ∈ blanks, isBlank c

theorem IsRootName.length_eq {name : List Char} (h : IsRootName name) : name.length = 3 :=
  List.Forall₂.length_eq h

/-- What is left behind an opener is the text behind its first four characters. -/
theorem opener?_eq_some_iff {cs behind : List Char} :
    opener? cs = some behind ↔ Opens cs ∧ behind = cs.drop 4 := by
  constructor
  · intro h
    rw [opener?] at h
    split at h
    · next c rest hdrop =>
      obtain ⟨front, rfl, hfront⟩ := dropFolded?_eq_some_iff.1 hdrop
      obtain ⟨first, name, rfl, hfirst, hname⟩ := List.map_eq_cons_iff.1 hfront
      rw [map_foldCase_eq_iff] at hname
      split at h
      · next hends =>
        cases h
        refine ⟨⟨name, c, rest, ?_, hname, hends⟩, ?_⟩
        · rw [eq_of_foldCase_eq hfirst (by decide), List.cons_append]
        · -- Ignoring case keeps the number of characters.
          have hlength : (first :: name).length = 4 := by rw [List.length_cons, hname.length_eq]
          rw [← hlength, List.drop_left]
      · cases h
    · cases h
  · rintro ⟨⟨name, c, rest, rfl, hname, hends⟩, rfl⟩
    have hdrop : dropFolded? ['<', 's', 'v', 'g'] ('<' :: (name ++ c :: rest)) =
        some (c :: rest) := by
      rw [dropFolded?_eq_some_iff]
      refine ⟨'<' :: name, rfl, ?_⟩
      rw [List.map_cons, map_foldCase_eq_iff.2 hname]
      rfl
    have hbehind : ('<' :: (name ++ c :: rest)).drop 4 = c :: rest := by
      rw [List.drop_succ_cons, ← hname.length_eq, List.drop_left]
    rw [opener?, hdrop, hbehind]
    exact if_pos hends

theorem isCloser_iff_closes {cs : List Char} : isCloser cs ↔ Closes cs := by
  rw [isCloser_iff]
  constructor
  · rintro ⟨tag, behind, ⟨front, blanks, rfl, hfront, hblanks⟩, rfl⟩
    obtain ⟨first, more, rfl, hfirst, hmore⟩ := List.map_eq_cons_iff.1 hfront
    obtain ⟨second, name, rfl, hsecond, hname⟩ := List.map_eq_cons_iff.1 hmore
    refine ⟨name, blanks, behind, ?_, map_foldCase_eq_iff.1 hname, hblanks⟩
    rw [eq_of_foldCase_eq hfirst (by decide), eq_of_foldCase_eq hsecond (by decide)]
    simp
  · rintro ⟨name, blanks, behind, rfl, hname, hblanks⟩
    refine ⟨'<' :: '/' :: name ++ blanks ++ ['>'], behind, ⟨_, blanks, rfl, ?_, hblanks⟩, by simp⟩
    rw [List.map_cons, List.map_cons, map_foldCase_eq_iff.2 hname]
    decide

def OpensAt (cs : List Char) (i : Nat) : Prop :=
  Opens (cs.drop i)

def ClosesAt (cs : List Char) (k : Nat) : Prop :=
  Closes (cs.drop k)

theorem not_opens_nil : ¬ Opens [] := by
  rintro ⟨name, c, behind, heq, -⟩
  cases heq

theorem not_closes_nil : ¬ Closes [] := by
  rintro ⟨name, blanks, behind, heq, -⟩
  cases heq

/-! ## Searches -/

section Searches

variable {begins : List Char → Prop} {c : Char} {rest : List Char} {i : Nat}

theorem isLeast_drop_zero (h : begins (c :: rest)) :
    IsLeast {i | begins ((c :: rest).drop i)} 0 :=
  ⟨h, fun _ _ => Nat.zero_le _⟩

theorem isLeast_drop_succ (h : ¬ begins (c :: rest)) (hrest : IsLeast {i | begins (rest.drop i)} i) :
    IsLeast {i | begins ((c :: rest).drop i)} (i + 1) := by
  refine ⟨hrest.1, ?_⟩
  intro m hm
  cases m with
  | zero => exact absurd hm h
  | succ m => exact Nat.succ_le_succ (hrest.2 hm)

end Searches

theorem findOpener?_eq_some {cs behind : List Char} (h : findOpener? cs = some behind) :
    ∃ i, IsLeast {i | OpensAt cs i} i ∧ behind = cs.drop (i + 4) := by
  induction cs with
  | nil => cases h
  | cons c rest ih =>
      rw [findOpener?] at h
      cases hopener : opener? (c :: rest) with
      | some found =>
          rw [hopener] at h
          cases h
          obtain ⟨hopens, hbehind⟩ := opener?_eq_some_iff.1 hopener
          exact ⟨0, isLeast_drop_zero hopens, hbehind⟩
      | none =>
          rw [hopener] at h
          obtain ⟨i, hleast, hbehind⟩ := ih h
          refine ⟨i + 1, isLeast_drop_succ ?_ hleast, hbehind⟩
          intro hopens
          rw [opener?_eq_some_iff.2 ⟨hopens, rfl⟩] at hopener
          cases hopener

theorem findOpener?_eq_none {cs : List Char} (h : findOpener? cs = none) (i : Nat) :
    ¬ OpensAt cs i := by
  induction cs generalizing i with
  | nil =>
      rw [OpensAt, List.drop_nil]
      exact not_opens_nil
  | cons c rest ih =>
      rw [findOpener?] at h
      cases hopener : opener? (c :: rest) with
      | some found =>
          rw [hopener] at h
          cases h
      | none =>
          rw [hopener] at h
          cases i with
          | zero =>
              intro hopens
              have hfound := opener?_eq_some_iff.2 ⟨show Opens (c :: rest) from hopens, rfl⟩
              rw [hopener] at hfound
              cases hfound
          | succ i => exact ih h i

theorem findCloser?_eq_some {cs closer : List Char} (h : findCloser? cs = some closer) :
    ∃ k, IsLeast {k | ClosesAt cs k} k ∧ closer = cs.drop k := by
  induction cs with
  | nil => cases h
  | cons c rest ih =>
      rw [findCloser?] at h
      by_cases hcloser : isCloser (c :: rest)
      · rw [if_pos hcloser] at h
        cases h
        exact ⟨0, isLeast_drop_zero (isCloser_iff_closes.1 hcloser), rfl⟩
      · rw [if_neg hcloser] at h
        obtain ⟨k, hleast, hbehind⟩ := ih h
        exact ⟨k + 1, isLeast_drop_succ (fun hc => hcloser (isCloser_iff_closes.2 hc)) hleast,
          hbehind⟩

theorem findCloser?_eq_none {cs : List Char} (h : findCloser? cs = none) (k : Nat) :
    ¬ ClosesAt cs k := by
  induction cs generalizing k with
  | nil =>
      rw [ClosesAt, List.drop_nil]
      exact not_closes_nil
  | cons c rest ih =>
      rw [findCloser?] at h
      by_cases hcloser : isCloser (c :: rest)
      · rw [if_pos hcloser] at h
        cases h
      · rw [if_neg hcloser] at h
        cases k with
        | zero => exact fun hc => hcloser (isCloser_iff_closes.2 hc)
        | succ k => exact ih h k

/-- The places of the brackets behind a place. -/
def bracketsFrom (cs : List Char) (i : Nat) : Set Nat :=
  {j | i ≤ j ∧ cs[j]? = some '>'}

/-- Cutting a text in front of its first bracket. -/
theorem exists_bracket {cs body : List Char} {c : Char}
    (h : cs.dropWhile (fun d => decide (d ≠ '>')) = c :: body) :
    ∃ n, IsLeast (bracketsFrom cs 0) n ∧ cs.takeWhile (fun d => decide (d ≠ '>')) = cs.take n ∧
      body = cs.drop (n + 1) := by
  induction cs with
  | nil => cases h
  | cons d rest ih =>
      by_cases hd : d = '>'
      · subst hd
        rw [List.dropWhile_cons_of_neg (by simp), List.cons.injEq] at h
        refine ⟨0, ⟨⟨Nat.le_refl 0, rfl⟩, fun _ _ => Nat.zero_le _⟩, ?_, h.2.symm⟩
        rw [List.takeWhile_cons_of_neg (by simp), List.take_zero]
      · rw [List.dropWhile_cons_of_pos (by simpa using hd)] at h
        obtain ⟨n, hleast, htake, hbody⟩ := ih h
        refine ⟨n + 1, ⟨⟨Nat.zero_le _, hleast.1.2⟩, ?_⟩, ?_, hbody⟩
        · rintro m ⟨-, hm⟩
          cases m with
          | zero =>
              rw [List.getElem?_cons_zero, Option.some.injEq] at hm
              exact absurd hm hd
          | succ m => exact Nat.succ_le_succ (hleast.2 ⟨Nat.zero_le _, hm⟩)
        · rw [List.takeWhile_cons_of_pos (by simpa using hd), htake, List.take_succ_cons]

theorem isLeast_bracketsFrom {cs : List Char} {i n : Nat}
    (h : IsLeast (bracketsFrom (cs.drop i) 0) n) : IsLeast (bracketsFrom cs i) (i + n) := by
  obtain ⟨⟨-, hn⟩, hleast⟩ := h
  rw [List.getElem?_drop] at hn
  refine ⟨⟨Nat.le_add_right i n, hn⟩, ?_⟩
  rintro m ⟨him, hm⟩
  have hle : n ≤ m - i := by
    apply hleast
    refine ⟨Nat.zero_le _, ?_⟩
    rw [List.getElem?_drop, Nat.add_sub_cancel' him]
    exact hm
  omega

theorem isLeast_closersFrom {cs : List Char} {i m : Nat}
    (h : IsLeast {k | ClosesAt (cs.drop i) k} m) :
    IsLeast {k | i ≤ k ∧ ClosesAt cs k} (i + m) := by
  have hdrop : ∀ k, ClosesAt (cs.drop i) k ↔ ClosesAt cs (i + k) := by
    intro k
    rw [ClosesAt, ClosesAt, List.drop_drop]
  refine ⟨⟨Nat.le_add_right i m, (hdrop m).1 h.1⟩, ?_⟩
  rintro k ⟨hik, hk⟩
  have hle : m ≤ k - i := by
    apply h.2
    show ClosesAt (cs.drop i) (k - i)
    rw [hdrop, Nat.add_sub_cancel' hik]
    exact hk
  omega

/-! ## The place of a root -/

/-- The places of a root in a text: its first opener, the first bracket behind the name of that, and
the first closer behind that bracket. -/
structure RootAt (cs : List Char) (i j k : Nat) : Prop where
  opener : IsLeast {i | OpensAt cs i} i
  bracket : IsLeast (bracketsFrom cs (i + 4)) j
  closer : IsLeast {k | j < k ∧ ClosesAt cs k} k

/-- The parts of a text between the places of a root. -/
def rootBetween (cs : List Char) (i j k : Nat) : Root where
  attributes := cs.extract (i + 4) j
  content := cs.extract (j + 1) k

theorem RootAt.unique {cs : List Char} {i j k i' j' k' : Nat} (h : RootAt cs i j k)
    (h' : RootAt cs i' j' k') : i = i' ∧ j = j' ∧ k = k' := by
  obtain rfl := h.opener.unique h'.opener
  obtain rfl := h.bracket.unique h'.bracket
  obtain rfl := h.closer.unique h'.closer
  exact ⟨rfl, rfl, rfl⟩

/-- The root that is found stands at the least places. -/
theorem exists_rootAt {cs : List Char} {root : Root} (h : root? cs = some root) :
    ∃ i j k, RootAt cs i j k ∧ root = rootBetween cs i j k := by
  rw [root?] at h
  split at h
  · cases h
  · next behind hopener =>
    obtain ⟨i, hi, rfl⟩ := findOpener?_eq_some hopener
    split at h
    · cases h
    · next body hbody =>
      obtain ⟨n, hn, htake, rfl⟩ := exists_bracket hbody
      obtain ⟨closer, hcloser, rfl⟩ := Option.map_eq_some_iff.1 h
      obtain ⟨m, hm, rfl⟩ := findCloser?_eq_some hcloser
      -- What is left behind one place is searched for the next, so the places add up.
      rw [List.drop_drop] at hm
      refine ⟨i, i + 4 + n, i + 4 + n + 1 + m,
        ⟨hi, isLeast_bracketsFrom hn, isLeast_closersFrom hm⟩, ?_⟩
      rw [rootBetween, Root.mk.injEq]
      constructor
      · rw [htake, List.extract, Nat.add_sub_cancel_left]
      · rw [List.extract, Nat.add_sub_cancel_left, List.drop_drop, ← Nat.add_assoc,
          List.take_eq_take_iff, List.length_drop (i := m)]
        omega

/-- **Any opener with a bracket and a closer behind it makes a root.** -/
theorem isSome_root? {cs : List Char} {i j k : Nat} (hi : OpensAt cs i)
    (hj : j ∈ bracketsFrom cs (i + 4)) (hk : j < k ∧ ClosesAt cs k) : (root? cs).isSome := by
  rw [root?]
  split
  · next hnone => exact absurd hi (findOpener?_eq_none hnone i)
  · next behind hopener =>
    obtain ⟨first, hfirst, rfl⟩ := findOpener?_eq_some hopener
    -- The bracket stands behind the first opener, too.
    have hle : first ≤ i := hfirst.2 hi
    split
    · next hnil =>
      exfalso
      have hall := List.dropWhile_eq_nil_iff.1 hnil
      have hmem : '>' ∈ cs.drop (first + 4) := by
        apply List.mem_of_getElem? (i := j - (first + 4))
        rw [List.getElem?_drop, Nat.add_sub_cancel' (by have := hj.1; omega)]
        exact hj.2
      exact absurd (hall _ hmem) (by simp)
    · next body hbody =>
      obtain ⟨n, hn, -, rfl⟩ := exists_bracket hbody
      have hbracket : first + 4 + n ≤ j := by
        apply (isLeast_bracketsFrom hn).2
        exact ⟨by have := hj.1; omega, hj.2⟩
      rw [Option.isSome_map, Option.isSome_iff_ne_none]
      intro hnone
      have hno := findCloser?_eq_none hnone (k - (first + 4 + (n + 1)))
      rw [ClosesAt, List.drop_drop, List.drop_drop] at hno
      apply hno
      rw [show first + 4 + (n + 1 + (k - (first + 4 + (n + 1)))) = k by omega]
      exact hk.2

/-- **The root of a text stands at the least places, and nowhere else.** -/
theorem root?_eq_some_iff {cs : List Char} {root : Root} :
    root? cs = some root ↔ ∃ i j k, RootAt cs i j k ∧ root = rootBetween cs i j k := by
  constructor
  · exact exists_rootAt
  · rintro ⟨i, j, k, hplace, rfl⟩
    obtain ⟨root, hroot⟩ := Option.isSome_iff_exists.1
      (isSome_root? hplace.opener.1 hplace.bracket.1 hplace.closer.1)
    obtain ⟨i', j', k', hplace', rfl⟩ := exists_rootAt hroot
    obtain ⟨rfl, rfl, rfl⟩ := hplace.unique hplace'
    exact hroot

-- An element of another name is no opener, and of the two closers behind the bracket the first ends
-- the root, blank and all.
example : root? "<svg-a><SVG b>c<svg>d</svg\n></svg>".toList = some ⟨[' ', 'b'], "c<svg>d".toList⟩ := by
  decide

-- A closing tag that is never finished closes neither of the two openers.
example : root? "<svg <svg></svg".toList = none := by
  decide

/-! ## Texts with a root -/

section Extraction

variable {text : String} {defaultSize : Json}

/-- An opener, its bracket and a closer follow each other. -/
def HoldsRoot (cs : List Char) (i j k : Nat) : Prop :=
  OpensAt cs i ∧ IsLeast (bracketsFrom cs (i + 4)) j ∧ j < k ∧ ClosesAt cs k

theorem looksLikeSvg_iff : looksLikeSvg text ↔ ∃ i j k, HoldsRoot text.toList i j k := by
  rw [looksLikeSvg]
  constructor
  · intro h
    obtain ⟨root, hroot⟩ := Option.isSome_iff_exists.1 h
    obtain ⟨i, j, k, hplace, -⟩ := exists_rootAt hroot
    exact ⟨i, j, k, hplace.opener.1, hplace.bracket, hplace.closer.1⟩
  · rintro ⟨i, j, k, hi, hj, hk⟩
    exact isSome_root? hi hj.1 hk

theorem extract_of_not_looksLikeSvg (h : looksLikeSvg text = false) :
    extract defaultSize text = .error .noRoot := by
  rw [looksLikeSvg, Option.isSome_eq_false_iff, Option.isNone_iff_eq_none] at h
  rw [extract, h]

/-- The graphic of a text is that of the root between its places. -/
theorem RootAt.extract_eq {i j k : Nat} (h : RootAt text.toList i j k) :
    extract defaultSize text = ofRoot defaultSize (rootBetween text.toList i j k) := by
  rw [extract, root?_eq_some_iff.2 ⟨i, j, k, h, rfl⟩]

/-- A root fails to give a graphic by its view box alone. -/
theorem exists_malformed_of_ofRoot {root : Root} {why : Unusable}
    (h : ofRoot defaultSize root = .error why) : ∃ value, why = .malformedViewBox value := by
  have hbox : viewBoxOf defaultSize root.attributes = .error why := by
    rw [ofRoot] at h
    cases hbox : viewBoxOf defaultSize root.attributes with
    | ok box => rw [hbox] at h; cases h
    | error why' => rw [hbox] at h; cases h; rfl
  rw [viewBoxOf] at hbox
  split at hbox
  · next box hdeclared =>
    obtain ⟨value, -, hvalue⟩ := Option.map_eq_some_iff.1 hdeclared
    rw [hbox] at hvalue
    split at hvalue
    · cases hvalue
    · cases hvalue
      exact ⟨_, rfl⟩
  · cases hbox

theorem inner_of_ofRoot {root : Root} {graphic : Graphic}
    (h : ofRoot defaultSize root = .ok graphic) :
    graphic.inner = String.ofList (strip root.content) := by
  rw [ofRoot] at h
  cases hbox : viewBoxOf defaultSize root.attributes with
  | ok box => rw [hbox] at h; cases h; rfl
  | error why => rw [hbox] at h; cases h

theorem exists_rootAt_of_looksLikeSvg (h : looksLikeSvg text) :
    ∃ i j k, RootAt text.toList i j k := by
  obtain ⟨root, hroot⟩ := Option.isSome_iff_exists.1 h
  obtain ⟨i, j, k, hplace, -⟩ := exists_rootAt hroot
  exact ⟨i, j, k, hplace⟩

/-- A text is refused in one of two ways: it has no root, or the view box of its root is
malformed. -/
theorem extract_eq_error {why : Unusable} (h : extract defaultSize text = .error why) :
    (why = .noRoot ∧ looksLikeSvg text = false) ∨
      ((∃ value, why = .malformedViewBox value) ∧ looksLikeSvg text) := by
  cases hlooks : looksLikeSvg text with
  | false =>
      rw [extract_of_not_looksLikeSvg hlooks] at h
      cases h
      exact Or.inl ⟨rfl, rfl⟩
  | true =>
      obtain ⟨i, j, k, hplace⟩ := exists_rootAt_of_looksLikeSvg hlooks
      rw [hplace.extract_eq] at h
      exact Or.inr ⟨exists_malformed_of_ofRoot h, rfl⟩

theorem extract_eq_noRoot_iff :
    extract defaultSize text = .error .noRoot ↔ looksLikeSvg text = false := by
  refine ⟨?_, extract_of_not_looksLikeSvg⟩
  intro h
  rcases extract_eq_error h with ⟨-, hlooks⟩ | ⟨⟨value, hvalue⟩, -⟩
  · exact hlooks
  · cases hvalue

/-- The answer that a value has no root is given exactly when it does not look like a document
with one, be it a text or not. -/
theorem extractValue_noRoot_iff {value : Json} :
    (∃ why, extractValue defaultSize value = .error why ∧ why.reason = "no_svg_root") ↔
      looksLikeSvgValue value = false := by
  have hother : ∀ kind, (∃ why, (Except.error (.notText kind) : Except Unusable Graphic) =
      .error why ∧ why.reason = "no_svg_root") := fun kind => ⟨_, rfl, rfl⟩
  cases value with
  | text text =>
      show (∃ why, extract defaultSize (CodeText.shown text) = .error why ∧ _) ↔
        looksLikeSvg (CodeText.shown text) = false
      constructor
      · rintro ⟨why, hwhy, hreason⟩
        rcases extract_eq_error hwhy with ⟨-, hlooks⟩ | ⟨⟨value, rfl⟩, -⟩
        · exact hlooks
        · exact absurd hreason (by simp [Unusable.reason])
      · intro hlooks
        exact ⟨_, extract_of_not_looksLikeSvg hlooks, rfl⟩
  | null => exact iff_of_true (hother _) rfl
  | boolean value => exact iff_of_true (hother _) rfl
  | integer value => exact iff_of_true (hother _) rfl
  | real value => exact iff_of_true (hother _) rfl
  | list items => exact iff_of_true (hother _) rfl
  | object members => exact iff_of_true (hother _) rfl

/-- No opener of a text has what the first one lacks. -/
theorem not_holdsRoot_of_first {cs : List Char} {first : Nat}
    (hfirst : IsLeast {i | OpensAt cs i} first) (hno : ∀ j k, ¬ HoldsRoot cs first j k)
    (i j k : Nat) : ¬ HoldsRoot cs i j k := by
  rintro ⟨hi, hj, hk⟩
  obtain ⟨root, hroot⟩ := Option.isSome_iff_exists.1 (isSome_root? hi hj.1 hk)
  obtain ⟨i', j', k', hplace, -⟩ := exists_rootAt hroot
  obtain rfl := hfirst.unique hplace.opener
  exact hno j' k' ⟨hplace.opener.1, hplace.bracket, hplace.closer.1⟩

/-- **A text has a root exactly where the first opener has one.** The two questions about a root,
for a text as for any other value, have one answer, and it turns on places alone: an opener, the
first bracket behind its name, a closer behind that. The graphic is that of the root at the least
such places, and its content is the text between bracket and closer. When the first opener has no
bracket, or no closer behind it, then no opener has. -/
theorem root_location (text : String) (defaultSize value : Json) :
    (looksLikeSvg text ↔ ∃ i j k, HoldsRoot text.toList i j k) ∧
    (extract defaultSize text = .error .noRoot ↔ looksLikeSvg text = false) ∧
    ((∃ why, extractValue defaultSize value = .error why ∧ why.reason = "no_svg_root") ↔
      looksLikeSvgValue value = false) ∧
    (∀ why, extract defaultSize text = .error why → looksLikeSvg text →
      ∃ viewBox, why = .malformedViewBox viewBox) ∧
    (looksLikeSvg text → ∃ i j k, RootAt text.toList i j k ∧
      extract defaultSize text = ofRoot defaultSize
        { attributes := text.toList.extract (i + 4) j
          content := text.toList.extract (j + 1) k } ∧
      ∀ graphic, extract defaultSize text = .ok graphic →
        graphic.inner = String.ofList (strip (text.toList.extract (j + 1) k))) ∧
    (∀ first, IsLeast {i | OpensAt text.toList i} first →
      (∀ j k, ¬ HoldsRoot text.toList first j k) →
        looksLikeSvg text = false ∧ ∀ i j k, ¬ HoldsRoot text.toList i j k) := by
  refine ⟨looksLikeSvg_iff, extract_eq_noRoot_iff, extractValue_noRoot_iff, ?_, ?_, ?_⟩
  · intro why hwhy hlooks
    rcases extract_eq_error hwhy with ⟨-, hno⟩ | ⟨hmalformed, -⟩
    · exact absurd hlooks (by rw [hno]; decide)
    · exact hmalformed
  · intro hlooks
    obtain ⟨i, j, k, hplace⟩ := exists_rootAt_of_looksLikeSvg hlooks
    refine ⟨i, j, k, hplace, hplace.extract_eq, ?_⟩
    intro graphic hgraphic
    rw [hplace.extract_eq] at hgraphic
    exact inner_of_ofRoot hgraphic
  · intro first hfirst hno
    have hnone := not_holdsRoot_of_first hfirst hno
    refine ⟨?_, hnone⟩
    rw [← Bool.not_eq_true, looksLikeSvg_iff]
    rintro ⟨i, j, k, h⟩
    exact hnone i j k h

end Extraction

end IconForge.Graphic
