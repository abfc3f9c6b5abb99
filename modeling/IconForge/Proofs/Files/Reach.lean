import IconForge.Proofs.Files.Search
import IconForge.Proofs.Text.Spelling

set_option autoImplicit false

/-! # What is there can be reached

Whatever is below a directory has a path: that of the directory with the names that lead down. Such
a path leads there unless it or one of its names is too long, because the names of what is there
have bytes and there are directories on the way (`locate_below`). -/

namespace IconForge

open Text.Encoding

/-! ## The text of a path -/

namespace Path

theorem mem_intercalate {α : Type} {separator : List α} {pieces : List (List α)} {item : α}
    (h : item ∈ List.intercalate separator pieces) :
    item ∈ separator ∨ ∃ piece ∈ pieces, item ∈ piece := by
  induction pieces with
  | nil => simp [List.intercalate] at h
  | cons piece pieces ih =>
      cases pieces with
      | nil =>
          rw [List.intercalate_singleton] at h
          exact Or.inr ⟨piece, List.mem_cons_self, h⟩
      | cons next pieces =>
          rw [List.intercalate_cons_cons, List.mem_append, List.mem_append] at h
          rcases h with (h | h) | h
          · exact Or.inr ⟨piece, List.mem_cons_self, h⟩
          · exact Or.inl h
          · refine (ih h).imp_right ?_
            rintro ⟨found, hfound, hitem⟩
            exact ⟨found, List.mem_cons_of_mem _ hfound, hitem⟩

theorem mem_intercalate_of_mem {α : Type} {separator : List α} {pieces : List (List α)}
    {piece : List α} {item : α} (hpiece : piece ∈ pieces) (hitem : item ∈ piece) :
    item ∈ List.intercalate separator pieces := by
  induction pieces with
  | nil => cases hpiece
  | cons first pieces ih =>
      cases pieces with
      | nil =>
          rw [List.mem_singleton] at hpiece
          rwa [List.intercalate_singleton, ← hpiece]
      | cons next pieces =>
          rw [List.intercalate_cons_cons, List.mem_append, List.mem_append]
          rcases List.mem_cons.1 hpiece with rfl | hpiece
          · exact Or.inl (Or.inl hitem)
          · exact Or.inr (ih hpiece)

/-- The code points of a path are those of its parts, besides full stops and solidi. -/
theorem mem_text {path : Path} {point : CodePoint} (h : point ∈ path.text) :
    point = .char '.' ∨ point = .char '/' ∨ ∃ part ∈ path.parts, point ∈ part := by
  have hjoined : point ∈ List.intercalate [.char '/'] path.parts →
      point = .char '/' ∨ ∃ part ∈ path.parts, point ∈ part :=
    fun hmem => (mem_intercalate hmem).imp_left List.mem_singleton.1
  rw [text] at h
  cases hanchor : path.anchor with
  | workingDirectory =>
      simp only [hanchor] at h
      split at h
      · exact Or.inl (List.mem_singleton.1 h)
      · exact Or.inr (hjoined h)
  | root =>
      simp only [hanchor, List.mem_cons] at h
      exact Or.inr (h.elim Or.inl hjoined)
  | doubleRoot =>
      simp only [hanchor, List.mem_cons] at h
      rcases h with h | h | h
      · exact Or.inr (Or.inl h)
      · exact Or.inr (Or.inl h)
      · exact Or.inr (hjoined h)

theorem mem_text_of_mem_part {path : Path} {part : CodeText} {point : CodePoint}
    (hpart : part ∈ path.parts) (hpoint : point ∈ part) : point ∈ path.text := by
  have hjoined : point ∈ List.intercalate [.char '/'] path.parts :=
    mem_intercalate_of_mem hpart hpoint
  have hempty : path.parts.isEmpty = false := by
    cases hparts : path.parts with
    | nil =>
        rw [hparts] at hpart
        cases hpart
    | cons first rest => rfl
  rw [text]
  cases path.anchor with
  | workingDirectory =>
      simp only [hempty]
      exact hjoined
  | root => exact List.mem_cons_of_mem _ hjoined
  | doubleRoot => exact List.mem_cons_of_mem _ (List.mem_cons_of_mem _ hjoined)

end Path

namespace FileSystem

/-! ## Reaching -/

theorem namesOf_of_parts {path : Path}
    (h : ∀ part ∈ path.parts, ∀ point ∈ part, point ≠ .char '\x00' ∧
      ∀ half, point = .surrogate half → Use.name.allows half) :
    namesOf path = .ok (path.parts.map spellName) ∨ namesOf path = .error .nameTooLong := by
  have hpoints : ∀ point ∈ path.text, point ≠ .char '\x00' ∧
      ∀ half, point = .surrogate half → Use.name.allows half := by
    intro point hpoint
    rcases Path.mem_text hpoint with rfl | rfl | ⟨part, hpart, hmem⟩
    · exact ⟨by decide, by rintro half ⟨⟩⟩
    · exact ⟨by decide, by rintro half ⟨⟩⟩
    · exact h part hpart point hmem
  have hfault : faultFrom? .name 0 path.text = none :=
    faultFrom?_eq_none_iff.2 fun half hhalf => (hpoints _ hhalf).2 half rfl
  have hnull : path.text.any (CodePoint.isChar '\x00') = false :=
    List.any_eq_false.2 fun point hpoint => by
      rw [CodePoint.isChar, decide_eq_false (hpoints point hpoint).1]
      decide
  by_cases hlong : maxPathLength < byteLength path.text
  · refine Or.inr ?_
    rw [namesOf, hfault]
    simp only [hnull, hlong, Bool.false_eq_true, if_false, if_true]
  · exact Or.inl (namesOf_eq_ok_iff.2 ⟨hfault, hnull, Nat.le_of_not_lt hlong, rfl⟩)

theorem parts_of_namesOf {path : Path} {names : List CodeText} (h : namesOf path = .ok names) :
    ∀ part ∈ path.parts, ∀ point ∈ part, point ≠ .char '\x00' ∧
      ∀ half, point = .surrogate half → Use.name.allows half := by
  obtain ⟨hfault, hnull, -, -⟩ := namesOf_eq_ok_iff.1 h
  intro part hpart point hpoint
  have hmem := Path.mem_text_of_mem_part hpart hpoint
  refine ⟨?_, ?_⟩
  · rintro rfl
    have hfalse := List.any_eq_false.1 hnull _ hmem
    exact hfalse rfl
  · rintro half rfl
    exact faultFrom?_eq_none_iff.1 hfault half hmem

/-- The names of files can be handed over. -/
theorem handed_of_isFileName {name : CodeText} (h : isFileName name) :
    ∀ point ∈ name, point ≠ .char '\x00' ∧
      ∀ half, point = .surrogate half → Use.name.allows half := by
  obtain ⟨-, -, hnull, hspelled⟩ := isFileName_iff.1 h
  intro point hpoint
  refine ⟨?_, ?_⟩
  · rintro rfl
    have hfalse := List.any_eq_false.1 hnull _ hpoint
    exact hfalse rfl
  · rintro half rfl
    exact allows_of_spelled hspelled hpoint

/-- **The path of whatever is below a directory leads there**, if there is an answer about it. -/
theorem locate_below {fs : FileSystem} {directory : Path} {here : Location}
    (hlocate : fs.locate directory = .ok here) {names : List CodeText} {entry : Entry}
    (h : fs.get? (here.down names) = some entry)
    (hanswer : fs.unanswered? (directory.below names) = none) :
    fs.locate (directory.below names) = .ok (here.down names) := by
  obtain ⟨directoryNames, hnames, rfl, hopen⟩ := locate_eq_ok_iff.1 hlocate
  obtain ⟨-, -, -, hspell⟩ := namesOf_eq_ok_iff.1 hnames
  have hparts : ∀ part ∈ (directory.below names).parts, ∀ point ∈ part,
      point ≠ .char '\x00' ∧ ∀ half, point = .surrogate half → Use.name.allows half := by
    intro part hpart
    rw [below_parts (isFileName_of_down h), List.mem_append] at hpart
    rcases hpart with hpart | hpart
    · exact parts_of_namesOf hnames part hpart
    · exact handed_of_isFileName (isFileName_of_down h part hpart)
  -- There is no answer about a path that is too long.
  have hlong : ∀ fault : Fault, fault.obstacle = .nameTooLong →
      fs.locate (directory.below names) ≠ .error fault := by
    intro fault hfault hlocated
    rw [unanswered?, entryAt?, hlocated] at hanswer
    simp only [if_pos hfault] at hanswer
    cases hanswer
  rcases namesOf_of_parts hparts with hpath | hpath
  · rw [below_names h, ← hspell] at hpath
    cases hfollow : fs.follow .top (directoryNames ++ names) with
    | ok location =>
        rw [locate_of_follow_ok hpath hfollow]
        obtain ⟨rfl, -⟩ := follow_eq_ok_iff.1 hfollow
        rw [walk_append, walk_eq_down (upwards_not_mem_of_down h)]
    | error stop =>
        exfalso
        have hlocated := locate_of_follow_error hpath hfollow
        rcases follow_eq_error hfollow with hobstacle | ⟨front, hsplit, hrest, -, hplace, hwhy⟩
        · exact hlong _ hobstacle hlocated
        · -- The walk would stop at a place on the way, which is a directory.
          obtain ⟨name, rest, hstop⟩ := List.exists_cons_of_ne_nil hrest
          rw [hstop] at hsplit
          have hdirectory := directory_on_way hopen h hsplit
          rw [← hplace] at hdirectory
          rcases hwhy with ⟨-, hnone⟩ | ⟨-, bytes, hfile⟩
          · rw [hdirectory] at hnone
            cases hnone
          · rw [hdirectory] at hfile
            cases hfile
  · exfalso
    refine hlong ⟨.nameTooLong, (directory.below names).text⟩ rfl ?_
    rw [locate, hpath]

end FileSystem

end IconForge
