import IconForge.Files.FileSystem

set_option autoImplicit false

/-! # Walks along paths

A path is followed name by name. Where its names lead does not depend on what is there (`walk`);
what is there decides how far the walk gets: it goes through as long as it only passes directories
(`Open`), and otherwise it stops at the first place that is none. Since whatever is somewhere is in
a directory, a walk that never goes up cannot leave an empty place and come to something. -/

namespace IconForge

theorem Path.ext {p q : Path} (hanchor : p.anchor = q.anchor) (hparts : p.parts = q.parts) :
    p = q := by
  obtain ⟨_, _, _⟩ := p
  obtain ⟨_, _, _⟩ := q
  cases hanchor
  cases hparts
  rfl

namespace FileSystem

open Text.Encoding

/-! ## What lies above -/

theorem get?_top (fs : FileSystem) : fs.get? .top = some .directory := by
  rw [get?, if_pos rfl]

theorem get?_above {fs : FileSystem} {place : Location} {entry : Entry}
    (h : fs.get? place = some entry) : fs.get? place.above = some .directory := by
  by_cases htop : place = .top
  · rw [htop]
    exact fs.get?_top
  · rcases (fs.rooted _ (mem_entries_of_get? htop h)).2 with habove | habove
    · rw [show place.above = .top from habove]
      exact fs.get?_top
    · exact get?_eq_some_of_mem habove

/-! ## Walks -/

/-- The name that leads up. -/
def upwards : CodeText :=
  [.char '.', .char '.']

theorem step_upwards (here : Location) : step here upwards = here.above := by
  rw [step, upwards, if_pos rfl]

theorem step_of_ne {name : CodeText} (h : name ≠ upwards) (here : Location) :
    step here name = here.within name :=
  if_neg h

/-- The location that names lead to. -/
def walk (here : Location) (names : List CodeText) : Location :=
  names.foldl step here

theorem walk_cons (here : Location) (name : CodeText) (names : List CodeText) :
    walk here (name :: names) = walk (step here name) names := rfl

theorem walk_append (here : Location) (front rest : List CodeText) :
    walk here (front ++ rest) = walk (walk here front) rest := by
  rw [walk, List.foldl_append, ← walk, ← walk]

/-- A walk that never goes up and ends at something passes directories only. -/
theorem get?_of_walk {fs : FileSystem} {names : List CodeText} {here : Location} {entry : Entry}
    (hup : upwards ∉ names) (h : fs.get? (walk here names) = some entry) :
    names = [] ∨ fs.get? here = some .directory := by
  induction names generalizing here with
  | nil => exact Or.inl rfl
  | cons name names ih =>
      rw [List.mem_cons, not_or] at hup
      rw [walk_cons, step_of_ne (Ne.symm hup.1)] at h
      -- Whatever the name itself leads to, it is in the directory where the walk begins.
      have hname : ∃ entry, fs.get? (here.within name) = some entry := by
        rcases ih hup.2 h with hnil | hdirectory
        · rw [hnil] at h
          exact ⟨entry, h⟩
        · exact ⟨.directory, hdirectory⟩
      obtain ⟨found, hfound⟩ := hname
      have habove := get?_above hfound
      rw [Location.above_within] at habove
      exact Or.inr habove

/-! ## Open walks -/

/-- Whether a walk along names passes directories only and no name is too long. Where it ends,
there need not be anything. -/
def Open (fs : FileSystem) : Location → List CodeText → Prop
  | _, [] => True
  | here, name :: names =>
    fs.get? here = some .directory ∧ byteLength name ≤ maxNameLength ∧ fs.Open (step here name) names

theorem open_append {fs : FileSystem} {front rest : List CodeText} {here : Location} :
    fs.Open here (front ++ rest) ↔ fs.Open here front ∧ fs.Open (walk here front) rest := by
  induction front generalizing here with
  | nil => simp [Open, walk]
  | cons name front ih =>
      rw [List.cons_append, Open, Open, ih, walk_cons]
      constructor
      · rintro ⟨hhere, hlength, hfront, hrest⟩
        exact ⟨⟨hhere, hlength, hfront⟩, hrest⟩
      · rintro ⟨⟨hhere, hlength, hfront⟩, hrest⟩
        exact ⟨hhere, hlength, hfront, hrest⟩

theorem Open.length_le {fs : FileSystem} {names : List CodeText} {here : Location}
    (h : fs.Open here names) : ∀ name ∈ names, byteLength name ≤ maxNameLength := by
  induction names generalizing here with
  | nil => exact fun name hname => absurd hname List.not_mem_nil
  | cons name names ih =>
      intro other hother
      rcases List.mem_cons.1 hother with rfl | hother
      · exact h.2.1
      · exact ih h.2.2 other hother

/-- The way down to something is open, as far as its names may be that long. -/
theorem open_of_get? {fs : FileSystem} {names : List CodeText} {here : Location} {entry : Entry}
    (hup : upwards ∉ names) (hlength : ∀ name ∈ names, byteLength name ≤ maxNameLength)
    (h : fs.get? (walk here names) = some entry) : fs.Open here names := by
  induction names generalizing here with
  | nil => trivial
  | cons name names ih =>
      rcases get?_of_walk hup h with hnil | hdirectory
      · cases hnil
      · rw [List.mem_cons, not_or] at hup
        exact ⟨hdirectory, hlength name List.mem_cons_self,
          ih hup.2 (fun other hother => hlength other (List.mem_cons_of_mem _ hother)) h⟩

/-- **Following names succeeds exactly along open walks**, and leads where the names lead. -/
theorem follow_eq_ok_iff {fs : FileSystem} {names : List CodeText} {here location : Location} :
    fs.follow here names = .ok location ↔ location = walk here names ∧ fs.Open here names := by
  induction names generalizing here with
  | nil =>
      rw [follow, Except.ok.injEq]
      exact ⟨fun h => ⟨h.symm, trivial⟩, fun h => h.1.symm⟩
  | cons name names ih =>
      rw [follow, Open, walk_cons]
      cases hhere : fs.get? here with
      | none => simp
      | some entry =>
          cases entry with
          | file bytes => simp
          | directory =>
              by_cases hlength : maxNameLength < byteLength name
              · simp only [if_pos hlength, reduceCtorEq, false_iff]
                rintro ⟨-, -, hle, -⟩
                omega
              · simp only [if_neg hlength, ih]
                constructor
                · rintro ⟨hlocation, hopen⟩
                  exact ⟨hlocation, trivial, Nat.le_of_not_lt hlength, hopen⟩
                · rintro ⟨hlocation, -, -, hopen⟩
                  exact ⟨hlocation, hopen⟩

/-- **Why a walk stops**: the name ahead is too long, or the walk was open up to a place that is
no directory, with the names behind it left over. -/
theorem follow_eq_error {fs : FileSystem} {names : List CodeText} {here : Location} {stop : Stop}
    (h : fs.follow here names = .error stop) :
    stop.obstacle = .nameTooLong ∨
      ∃ front, names = front ++ stop.rest ∧ stop.rest ≠ [] ∧ fs.Open here front ∧
        stop.place = walk here front ∧
        (stop.obstacle = .missing ∧ fs.get? stop.place = none ∨
          stop.obstacle = .notADirectory ∧ ∃ bytes, fs.get? stop.place = some (.file bytes)) := by
  induction names generalizing here with
  | nil => cases h
  | cons name names ih =>
      rw [follow] at h
      cases hhere : fs.get? here with
      | none =>
          simp only [hhere, Except.error.injEq] at h
          subst h
          exact Or.inr ⟨[], rfl, List.cons_ne_nil _ _, trivial, rfl, Or.inl ⟨rfl, hhere⟩⟩
      | some entry =>
          cases entry with
          | file bytes =>
              simp only [hhere, Except.error.injEq] at h
              subst h
              exact Or.inr ⟨[], rfl, List.cons_ne_nil _ _, trivial, rfl, Or.inr ⟨rfl, bytes, hhere⟩⟩
          | directory =>
              simp only [hhere] at h
              -- The length of a name counts only where there is a directory to look it up in.
              by_cases hlength : maxNameLength < byteLength name
              · rw [if_pos hlength, Except.error.injEq] at h
                exact Or.inl (congrArg Stop.obstacle h).symm
              · rw [if_neg hlength] at h
                refine (ih h).imp_right ?_
                rintro ⟨front, hnames, hrest, hopen, hplace, hwhy⟩
                refine ⟨name :: front, ?_, hrest, ⟨hhere, Nat.le_of_not_lt hlength, hopen⟩, ?_, hwhy⟩
                · rw [hnames, List.cons_append]
                · rw [hplace, walk_cons]

/-- A walk that misses something was open up to an empty place, with names left over. -/
theorem follow_eq_missing {fs : FileSystem} {names : List CodeText} {here : Location} {stop : Stop}
    (h : fs.follow here names = .error stop) (hmissing : stop.obstacle = .missing) :
    ∃ front, names = front ++ stop.rest ∧ stop.rest ≠ [] ∧ fs.Open here front ∧
      stop.place = walk here front ∧ fs.get? stop.place = none := by
  rcases follow_eq_error h with hlong | ⟨front, hnames, hrest, hopen, hplace, hwhy⟩
  · rw [hlong] at hmissing
    cases hmissing
  · rcases hwhy with ⟨-, hnone⟩ | ⟨hfile, -⟩
    · exact ⟨front, hnames, hrest, hopen, hplace, hnone⟩
    · rw [hfile] at hmissing
      cases hmissing

theorem follow_of_missing {fs : FileSystem} {front : List CodeText} {name : CodeText}
    {rest : List CodeText} {here : Location} (hopen : fs.Open here front)
    (hnone : fs.get? (walk here front) = none) :
    fs.follow here (front ++ name :: rest) =
      .error ⟨.missing, walk here front, name :: rest⟩ := by
  induction front generalizing here with
  | nil =>
      rw [walk, List.foldl_nil] at hnone
      rw [List.nil_append, follow, hnone]
      rfl
  | cons first front ih =>
      rw [List.cons_append, follow, hopen.1]
      simp only [if_neg (Nat.not_lt.2 hopen.2.1)]
      rw [ih hopen.2.2 hnone, walk_cons]

/-! ## Paths -/

/-- The names of a path are its parts in their one spelling, if its text can be handed over. -/
theorem namesOf_eq_ok_iff {path : Path} {names : List CodeText} :
    namesOf path = .ok names ↔
      faultFrom? .name 0 path.text = none ∧ path.text.any (CodePoint.isChar '\x00') = false ∧
        byteLength path.text ≤ maxPathLength ∧ names = path.parts.map spellName := by
  rw [namesOf]
  cases hfault : faultFrom? .name 0 path.text with
  | some fault => simp
  | none =>
      by_cases hnull : path.text.any (CodePoint.isChar '\x00')
      · simp [hnull]
      · by_cases hlength : maxPathLength < byteLength path.text
        · simp only [hnull, hlength, Bool.false_eq_true, if_false, if_true, reduceCtorEq, false_iff]
          rintro ⟨-, -, hle, -⟩
          omega
        · simp only [hnull, hlength, Bool.false_eq_true, if_false, Except.ok.injEq, true_and]
          exact ⟨fun h => ⟨Nat.le_of_not_lt hlength, h.symm⟩, fun h => h.2.symm⟩

theorem locate_of_follow_error {fs : FileSystem} {path : Path} {names : List CodeText} {stop : Stop}
    (hnames : namesOf path = .ok names) (h : fs.follow .top names = .error stop) :
    fs.locate path = .error ⟨stop.obstacle, path.text⟩ := by
  rw [locate, hnames]
  show (fs.follow .top names).mapError _ = _
  rw [h]
  rfl

theorem locate_of_follow_ok {fs : FileSystem} {path : Path} {names : List CodeText}
    {location : Location} (hnames : namesOf path = .ok names)
    (h : fs.follow .top names = .ok location) : fs.locate path = .ok location := by
  rw [locate, hnames]
  show (fs.follow .top names).mapError _ = _
  rw [h]
  rfl

/-- A path that is not located although it has names stops on the way. -/
theorem exists_stop_of_locate {fs : FileSystem} {path : Path} {names : List CodeText}
    {fault : Fault} (hnames : namesOf path = .ok names) (h : fs.locate path = .error fault) :
    ∃ stop, fs.follow .top names = .error stop ∧ fault = ⟨stop.obstacle, path.text⟩ := by
  cases hfollow : fs.follow .top names with
  | ok location =>
      rw [locate_of_follow_ok hnames hfollow] at h
      cases h
  | error stop =>
      rw [locate_of_follow_error hnames hfollow, Except.error.injEq] at h
      exact ⟨stop, rfl, h.symm⟩

theorem locate_eq_ok_iff {fs : FileSystem} {path : Path} {location : Location} :
    fs.locate path = .ok location ↔
      ∃ names, namesOf path = .ok names ∧ location = walk .top names ∧ fs.Open .top names := by
  constructor
  · intro h
    cases hnames : namesOf path with
    | error obstacle => simp [locate, hnames] at h
    | ok names =>
        cases hfollow : fs.follow .top names with
        | error stop => simp [locate_of_follow_error hnames hfollow] at h
        | ok found =>
            rw [locate_of_follow_ok hnames hfollow, Except.ok.injEq] at h
            obtain ⟨hlocation, hopen⟩ := follow_eq_ok_iff.1 hfollow
            exact ⟨names, rfl, h.symm.trans hlocation, hopen⟩
  · rintro ⟨names, hnames, hlocation, hopen⟩
    exact locate_of_follow_ok hnames (follow_eq_ok_iff.2 ⟨hlocation, hopen⟩)

theorem faultFrom?_append {use : Use} {front rest : CodeText} {position : Nat}
    (h : faultFrom? use position (front ++ rest) = none) : faultFrom? use position front = none := by
  induction front generalizing position with
  | nil => rfl
  | cons point front ih =>
      cases point with
      | char c => exact ih h
      | surrogate half =>
          rw [List.cons_append, faultFrom?] at h
          rw [faultFrom?]
          by_cases hallows : use.allows half
          · rw [if_pos hallows] at h ⊢
            exact ih h
          · rw [if_neg hallows] at h
            cases h

/-- A path can be handed over when one can whose text goes on behind it. -/
theorem namesOf_of_text_append {path longer : Path} {rest : CodeText}
    (htext : longer.text = path.text ++ rest) {names : List CodeText}
    (h : namesOf longer = .ok names) : namesOf path = .ok (path.parts.map spellName) := by
  obtain ⟨hfault, hnull, hlength, -⟩ := namesOf_eq_ok_iff.1 h
  rw [htext] at hfault hnull hlength
  rw [List.any_append, Bool.or_eq_false_iff] at hnull
  refine namesOf_eq_ok_iff.2 ⟨faultFrom?_append hfault, hnull.1, ?_, rfl⟩
  calc byteLength path.text
      ≤ byteLength (path.text ++ rest) := by
        rw [byteLength, byteLength, List.flatMap_append, List.length_append]
        exact Nat.le_add_right _ _
    _ ≤ maxPathLength := hlength

theorem parent_parts (path : Path) : path.parent.parts = path.parts.dropLast := rfl

theorem parent_anchor (path : Path) : path.parent.anchor = path.anchor := rfl

theorem intercalate_append_singleton {α : Type} (separator last : List α) {pieces : List (List α)}
    (h : pieces ≠ []) : List.intercalate separator (pieces ++ [last]) =
      List.intercalate separator pieces ++ (separator ++ last) := by
  induction pieces with
  | nil => exact absurd rfl h
  | cons piece pieces ih =>
      by_cases hpieces : pieces = []
      · subst hpieces
        simp [List.intercalate_cons_cons]
      · rw [List.cons_append, List.intercalate_cons_of_ne_nil (by simp), ih hpieces,
          List.intercalate_cons_of_ne_nil hpieces]
        simp only [List.append_assoc]

/-- The text of a path goes on behind the text of its parent, unless that is a bare anchor. -/
theorem text_eq_parent_append {path : Path} {front : List CodeText} {last : CodeText}
    (hparts : path.parts = front ++ [last]) (hfront : front ≠ []) :
    path.text = path.parent.text ++ .char '/' :: last := by
  have hparent : path.parent.parts = front := by
    rw [parent_parts, hparts, List.dropLast_concat]
  have hjoined := intercalate_append_singleton [CodePoint.char '/'] last hfront
  have hempty : (front ++ [last]).isEmpty = false := by simp
  have hfull : front.isEmpty = false := by simpa using hfront
  rw [Path.text, Path.text, hparent, hparts, hjoined, parent_anchor]
  cases path.anchor with
  | workingDirectory => simp only [hempty, hfull]; rfl
  | root => rfl
  | doubleRoot => rfl

theorem namesOf_parent {path : Path} {names : List CodeText} (h : namesOf path = .ok names) :
    namesOf path.parent = .ok names.dropLast := by
  obtain ⟨-, -, -, hnames⟩ := namesOf_eq_ok_iff.1 h
  have hdrop : names.dropLast = path.parent.parts.map spellName := by
    rw [hnames, parent_parts, List.map_dropLast]
  rw [hdrop]
  rcases List.eq_nil_or_concat path.parts with hnil | ⟨front, last, hparts⟩
  · have htext : path.text = path.parent.text ++ [] := by
      rw [List.append_nil, Path.text, Path.text, parent_anchor, parent_parts, hnil]
      rfl
    exact namesOf_of_text_append htext h
  · rw [List.concat_eq_append] at hparts
    by_cases hfront : front = []
    · -- Only the anchor is left, which can always be handed over.
      have hparent : path.parent.parts = [] := by
        rw [parent_parts, hparts, hfront]
        rfl
      have htext : path.parent.text ∈
          [[.char '.'], [.char '/'], [.char '/', .char '/']] := by
        rw [Path.text, hparent]
        cases path.parent.anchor <;> simp [List.intercalate]
      rw [namesOf_eq_ok_iff]
      simp only [List.mem_cons, List.not_mem_nil, or_false] at htext
      rcases htext with htext | htext | htext <;> rw [htext] <;> exact ⟨rfl, by decide, by decide, rfl⟩
    · exact namesOf_of_text_append (text_eq_parent_append hparts hfront) h

/-- **A path with a last name leads right into the directory that its parent leads to.** -/
theorem locate_child {fs : FileSystem} {path : Path} {front : List CodeText} {last : CodeText}
    {location : Location} (hparts : path.parts = front ++ [last]) (hspelled : spellName last = last)
    (hup : last ≠ upwards) (h : fs.locate path = .ok location) :
    ∃ directory, fs.locate path.parent = .ok directory ∧ location = directory.within last := by
  obtain ⟨names, hnames, rfl, hopen⟩ := locate_eq_ok_iff.1 h
  obtain ⟨-, -, -, hspell⟩ := namesOf_eq_ok_iff.1 hnames
  rw [hparts, List.map_append, List.map_cons, List.map_nil, hspelled] at hspell
  subst hspell
  have hparent := namesOf_parent hnames
  rw [List.dropLast_concat] at hparent
  refine ⟨walk .top (front.map spellName), ?_, ?_⟩
  · exact locate_eq_ok_iff.2 ⟨_, hparent, rfl, (open_append.1 hopen).1⟩
  · rw [walk_append, walk_cons, step_of_ne hup]
    rfl

end FileSystem

end IconForge
