import IconForge.Proofs.Files.Changes

set_option autoImplicit false

/-! # Files found in a directory

The files below a directory are found by their locations, and each is handed on as a path: the path
of the directory with the names that lead down to the file (`Found`). Such a path leads to the file
that was found. As long as the file is kept, it can be read later as it was (`Found.read_of_kept`),
and on the way to it nothing is missing (`Found.not_turnsBack_parent`). -/

namespace IconForge.FileSystem

open Text.Encoding

/-! ## Names of files -/

theorem isFileName_iff {name : CodeText} :
    isFileName name ↔ isPathPart name ∧ name ≠ upwards ∧
      name.any (CodePoint.isChar '\x00') = false ∧ spellName name = name := by
  simp [isFileName, upwards, and_assoc]

/-- Names that do not lead up lead down. -/
theorem walk_names {names : List CodeText} {here : Location} (hup : upwards ∉ names) :
    (walk here names).names = names.reverse ++ here.names := by
  induction names generalizing here with
  | nil => rfl
  | cons name names ih =>
      rw [List.mem_cons, not_or] at hup
      rw [walk_cons, step_of_ne (Ne.symm hup.1), ih hup.2, List.reverse_cons, List.append_assoc]
      rfl

/-- The names of a place below a location are those of the location behind the names that lead
down to it. -/
theorem names_of_namesBelow? {here place : Location} {names : List CodeText}
    (h : here.namesBelow? place = some names) : place.names = names.reverse ++ here.names := by
  rw [Location.namesBelow?] at h
  by_cases hsuffix : here.names.isSuffixOf place.names
  · rw [if_pos hsuffix, Option.some.injEq] at h
    obtain ⟨between, hbetween⟩ := List.isSuffixOf_iff_suffix.1 hsuffix
    have hcount : place.depth - here.depth = between.length := by
      rw [place.depth_eq, here.depth_eq, ← hbetween, List.length_append]
      omega
    rw [hcount, ← hbetween, List.take_left] at h
    rw [← h, List.reverse_reverse, hbetween]
  · rw [if_neg hsuffix] at h
    cases h

/-! ## Found files -/

/-- Whether a path is the one of a directory with the names of a file below it. -/
structure Found (fs : FileSystem) (directory path : Path) (names : List CodeText) : Prop where
  parts : path.parts = directory.parts ++ names
  located : ∃ here bytes, fs.locate directory = .ok here ∧
    fs.get? (walk here names) = some (.file bytes)
  fileNames : ∀ name ∈ names, isFileName name
  nonempty : names ≠ []

theorem of_mem_filesBelow {fs : FileSystem} {here : Location} {ending : CodeText}
    {recursive : Bool} {names : List CodeText} (hending : ending ≠ [])
    (h : names ∈ fs.filesBelow here ending recursive) :
    (∃ bytes, fs.get? (walk here names) = some (.file bytes)) ∧
      (∀ name ∈ names, isFileName name) ∧ names ≠ [] := by
  rw [filesBelow, List.mem_mergeSort, List.mem_filterMap] at h
  obtain ⟨⟨place, entry⟩, hmem, hfound⟩ := h
  cases entry with
  | directory => cases hfound
  | file bytes =>
      cases hbelow : here.namesBelow? place with
      | none =>
          simp only [hbelow] at hfound
          cases hfound
      | some found =>
          simp only [hbelow] at hfound
          by_cases hkept : ((recursive || found.length = 1) && lastHas ending found) = true
          · rw [if_pos hkept, Option.some.injEq] at hfound
            subst hfound
            have hplaceNames := names_of_namesBelow? hbelow
            have hnames : ∀ name ∈ found, isFileName name := by
              intro name hname
              refine fs.named _ hmem name ?_
              rw [hplaceNames]
              exact List.mem_append_left _ (List.mem_reverse.2 hname)
            have hup : upwards ∉ found :=
              fun hmember => (isFileName_iff.1 (hnames _ hmember)).2.1 rfl
            -- The names lead down to the place, since none of them leads up.
            have hplace : walk here found = place := by
              apply Location.ext
              rw [walk_names hup, hplaceNames]
            refine ⟨⟨bytes, ?_⟩, hnames, ?_⟩
            · rw [hplace]
              exact get?_eq_some_of_mem hmem
            · rintro rfl
              rw [Bool.and_eq_true, lastHas, List.getLastD_nil,
                List.isSuffixOf_iff_suffix] at hkept
              exact hending (List.suffix_nil.1 hkept.2)
          · rw [if_neg hkept] at hfound
            cases hfound

namespace Found

variable {fs : FileSystem} {directory path : Path} {names : List CodeText}

theorem spelled (h : fs.Found directory path names) : names.map spellName = names := by
  refine (List.map_congr_left fun name hname => ?_).trans (List.map_id names)
  exact (isFileName_iff.1 (h.fileNames name hname)).2.2.2

theorem noUpwards (h : fs.Found directory path names) : upwards ∉ names :=
  fun hmember => (isFileName_iff.1 (h.fileNames _ hmember)).2.1 rfl

/-- **A file that was found is read as it was found**, as long as it is kept. -/
theorem read_of_kept {after : FileSystem} (h : fs.Found directory path names)
    (hkept : ∀ here file, fs.get? (walk here names) = some (.file file) →
      after.get? (walk here names) = some (.file file))
    {bytes : List UInt8} (hread : after.read path = .ok bytes) : fs.read path = .ok bytes := by
  obtain ⟨here, kept, hdirectory, hfile⟩ := h.located
  obtain ⟨directoryNames, hnames, rfl, hopen⟩ := locate_eq_ok_iff.1 hdirectory
  obtain ⟨-, -, -, hspell⟩ := namesOf_eq_ok_iff.1 hnames
  rw [read] at hread
  cases hlocate : after.locate path with
  | error fault =>
      rw [hlocate] at hread
      cases hread
  | ok location =>
      obtain ⟨pathNames, hpath, rfl, hafter⟩ := locate_eq_ok_iff.1 hlocate
      obtain ⟨-, -, -, hspelled⟩ := namesOf_eq_ok_iff.1 hpath
      rw [h.parts, List.map_append, h.spelled, ← hspell] at hspelled
      subst hspelled
      -- The way was open before: down to the directory, and from there down to the file.
      have hbefore : fs.Open .top (directoryNames ++ names) := by
        refine open_append.2 ⟨hopen, open_of_get? h.noUpwards ?_ hfile⟩
        exact (open_append.1 hafter).2.length_le
      have hlocated : fs.locate path = .ok (walk .top (directoryNames ++ names)) :=
        locate_eq_ok_iff.2 ⟨_, hpath, rfl, hbefore⟩
      rw [hlocate] at hread
      simp only [walk_append, hkept _ _ hfile, Except.ok.injEq] at hread
      rw [read, hlocated]
      simp only [walk_append, hfile, hread]

theorem read_of_grows {after : FileSystem} (h : fs.Found directory path names)
    (hgrows : fs.Grows after) {bytes : List UInt8} (hread : after.read path = .ok bytes) :
    fs.read path = .ok bytes :=
  h.read_of_kept (fun _ _ => hgrows _ _) hread

/-- On the way to the directory of a file that was found, nothing is missing. -/
theorem not_turnsBack_parent (h : fs.Found directory path names) :
    ¬ fs.TurnsBack path.parent := by
  rintro ⟨parentNames, stop, hparent, hstop, hmissing, hback⟩
  obtain ⟨here, bytes, hdirectory, -⟩ := h.located
  obtain ⟨directoryNames, hnames, rfl, hopen⟩ := locate_eq_ok_iff.1 hdirectory
  obtain ⟨-, -, -, hspell⟩ := namesOf_eq_ok_iff.1 hnames
  obtain ⟨-, -, -, hspelled⟩ := namesOf_eq_ok_iff.1 hparent
  rw [parent_parts, h.parts, List.dropLast_append_of_ne_nil h.nonempty, List.map_append, ← hspell,
    List.map_dropLast, h.spelled] at hspelled
  have hdown : upwards ∉ names.dropLast :=
    fun hmember => h.noUpwards ((List.dropLast_sublist names).mem hmember)
  obtain ⟨front, hsplit, -, -, hplace, hnone⟩ := follow_eq_missing hstop hmissing
  -- The names left over hold one that leads up, so they begin inside the path of the directory.
  rw [hspelled] at hsplit
  rcases List.append_eq_append_iff.1 hsplit with ⟨more, -, hrest⟩ | ⟨more, hfront, hrest⟩
  · rw [hrest] at hdown
    exact hdown (List.mem_append_right _ hback)
  · cases more with
    | nil =>
        rw [hrest] at hback
        exact hdown hback
    | cons name more =>
        rw [hfront, open_append, ← hplace] at hopen
        rw [hopen.2.1] at hnone
        cases hnone

end Found

end IconForge.FileSystem
