import IconForge.Proofs.Conversion.Isolation
import IconForge.Proofs.Conversion.Unasked

set_option autoImplicit false

/-! # A run that is done again

A run over a directory that asks nothing is done again right behind itself, by a converter whose
components are not named like icons and go to a folder that can be made (`Converter.Repeatable`).
The second run leaves the files as they are, and its rows are those of the first one, but that a
component is skipped now if it was created then and is not replaced (`convertDirectory_again`).

The icons are the same for both runs (`FileSystem.Spares`), so the same is found out about each of
them. The second run is followed turn by turn beside the first one. Its files have developed from
those of the first run all along, which decides what becomes of every component (`turn_again`); and
at every place they are what the first run leaves there in the end or, while it replaces, what the
first run has there by now (`turns_again`). -/

namespace IconForge

namespace FileSystem

/-- Whether directories are kept, and the files whose names have an ending are the same. -/
structure Spares (ending : CodeText) (before after : FileSystem) : Prop where
  retains : Retains ending before after
  files : ∀ place bytes, EndsIn ending place → after.get? place = some (.file bytes) →
    before.get? place = some (.file bytes)

theorem Spares.refl (ending : CodeText) (fs : FileSystem) : Spares ending fs fs :=
  ⟨.refl ending fs, fun _ _ _ h => h⟩

theorem Spares.trans {ending : CodeText} {first second third : FileSystem}
    (h : Spares ending first second) (h' : Spares ending second third) :
    Spares ending first third :=
  ⟨h.retains.trans h'.retains, fun place bytes hending hfile =>
    h.files place bytes hending (h'.files place bytes hending hfile)⟩

theorem AddsDirectories.spares {before after : FileSystem} {allowed : Location → Prop}
    (h : before.AddsDirectories after allowed) (ending : CodeText) : Spares ending before after where
  retains := fun place entry hentry _ => h.grows place entry hentry
  files := by
    intro place bytes _ hfile
    rcases h place with heq | ⟨-, hdirectory, -⟩
    · rw [← heq, hfile]
    · rw [hdirectory] at hfile
      cases hfile

end FileSystem

open IconForge.Action FileSystem Text.Encoding

namespace Storage

/-- Saving a component spares the files whose names have an ending in ASCII that its name has
not. -/
theorem spares_saved {ending : List Char} (hascii : ∀ c ∈ ending, c.toNat < 0x80) (room : Nat)
    (text : CodeText) {path : Path} (hname : ¬ CodeText.ofChars ending <:+ path.name)
    (fs : FileSystem) :
    Spares (CodeText.ofChars ending) fs (saved room text path fs).2 := by
  have hadds := fs.makeDirectories_adds room path.parent
  have hsaving := saving_saved room text path fs
  generalize saved room text path fs = first at hsaving ⊢
  cases hsaving with
  | unmade fault made makes =>
      rw [makes] at hadds
      exact hadds.spares _
  | unwritten fault made makes writes =>
      rw [makes] at hadds
      exact hadds.spares _
  | written made after makes writes =>
      rw [makes] at hadds
      refine ⟨made_write_retains hascii hname hadds writes, fun place bytes hending hfile => ?_⟩
      obtain ⟨location, hlocate, hnone, hafter⟩ := write_effect writes
      have hne : place ≠ location := by
        rintro rfl
        exact not_endsIn_of_locate hascii hname hlocate hnone hending
      rw [hafter, if_neg hne] at hfile
      exact (hadds.spares _).files place bytes hending hfile

theorem completion_of_hasBytes {text : CodeText} (h : HasBytes text) : completion text = .ok () := by
  obtain ⟨bytes, fault, hchunks, ⟨rfl, -⟩ | ⟨why, -, hencode⟩⟩ := encodeChunks_singleton text
  · rw [completion, hchunks]
  · rw [encode, h.faultFrom?_eq_none] at hencode
    cases hencode

end Storage

namespace Converter

variable {c : Converter}

/-! ## The icons of both runs -/

theorem spares_turn {source : Path} (hname : ¬ svgEnding <:+ (c.outputPath source).name)
    (fs : FileSystem) : Spares svgEnding fs (c.turn source fs).2 := by
  rcases c.turn_cases source fs with ⟨_, -, -, hturn⟩ | ⟨_, _, component, hturn⟩
  · rw [hturn]
    exact .refl _ fs
  · rw [hturn]
    exact Storage.spares_saved svgEnding_ascii _ component hname fs

/-- A run spares the icons. -/
theorem spares_turns {sources : List Path}
    (hnames : ∀ source ∈ sources, ¬ svgEnding <:+ (c.outputPath source).name) (fs : FileSystem) :
    Spares svgEnding fs (c.turns sources fs).2 := by
  induction sources generalizing fs with
  | nil => exact .refl _ fs
  | cons source sources ih =>
      exact (spares_turn (hnames source List.mem_cons_self) fs).trans
        (ih (fun other hother => hnames other (List.mem_cons_of_mem _ hother)) _)

theorem sourcesIn_of_spares {fs later : FileSystem} {directory : Path} {here : Location}
    {recursive : Bool} (hlocate : fs.locate directory = .ok here) (h : Spares svgEnding fs later) :
    sourcesIn later directory recursive = sourcesIn fs directory recursive := by
  rw [sourcesIn_of_locate hlocate, sourcesIn_of_locate (h.retains.locate hlocate)]
  congr 1
  refine eq_filesBelow (fun names => ?_) (nodup_filesBelow later here svgEnding recursive)
    (sorted_filesBelow later here svgEnding recursive)
  constructor
  · intro hnames
    obtain ⟨⟨bytes, hfile⟩, hlooked⟩ := mem_filesBelow_iff.1 hnames
    exact mem_filesBelow_iff.2
      ⟨⟨bytes, h.files _ bytes (endsIn_of_mem_filesBelow hnames).2 hfile⟩, hlooked⟩
  · intro hnames
    obtain ⟨⟨bytes, hfile⟩, hlooked⟩ := mem_filesBelow_iff.1 hnames
    exact mem_filesBelow_iff.2
      ⟨⟨bytes, h.retains _ _ hfile (Or.inr (endsIn_of_mem_filesBelow hnames).2)⟩, hlooked⟩

/-- What is found out about an icon is the same while it is retained. -/
theorem prepared_of_retains {fs later : FileSystem} {directory : Path} {here : Location}
    (hlocate : fs.locate directory = .ok here) {names : List CodeText} {bytes : List UInt8}
    (hfile : fs.get? (here.down names) = some (.file bytes))
    (hending : EndsIn svgEnding (here.down names)) (h : Retains svgEnding fs later) :
    c.prepared (directory.below names) later = c.prepared (directory.below names) fs := by
  -- Its path passes directories, and the icon itself.
  have hagree : Agree (fun place => fs.get? place = some .directory ∨ place = here.down names)
      fs later := by
    rintro place (hdirectory | rfl)
    · rw [h place _ hdirectory (Or.inl rfl), hdirectory]
    · rw [h _ _ hfile (Or.inr hending), hfile]
  exact prepared_of_agree hagree fun _ _ place hplace => passes_below hlocate hfile hplace

/-! ## One conversion -/

/-- The outcome of a conversion that is done again. -/
def outcomeAgain (c : Converter) (outcome : Outcome) : Outcome :=
  if c.overwrite = false ∧ saysCreated outcome then { outcome with status := .skipped } else outcome

def rowAgain (c : Converter) (row : Row) : Row :=
  if c.overwrite = false ∧ row.status = Status.created.name then
    { row with status := Status.skipped.name }
  else row

theorem row_outcomeAgain {outcome : Outcome} {row : Row} (h : outcome.row = .ok row) :
    (c.outcomeAgain outcome).row = .ok (c.rowAgain row) := by
  rw [Outcome.row] at h
  cases hbox : outcome.viewBox.mapM ViewBox.text with
  | error fault =>
      rw [hbox] at h
      cases h
  | ok viewBox =>
      rw [hbox] at h
      obtain rfl := Except.ok.inj h
      rw [outcomeAgain, rowAgain, saysCreated]
      simp only [decide_eq_true_eq]
      split
      · rw [Outcome.row, hbox]
        rfl
      · rw [Outcome.row, hbox]
        rfl

theorem outcomeAgain_of_overwrite (h : c.overwrite = true) (outcome : Outcome) :
    c.outcomeAgain outcome = outcome := by
  refine if_neg fun hkeeps => ?_
  rw [h] at hkeeps
  cases hkeeps.1

theorem outcomeAgain_of_not_created {outcome : Outcome} (h : saysCreated outcome = false) :
    c.outcomeAgain outcome = outcome := by
  refine if_neg fun hcreated => ?_
  rw [h] at hcreated
  cases hcreated.2

theorem outcomeAgain_failure (source : Path) (fault : Fault) :
    c.outcomeAgain (failure source fault) = failure source fault :=
  outcomeAgain_of_not_created rfl

section

variable {source : Path} {fs later : FileSystem}

/-- What a conversion that is done again leaves at a place: what was there or, if it replaces, what
it left there for the first time. -/
def LeavesAgain (c : Converter) (source : Path) (fs later : FileSystem) (place : Location) : Prop :=
  (c.turn source later).2.get? place = later.get? place ∧
      (c.overwrite = true → (c.turn source fs).2.get? place = fs.get? place) ∨
    c.overwrite = true ∧ (c.turn source later).2.get? place = (c.turn source fs).2.get? place

theorem leavesAgain_of_eq (h : (c.turn source fs).2 = fs) (hlater : (c.turn source later).2 = later)
    (place : Location) : c.LeavesAgain source fs later place :=
  Or.inl ⟨by rw [hlater], fun _ => by rw [h]⟩

/-- What is found out about a source has bytes when the settings have. -/
theorem completion_of_prepared {graphic : Graphic} {warnings : List String} {component : CodeText}
    (hsettings : c.generator.Encodable)
    (h : c.prepared source fs = .ok (graphic, warnings, component)) :
    Storage.completion component = .ok () := by
  obtain ⟨text, -, hunderstood⟩ := prepared_eq_ok h
  obtain ⟨-, -, hgenerate⟩ := understood_eq_ok hunderstood
  exact Storage.completion_of_hasBytes ((Generator.hasBytes_generate hgenerate).2 hsettings)

section

variable {graphic : Graphic} {warnings : List String} {component : CodeText}
  (hfound : c.prepared source fs = .ok (graphic, warnings, component))
  (hprepared : c.prepared source later = .ok (graphic, warnings, component))
  (hsteady : fs.Steady c.room.making (c.outputPath source).parent)
  (hlater : (Storage.saved c.room.making component (c.outputPath source) fs).2.Develops later)

include hfound hprepared hsteady hlater

/-- A component that was saved is saved again by a converter that replaces. -/
theorem turn_again_of_overwrite (hreplaces : c.overwrite = true) {present : Bool}
    (hexists : fs.existsAt (c.outputPath source) = .ok present) :
    (c.turn source later).1 = c.outcomeAgain (c.turn source fs).1 ∧
      ∀ place, c.LeavesAgain source fs later place := by
  have hturn := turn_of_saved hfound hexists (Or.inr hreplaces)
  obtain ⟨hresult, hplaces, hnothing⟩ := Storage.saved_again hsteady hlater
  have hagain : c.turn source later = (c.savedOutcome source graphic warnings
      (Storage.saved c.room.making component (c.outputPath source) fs).1,
      (Storage.saved c.room.making component (c.outputPath source) later).2) := by
    cases hexists' : later.existsAt (c.outputPath source) with
    | error fault =>
        have hfailed := Storage.saved_of_unanswered hsteady hlater hexists hexists'
        rw [turn_of_unanswered hprepared hexists', hfailed, hnothing fault hfailed]
        rfl
    | ok answer => rw [turn_of_saved hprepared hexists' (Or.inr hreplaces), hresult]
  rw [hturn, hagain, outcomeAgain_of_overwrite hreplaces]
  refine ⟨rfl, fun place => ?_⟩
  rw [LeavesAgain, hturn, hagain]
  rcases hplaces place with heq | ⟨heq, heq'⟩
  · exact Or.inr ⟨hreplaces, heq⟩
  · exact Or.inl ⟨heq, fun _ => heq'⟩

/-- A component that was saved is skipped by a converter that does not replace, and one that was not
saved fails as before; nothing is changed any more. -/
theorem turn_again_of_absent (hkeeps : c.overwrite = false)
    (hexists : fs.existsAt (c.outputPath source) = .ok false)
    (hsettings : c.generator.Encodable)
    (hstraight : fs.isDirectory (c.outputPath source).parent = .ok true ∨
      upwards ∉ (c.outputPath source).parts) :
    c.turn source later = (c.outcomeAgain (c.turn source fs).1, later) := by
  have hwhole := completion_of_prepared hsettings hfound
  obtain ⟨hresult, -, hnothing⟩ := Storage.saved_again hsteady hlater
  rw [turn_of_saved hfound hexists (Or.inl rfl)]
  cases hsaved : (Storage.saved c.room.making component (c.outputPath source) fs).1 with
  | ok done =>
      rw [turn_of_present hprepared (Storage.exists_of_saved hsaved hlater) hkeeps]
      have hcreated : c.outcomeAgain (c.outcomeOf source graphic warnings .created) =
          c.outcomeOf source graphic warnings .skipped := if_pos ⟨hkeeps, rfl⟩
      exact congrArg (·, later) hcreated.symm
  | error fault =>
      obtain ⟨why, rfl⟩ := Storage.exists_file_fault hwhole hsaved
      have hfailure : c.outcomeAgain (c.savedOutcome source graphic warnings
          (.error (.file why))) = failure source (.file why) := outcomeAgain_failure source _
      rw [hfailure]
      -- What kept the component from being saved still does, or the output cannot be asked for now.
      cases hexists' : later.existsAt (c.outputPath source) with
      | error why' =>
          have hfailed := Storage.saved_of_unanswered hsteady hlater hexists hexists'
          rw [hsaved] at hfailed
          cases hfailed
          exact turn_of_unanswered hprepared hexists'
      | ok answer =>
          cases answer with
          | true =>
              exact absurd hexists'
                (Storage.not_exists_of_saved hsteady hstraight hlater hexists hsaved)
          | false =>
              rw [turn_of_saved hprepared hexists' (Or.inl rfl), hresult, hsaved,
                hnothing why hsaved]
              rfl

end

/-- **A conversion that is done again** finds out the same and comes to the same, but for a
component that was created and is not replaced. -/
theorem turn_again (hsteady : fs.Steady c.room.making (c.outputPath source).parent)
    (hkept : c.overwrite = false → c.generator.Encodable ∧
      (fs.isDirectory (c.outputPath source).parent = .ok true ∨
        upwards ∉ (c.outputPath source).parts))
    (hprepared : c.prepared source later = c.prepared source fs)
    (hlater : (c.turn source fs).2.Develops later) :
    (c.turn source later).1 = c.outcomeAgain (c.turn source fs).1 ∧
      ∀ place, c.LeavesAgain source fs later place := by
  have hdevelops := (c.develops_turn source fs).trans hlater
  -- In the order in which a turn decides: preparing, looking for the output, replacing or not.
  cases hfound : c.prepared source fs with
  | error fault =>
      rw [hfound] at hprepared
      refine ⟨?_, leavesAgain_of_eq (by rw [turn_of_error hfound])
        (by rw [turn_of_error hprepared])⟩
      rw [turn_of_error hfound, turn_of_error hprepared, outcomeAgain_failure]
  | ok prepared =>
  obtain ⟨graphic, warnings, component⟩ := prepared
  rw [hfound] at hprepared
  cases hexists : fs.existsAt (c.outputPath source) with
  | error fault =>
      have hexists' := hdevelops.existsAt_error hexists
      refine ⟨?_, leavesAgain_of_eq (by rw [turn_of_unanswered hfound hexists])
        (by rw [turn_of_unanswered hprepared hexists'])⟩
      rw [turn_of_unanswered hfound hexists, turn_of_unanswered hprepared hexists',
        outcomeAgain_failure]
  | ok present =>
  cases hreplaces : c.overwrite with
  | true =>
      rw [turn_of_saved hfound hexists (Or.inr hreplaces)] at hlater
      exact turn_again_of_overwrite hfound hprepared hsteady hlater hreplaces hexists
  | false =>
      obtain ⟨hsettings, hstraight⟩ := hkept hreplaces
      cases present with
      | true =>
          have hexists' := hdevelops.existsAt_true hexists
          refine ⟨?_, leavesAgain_of_eq (by rw [turn_of_present hfound hexists hreplaces])
            (by rw [turn_of_present hprepared hexists' hreplaces])⟩
          rw [turn_of_present hfound hexists hreplaces,
            turn_of_present hprepared hexists' hreplaces]
          exact (outcomeAgain_of_not_created rfl).symm
      | false =>
          rw [turn_of_saved hfound hexists (Or.inl rfl)] at hlater
          have hagain := turn_again_of_absent hfound hprepared hsteady hlater hreplaces hexists
            hsettings hstraight
          rw [hagain]
          refine ⟨rfl, fun place => Or.inl ⟨by rw [hagain], fun hoverwrite => ?_⟩⟩
          rw [hreplaces] at hoverwrite
          cases hoverwrite

end

/-! ## A run -/

section

variable {sources : List Path} {start fs later : FileSystem}

/-- Whether the components of sources can be saved again: what is found out about a source is the
same while the icons are there, and the directories of its component are made as they were. -/
structure Resumes (c : Converter) (start : FileSystem) (source : Path) : Prop where
  name : ¬ svgEnding <:+ (c.outputPath source).name
  prepared : ∀ fs, Retains svgEnding start fs → c.prepared source fs = c.prepared source start
  steady : start.Steady c.room.making (c.outputPath source).parent
  kept : c.overwrite = false → c.generator.Encodable ∧
    (start.isDirectory (c.outputPath source).parent = .ok true ∨
      upwards ∉ (c.outputPath source).parts)

/-- **A run that is done again comes to the same**, and leaves the files as the first run does. By
the time of a source, a place is as it is in the end, or as it is there when the first run comes to
the source. -/
theorem turns_again (hsources : ∀ source ∈ sources, c.Resumes start source)
    (hfs : start.Develops fs) (hretains : Retains svgEnding start fs)
    (hretains' : Retains svgEnding start later) (hlater : (c.turns sources fs).2.Develops later)
    (hplaces : ∀ place, later.get? place = (c.turns sources fs).2.get? place ∨
      c.overwrite = true ∧ later.get? place = fs.get? place) :
    (c.turns sources later).1 = (c.turns sources fs).1.map c.outcomeAgain ∧
      ∀ place, (c.turns sources later).2.get? place = (c.turns sources fs).2.get? place := by
  induction sources generalizing fs later with
  | nil => exact ⟨rfl, fun place => (hplaces place).elim id And.right⟩
  | cons source sources ih =>
      have hsource := hsources source List.mem_cons_self
      have hdevelops := c.develops_turn source fs
      obtain ⟨houtcome, hleaves⟩ := turn_again (hsource.steady.develops hfs)
        (fun hkeeps => (hsource.kept hkeeps).imp_right fun hstraight =>
          hstraight.imp_left hfs.isDirectory)
        ((hsource.prepared later hretains').trans (hsource.prepared fs hretains).symm)
        ((c.develops_turns sources _).trans hlater)
      -- The place was left alone, or it is as the first run had it behind this source.
      have hplaces' : ∀ place, (c.turn source later).2.get? place =
          (c.turns (source :: sources) fs).2.get? place ∨ c.overwrite = true ∧
            (c.turn source later).2.get? place = (c.turn source fs).2.get? place := by
        intro place
        rcases hleaves place with ⟨hkept, hkept'⟩ | hleft
        · rcases hplaces place with heq | ⟨hreplaces, heq⟩
          · exact Or.inl (hkept.trans heq)
          · exact Or.inr ⟨hreplaces, hkept.trans (heq.trans (hkept' hreplaces).symm)⟩
        · exact Or.inr hleft
      obtain ⟨houtcomes, hsame⟩ := ih
        (fun other hother => hsources other (List.mem_cons_of_mem _ hother))
        (hfs.trans hdevelops) (hretains.trans (spares_turn hsource.name fs).retains)
        (hretains'.trans (spares_turn hsource.name later).retains)
        (hlater.trans (c.develops_turn source later)) hplaces'
      exact ⟨by rw [turns_cons, turns_cons, houtcome, houtcomes, List.map_cons], hsame⟩

/-! ## A folder that is missing too deep -/

/-- A component whose directories are refused is not created, and nothing happens. -/
theorem turn_of_refused {source : Path} {fault : FileSystem.Fault}
    (h : fs.makeDirectories c.room.making (c.outputPath source).parent = (.error fault, fs)) :
    (c.turn source fs).2 = fs ∧ saysCreated (c.turn source fs).1 = false := by
  rcases c.turn_cases source fs with ⟨outcome, -, hother, hturn⟩ | ⟨_, _, component, hturn⟩
  · rw [hturn]
    exact ⟨rfl, hother⟩
  · rw [hturn, Storage.saved_of_unmade h]
    exact ⟨rfl, rfl⟩

theorem turns_of_refused (h : ∀ source ∈ sources, ∃ fault,
    fs.makeDirectories c.room.making (c.outputPath source).parent = (.error fault, fs)) :
    (c.turns sources fs).2 = fs ∧ (c.turns sources fs).1.map c.outcomeAgain = (c.turns sources fs).1 := by
  induction sources with
  | nil => exact ⟨rfl, rfl⟩
  | cons source sources ih =>
      obtain ⟨fault, hrefused⟩ := h source List.mem_cons_self
      obtain ⟨hsame, hother⟩ := turn_of_refused hrefused
      obtain ⟨hrest, houtcomes⟩ := ih fun other hmem => h other (List.mem_cons_of_mem _ hmem)
      rw [turns_cons, hsame, List.map_cons, outcomeAgain_of_not_created hother, houtcomes]
      exact ⟨hrest, rfl⟩

end

/-! ## A run over a directory -/

/-- Whether a run over sources can be done again: components are not named like icons, they go to
folders whose paths never go up and have no name that is too long, and if they are not replaced,
they can be written out and none is named by a double full stop. A folder that has more parts than
are made at once may only hold components that have a part of their own. -/
structure Repeatable (c : Converter) (sources : List Path) : Prop where
  stays : c.generator.StaysInFolder
  names : ∀ source ∈ sources, ¬ svgEnding <:+ (c.outputPath source).name
  straight : ∀ folder, c.outputDirectory = some folder → upwards ∉ folder.parts
  short : ∀ folder, c.outputDirectory = some folder →
    ∀ name ∈ folder.parts.map spellName, byteLength name ≤ maxNameLength
  shallow : ∀ folder, c.outputDirectory = some folder → folder.parts.length ≤ c.room.making ∨
    ∀ source ∈ sources, isPathPart (c.generator.fileName (baseName source))
  kept : c.overwrite = false → c.generator.Encodable ∧
    ∀ source ∈ sources, c.generator.fileName (baseName source) ≠ upwards

theorem locate_of_mem_sourcesIn {fs : FileSystem} {directory : Path} {recursive : Bool}
    {room : Nat} (hsearch : Searchable room fs directory recursive) {source : Path}
    (h : source ∈ sourcesIn fs directory recursive) :
    ∃ location, fs.locate source = .ok location := by
  obtain ⟨here, hlocate, -⟩ := isDirectory_eq_true_iff.1 hsearch.1
  rw [sourcesIn_of_locate hlocate] at h
  obtain ⟨names, hnames, rfl⟩ := List.mem_map.1 h
  obtain ⟨⟨bytes, hfile⟩, hlooked⟩ := mem_filesBelow_iff.1 hnames
  have htop : here.down names ≠ .top := by
    intro htop
    rw [htop, get?_top] at hfile
    cases hfile
  exact ⟨_, locate_below hlocate hfile ((searchFault?_eq_none_iff hlocate).1 hsearch.2 names
    (mem_searched_iff.2 ⟨htop, _, hfile, Or.inl hlooked⟩)).2⟩

/-- The directory of a component is there, or the output directory says how it is made. -/
theorem Repeatable.folder_made {fs : FileSystem} {sources : List Path}
    (h : c.Repeatable sources)
    (hsteady : ∀ folder, c.outputDirectory = some folder → fs.Steady c.room.making folder)
    {source : Path} (hsource : source ∈ sources) {location : Location}
    (hreached : fs.locate source = .ok location) :
    fs.isDirectory (c.outputPath source).parent = .ok true ∨
      fs.Steady c.room.making (c.outputPath source).parent ∧
        (c.generator.fileName (baseName source) ≠ upwards →
          upwards ∉ (c.outputPath source).parts) := by
  -- A component whose name is no part of a path goes to the folder as if it had none.
  by_cases hpart : isPathPart (c.generator.fileName (baseName source))
  · rw [outputPath_parent h.stays hpart, outputPath_parts h.stays source,
      List.filter_cons_of_pos hpart, List.filter_nil, folder]
    cases houtput : c.outputDirectory with
    | none => exact Or.inl (isDirectory_parent hreached)
    | some folder =>
        refine Or.inr ⟨hsteady folder houtput, fun hname hup => ?_⟩
        rcases List.mem_append.1 hup with hup | hup
        · exact h.straight folder houtput hup
        · exact hname (List.mem_singleton.1 hup).symm
  · have hfolder := outputPath_eq_folder h.stays (Bool.not_eq_true _ ▸ hpart)
    rw [hfolder, folder]
    cases houtput : c.outputDirectory with
    | none =>
        obtain ⟨directory, hlocate, -⟩ :=
          isDirectory_eq_true_iff.1 (isDirectory_parent hreached)
        exact Or.inl (isDirectory_parent hlocate)
    | some folder =>
        refine Or.inr ⟨?_, fun _ => h.straight folder houtput⟩
        have hlength := (h.shallow folder houtput).resolve_right
          fun hall => hpart (hall source hsource)
        refine steady_of_length (fun hup => ?_) (fun name hname => ?_) ?_ fs
        · exact h.straight folder houtput (List.mem_of_mem_dropLast hup)
        · refine h.short folder houtput name ?_
          rw [Option.getD_some, parent_parts, List.map_dropLast] at hname
          exact List.mem_of_mem_dropLast hname
        · rw [Option.getD_some, parent_parts, List.length_dropLast]
          omega

/-- The components of a run that can be done again can be saved again, wherever they go. -/
theorem Repeatable.resumes {fs : FileSystem} {directory : Path} {recursive : Bool}
    (h : c.Repeatable (sourcesIn fs directory recursive))
    (hsearch : Searchable c.room.searching fs directory recursive)
    (hsteady : ∀ folder, c.outputDirectory = some folder → fs.Steady c.room.making folder) :
    ∀ source ∈ sourcesIn fs directory recursive, c.Resumes fs source := by
  intro source hsource
  obtain ⟨here, hlocate, -⟩ := isDirectory_eq_true_iff.1 hsearch.1
  obtain ⟨location, hreached⟩ := locate_of_mem_sourcesIn hsearch hsource
  have hparent := h.folder_made hsteady hsource hreached
  obtain ⟨front, last, bytes, rfl, hfile, hending⟩ := mem_sourcesIn hlocate hsource
  exact {
    name := h.names _ hsource
    prepared := fun later hretains => prepared_of_retains hlocate hfile hending hretains
    steady := hparent.elim steady_of_isDirectory And.left
    kept := fun hkeeps => ⟨(h.kept hkeeps).1, hparent.imp_right fun hmade =>
      hmade.2 ((h.kept hkeeps).2 _ hsource)⟩ }

/-- The output directory is made steadily, or all components are refused for the number of its
directories. -/
theorem Repeatable.steady_or_refused {sources : List Path} (h : c.Repeatable sources)
    (fs : FileSystem) :
    (∀ folder, c.outputDirectory = some folder → fs.Steady c.room.making folder) ∨
      ∀ source ∈ sources, ∃ fault,
        fs.makeDirectories c.room.making (c.outputPath source).parent = (.error fault, fs) := by
  cases houtput : c.outputDirectory with
  | none => exact Or.inl fun folder hfolder => by cases hfolder
  | some folder =>
      have hstraight := h.straight folder houtput
      have hshort := h.short folder houtput
      rcases h.shallow folder houtput with hlength | hparts
      · refine Or.inl fun other hother => ?_
        obtain rfl := Option.some.inj hother
        exact steady_of_length hstraight hshort hlength fs
      · have hcases : fs.Steady c.room.making folder ∨ _ :=
          FileSystem.steady_or_refused hstraight hshort fs
        refine hcases.imp ?_ ?_
        · rintro hsteady other hother
          obtain rfl := Option.some.inj hother
          exact hsteady
        · intro hrefused source hsource
          rw [outputPath_parent h.stays (hparts source hsource), Converter.folder, houtput]
          exact hrefused

theorem Repeatable.turns_again {fs : FileSystem} {directory : Path} {recursive : Bool}
    (h : c.Repeatable (sourcesIn fs directory recursive))
    (hsearch : Searchable c.room.searching fs directory recursive) :
    (c.turns (sourcesIn fs directory recursive)
        (c.turns (sourcesIn fs directory recursive) fs).2).1 =
          (c.turns (sourcesIn fs directory recursive) fs).1.map c.outcomeAgain ∧
      ∀ place, (c.turns (sourcesIn fs directory recursive)
        (c.turns (sourcesIn fs directory recursive) fs).2).2.get? place =
          (c.turns (sourcesIn fs directory recursive) fs).2.get? place := by
  rcases h.steady_or_refused fs with hsteady | hrefused
  · exact Converter.turns_again (h.resumes hsearch hsteady) (.refl fs) (.refl _ fs)
      (spares_turns h.names fs).retains (.refl _) fun _ => Or.inl rfl
  · obtain ⟨hsame, houtcomes⟩ := turns_of_refused hrefused
    rw [hsame, houtcomes]
    exact ⟨rfl, fun place => by rw [hsame]⟩

theorem mapM_row_outcomeAgain {outcomes : List Outcome} {rows : List Row}
    (h : outcomes.mapM Outcome.row = .ok rows) :
    (outcomes.map c.outcomeAgain).mapM Outcome.row = .ok (rows.map c.rowAgain) := by
  rw [mapM_eq_ok_iff] at h ⊢
  rw [List.forall₂_map_left_iff, List.forall₂_map_right_iff]
  exact h.imp fun _ _ hrow => row_outcomeAgain hrow

theorem status_rowAgain_eq (hkeeps : c.overwrite = false) (row : Row) :
    (c.rowAgain row).status =
      if row.status = Status.created.name then Status.skipped.name else row.status := by
  by_cases hcreated : row.status = Status.created.name
  · rw [rowAgain, if_pos ⟨hkeeps, hcreated⟩, if_pos hcreated]
  · rw [rowAgain, if_neg fun h => hcreated h.2, if_neg hcreated]

theorem status_rowAgain (hkeeps : c.overwrite = false) (row : Row) :
    (c.rowAgain row).status ≠ Status.created.name := by
  rw [status_rowAgain_eq hkeeps]
  split
  · exact (by decide : Status.skipped.name ≠ Status.created.name)
  · next hother => exact hother

/-- **A run over a directory can be done again.** It leaves the files as they are behind the first
run. When the sources can be found both times, its rows are those of the first run, with components
skipped that were created then and are not replaced; none is created unless components are replaced.
A path that keeps the sources from being found ends a run with nothing done. -/
theorem convertDirectory_again (c : Converter) (directory : Path) (recursive : Bool) (w : Workspace)
    (hasks : c.asks = false) (h : c.Repeatable (sourcesIn w.files directory recursive)) :
    ∃ first after second later,
      (c.convertDirectory directory recursive).perform w = (first, after) ∧
      (c.convertDirectory directory recursive).perform after = (second, later) ∧
      (∀ place, later.files.get? place = after.files.get? place) ∧
      (Searchable c.room.searching w.files directory recursive → ∃ rows, first = .ok rows ∧
        (Searchable c.room.searching after.files directory recursive →
          second = .ok (rows.map c.rowAgain) ∧
          (c.overwrite = false →
            ∀ row ∈ rows.map c.rowAgain, row.status ≠ Status.created.name)) ∧
        (¬ Searchable c.room.searching after.files directory recursive →
          ∃ fault, second = .error fault)) ∧
      (¬ Searchable c.room.searching w.files directory recursive → after.files = w.files ∧
        ∃ fault, first = .error fault ∧ second = .error fault) := by
  by_cases hsearch : Searchable c.room.searching w.files directory recursive
  · obtain ⟨here, hlocate, -⟩ := isDirectory_eq_true_iff.1 hsearch.1
    obtain ⟨rows, after, hrows, hfirst, hfiles, -⟩ := perform_convertDirectory_turns hasks hsearch
    obtain ⟨houtcomes, hsame⟩ := h.turns_again hsearch
    -- No component is named like an icon, so the second run finds the same sources.
    have hsources : sourcesIn after.files directory recursive =
        sourcesIn w.files directory recursive :=
      sourcesIn_of_spares hlocate (hfiles ▸ spares_turns h.names w.files)
    by_cases hsearch' : Searchable c.room.searching after.files directory recursive
    · obtain ⟨rows', later, hrows', hsecond, hlater, -⟩ :=
        perform_convertDirectory_turns hasks hsearch'
      rw [hsources, hfiles, houtcomes, mapM_row_outcomeAgain hrows] at hrows'
      obtain rfl := Except.ok.inj hrows'
      rw [hsources, hfiles] at hlater
      refine ⟨.ok rows, after, _, later, hfirst, hsecond, ?_, ?_, fun hno => absurd hsearch hno⟩
      · intro place
        rw [hlater, hfiles, hsame]
      · refine fun _ => ⟨rows, rfl, fun _ => ⟨rfl, fun hkeeps row hrow => ?_⟩,
          fun hno => absurd hsearch' hno⟩
        obtain ⟨before, -, rfl⟩ := List.mem_map.1 hrow
        exact status_rowAgain hkeeps before
    · obtain ⟨fault, hrefused⟩ := perform_convertDirectory_refused hsearch'
      exact ⟨_, after, _, after, hfirst, hrefused c rfl, fun _ => rfl,
        fun _ => ⟨rows, rfl, fun hyes => absurd hyes hsearch', fun _ => ⟨fault, rfl⟩⟩,
        fun hno => absurd hsearch hno⟩
  · obtain ⟨fault, hrefused⟩ := perform_convertDirectory_refused hsearch
    exact ⟨_, w, _, w, hrefused c rfl, hrefused c rfl, fun _ => rfl,
      fun hyes => absurd hyes hsearch, fun _ => ⟨rfl, fault, rfl, rfl⟩⟩

/-! ## Colliding names -/

/-- The components of the colliding icons have names of their own kind and go to a folder that can
be made. -/
theorem repeatable_gatheringConverter :
    gatheringConverter.Repeatable (sourcesIn collidingIcons (Path.ofText "in") false) := by
  rw [sourcesIn_collidingIcons]
  exact {
    stays := by decide
    names := by decide
    straight := by rintro folder ⟨⟩; decide
    short := by rintro folder ⟨⟩; decide
    shallow := by rintro folder ⟨⟩; exact Or.inl (by decide)
    kept := fun _ => ⟨⟨hasBytes_ofString _, hasBytes_ofString _, hasBytes_ofString _,
      hasBytes_ofString _⟩, by decide⟩ }

theorem searchable_collidingRun : Searchable 8 collidingRun.2.files (Path.ofText "in") false := by
  have hrun : collidingRun = _ := perform_convertDirectory searchable_collidingIcons
  rw [hrun, sourcesIn_collidingIcons]
  refine searchable_of_answered ?_
    (?_ : FileSystem.get? _ (Location.top.within "in") = some .directory) ?_
  · decide
  · decide +kernel
  · decide +kernel

/-- The run over the colliding icons is done again: the component that was created is skipped now,
and nothing is changed. -/
theorem convertDirectory_again_colliding :
    gatheringConverter.asks = false ∧
      gatheringConverter.Repeatable (sourcesIn collidingIcons (Path.ofText "in") false) ∧
      ∃ rows after later, collidingRun = (.ok rows, after) ∧
        rows.map Row.status = ["created", "skipped"] ∧
        (gatheringConverter.convertDirectory (Path.ofText "in") false).perform after =
          (.ok (rows.map gatheringConverter.rowAgain), later) ∧
        (rows.map gatheringConverter.rowAgain).map Row.status = ["skipped", "skipped"] ∧
        ∀ place, later.files.get? place = after.files.get? place := by
  refine ⟨rfl, repeatable_gatheringConverter, ?_⟩
  obtain ⟨first, after, second, later, hfirst, hsecond, hsame, hrows, -⟩ :=
    convertDirectory_again gatheringConverter (Path.ofText "in") false { files := collidingIcons } rfl
      repeatable_gatheringConverter
  have hrun : collidingRun = (first, after) := hfirst
  obtain ⟨rows, rfl, hagain, -⟩ := hrows searchable_collidingIcons
  have hstatus := status_collidingRun
  have hsearch := searchable_collidingRun
  rw [hrun] at hstatus hsearch
  have hcreated : rows.map Row.status = ["created", "skipped"] := Option.some.inj hstatus
  obtain ⟨rfl, -⟩ := hagain hsearch
  refine ⟨rows, after, later, hrun, hcreated, hsecond, ?_, hsame⟩
  have hskipped : Row.status ∘ gatheringConverter.rowAgain =
      (fun status => if status = Status.created.name then Status.skipped.name else status) ∘
        Row.status := funext fun row => status_rowAgain_eq rfl row
  rw [List.map_map, hskipped, ← List.map_map, hcreated]
  rfl

end Converter

end IconForge
