import IconForge.Proofs.Conversion.Effect
import IconForge.Proofs.Files.Search

set_option autoImplicit false

/-! # A run over a directory loses nothing

A converter that neither overwrites nor asks only ever writes where it found nothing. Unless its
output directory goes up behind a missing directory, nothing is there then, so the file system only
grows, conversion by conversion (`convertOrReport_step`). The run carries this along: what it has
created stays, and every further component goes to a place that was empty until then
(`run_effect`). -/

namespace IconForge

open IconForge.Action FileSystem Text.Encoding

namespace Converter

variable {c : Converter}

/-! ## Careful converters -/

/-- Whether a converter neither overwrites nor asks and names its components by no more than one
part of a path. -/
structure Careful (c : Converter) : Prop where
  keeps : c.overwrite = false
  silent : c.asks = false
  stays : c.generator.StaysInFolder

/-- A component that a careful converter may write was not found before. -/
theorem Permitted.found {source : Path} {before after : Workspace}
    (h : c.Permitted source before after) (hcareful : c.Careful) :
    before.files.existsAt (c.outputPath source) = .ok false := by
  cases h with
  | absent found unasked => exact found
  | overwriting found set =>
      rw [hcareful.keeps] at set
      cases set
  | answered found asks answer asked =>
      rw [hcareful.silent] at asks
      cases asks

/-- A file can only be written where the output directory allows it, so the path of the output does
not turn back. -/
theorem not_turnsBack_outputPath {source : Path} {fs made after : FileSystem} {bytes : List UInt8}
    (hstays : c.generator.StaysInFolder) (hfolder : ¬ fs.TurnsBack (c.folder source))
    (hwrite : made.write (c.outputPath source) bytes = .ok after) :
    ¬ fs.TurnsBack (c.outputPath source) := by
  by_cases hpart : isPathPart (c.generator.fileName (baseName source))
  · have hparts := outputPath_parts hstays source
    rw [List.filter_cons_of_pos hpart, List.filter_nil] at hparts
    by_cases hup : spellName (c.generator.fileName (baseName source)) = upwards
    · -- No file is named by a double full stop.
      obtain ⟨location, hlocate, hfile, -⟩ := write_effect hwrite
      exact absurd (get?_of_upwards hparts hup hlocate) hfile
    · intro hturns
      have hparent := hturns.parent hparts hup
      rw [outputPath_parent hstays hpart] at hparent
      exact hfolder hparent
  · rw [Bool.not_eq_true] at hpart
    rwa [outputPath_eq_folder hstays hpart]

/-! ## One step of a run -/

/-- What stays of a component that was created: its path leads to a location that was empty, and
there are the bytes of the component for the source as it was before. -/
structure Keeps (c : Converter) (before after : FileSystem) (outcome : Outcome)
    (location : Location) : Prop where
  output : outcome.output = some (c.outputPath outcome.source)
  located : after.locate (c.outputPath outcome.source) = .ok location
  empty : before.get? location = none
  content : ∃ stem bytes encoded, outcome.source.name = stem ++ svgEnding ∧
    before.read outcome.source = .ok bytes ∧
    c.componentBytes (CodeText.shown stem) bytes = .ok encoded ∧
    after.get? location = some (.file encoded)

theorem Keeps.grows {before after later : FileSystem} {outcome : Outcome} {location : Location}
    (h : c.Keeps before after outcome location) (hgrows : after.Grows later) :
    c.Keeps before later outcome location := by
  obtain ⟨stem, bytes, encoded, hname, hread, hcontent, hthere⟩ := h.content
  exact ⟨h.output, hgrows.locate h.located, h.empty,
    stem, bytes, encoded, hname, hread, hcontent, hgrows _ _ hthere⟩

/-- **A conversion by a careful converter loses nothing**, and a component that it creates is
new. -/
theorem convertFile_step {source : Path} {w after : Workspace} {result : Except Fault Outcome}
    (hcareful : c.Careful) (hfolder : ¬ w.files.TurnsBack (c.folder source))
    (h : (c.convertFile source).perform w = (result, after)) :
    w.files.Grows after.files ∧ ∀ outcome, result = .ok outcome → outcome.source = source ∧
      (outcome.status = .skipped ∨
        outcome.status = .created ∧ ∃ location, c.Keeps w.files after.files outcome location) := by
  cases effect_convertFile h with
  | skipped graphic warnings found same =>
      rw [same]
      refine ⟨.refl _, ?_⟩
      rintro outcome ⟨⟩
      exact ⟨rfl, Or.inl rfl⟩
  | failed fault adds =>
      refine ⟨adds.grows, ?_⟩
      rintro outcome ⟨⟩
  | created graphic warnings made bytes encoded permitted adds named read content written =>
      have hturns := not_turnsBack_outputPath hcareful.stays hfolder written
      obtain ⟨hgrows, location, hempty, hlocate, hthere⟩ :=
        made_write_grows (permitted.found hcareful) hturns adds written
      obtain ⟨stem, hname, hbase⟩ := exists_stem named
      rw [hbase] at content
      refine ⟨hgrows, ?_⟩
      rintro outcome ⟨⟩
      exact ⟨rfl, Or.inr ⟨rfl, location, rfl, hlocate, hempty,
        stem, bytes, encoded, hname, read, content, hthere⟩⟩
  | broken fault made bytes left permitted adds content written =>
      have hturns := not_turnsBack_outputPath hcareful.stays hfolder written
      refine ⟨(made_write_grows (permitted.found hcareful) hturns adds written).1, ?_⟩
      rintro outcome ⟨⟩

theorem convertOrReport_step {source : Path} {w after : Workspace}
    {result : Except Fault Outcome} (hcareful : c.Careful)
    (hfolder : ¬ w.files.TurnsBack (c.folder source))
    (h : (c.convertOrReport source).perform w = (result, after)) :
    w.files.Grows after.files ∧ ∃ outcome, result = .ok outcome ∧ outcome.source = source ∧
      (outcome.status = .error ∨ outcome.status = .skipped ∨
        outcome.status = .created ∧ ∃ location, c.Keeps w.files after.files outcome location) := by
  rw [convertOrReport, perform_tryCatch] at h
  rcases hfirst : (c.convertFile source).perform w with ⟨fault | outcome, between⟩
  · obtain ⟨hgrows, -⟩ := convertFile_step hcareful hfolder hfirst
    simp only [hfirst, perform_bind, perform_note, perform_pure] at h
    obtain ⟨rfl, rfl⟩ := Prod.mk.inj h
    exact ⟨hgrows, _, rfl, rfl, Or.inl rfl⟩
  · obtain ⟨hgrows, houtcome⟩ := convertFile_step hcareful hfolder hfirst
    rw [hfirst] at h
    obtain ⟨rfl, rfl⟩ := Prod.mk.inj h
    obtain ⟨hsource, hstatus⟩ := houtcome outcome rfl
    exact ⟨hgrows, outcome, rfl, hsource, Or.inr hstatus⟩

/-! ## The sources of a run -/

theorem found_of_mem_sourcesIn {fs : FileSystem} {directory source : Path} {recursive : Bool}
    (h : source ∈ sourcesIn fs directory recursive) :
    ∃ names, fs.Found directory source names := by
  rw [sourcesIn] at h
  cases hlocate : fs.locate directory with
  | error fault =>
      rw [hlocate] at h
      cases h
  | ok here =>
      simp only [hlocate] at h
      obtain ⟨names, hnames, rfl⟩ := List.mem_map.1 h
      obtain ⟨⟨bytes, hfile⟩, hfileNames, hnonempty⟩ := of_mem_filesBelow (by decide) hnames
      refine ⟨names, ?_, ⟨here, bytes, hlocate, hfile⟩, hfileNames, hnonempty⟩
      show (directory.parts ++ names).filter isPathPart = directory.parts ++ names
      refine List.filter_eq_self.2 fun part hpart => ?_
      rcases List.mem_append.1 hpart with hpart | hpart
      · exact directory.proper part hpart
      · exact (isFileName_iff.1 (hfileNames part hpart)).1

theorem not_turnsBack_folder {fs : FileSystem}
    (hstraight : ∀ folder, c.outputDirectory = some folder → ¬ fs.TurnsBack folder)
    {directory source : Path} {names : List CodeText} (hfound : fs.Found directory source names) :
    ¬ fs.TurnsBack (c.folder source) := by
  rw [folder]
  cases hoption : c.outputDirectory with
  | none => exact hfound.not_turnsBack_parent
  | some folder => exact hstraight folder hoption

/-! ## The run -/

/-- Whether the row of an outcome says that a component was created. -/
def saysCreated (outcome : Outcome) : Bool :=
  decide (outcome.status.name = Status.created.name)

/-- What is kept in a file system that has grown is kept from the start, if the source was found
there. -/
theorem Keeps.from_start {before middle after : FileSystem} {outcome : Outcome}
    {location : Location} {directory : Path} {names : List CodeText}
    (h : c.Keeps middle after outcome location) (hgrows : before.Grows middle)
    (hfound : before.Found directory outcome.source names) :
    c.Keeps before after outcome location := by
  obtain ⟨stem, bytes, encoded, hname, hread, hcontent, hthere⟩ := h.content
  exact ⟨h.output, h.located, hgrows.get?_eq_none h.empty,
    stem, bytes, encoded, hname, hfound.read_of_grows hgrows hread, hcontent, hthere⟩

/-- **A run of conversions keeps everything**: whatever was there when it began and, at places that
were empty then and differ from each other, the components that it created. -/
theorem run_effect {before : FileSystem} {sources : List Path} (hcareful : c.Careful)
    (hfound : ∀ source ∈ sources, ∃ directory names, before.Found directory source names)
    (hfolder : ∀ source ∈ sources, ¬ before.TurnsBack (c.folder source))
    {w after : Workspace} {result : Except Fault (List Outcome)}
    (h : (sources.mapM c.convertOrReport).perform w = (result, after))
    (hbefore : before.Grows w.files) :
    w.files.Grows after.files ∧ ∃ outcomes, result = .ok outcomes ∧
      outcomes.map Outcome.source = sources ∧ ∃ locations,
        List.Forall₂ (c.Keeps before after.files) (outcomes.filter saysCreated) locations ∧
        locations.Nodup ∧ ∀ location ∈ locations, w.files.get? location = none := by
  induction sources generalizing w after result with
  | nil =>
      rw [List.mapM_nil, perform_pure] at h
      obtain ⟨rfl, rfl⟩ := Prod.mk.inj h
      exact ⟨.refl _, [], rfl, rfl, [], .nil, List.nodup_nil, by simp⟩
  | cons source sources ih =>
      rw [List.mapM_cons, perform_bind] at h
      rcases hfirst : (c.convertOrReport source).perform w with ⟨first, between⟩
      obtain ⟨hgrows, outcome, rfl, hsource, hstatus⟩ := convertOrReport_step hcareful
        (fun hturns => hfolder source List.mem_cons_self (hbefore.turnsBack hturns)) hfirst
      simp only [hfirst, perform_bind] at h
      rcases hrest : (sources.mapM c.convertOrReport).perform between with ⟨rest, behind⟩
      obtain ⟨hgrows', outcomes, rfl, hsources, locations, hkept, hnodup, hempty⟩ := ih
        (fun other hother => hfound other (List.mem_cons_of_mem _ hother))
        (fun other hother => hfolder other (List.mem_cons_of_mem _ hother))
        hrest (hbefore.trans hgrows)
      simp only [hrest, perform_pure] at h
      obtain ⟨rfl, rfl⟩ := Prod.mk.inj h
      refine ⟨hgrows.trans hgrows', outcome :: outcomes, rfl, ?_, ?_⟩
      · rw [List.map_cons, hsource, hsources]
      have hempty' : ∀ location ∈ locations, w.files.get? location = none :=
        fun location hlocation => hgrows.get?_eq_none (hempty location hlocation)
      rcases hstatus with herror | hskipped | ⟨hcreated, location, hkeeps⟩
      · refine ⟨locations, ?_, hnodup, hempty'⟩
        rwa [List.filter_cons_of_neg (by rw [saysCreated, herror]; decide)]
      · refine ⟨locations, ?_, hnodup, hempty'⟩
        rwa [List.filter_cons_of_neg (by rw [saysCreated, hskipped]; decide)]
      · refine ⟨location :: locations, ?_, ?_, ?_⟩
        · rw [List.filter_cons_of_pos (by rw [saysCreated, hcreated]; decide)]
          obtain ⟨directory, names, hnames⟩ := hfound source List.mem_cons_self
          rw [← hsource] at hnames
          exact .cons ((hkeeps.from_start hbefore hnames).grows hgrows') hkept
        · -- The later components go to places that are still empty behind this conversion.
          refine List.nodup_cons.2 ⟨fun hmember => ?_, hnodup⟩
          obtain ⟨_, _, _, _, _, _, hthere⟩ := hkeeps.content
          rw [hempty location hmember] at hthere
          cases hthere
        · intro other hother
          rcases List.mem_cons.1 hother with rfl | hother
          · exact hkeeps.empty
          · exact hempty' other hother

/-- Whether a run over a directory comes to its sources: the directory is there, and nothing keeps
them from being found, neither a path nor the room for the search. -/
def Searchable (room : Nat) (fs : FileSystem) (directory : Path) (recursive : Bool) : Prop :=
  fs.isDirectory directory = .ok true ∧ searchFault? room fs directory recursive = none

/-- The sources in a directory can be found if, wherever the search looks, it has room for going
there and there is an answer about the path. -/
theorem searchFault?_eq_none_iff {room : Nat} {fs : FileSystem} {directory : Path}
    {recursive : Bool} {here : Location} (h : fs.locate directory = .ok here) :
    searchFault? room fs directory recursive = none ↔
      ∀ names ∈ fs.searched here svgEnding recursive,
        (recursive && fs.isTooDeep room here names) = false ∧
          fs.unanswered? (directory.below names) = none := by
  rw [searchFault?, h]
  refine List.findSome?_eq_none_iff.trans (forall₂_congr fun names _ => ?_)
  cases recursive && fs.isTooDeep room here names <;> simp

/-- It does so if there is room and an answer for each of the places where the search looks. -/
theorem searchable_of_answered {room : Nat} {fs : FileSystem} {directory : Path} {recursive : Bool}
    {here : Location} (hlocate : fs.locate directory = .ok here)
    (hdirectory : fs.get? here = some .directory)
    (hanswered : ∀ names ∈ fs.unsortedSearched here svgEnding recursive,
      (recursive && fs.isTooDeep room here names) = false ∧
        fs.unanswered? (directory.below names) = none) :
    Searchable room fs directory recursive := by
  refine ⟨isDirectory_eq_true_iff.2 ⟨here, hlocate, hdirectory⟩,
    (searchFault?_eq_none_iff hlocate).2 fun names hnames => ?_⟩
  exact hanswered names (mem_searched_iff_unsorted.1 hnames)

theorem sourcesIn_of_sorted {fs : FileSystem} {directory : Path} {recursive : Bool}
    {here : Location} (hlocate : fs.locate directory = .ok here)
    (hsorted : (fs.unsortedBelow here svgEnding recursive).Pairwise fun names others =>
      namesLE names others) :
    sourcesIn fs directory recursive =
      (fs.unsortedBelow here svgEnding recursive).map directory.below := by
  rw [sourcesIn, hlocate]
  show (fs.filesBelow here svgEnding recursive).map _ = _
  rw [filesBelow_of_sorted hsorted]

/-- In a directory whose sources can be found, the run goes over them. -/
theorem perform_convertDirectory {directory : Path} {recursive : Bool} {w : Workspace}
    (h : Searchable c.room.searching w.files directory recursive) :
    (c.convertDirectory directory recursive).perform w =
      ((sourcesIn w.files directory recursive).mapM c.convertOrReport >>= rowsOf).perform
        { w with log := w.log ++ [⟨.info, .conversion,
          s!"Found {(sourcesIn w.files directory recursive).length} SVG files in " ++
            directory.text⟩] } := by
  rw [convertDirectory, perform_files_bind, perform_bind, perform_lift, h.1, h.2]
  rfl

/-- Otherwise there is no run, whatever the converter that has this room, and nothing happens. -/
theorem perform_convertDirectory_refused {room : Nat} {directory : Path} {recursive : Bool}
    {w : Workspace} (h : ¬ Searchable room w.files directory recursive) :
    ∃ fault, ∀ c : Converter, c.room.searching = room →
      (c.convertDirectory directory recursive).perform w = (.error fault, w) := by
  rcases hdirectory : w.files.isDirectory directory with fault | found
  · refine ⟨.file fault, fun c _ => ?_⟩
    rw [convertDirectory, perform_files_bind, perform_bind, perform_lift, hdirectory]
    rfl
  · cases found with
    | false =>
        refine ⟨.directoryNotFound directory, fun c _ => ?_⟩
        rw [convertDirectory, perform_files_bind, perform_bind, perform_lift, hdirectory]
        rfl
    | true =>
        cases hsearch : searchFault? room w.files directory recursive with
        | none => exact absurd ⟨hdirectory, hsearch⟩ h
        | some fault =>
            refine ⟨.file fault, fun c hroom => ?_⟩
            rw [convertDirectory, perform_files_bind, perform_bind, perform_lift, hdirectory,
              hroom, hsearch]
            rfl

/-- **A run over a directory that does not overwrite loses nothing.** -/
theorem convertDirectory_keeps (c : Converter) (hcareful : c.Careful) (directory : Path)
    (recursive : Bool) (w : Workspace)
    (hstraight : ∀ folder, c.outputDirectory = some folder → ¬ w.files.TurnsBack folder) :
    ∃ result after, (c.convertDirectory directory recursive).perform w = (result, after) ∧
      (∀ place bytes, w.files.get? place = some (.file bytes) →
        after.files.get? place = some (.file bytes)) ∧
      ∀ rows, result = .ok rows → ∃ outcomes : List Outcome,
        outcomes.mapM Outcome.row = .ok rows ∧
        outcomes.map Outcome.source = sourcesIn w.files directory recursive ∧ ∃ locations,
          List.Forall₂ (c.Keeps w.files after.files) (outcomes.filter saysCreated) locations ∧
          locations.Nodup := by
  rcases hperform : (c.convertDirectory directory recursive).perform w with ⟨result, after⟩
  refine ⟨result, after, rfl, ?_⟩
  by_cases hsearch : Searchable c.room.searching w.files directory recursive
  · have hfound : ∀ source ∈ sourcesIn w.files directory recursive,
        ∃ folder names, w.files.Found folder source names :=
      fun source hsource => ⟨directory, found_of_mem_sourcesIn hsource⟩
    have hfolder : ∀ source ∈ sourcesIn w.files directory recursive,
        ¬ w.files.TurnsBack (c.folder source) := by
      intro source hsource
      obtain ⟨folder, names, hnames⟩ := hfound source hsource
      exact not_turnsBack_folder hstraight hnames
    obtain ⟨noted, hnoted, halike⟩ : ∃ noted,
        (c.convertDirectory directory recursive).perform w =
          ((sourcesIn w.files directory recursive).mapM c.convertOrReport >>=
            rowsOf).perform noted ∧ Alike w noted :=
      ⟨_, perform_convertDirectory hsearch, ⟨rfl, rfl, rfl⟩⟩
    rw [hnoted, perform_bind] at hperform
    rcases hrun : ((sourcesIn w.files directory recursive).mapM c.convertOrReport).perform noted with
      ⟨ran, between⟩
    obtain ⟨hgrows, outcomes, rfl, hsources, locations, hkept, hnodup, -⟩ :=
      run_effect hcareful hfound hfolder hrun (fun place entry h => halike.files ▸ h)
    simp only [hrun, rowsOf, perform_lift] at hperform
    obtain ⟨rfl, rfl⟩ := Prod.mk.inj hperform
    -- The rows are made behind the run, and whether they can be made changes no file.
    rw [halike.files] at hgrows
    refine ⟨fun place bytes => hgrows place (.file bytes), ?_⟩
    intro rows hrows
    refine ⟨outcomes, ?_, hsources, locations, hkept, hnodup⟩
    cases hmap : outcomes.mapM Outcome.row with
    | error fault =>
        rw [hmap] at hrows
        cases hrows
    | ok found =>
        rw [hmap] at hrows
        exact congrArg Except.ok (Except.ok.inj hrows)
  · obtain ⟨fault, hrefused⟩ := perform_convertDirectory_refused hsearch
    rw [hrefused c rfl] at hperform
    obtain ⟨rfl, rfl⟩ := Prod.mk.inj hperform
    refine ⟨fun place bytes h => h, ?_⟩
    rintro rows ⟨⟩

/-! ## Colliding names -/

/-- Two icons whose names lead to the same component. -/
def collidingIcons : FileSystem where
  entries :=
    [(Location.top.within "in", .directory),
     ((Location.top.within "in").within "a-b.svg",
       .file (Text.Utf8.encode "<svg viewBox=\"0 0 1 1\"><g/></svg>".toList)),
     ((Location.top.within "in").within "a_b.svg",
       .file (Text.Utf8.encode "<svg viewBox=\"0 0 2 2\"><g/></svg>".toList))]
  named := by decide
  nodup := by decide
  rooted := by decide

theorem locate_collidingIcons :
    collidingIcons.locate (Path.ofText "in") = .ok (Location.top.within "in") := by
  decide

theorem sourcesIn_collidingIcons : sourcesIn collidingIcons (Path.ofText "in") false =
    [Path.ofText "in/a-b.svg", Path.ofText "in/a_b.svg"] := by
  rw [sourcesIn_of_sorted locate_collidingIcons (by decide)]
  decide

theorem searchable_collidingIcons : Searchable 8 collidingIcons (Path.ofText "in") false :=
  searchable_of_answered locate_collidingIcons (by decide) (by decide)

/-- A converter that gathers the components in a directory of their own. -/
def gatheringConverter : Converter :=
  { default (.ofLevels 8) with outputDirectory := some (Path.ofText "made") }

def collidingRun : Except Fault (List Row) × Workspace :=
  (gatheringConverter.convertDirectory (Path.ofText "in") false).perform { files := collidingIcons }

theorem status_collidingRun :
    collidingRun.1.toOption.map (List.map Row.status) = some ["created", "skipped"] := by
  have hrun : collidingRun = _ := perform_convertDirectory searchable_collidingIcons
  rw [hrun, sourcesIn_collidingIcons]
  decide +kernel

/-- Of two icons for the same component, the first one makes it and the second one is skipped. -/
theorem convertDirectory_keeps_colliding :
    gatheringConverter.Careful ∧
      (∀ folder, gatheringConverter.outputDirectory = some folder →
        ¬ collidingIcons.TurnsBack folder) ∧
      ∃ rows after, collidingRun = (.ok rows, after) ∧
        rows.map Row.status = ["created", "skipped"] ∧ ∃ outcomes : List Outcome,
          outcomes.mapM Outcome.row = .ok rows ∧ ∃ locations,
            List.Forall₂ (gatheringConverter.Keeps collidingIcons after.files)
              (outcomes.filter saysCreated) locations ∧ locations.Nodup := by
  have hcareful : gatheringConverter.Careful := ⟨rfl, rfl, by decide⟩
  have hstraight : ∀ folder, gatheringConverter.outputDirectory = some folder →
      ¬ collidingIcons.TurnsBack folder := by
    rintro folder ⟨⟩
    exact not_turnsBack_of_upwards_not_mem (by decide)
  refine ⟨hcareful, hstraight, ?_⟩
  obtain ⟨result, after, hperform, -, hrows⟩ := convertDirectory_keeps gatheringConverter hcareful
    (Path.ofText "in") false { files := collidingIcons } hstraight
  have hrun : collidingRun = (result, after) := hperform
  have hstatus := status_collidingRun
  rw [hrun] at hstatus
  cases result with
  | error fault => cases hstatus
  | ok rows =>
      obtain ⟨outcomes, hmap, -, locations, hkept, hnodup⟩ := hrows rows rfl
      exact ⟨rows, after, hrun, Option.some.inj hstatus, outcomes, hmap, locations, hkept, hnodup⟩

end Converter

end IconForge
