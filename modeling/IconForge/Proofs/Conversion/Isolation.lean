import IconForge.Proofs.Conversion.ForcedRun
import IconForge.Proofs.Conversion.Parallel

set_option autoImplicit false

/-! # A run is complete, and its failures stay alone

A run over a directory gives one row for every SVG file that is found there, in ascending order
(`Lists`), and every row is counted once in its summary (`Summary.total_ofRows`).

A source whose content gives no graphic comes to nothing but its own error. The other sources and
their components are at other places, so the run without that source goes in parallel everywhere but
at its place (`run_without`): the other rows and the other files are the same as if it had been
deleted beforehand (`convertDirectory_complete`). -/

namespace IconForge

open IconForge.Action FileSystem Text.Encoding

/-- **Rows of the three statuses are all counted in a summary, each of them once.** -/
theorem Summary.total_ofRows {rows : List Row}
    (h : ∀ row ∈ rows, row.status = Status.created.name ∨ row.status = Status.skipped.name ∨
      row.status = Status.error.name) :
    (ofRows rows).total = rows.length ∧
      (ofRows rows).total =
        (ofRows rows).created + (ofRows rows).skipped + (ofRows rows).error := by
  have hcounts : ∀ statuses : List String,
      (∀ status ∈ statuses, status = Status.created.name ∨ status = Status.skipped.name ∨
        status = Status.error.name) →
      statuses.length = statuses.count Status.created.name +
        statuses.count Status.skipped.name + statuses.count Status.error.name := by
    intro statuses hstatuses
    induction statuses with
    | nil => rfl
    | cons status statuses ih =>
        have hrest := ih fun other hother => hstatuses other (List.mem_cons_of_mem _ hother)
        rcases hstatuses status List.mem_cons_self with rfl | rfl | rfl <;>
          simp only [List.length_cons, List.count_cons, hrest, Status.name] <;> simp <;> omega
  refine ⟨List.length_map _, hcounts _ ?_⟩
  intro status hstatus
  obtain ⟨row, hrow, rfl⟩ := List.mem_map.1 hstatus
  exact h row hrow

namespace Converter

variable {c : Converter}

/-! ## The sources of a run -/

/-- Whether names lead to the SVG files below a directory, to each of them once, in ascending order
of the parts of their paths; without `recursive` to those right in it. -/
structure Lists (fs : FileSystem) (directory : Path) (here : Location) (recursive : Bool)
    (found : List (List CodeText)) : Prop where
  mem_iff : ∀ names, names ∈ found ↔
    (∃ bytes, fs.get? (here.down names) = some (.file bytes)) ∧
      (recursive = true ∨ names.length = 1) ∧ svgEnding <:+ names.getLastD []
  nodup : found.Nodup
  ascending : (found.map directory.below).Pairwise fun path other =>
    namesLE path.parts other.parts

theorem sourcesIn_of_locate {fs : FileSystem} {directory : Path} {here : Location}
    {recursive : Bool} (h : fs.locate directory = .ok here) :
    sourcesIn fs directory recursive =
      (fs.filesBelow here svgEnding recursive).map directory.below := by
  rw [sourcesIn, h]

/-- **A run lists the SVG files of its directory.** -/
theorem lists_filesBelow (fs : FileSystem) (directory : Path) (here : Location)
    (recursive : Bool) :
    Lists fs directory here recursive (fs.filesBelow here svgEnding recursive) where
  mem_iff := fun _ => mem_filesBelow_iff
  nodup := nodup_filesBelow fs here svgEnding recursive
  ascending := by
    have hparts : ∀ names ∈ fs.filesBelow here svgEnding recursive,
        (directory.below names).parts = directory.parts ++ names := by
      intro names hnames
      obtain ⟨⟨bytes, hfile⟩, -⟩ := mem_filesBelow_iff.1 hnames
      exact below_parts (isFileName_of_down hfile)
    rw [List.pairwise_map]
    refine (sorted_filesBelow fs here svgEnding recursive).imp_of_mem ?_
    intro names others hnames hothers hle
    rwa [hparts names hnames, hparts others hothers, namesLE_append]

/-- Only one list does so. -/
theorem Lists.eq_filesBelow {fs : FileSystem} {directory : Path} {here : Location}
    {recursive : Bool} {found : List (List CodeText)}
    (h : Lists fs directory here recursive found) :
    found = fs.filesBelow here svgEnding recursive := by
  refine FileSystem.eq_filesBelow (fun names => (h.mem_iff names).trans mem_filesBelow_iff.symm)
    h.nodup ((List.pairwise_map.1 h.ascending).imp_of_mem ?_)
  intro names others hnames hothers hle
  obtain ⟨⟨bytes, hfile⟩, -⟩ := (h.mem_iff names).1 hnames
  obtain ⟨⟨content, hother⟩, -⟩ := (h.mem_iff others).1 hothers
  rwa [below_parts (isFileName_of_down hfile), below_parts (isFileName_of_down hother),
    namesLE_append] at hle

/-! ## Sources that fail -/

/-- Whether there is a file at a location whose content gives no graphic: its bytes are no text, or
nothing can be extracted from it. -/
def Spoilt (c : Converter) (fs : FileSystem) (location : Location) : Prop :=
  ∃ bytes, fs.get? location = some (.file bytes) ∧
    ∀ text, Storage.textOfBytes bytes = .ok text →
      ∃ why, Graphic.extract c.defaultSize text = .error why

theorem get?_of_read_below {fs later : FileSystem} {directory : Path} {here : Location}
    (hlocate : fs.locate directory = .ok here) {names : List CodeText} {entry : Entry}
    (h : fs.get? (here.down names) = some entry) {bytes : List UInt8}
    (hread : later.read (directory.below names) = .ok bytes) :
    later.get? (here.down names) = some (.file bytes) := by
  obtain ⟨directoryNames, hnames, rfl, -⟩ := locate_eq_ok_iff.1 hlocate
  obtain ⟨-, -, -, rfl⟩ := namesOf_eq_ok_iff.1 hnames
  rw [FileSystem.read] at hread
  cases hlater : later.locate (directory.below names) with
  | error fault =>
      rw [hlater] at hread
      cases hread
  | ok location =>
      obtain ⟨pathNames, hpath, rfl, -⟩ := locate_eq_ok_iff.1 hlater
      obtain ⟨-, -, -, rfl⟩ := namesOf_eq_ok_iff.1 hpath
      simp only [hlater, below_names h, walk_append, walk_eq_down (upwards_not_mem_of_down h)]
        at hread
      cases hentry : later.get? ((walk .top (directory.parts.map spellName)).down names) with
      | none =>
          rw [hentry] at hread
          cases hread
      | some found =>
          rw [hentry] at hread
          cases found with
          | directory => cases hread
          | file content =>
              cases hread
              rfl

/-- **Nothing can be found out about a spoilt source**, as long as it is as it was. -/
theorem prepared_of_spoilt {fs later : FileSystem} {directory : Path} {here : Location}
    (hlocate : fs.locate directory = .ok here) {names : List CodeText}
    (h : c.Spoilt fs (here.down names))
    (hsame : later.get? (here.down names) = fs.get? (here.down names)) :
    ∃ fault, c.prepared (directory.below names) later = .error fault := by
  obtain ⟨bytes, hfile, hspoilt⟩ := h
  cases hprepared : c.prepared (directory.below names) later with
  | error fault => exact ⟨fault, rfl⟩
  | ok prepared =>
      obtain ⟨graphic, warnings, component⟩ := prepared
      obtain ⟨text, htext, hunderstood⟩ := prepared_eq_ok hprepared
      obtain ⟨content, hread, hcontent⟩ := sourceText_eq_ok htext
      have hthere := get?_of_read_below hlocate hfile hread
      rw [hsame, hfile, Option.some.injEq, Entry.file.injEq] at hthere
      subst hthere
      obtain ⟨why, hwhy⟩ := hspoilt text hcontent
      rw [(understood_eq_ok hunderstood).1] at hwhy
      cases hwhy

/-! ## Away from a source -/

/-- Whether a path, and the directory above it, do not pass a place. -/
structure Avoids (path : Path) (place : Location) : Prop where
  self : KeepsTo path (· ≠ place)
  parent : KeepsTo path.parent (· ≠ place)

/-- A path avoids a place when none of its front parts leads there. -/
theorem avoids_of_inits {path : Path} {place : Location}
    (h : ∀ front ∈ (path.parts.map spellName).inits, walk .top front ≠ place) :
    Avoids path place := by
  have hpasses : ∀ passed, Passes path passed → passed ≠ place := by
    rintro passed ⟨front, hfront, rfl⟩
    exact h front ((List.mem_inits _ _).2 hfront)
  exact ⟨fun _ _ => hpasses, fun _ _ passed hpassed => hpasses passed hpassed.of_parent⟩

/-- A component whose name is not that of an SVG file is not where such a file is, unless its folder
leads through that file. -/
theorem outputKeepsTo_of_avoids {source : Path} {place : Location}
    (hstays : c.generator.StaysInFolder)
    (hname : ¬ svgEnding <:+ c.generator.fileName (baseName source))
    (hfolder : Avoids (c.folder source) place) (hplace : EndsIn svgEnding place) :
    c.OutputKeepsTo source (· ≠ place) := by
  by_cases hpart : isPathPart (c.generator.fileName (baseName source))
  · have hparent := outputPath_parent hstays hpart
    have hparts := outputPath_parts hstays source
    rw [List.filter_cons_of_pos hpart, List.filter_nil] at hparts
    refine ⟨?_, hparent ▸ hfolder.self⟩
    rintro names hnames passed ⟨front, hfront, rfl⟩
    have hnamesOf := namesOf_parent hnames
    rw [hparent] at hnamesOf
    have hkept := hfolder.self _ hnamesOf
    rw [hparts, List.map_append, List.map_cons, List.map_nil, List.prefix_concat_iff] at hfront
    rcases hfront with rfl | hfront
    · rw [walk_append, walk_cons]
      by_cases hup : spellName (c.generator.fileName (baseName source)) = upwards
      · rw [hup, step_upwards]
        exact hkept _ (Passes.above ⟨_, List.prefix_rfl, rfl⟩)
      · rw [step_of_ne hup]
        rintro rfl
        -- The place would be named like the component.
        obtain ⟨name, hhead, hending⟩ := hplace
        obtain rfl := Option.some.inj hhead
        have hlast : (c.outputPath source).name = c.generator.fileName (baseName source) := by
          rw [Path.name, hparts, List.getLastD_concat]
        rw [← hlast] at hname hending
        exact not_suffix_spellName svgEnding_ascii hnames hname hending
    · exact hkept _ ⟨front, hfront, rfl⟩
  · rw [Bool.not_eq_true] at hpart
    have houtput := outputPath_eq_folder hstays hpart
    exact ⟨houtput ▸ hfolder.self, houtput ▸ hfolder.parent⟩

/-- The folder of a source without an output directory does not lead through a file. -/
theorem avoids_folder {fs : FileSystem} {directory : Path} {here place : Location}
    (hlocate : fs.locate directory = .ok here) {names : List CodeText} {bytes content : List UInt8}
    (h : fs.get? (here.down names) = some (.file bytes)) (hnonempty : names ≠ [])
    (hplace : fs.get? place = some (.file content))
    (houtput : ∀ folder, c.outputDirectory = some folder → Avoids folder place) :
    Avoids (c.folder (directory.below names)) place := by
  rw [folder]
  cases hoption : c.outputDirectory with
  | some folder => exact houtput folder hoption
  | none =>
      obtain ⟨front, last, rfl⟩ := (List.eq_nil_or_concat names).resolve_left hnonempty
      rw [List.concat_eq_append] at h ⊢
      have hpasses : ∀ passed, Passes (directory.below (front ++ [last])).parent passed →
          passed ≠ place := by
        rintro passed hpassed rfl
        rw [passes_parent_below hlocate h hpassed] at hplace
        cases hplace
      exact ⟨fun _ _ => hpasses, fun _ _ passed hpassed => hpasses passed hpassed.of_parent⟩

/-- The path of anything else below a directory does not lead through a file. -/
theorem keepsTo_below {fs : FileSystem} {directory : Path} {here place : Location}
    (hlocate : fs.locate directory = .ok here) {names : List CodeText} {entry : Entry}
    (h : fs.get? (here.down names) = some entry) {content : List UInt8}
    (hplace : fs.get? place = some (.file content)) (hne : here.down names ≠ place) :
    KeepsTo (directory.below names) (· ≠ place) := by
  rintro _ - passed hpassed rfl
  rcases passes_below hlocate h hpassed with hdirectory | heq
  · rw [hdirectory] at hplace
    cases hplace
  · exact hne heq.symm

/-! ## The run without a source -/

/-- **A source that fails leaves no trace**: the run without it goes in parallel everywhere but at
its place, and comes to the same outcomes but for its own. -/
theorem run_without {front behind : List Path} {bad : Path} {place : Location}
    {w v after : Workspace} {outcomes : List Outcome} (hstart : AlikeAt (· ≠ place) w v)
    (hsources : ∀ source ∈ front ++ behind, KeepsTo source (· ≠ place))
    (houtputs : ∀ source ∈ front ++ behind, c.OutputKeepsTo source (· ≠ place))
    (hbad : ∀ fs : FileSystem, fs.get? place = w.files.get? place →
      ∃ fault, c.prepared bad fs = .error fault)
    (h : ((front ++ bad :: behind).mapM c.convertOrReport).perform w = (.ok outcomes, after)) :
    ∃ before fault others after', outcomes = before ++ failure bad fault :: others ∧
      before.length = front.length ∧
      ((front ++ behind).mapM c.convertOrReport).perform v = (.ok (before ++ others), after') ∧
      AlikeAt (· ≠ place) after after' := by
  have hmem : ∀ {sources : List Path}, sources.Sublist (front ++ behind) →
      Parallel (· ≠ place) Eq (sources.mapM c.convertOrReport)
        (sources.mapM c.convertOrReport) :=
    fun hsublist => parallel_run (fun source hsource => hsources source (hsublist.mem hsource))
      fun source hsource => houtputs source (hsublist.mem hsource)
  obtain ⟨before, _, turn, hfront, -⟩ := c.run_rows front w
  have hturn : turn.files.get? place = w.files.get? place :=
    get?_run (fun source hsource => houtputs source (List.mem_append_left _ hsource)) hfront
      (by simp)
  obtain ⟨fault, hfault⟩ := hbad turn.files hturn
  obtain ⟨passed, hpassed, halike⟩ := perform_convertOrReport_of_prepared hfault
  obtain ⟨others, _, final, hbehind, -⟩ := c.run_rows behind passed
  have hwhole : ((front ++ bad :: behind).mapM c.convertOrReport).perform w =
      (.ok (before ++ failure bad fault :: others), final) := by
    refine run_append hfront ?_
    simp only [List.mapM_cons, perform_bind, hpassed, hbehind, perform_pure]
  rw [hwhole] at h
  obtain ⟨houtcomes, rfl⟩ := Prod.mk.inj h
  -- The same two parts of the run without the source.
  obtain ⟨hresult, hbetween⟩ := hmem (List.sublist_append_left front behind) w v hstart
  rw [hfront] at hresult hbetween
  rcases hfront' : (front.mapM c.convertOrReport).perform v with ⟨result, turn'⟩
  rw [hfront'] at hresult hbetween
  obtain rfl := matches_eq_iff.1 hresult
  obtain ⟨hresult, hfinal⟩ := hmem (List.sublist_append_right front behind) passed turn'
    (((halike.alikeAt _).symm).trans hbetween)
  rw [hbehind] at hresult hfinal
  rcases hbehind' : (behind.mapM c.convertOrReport).perform turn' with ⟨result, after'⟩
  rw [hbehind'] at hresult hfinal
  obtain rfl := matches_eq_iff.1 hresult
  exact ⟨before, fault, others, after', (Except.ok.inj houtcomes).symm, length_run hfront,
    run_append hfront' hbehind', hfinal⟩

/-! ## The run over a directory -/

/-- The places where a search looks are answered for as before when a file is deleted. -/
theorem searchable_delete {fs : FileSystem} {directory : Path} {here place : Location}
    {room : Nat} {recursive : Bool} (hsearch : Searchable room fs directory recursive)
    (hlocate : fs.locate directory = .ok here) (hdirectory : fs.get? here = some .directory)
    {content : List UInt8} (hplace : fs.get? place = some (.file content)) :
    (fs.delete place).locate directory = .ok here ∧
      Searchable room (fs.delete place) directory recursive := by
  have hfile : fs.get? place ≠ some .directory := by
    rw [hplace]
    rintro ⟨⟩
  have hagree := agree_delete hfile
  have hpath : KeepsTo directory (· ≠ place) := by
    rw [← below_nil directory]
    rw [← Location.down_nil here] at hdirectory
    refine keepsTo_below hlocate hdirectory hplace ?_
    intro heq
    rw [heq] at hdirectory
    exact hfile hdirectory
  have hlocate' : (fs.delete place).locate directory = .ok here :=
    (hagree.locate hpath).trans hlocate
  refine ⟨hlocate', (hagree.isDirectory hpath).trans hsearch.1,
    (searchFault?_eq_none_iff hlocate').2 fun names hnames => ?_⟩
  -- Whatever is still there was there before.
  obtain ⟨htop, entry, hentry, hlooked⟩ := mem_searched_iff.1 hnames
  rw [get?_delete hfile] at hentry
  split at hentry
  · cases hentry
  · next hne =>
    have hdeep : (fs.delete place).isTooDeep room here names = fs.isTooDeep room here names := by
      rw [isTooDeep, isTooDeep, get?_delete hfile, if_neg hne]
    rw [hdeep, hagree.unanswered? (keepsTo_below hlocate hentry hplace hne)]
    exact (searchFault?_eq_none_iff hlocate).1 hsearch.2 names
      (mem_searched_iff.2 ⟨htop, entry, hentry, hlooked⟩)

theorem filesBelow_delete {fs : FileSystem} {here : Location} {recursive : Bool}
    {front behind : List (List CodeText)} {bad : List CodeText}
    (h : fs.filesBelow here svgEnding recursive = front ++ bad :: behind) :
    (fs.delete (here.down bad)).filesBelow here svgEnding recursive = front ++ behind := by
  have hsublist : (front ++ behind).Sublist (front ++ bad :: behind) :=
    (List.Sublist.refl front).append (List.sublist_cons_self bad behind)
  have hnodup := nodup_filesBelow fs here svgEnding recursive
  have hsorted := sorted_filesBelow fs here svgEnding recursive
  rw [h] at hnodup hsorted
  have hbad : bad ∈ fs.filesBelow here svgEnding recursive := by simp [h]
  obtain ⟨⟨content, hcontent⟩, -⟩ := mem_filesBelow_iff.1 hbad
  have hfile : fs.get? (here.down bad) ≠ some .directory := by
    rw [hcontent]
    rintro ⟨⟩
  -- A list in order and without repetition is determined by its members.
  refine (eq_filesBelow ?_ (hsublist.nodup hnodup) (hsorted.sublist hsublist)).symm
  intro names
  have hmember : names ∈ front ++ behind ↔
      names ∈ fs.filesBelow here svgEnding recursive ∧ names ≠ bad := by
    have hbad' : bad ∉ front ++ behind := (List.nodup_middle.1 hnodup).notMem
    rw [h]
    simp only [List.mem_append, List.mem_cons] at hbad' ⊢
    constructor
    · intro hnames
      refine ⟨hnames.imp_right Or.inr, ?_⟩
      rintro rfl
      exact hbad' hnames
    · rintro ⟨hnames | rfl | hnames, hne⟩
      · exact Or.inl hnames
      · exact absurd rfl hne
      · exact Or.inr hnames
  rw [hmember, mem_filesBelow_iff, mem_filesBelow_iff, get?_delete hfile]
  by_cases hne : names = bad
  · simp [hne]
  · have hplace : here.down names ≠ here.down bad := fun heq => hne (Location.down_injective heq)
    simp [hne, hplace]

theorem endsIn_of_mem_filesBelow {fs : FileSystem} {here : Location} {recursive : Bool}
    {names : List CodeText} (h : names ∈ fs.filesBelow here svgEnding recursive) :
    names ≠ [] ∧ EndsIn svgEnding (here.down names) := by
  obtain ⟨-, -, hending⟩ := mem_filesBelow_iff.1 h
  rcases List.eq_nil_or_concat names with rfl | ⟨front, last, rfl⟩
  · exact absurd (List.suffix_nil.1 hending) (by decide)
  · rw [List.concat_eq_append] at hending ⊢
    rw [List.getLastD_concat] at hending
    refine ⟨by simp, last, ?_, hending⟩
    rw [Location.down_concat]
    rfl

theorem mem_sourcesIn {fs : FileSystem} {directory : Path} {here : Location} {recursive : Bool}
    (hlocate : fs.locate directory = .ok here) {source : Path}
    (h : source ∈ sourcesIn fs directory recursive) :
    ∃ front last bytes, source = directory.below (front ++ [last]) ∧
      fs.get? (here.down (front ++ [last])) = some (.file bytes) ∧
      EndsIn svgEnding (here.down (front ++ [last])) := by
  rw [sourcesIn_of_locate hlocate] at h
  obtain ⟨names, hnames, rfl⟩ := List.mem_map.1 h
  obtain ⟨⟨bytes, hfile⟩, -⟩ := mem_filesBelow_iff.1 hnames
  obtain ⟨hnonempty, hending⟩ := endsIn_of_mem_filesBelow hnames
  obtain ⟨front, last, rfl⟩ := (List.eq_nil_or_concat names).resolve_left hnonempty
  rw [List.concat_eq_append] at hfile hending ⊢
  exact ⟨front, last, bytes, rfl, hfile, hending⟩

theorem exists_of_mem_others {fs : FileSystem} {directory : Path} {here : Location}
    {recursive : Bool} {front behind : List (List CodeText)} {bad : List CodeText}
    (hfile : fs.get? (here.down bad) ≠ some .directory)
    (hsplit : fs.filesBelow here svgEnding recursive = front ++ bad :: behind) {source : Path}
    (h : source ∈ front.map directory.below ++ behind.map directory.below) :
    ∃ names bytes, source = directory.below names ∧
      names ∈ fs.filesBelow here svgEnding recursive ∧
      fs.get? (here.down names) = some (.file bytes) ∧ here.down names ≠ here.down bad := by
  rw [← List.map_append, ← filesBelow_delete hsplit] at h
  obtain ⟨names, hmem, rfl⟩ := List.mem_map.1 h
  obtain ⟨⟨bytes, hbytes⟩, hlooked⟩ := mem_filesBelow_iff.1 hmem
  rw [get?_delete hfile] at hbytes
  split at hbytes
  · cases hbytes
  · next hne =>
    exact ⟨names, bytes, rfl, mem_filesBelow_iff.2 ⟨⟨bytes, hbytes⟩, hlooked⟩, hbytes, hne⟩

/-- A failure has a row of its own, and the other rows are those of the other outcomes. -/
theorem rows_without {before others : List Outcome} {bad : Path} {fault : Fault}
    {rows rows' : List Row}
    (h : (before ++ failure bad fault :: others).mapM Outcome.row = .ok rows)
    (h' : (before ++ others).mapM Outcome.row = .ok rows') :
    ∃ front row behind, rows = front ++ row :: behind ∧ rows' = front ++ behind ∧
      front.length = before.length ∧ row.status = Status.error.name := by
  obtain ⟨front, rest, hfront, hrest, rfl⟩ := mapM_append_eq_ok h
  obtain ⟨front', behind, hfront', hbehind, rfl⟩ := mapM_append_eq_ok h'
  obtain rfl := Except.ok.inj (hfront.symm.trans hfront')
  rw [List.mapM_cons, hbehind] at hrest
  obtain rfl := Except.ok.inj hrest
  exact ⟨front, _, behind, rfl, rfl, (mapM_eq_ok_iff.1 hfront).length_eq.symm, rfl⟩

/-- **A source that fails leaves no trace in a run over its directory.** -/
theorem convertDirectory_without {directory : Path} {here : Location} {recursive : Bool}
    {w : Workspace} (hsearch : Searchable c.room.searching w.files directory recursive)
    (hlocate : w.files.locate directory = .ok here) (hstays : c.generator.StaysInFolder)
    {front behind : List (List CodeText)} {bad : List CodeText}
    (hsplit : w.files.filesBelow here svgEnding recursive = front ++ bad :: behind)
    (hnames : ∀ names ∈ front ++ bad :: behind,
      ¬ svgEnding <:+ c.generator.fileName (baseName (directory.below names)))
    (hspoilt : c.Spoilt w.files (here.down bad))
    (houtput : ∀ folder, c.outputDirectory = some folder → Avoids folder (here.down bad))
    {rows : List Row} {after : Workspace}
    (h : (c.convertDirectory directory recursive).perform w = (.ok rows, after)) :
    ∃ before row others after', rows = before ++ row :: others ∧ before.length = front.length ∧
      row.status = Status.error.name ∧
      (c.convertDirectory directory recursive).perform
        { w with files := w.files.delete (here.down bad) } = (.ok (before ++ others), after') ∧
      after'.asked = after.asked ∧
      ∀ place, place ≠ here.down bad → after'.files.get? place = after.files.get? place := by
  have hbad : bad ∈ w.files.filesBelow here svgEnding recursive := by simp [hsplit]
  obtain ⟨⟨content, hcontent⟩, -⟩ := mem_filesBelow_iff.1 hbad
  have hfile : w.files.get? (here.down bad) ≠ some .directory := by
    rw [hcontent]
    rintro ⟨⟩
  have hsources : ∀ source ∈ front.map directory.below ++ behind.map directory.below,
      KeepsTo source (· ≠ here.down bad) := by
    intro source hsource
    obtain ⟨names, bytes, rfl, -, hbytes, hne⟩ := exists_of_mem_others hfile hsplit hsource
    exact keepsTo_below hlocate hbytes hcontent hne
  have houtputs : ∀ source ∈ front.map directory.below ++ behind.map directory.below,
      c.OutputKeepsTo source (· ≠ here.down bad) := by
    intro source hsource
    obtain ⟨names, bytes, rfl, hmem, hbytes, -⟩ := exists_of_mem_others hfile hsplit hsource
    exact outputKeepsTo_of_avoids hstays (hnames names (hsplit ▸ hmem))
      (avoids_folder hlocate hbytes (endsIn_of_mem_filesBelow hmem).1 hcontent houtput)
      (endsIn_of_mem_filesBelow hbad).2
  -- Both runs begin with the same files elsewhere.
  have hdirectory : w.files.get? here = some .directory := by
    obtain ⟨found, hfound, hdirectory⟩ := isDirectory_eq_true_iff.1 hsearch.1
    rw [hlocate, Except.ok.injEq] at hfound
    rwa [hfound]
  obtain ⟨hlocate', hsearch'⟩ := searchable_delete hsearch hlocate hdirectory hcontent
  obtain ⟨noted, outcomes, rows₁, final, halike, hrun, hrows, hperform, -⟩ :=
    c.convertDirectory_rows hsearch
  obtain ⟨noted', outcomes', rows', after', halike', hrun', hrows', hperform', -⟩ :=
    c.convertDirectory_rows (w := { w with files := w.files.delete (here.down bad) }) hsearch'
  rw [h] at hperform
  obtain ⟨hsame, rfl⟩ := Prod.mk.inj hperform
  obtain rfl := Except.ok.inj hsame
  rw [sourcesIn_of_locate hlocate, hsplit, List.map_append, List.map_cons] at hrun
  rw [sourcesIn_of_locate hlocate', filesBelow_delete hsplit, List.map_append] at hrun'
  have hdeleted : AlikeAt (· ≠ here.down bad) w
      { w with files := w.files.delete (here.down bad) } := ⟨agree_delete hfile, rfl, rfl⟩
  obtain ⟨before, fault, others, left, rfl, hlength, hwithout, hleft⟩ :=
    run_without (hdeleted.of_alike halike halike') hsources houtputs
      (fun fs hsame => prepared_of_spoilt hlocate hspoilt (hsame.trans (by rw [halike.files]))) hrun
  rw [hrun'] at hwithout
  obtain ⟨hsame, rfl⟩ := Prod.mk.inj hwithout
  obtain rfl := Except.ok.inj hsame
  obtain ⟨rowsBefore, row, rowsOthers, rfl, rfl, hrowsLength, hstatus⟩ := rows_without hrows hrows'
  refine ⟨rowsBefore, row, rowsOthers, after', rfl, ?_, hstatus, hperform', hleft.asked,
    hleft.files⟩
  rw [hrowsLength, hlength, List.length_map]

/-- **A run over a directory is complete, and its failures stay alone.** When the sources in the
directory can be found, the run gives one row for each of them, and its summary counts each row
once.

Furthermore, components stay in their folder and are not named like SVG files: then a source whose
content gives no graphic, and that the output directory does not lead through, has an error for a
row, and all other rows and all other files are the same when it is deleted beforehand. -/
theorem convertDirectory_complete (c : Converter) (directory : Path) (recursive : Bool)
    (w : Workspace) (hsearch : Searchable c.room.searching w.files directory recursive) :
    ∃ here found rows after, w.files.locate directory = .ok here ∧
      Lists w.files directory here recursive found ∧
      (c.convertDirectory directory recursive).perform w = (.ok rows, after) ∧
      rows.map Row.source = found.map (fun names => (directory.below names).text) ∧
      (Summary.ofRows rows).total = rows.length ∧
      (Summary.ofRows rows).total = (Summary.ofRows rows).created +
        (Summary.ofRows rows).skipped + (Summary.ofRows rows).error ∧
      (c.generator.StaysInFolder →
        (∀ names ∈ found,
          ¬ svgEnding <:+ c.generator.fileName (baseName (directory.below names))) →
        ∀ front bad behind, found = front ++ bad :: behind → c.Spoilt w.files (here.down bad) →
          (∀ folder, c.outputDirectory = some folder → Avoids folder (here.down bad)) →
          ∃ before row others after', rows = before ++ row :: others ∧
            before.length = front.length ∧ row.status = Status.error.name ∧
            (c.convertDirectory directory recursive).perform
              { w with files := w.files.delete (here.down bad) } = (.ok (before ++ others), after') ∧
            after'.asked = after.asked ∧
            ∀ place, place ≠ here.down bad → after'.files.get? place = after.files.get? place) := by
  obtain ⟨here, hlocate, hdirectory⟩ : ∃ here, w.files.locate directory = .ok here ∧
      w.files.get? here = some .directory := isDirectory_eq_true_iff.1 hsearch.1
  obtain ⟨noted, outcomes, rows, after, halike, hrun, hrows, hperform, hsources, hstatuses⟩ :=
    c.convertDirectory_rows hsearch
  rw [sourcesIn_of_locate hlocate] at hrun hsources
  obtain ⟨htotal, hcounts⟩ := Summary.total_ofRows hstatuses
  refine ⟨here, _, rows, after, hlocate, lists_filesBelow w.files directory here recursive,
    hperform, by rw [hsources, List.map_map]; rfl, htotal, hcounts, ?_⟩
  intro hstays hnames front bad behind hsplit hspoilt houtput
  exact convertDirectory_without hsearch hlocate hstays hsplit (hsplit ▸ hnames) hspoilt houtput
    hperform

/-! ## An icon that is no text -/

/-- An icon, and beside it a file that is no text. -/
def spoiltIcons : FileSystem where
  entries :=
    [(Location.top.within "in", .directory),
     ((Location.top.within "in").within "a.svg", .file [0xff]),
     ((Location.top.within "in").within "b.svg",
       .file (Text.Utf8.encode "<svg viewBox=\"0 0 1 1\"><g/></svg>".toList))]
  named := by decide
  nodup := by decide
  rooted := by decide

theorem locate_spoiltIcons :
    spoiltIcons.locate (Path.ofText "in") = .ok (Location.top.within "in") := by
  decide

theorem filesBelow_spoiltIcons :
    spoiltIcons.filesBelow (Location.top.within "in") svgEnding false =
      [[CodeText.ofString "a.svg"], [CodeText.ofString "b.svg"]] := by
  rw [filesBelow_of_sorted (by decide)]
  decide

def spoiltRun : Except Fault (List Row) × Workspace :=
  (gatheringConverter.convertDirectory (Path.ofText "in") false).perform { files := spoiltIcons }

theorem searchable_spoiltIcons : Searchable 8 spoiltIcons (Path.ofText "in") false :=
  searchable_of_answered locate_spoiltIcons (by decide) (by decide)

theorem status_spoiltRun :
    spoiltRun.1.toOption.map (List.map Row.status) = some ["error", "created"] := by
  have hrun : spoiltRun = _ := perform_convertDirectory searchable_spoiltIcons
  rw [hrun, sourcesIn_of_locate locate_spoiltIcons, filesBelow_spoiltIcons]
  decide +kernel

/-- The file that is no text is an error, and without it the row of the icon is the same. -/
theorem convertDirectory_complete_spoilt :
    Searchable 8 spoiltIcons (Path.ofText "in") false ∧ ∃ row other after after',
      spoiltRun = (.ok [row, other], after) ∧ row.status = "error" ∧ other.status = "created" ∧
      (gatheringConverter.convertDirectory (Path.ofText "in") false).perform
        { files := spoiltIcons.delete ((Location.top.within "in").within "a.svg") } =
          (.ok [other], after') ∧
      ∀ place, place ≠ (Location.top.within "in").within "a.svg" →
        after'.files.get? place = after.files.get? place := by
  refine ⟨searchable_spoiltIcons, ?_⟩
  obtain ⟨here, found, rows, after, hlocate, hlists, hperform, -, -, -, hwithout⟩ :=
    convertDirectory_complete gatheringConverter (Path.ofText "in") false { files := spoiltIcons }
      searchable_spoiltIcons
  obtain rfl : Location.top.within "in" = here :=
    Except.ok.inj (locate_spoiltIcons.symm.trans hlocate)
  rw [hlists.eq_filesBelow] at hwithout
  have hstatus := status_spoiltRun
  rw [spoiltRun, hperform] at hstatus
  replace hstatus : rows.map Row.status = ["error", "created"] := Option.some.inj hstatus
  -- The one byte of the file begins no character.
  have hspoilt : gatheringConverter.Spoilt spoiltIcons
      ((Location.top.within "in").down [CodeText.ofString "a.svg"]) := by
    refine ⟨[0xff], by decide, fun text htext => ?_⟩
    have hbroken : (Storage.textOfBytes [0xff]).toOption = none := by decide
    rw [htext] at hbroken
    cases hbroken
  have hoff : ∀ folder, gatheringConverter.outputDirectory = some folder →
      Avoids folder ((Location.top.within "in").down [CodeText.ofString "a.svg"]) := by
    rintro folder ⟨⟩
    exact avoids_of_inits (by decide)
  obtain ⟨before, row, others, after', rfl, hlength, herror, hperform', -, hfiles⟩ :=
    hwithout (by decide) (by rw [filesBelow_spoiltIcons]; decide) []
      [CodeText.ofString "a.svg"] [[CodeText.ofString "b.svg"]] filesBelow_spoiltIcons hspoilt hoff
  obtain rfl := List.length_eq_zero_iff.1 hlength
  rw [List.nil_append, List.map_cons, List.cons.injEq] at hstatus
  obtain ⟨other, rfl, hother⟩ : ∃ other, others = [other] ∧ other.status = "created" := by
    cases others with
    | nil => cases hstatus.2
    | cons other rest =>
        rw [List.map_cons, List.cons.injEq] at hstatus
        exact ⟨other, by rw [List.map_eq_nil_iff.1 hstatus.2.2], hstatus.2.1⟩
  exact ⟨row, other, after, after', hperform, hstatus.1, hother, hperform', hfiles⟩

end Converter

end IconForge
