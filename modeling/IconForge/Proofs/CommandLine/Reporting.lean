import IconForge.CommandLine.Run
import IconForge.Proofs.Conversion.Configuration
import IconForge.Proofs.Files.Reach
import IconForge.Toolkit.Standard

set_option autoImplicit false

/-! # The report of a run

A run that is asked for a report writes two files behind the conversions: the table of its rows, and
beside it the record of the run. Each of them is written after the directories above it were made
(`WritesFile`), and what is written can be read back. The report is still there behind the record
(`WritesFile.read_kept`), since the two lead to different places, unless the report has the name of
the record. Then the record takes its place.

The main statement is `run_report`: what the two files of a run hold. -/

namespace IconForge

open IconForge.Action FileSystem Text.Encoding

/-! ## Chunks -/

namespace Text.Encoding

theorem encode_flatten_of_encodeChunks {chunks : List CodeText} {bytes : List UInt8}
    (h : encodeChunks chunks = (bytes, none)) : encode .content chunks.flatten = .ok bytes := by
  induction chunks generalizing bytes with
  | nil =>
      obtain ⟨rfl, -⟩ := Prod.mk.inj h
      rfl
  | cons chunk chunks ih =>
      rw [encodeChunks] at h
      cases hchunk : encode .content chunk with
      | error fault =>
          rw [hchunk] at h
          cases h
      | ok front =>
          rcases hrest : encodeChunks chunks with ⟨more, fault⟩
          simp only [hchunk, hrest] at h
          obtain ⟨rfl, rfl⟩ := Prod.mk.inj h
          obtain ⟨hfront, rfl⟩ := encode_content_eq_ok_iff.1 hchunk
          obtain ⟨hmore, rfl⟩ := encode_content_eq_ok_iff.1 (ih hrest)
          rw [List.flatten_cons]
          exact encode_content_eq_ok_iff.2
            ⟨hasBytes_append.2 ⟨hfront, hmore⟩, List.flatMap_append.symm⟩

end Text.Encoding

/-! ## Files beside each other -/

namespace Path

theorem withName_parts {path : Path} {name : CodeText} (hname : isPathPart name) :
    (path.withName name).parts = path.parts.dropLast ++ [name] := by
  refine List.filter_eq_self.2 fun part hpart => ?_
  rcases List.mem_append.1 hpart with hfront | hlast
  · exact path.proper part (List.mem_of_mem_dropLast hfront)
  · rw [List.mem_singleton.1 hlast]
    exact hname

end Path

namespace FileSystem

/-- Whatever leads to no directory leads down by the last part of its path. -/
theorem locate_eq_within {fs : FileSystem} {path : Path} {location : Location}
    (hlocate : fs.locate path = .ok location) (hfile : fs.get? location ≠ some .directory) :
    ∃ last, path.parts = path.parts.dropLast ++ [last] ∧
      location = (walk .top (path.parts.dropLast.map spellName)).within (spellName last) := by
  obtain ⟨names, hnames, rfl, -⟩ := locate_eq_ok_iff.1 hlocate
  obtain ⟨-, -, -, rfl⟩ := namesOf_eq_ok_iff.1 hnames
  rcases List.eq_nil_or_concat path.parts with hnil | ⟨front, last, hparts⟩
  · rw [hnil] at hfile
    exact absurd fs.get?_top hfile
  · rw [List.concat_eq_append] at hparts
    have hup : spellName last ≠ upwards := fun hup => hfile (get?_of_upwards hparts hup hlocate)
    refine ⟨last, by rw [hparts, List.dropLast_concat], ?_⟩
    rw [hparts, List.dropLast_concat, List.map_append, List.map_singleton, walk_append, walk_cons,
      step_of_ne hup]
    rfl

/-- Two files beside each other are at different places when one of them has a name in ASCII that
the other has not. -/
theorem location_ne_of_name_ne {fs : FileSystem} {path other : Path} {name : String}
    (hascii : ∀ c ∈ name.toList, c.toNat < 0x80) (hpart : isPathPart name)
    (hother : other = path.withName name) (hname : path.name ≠ CodeText.ofString name)
    {location location' : Location} (hlocate : fs.locate path = .ok location)
    (hfile : fs.get? location ≠ some .directory) (hlocate' : fs.locate other = .ok location')
    (hfile' : fs.get? location' ≠ some .directory) : location ≠ location' := by
  rintro rfl
  obtain ⟨last, hparts, hlocation⟩ := locate_eq_within hlocate hfile
  obtain ⟨last', hparts', hlocation'⟩ := locate_eq_within hlocate' hfile'
  rw [hother, Path.withName_parts hpart, List.dropLast_concat] at hparts' hlocation'
  obtain ⟨-, hlast'⟩ := List.append_inj' hparts' rfl
  obtain rfl := List.singleton_inj.1 hlast'
  rw [hlocation] at hlocation'
  have hspelled : spellName last = spellName (CodeText.ofString name) :=
    (List.cons.inj (congrArg Location.names hlocation')).1
  rw [(hasBytes_ofString name).spellName] at hspelled
  -- Only a name in ASCII is spelled in ASCII, so the last part is that name.
  obtain ⟨names, hnames, -⟩ := locate_eq_ok_iff.1 hlocate
  have hlast : last ∈ path.parts := hparts ▸ List.mem_append_right _ (List.mem_singleton_self last)
  have hfault : faultFrom? .name 0 last = none :=
    faultFrom?_eq_none_iff.2 fun half hhalf =>
      (parts_of_namesOf hnames last hlast _ hhalf).2 half rfl
  have hlastName : last = CodeText.ofString name :=
    eq_of_spellName_eq hascii (pointBytes_ne_nil hfault) hspelled
  exact hname (by rw [← hlastName, Path.name, hparts, List.getLastD_concat])

namespace WritesFile

variable {path other : Path} {bytes bytes' : List UInt8} {before between after : FileSystem}

/-- **A file stays when another one is written beside it**, if that has a name in ASCII that it has
not itself. -/
theorem read_kept {name : String} (hascii : ∀ c ∈ name.toList, c.toNat < 0x80)
    (hpart : isPathPart name) (hother : other = path.withName name)
    (hname : path.name ≠ CodeText.ofString name) (h : WritesFile path bytes before between)
    (h' : WritesFile other bytes' between after) : after.read path = .ok bytes := by
  obtain ⟨made, hadds, hwrite⟩ := h
  obtain ⟨location, -, hlocate, hfile, -⟩ := made_write_effect hadds hwrite
  obtain ⟨made', hadds', hwrite'⟩ := h'
  obtain ⟨location', hmade', hlocate', hfile', -, hothers⟩ := made_write_effect hadds' hwrite'
  -- Both places are found while the file that is written last is not there yet.
  have hlocate'' := hadds'.grows.locate hlocate
  have hfile'' := hadds'.grows _ _ hfile
  obtain ⟨_, hmade, hroom, -⟩ := write_effect hwrite'
  obtain rfl := Except.ok.inj (hmade'.symm.trans hmade)
  have hne : location ≠ location' := location_ne_of_name_ne hascii hpart hother hname hlocate''
    (by rw [hfile'']; rintro ⟨⟩) hmade' hroom
  have hkept : after.get? location = some (.file bytes) := by
    rcases hothers location hne with heq | ⟨hnone, -, -⟩
    · rw [heq, hfile]
    · rw [hfile] at hnone
      cases hnone
  have hlast := (hadds'.grows.develops.trans (develops_of_write hwrite'))
  rw [FileSystem.read, locate_of_directories (fun _ => hlast.directory) hlocate]
  simp only [hkept]

end WritesFile

end FileSystem

namespace Storage

variable {tools : Report.Tools} {room : Room} {path : Path} {w after : Workspace}

/-! ## Reports -/

theorem perform_checkEncoding_eq_ok {fault : Option Text.Encoding.Fault}
    (h : (checkEncoding fault).perform w = (.ok (), after)) : fault = none ∧ after = w := by
  cases fault with
  | none => exact ⟨rfl, (Prod.mk.inj h).2.symm⟩
  | some fault => cases h

/-- Chunks that were written are the bytes of their text, in their form. -/
theorem perform_writeChunks_eq_ok {form : List UInt8 → List UInt8} {chunks : List CodeText}
    (h : (writeChunks path form chunks).perform w = (.ok (), after)) :
    ∃ bytes, encode .content chunks.flatten = .ok bytes ∧
      w.files.write path (form bytes) = .ok after.files := by
  rw [writeChunks] at h
  rcases hchunks : encodeChunks chunks with ⟨bytes, fault⟩
  rw [hchunks] at h
  obtain ⟨_, between, hwrite, hcheck⟩ := perform_bind_eq_ok h
  obtain ⟨rfl, rfl⟩ := perform_checkEncoding_eq_ok hcheck
  refine ⟨bytes, encode_flatten_of_encodeChunks hchunks, ?_⟩
  rw [perform_writeBytes] at hwrite
  cases hfile : w.files.write path (form bytes) with
  | error fault =>
      rw [hfile] at hwrite
      cases hwrite
  | ok left =>
      rw [hfile] at hwrite
      obtain ⟨-, rfl⟩ := Prod.mk.inj hwrite
      rfl

theorem onlyLogs_readLocal (name : String) : OnlyLogs (readLocal name) := by
  refine onlyLogs_files.bind fun fs => ?_
  cases Report.readLocal fs name with
  | ok bytes => exact onlyLogs_pure ()
  | error fault =>
      dsimp only
      split
      · exact onlyLogs_throw _
      · exact onlyLogs_throw _

/-- A report that went where its path leads is in a file, or it was for an address. -/
theorem perform_writeReport_eq_ok {chunks : List CodeText}
    (h : (writeReport tools path chunks).perform w = (.ok (), after)) :
    Report.Destination.ofPath path = .file ∧
        (∃ bytes, encode .content chunks.flatten = .ok bytes ∧
          w.files.write path (tools.packed path bytes) = .ok after.files) ∨
      Report.Destination.ofPath path ≠ .file ∧ after.files = w.files := by
  unfold writeReport at h
  cases hdestination : Report.Destination.ofPath path with
  | unreachable fault =>
      rw [hdestination] at h
      cases h
  | localSource name =>
      simp only [hdestination, reduceCtorEq, if_false] at h
      obtain ⟨_, between, hread, hrest⟩ := perform_bind_eq_ok h
      refine Or.inr ⟨by rintro ⟨⟩, ?_⟩
      split_ifs at hrest with hpacking
      · cases hrest
      · rw [(perform_checkEncoding_eq_ok hrest).2, ((onlyLogs_readLocal name).alike hread).files]
  | file =>
      simp only [hdestination, if_true] at h
      refine Or.inl ⟨rfl, ?_⟩
      split_ifs at h with hpacking
      · cases h
      · exact perform_writeChunks_eq_ok h

/-- **A report that was saved** is in a file behind the directories above it, or nothing but these
directories was made. -/
theorem perform_saveResults_eq_ok {results : Report.Results}
    (h : (saveResults tools room results path).perform w = (.ok (), after)) :
    Report.Destination.ofPath path = .file ∧
        (∃ pieces bytes, tools.pieces (isJsonReport path) (tools.table results) = .ok pieces ∧
          encode .content pieces.flatten = .ok bytes ∧
          WritesFile path (tools.packed path bytes) w.files after.files) ∨
      Report.Destination.ofPath path ≠ .file := by
  obtain ⟨_, made, hmake, hreport⟩ := perform_bind_eq_ok h
  obtain ⟨between, hperform, halike⟩ := reporting_effect hreport
  obtain ⟨pieces, lifted, hlift, hwrite⟩ := perform_bind_eq_ok hperform
  obtain ⟨hpieces, rfl⟩ := perform_lift_eq_ok hlift
  obtain ⟨_, left, hleft, hnote⟩ := perform_bind_eq_ok hwrite
  rw [perform_note] at hnote
  obtain ⟨-, rfl⟩ := Prod.mk.inj hnote
  refine (perform_writeReport_eq_ok hleft).imp ?_ And.left
  rintro ⟨hfile, bytes, hencode, hwritten⟩
  refine ⟨hfile, pieces, bytes, hpieces, hencode, lifted.files, ?_, halike.files ▸ hwritten⟩
  rw [perform_makeParents] at hmake
  obtain ⟨-, rfl⟩ := Prod.mk.inj hmake
  exact w.files.makeDirectories_adds room.filing path.parent

end Storage

namespace CommandLine

/-! ## Both files of a run -/

theorem recordName_ascii : ∀ c ∈ recordName.toList, c.toNat < 0x80 := by
  simp [recordName]

theorem isPathPart_recordName : isPathPart recordName := by
  decide

section

variable {tools : Report.Tools} {room : Room} {report : Path} {rows : List Row} {record : Json}
  {w after : Workspace}

/-- **Both files of a report that was written**: the record is beside the report, and the report is
still there unless it has the name of the record or is for an address. -/
theorem perform_writeReport_eq_ok
    (h : (writeReport tools room report rows record).perform w = (.ok (), after)) :
    after.files.read (report.withName recordName) =
        .ok (Text.Utf8.encode record.write.toList) ∧
      (report.name ≠ CodeText.ofString recordName → Report.Destination.ofPath report = .file →
        ∃ pieces bytes contents,
          tools.pieces (Storage.isJsonReport report) (Row.table rows) = .ok pieces ∧
          encode .content pieces.flatten = .ok bytes ∧
          after.files.read report = .ok contents ∧ tools.Holds report bytes contents) := by
  obtain ⟨_, between, hresults, hrecord⟩ := perform_bind_eq_ok h
  have hbeside := Storage.perform_saveConfiguration_eq_ok hrecord
  refine ⟨hbeside.read, fun hname hfile => ?_⟩
  rcases Storage.perform_saveResults_eq_ok hresults with
    ⟨-, pieces, bytes, hpieces, hencode, hreport⟩ | hno
  · exact ⟨pieces, bytes, _, hpieces, hencode,
      hreport.read_kept recordName_ascii isPathPart_recordName rfl hname hbeside,
      tools.holds_packed report bytes⟩
  · exact absurd hfile hno

end

/-- The workspace that a run begins with. -/
def openingWorkspace (terminal : Option String) (fs : FileSystem) : Workspace :=
  { files := fs, answers := (terminal.map typedAnswers).getD ⟨[], none⟩ }

section

variable {tools : Report.Tools} {room : Room} {argv : List String} {arguments : Arguments}
  {terminal : Option String} {fs : FileSystem} {summary : Summary} {after : Workspace}

/-- A run leaves behind what doing what its arguments ask for leaves behind. -/
theorem files_run (hparse : parse argv = .ok arguments)
    (hdone : (execute tools room arguments terminal.isSome).perform (openingWorkspace terminal fs) =
      (.ok summary, after)) : (run tools room argv terminal fs).files = after.files := by
  have hcode :
      (exitCode tools room arguments terminal.isSome).perform (openingWorkspace terminal fs) =
      (.ok (if summary.error = 0 then 0 else 1), after) := by
    rw [exitCode, perform_tryCatch, perform_bind, hdone]
    rfl
  rw [run, hparse]
  show ((exitCode tools room arguments terminal.isSome).perform
    (openingWorkspace terminal fs)).2.files = _
  rw [hcode]

theorem summary_ofRows (rows : List Row) :
    (Summary.ofRows rows).total = rows.length ∧
      (Summary.ofRows rows).created = rows.countP (·.status = "created") ∧
      (Summary.ofRows rows).skipped = rows.countP (·.status = "skipped") ∧
      (Summary.ofRows rows).error = rows.countP (·.status = "error") := by
  have hcount : ∀ status : String, (rows.map Row.status).count status =
      rows.countP (·.status = status) := by
    intro status
    rw [List.count_eq_countP, List.countP_map]
    exact List.countP_congr fun row _ => by simp
  exact ⟨List.length_map _, hcount _, hcount _, hcount _⟩

/-- **The files of a run with a report.** When a run has come to its end, the record beside its
report holds the input, the settings and the counts of the rows. The report holds the table of the
rows as the tools write it, unless it has the name of the record, or is for an address. -/
theorem run_report {report : String} (hparse : parse argv = .ok arguments)
    (hreport : arguments.report = .given report) (hne : report ≠ "")
    (hdone : (execute tools room arguments terminal.isSome).perform (openingWorkspace terminal fs) =
      (.ok summary, after)) :
    ∃ settings generator rows loaded converted,
      (Settings.load room arguments.config.text?).perform (openingWorkspace terminal fs) =
        (.ok settings, loaded) ∧
      settings.generator = .ok generator ∧
      (convert (converterFor room arguments settings generator terminal.isSome)
        (Path.ofText arguments.input) arguments.recursive).perform loaded = (.ok rows, converted) ∧
      (run tools room argv terminal fs).files.read ((Path.ofText report).withName recordName) =
        .ok (Text.Utf8.encode
          (runRecord (Path.ofText arguments.input) settings summary).write.toList) ∧
      (summary.total = rows.length ∧ summary.created = rows.countP (·.status = "created") ∧
        summary.skipped = rows.countP (·.status = "skipped") ∧
        summary.error = rows.countP (·.status = "error")) ∧
      ((Path.ofText report).name ≠ CodeText.ofString recordName →
        Report.Destination.ofPath (Path.ofText report) = .file →
        ∃ pieces bytes contents,
          tools.pieces (Storage.isJsonReport (Path.ofText report)) (Row.table rows) = .ok pieces ∧
          encode .content pieces.flatten = .ok bytes ∧
          (run tools room argv terminal fs).files.read (Path.ofText report) = .ok contents ∧
          tools.Holds (Path.ofText report) bytes contents) := by
  rw [files_run hparse hdone]
  obtain ⟨settings, loaded, hload, hsettled⟩ := perform_bind_eq_ok hdone
  obtain ⟨generator, lifted, hlift, hrest⟩ := perform_bind_eq_ok hsettled
  obtain ⟨hgenerator, rfl⟩ := perform_lift_eq_ok hlift
  obtain ⟨rows, converted, hconvert, hrest⟩ := perform_bind_eq_ok hrest
  obtain ⟨_, noted, -, hrest⟩ := perform_bind_eq_ok hrest
  -- There is a report to be written, and behind that nothing is left to do.
  simp only [hreport, OptionValue.text?] at hrest
  obtain ⟨_, written, hwrite, hreturn⟩ := perform_bind_eq_ok hrest
  obtain ⟨hsummary, rfl⟩ := Prod.mk.inj hreturn
  obtain rfl := Except.ok.inj hsummary
  obtain ⟨hrecord, htable⟩ := perform_writeReport_eq_ok hwrite
  exact ⟨settings, generator, rows, lifted, converted, hload, hgenerator, hconvert, hrecord,
    summary_ofRows rows, htable⟩

end

/-! ## The report on a single icon -/

/-- A single icon. -/
def starIcon : FileSystem where
  entries :=
    [(Location.top.within "star.svg",
      .file (Text.Utf8.encode "<svg viewBox=\"0 0 1 1\"><g/></svg>".toList))]
  named := by decide
  nodup := by decide
  rooted := by decide

/-- The arguments that ask for a report on it. -/
def starArguments : Arguments :=
  ⟨"star.svg", .absent, .given "out/r.csv", .absent, false, false, false, false⟩

theorem parse_starArguments :
    parse ["star.svg", "--report", "out/r.csv"] = .ok starArguments := rfl

/-- Doing what they ask for, with the tools at hand and some room. -/
def starWork : Action Summary :=
  execute .standard (.ofLevels 8) starArguments (none : Option String).isSome

theorem summary_starWork :
    (starWork.perform (openingWorkspace none starIcon)).1.toOption = some ⟨1, 1, 0, 0⟩ := by
  -- Whatever the text of the record is, it has bytes, and its integers are short.
  unfold starWork execute writeReport
  simp only [Storage.saveConfiguration_eq]
  unfold Storage.writeText Storage.writeChunks
  simp only [encodeChunks_ofString, Json.writeWithin_snd, Room.ofLevels]
  decide +kernel

/-- The report on the icon is the CSV of its one row. -/
theorem run_report_star :
    parse ["star.svg", "--report", "out/r.csv"] = .ok starArguments ∧
      starArguments.report = .given "out/r.csv" ∧ "out/r.csv" ≠ "" ∧
      ∃ after, starWork.perform (openingWorkspace none starIcon) = (.ok ⟨1, 1, 0, 0⟩, after) ∧
        ∃ rows bytes, rows.length = 1 ∧ rows.countP (·.status = "created") = 1 ∧
          encode .content (Report.Tools.standard.csv (Row.table rows)).flatten = .ok bytes ∧
          (run .standard (.ofLevels 8) ["star.svg", "--report", "out/r.csv"] none
            starIcon).files.read (Path.ofText "out/r.csv") = .ok bytes := by
  refine ⟨parse_starArguments, rfl, by decide, ?_⟩
  have hsummary := summary_starWork
  rcases hdone : starWork.perform (openingWorkspace none starIcon) with ⟨fault | summary, after⟩
  · rw [hdone] at hsummary
    cases hsummary
  · rw [hdone] at hsummary
    obtain rfl := Option.some.inj hsummary
    obtain ⟨settings, generator, rows, -, -, -, -, -, -, ⟨htotal, hcreated, -, -⟩, hreport⟩ :=
      run_report parse_starArguments rfl (by decide) hdone
    obtain ⟨pieces, bytes, contents, hpieces, hencode, hread, hholds⟩ :=
      hreport (by decide) (by decide)
    have hcsv : Storage.isJsonReport (Path.ofText "out/r.csv") = false := by decide
    have hplain : Report.Packing.ofPath (Path.ofText "out/r.csv") = .plain := by decide
    rw [hcsv] at hpieces
    obtain rfl := Except.ok.inj hpieces
    rw [Report.Tools.Holds, hplain] at hholds
    obtain rfl : contents = bytes := hholds
    exact ⟨after, rfl, rows, _, htotal.symm, hcreated.symm, hencode, hread⟩

end CommandLine

end IconForge
