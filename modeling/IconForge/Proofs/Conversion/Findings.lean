import IconForge.Proofs.Conversion.DirectoryRun
import IconForge.Proofs.Results

set_option autoImplicit false

/-! # What a conversion finds out

Until a conversion delivers its component, it only looks at the files and writes to its log
(`Action.Reads`). So what it finds out about a source is a function of the files (`prepared`), and
so are the result of saving a component and the files behind it (`Storage.saved`).

In a run, a conversion takes one of four courses (`Course`) and always has an outcome: the fault
that it ended with, or what was found out, created or skipped. Such an outcome can be shown, so a
run over a directory whose sources can be found always gives rows (`convertDirectory_rows`). -/

namespace IconForge

open IconForge.Action FileSystem Text.Encoding

namespace Action

variable {α β : Type}

/-! ## Actions that only look -/

/-- Whether an action does no more than look at the files and write to its log; its result is a
function of the files. -/
def Reads (action : Action α) (value : FileSystem → Except Fault α) : Prop :=
  ∀ w, (action.perform w).1 = value w.files ∧ Alike w (action.perform w).2

theorem reads_pure (value : α) : Reads (pure value) fun _ => .ok value :=
  fun w => ⟨rfl, .refl w⟩

theorem reads_throw (fault : Fault) : Reads (throw fault : Action α) fun _ => .error fault :=
  fun w => ⟨rfl, .refl w⟩

theorem reads_note (level : Log.Level) (origin : Log.Origin) (text : CodeText) :
    Reads (note level origin text) fun _ => .ok () :=
  fun _ => ⟨rfl, rfl, rfl, rfl⟩

theorem reads_lift {ε : Type} (fault : ε → Fault) (value : Except ε α) :
    Reads (lift fault value) fun _ => value.mapError fault := by
  intro w
  rw [perform_lift]
  exact ⟨rfl, .refl w⟩

theorem Reads.bind {action : Action α} {value : FileSystem → Except Fault α} {next : α → Action β}
    {rest : α → FileSystem → Except Fault β} (h : Reads action value)
    (hnext : ∀ a, Reads (next a) (rest a)) :
    Reads (action >>= next) fun fs => value fs >>= fun a => rest a fs := by
  intro w
  obtain ⟨hvalue, halike⟩ := h w
  show _ = (value w.files >>= fun a => rest a w.files) ∧ _
  rw [perform_bind, ← hvalue]
  rcases hfirst : action.perform w with ⟨fault | a, between⟩
  · rw [hfirst] at halike
    exact ⟨rfl, halike⟩
  · rw [hfirst] at halike
    obtain ⟨hrest, halike'⟩ := hnext a between
    refine ⟨?_, halike.trans halike'⟩
    rw [hrest, halike.files]
    rfl

theorem Reads.files_bind {next : FileSystem → Action β}
    {rest : FileSystem → FileSystem → Except Fault β} (hnext : ∀ fs, Reads (next fs) (rest fs)) :
    Reads (files >>= next) fun fs => rest fs fs := by
  intro w
  rw [perform_files_bind]
  exact hnext w.files w

/-- Looking at the files once and going on with what was seen. -/
theorem reads_lift_files_bind {ε : Type} (fault : ε → Fault) (look : FileSystem → Except ε α)
    {next : α → Action β} {rest : α → FileSystem → Except Fault β}
    (hnext : ∀ a, Reads (next a) (rest a)) :
    Reads (files >>= fun fs => lift fault (look fs) >>= next)
      fun fs => (look fs).mapError fault >>= fun a => rest a fs :=
  @Reads.files_bind _ _ (fun fs other => (look fs).mapError fault >>= fun a => rest a other)
    fun _ => (reads_lift _ _).bind hnext

theorem Reads.reporting {action : Action α} {value : FileSystem → Except Fault α}
    (h : Reads action value) (origin : Log.Origin) (introduction : CodeText) :
    Reads (reporting origin introduction action) value := by
  intro w
  obtain ⟨hvalue, halike⟩ := h w
  obtain ⟨between, hfirst, halike'⟩ :=
    reporting_effect (rfl : (Action.reporting origin introduction action).perform w = (_, _))
  rw [hfirst] at hvalue halike
  exact ⟨hvalue, halike.trans halike'⟩

theorem Reads.congr {action : Action α} {value value' : FileSystem → Except Fault α}
    (h : Reads action value) (heq : ∀ fs, value fs = value' fs) : Reads action value' := by
  intro w
  rw [← heq]
  exact h w

theorem Reads.perform_eq {action : Action α} {value : FileSystem → Except Fault α}
    (h : Reads action value) {w after : Workspace} {result : Except Fault α}
    (hperform : action.perform w = (result, after)) : result = value w.files ∧ Alike w after := by
  have hread := h w
  rwa [hperform] at hread

end Action

/-! ## Before anything is written -/

namespace Converter

variable {c : Converter}

/-- Whether a source is an SVG file that is there. -/
def resolved (source : Path) (fs : FileSystem) : Except Fault Unit := do
  if !svgEnding.isSuffixOf source.text then throw .notSvgName
  if !(← (fs.isFile source).mapError .file) then throw (.inputNotFound source)

/-- The text of a file that is there. -/
def loaded (source : Path) (fs : FileSystem) : Except Fault String := do
  if !(← (fs.existsAt source).mapError .file) then throw (.sourceMissing source)
  let bytes ← (fs.read source).mapError .file
  (Storage.textOfBytes bytes).mapError .decoding

def sourceText (source : Path) (fs : FileSystem) : Except Fault String := do
  resolved source fs
  loaded source fs

def warningsFor (c : Converter) (graphic : Graphic) : Except Fault (List String) := do
  if c.checksMarkup then
    let offence? ← (Markup.offence? c.maxMarkupSize graphic.namespaces graphic.inner).mapError .limit
    return offence?.toList.map Markup.Offence.message
  else return []

/-- What is made of the text of a source: the graphic, the warnings about it and the component. -/
def understood (c : Converter) (source : Path) (text : String) :
    Except Fault (Graphic × List String × CodeText) := do
  let graphic ← (Graphic.extract c.defaultSize text).mapError .unusable
  let warnings ← c.warningsFor graphic
  let component ← (c.generator.generate (baseName source) graphic).mapError .number
  return (graphic, warnings, component)

/-- What a conversion finds out about its source. -/
def prepared (c : Converter) (source : Path) (fs : FileSystem) :
    Except Fault (Graphic × List String × CodeText) :=
  sourceText source fs >>= c.understood source

theorem reads_resolveInput (source : Path) : Reads (resolveInput source) (resolved source) := by
  unfold resolveInput resolved
  dsimp only
  have hfound : ∀ found : Bool, Reads
      (if (!found) = true then throw (.inputNotFound source) else pure PUnit.unit : Action Unit)
      fun _ => if (!found) = true then throw (.inputNotFound source) else pure PUnit.unit := by
    intro found
    cases found
    · exact reads_throw _
    · exact reads_pure ()
  have hfile := reads_lift_files_bind .file (FileSystem.isFile · source) hfound
  split
  · exact (reads_throw _).bind fun _ => hfile
  · exact hfile

theorem reads_readText (path : Path) : Reads (Storage.readText path) fun fs =>
    (fs.read path).mapError .file >>= fun bytes =>
      (Storage.textOfBytes bytes).mapError .decoding :=
  reads_lift_files_bind .file (FileSystem.read · path) fun _ => reads_lift _ _

theorem reads_loadSvg (source : Path) : Reads (Storage.loadSvg source) (loaded source) := by
  have hread := reads_readText source
  refine reads_lift_files_bind .file (FileSystem.existsAt · source) fun found => ?_
  cases found
  · exact (reads_throw _).bind fun _ => hread.reporting _ _
  · exact hread.reporting _ _

theorem reads_extractGraphic (c : Converter) (source : Path) (text : String) :
    Reads (c.extractGraphic source text) fun _ =>
      (Graphic.extract c.defaultSize text).mapError .unusable := by
  unfold extractGraphic
  dsimp only
  cases Graphic.extract c.defaultSize text with
  | ok graphic =>
      split
      · exact (reads_note _ _ _).bind fun _ => reads_pure graphic
      · exact reads_pure graphic
  | error why =>
      split
      · exact (reads_note _ _ _).bind fun _ => (reads_note _ _ _).bind fun _ => reads_throw _
      · exact (reads_note _ _ _).bind fun _ => reads_throw _

theorem reads_checkMarkup (c : Converter) (source : Path) (graphic : Graphic) :
    Reads (c.checkMarkup source graphic) fun _ => c.warningsFor graphic := by
  unfold checkMarkup warningsFor
  split
  · refine (reads_lift _ _).bind fun offence? => ?_
    cases offence? with
    | none => exact reads_pure []
    | some offence => exact (reads_note _ _ _).bind fun _ => reads_pure [offence.message]
  · exact reads_pure []

theorem reads_generateComponent (c : Converter) (base : String) (graphic : Graphic) :
    Reads (c.generateComponent base graphic) fun _ =>
      (c.generator.generate base graphic).mapError .number :=
  (reads_note _ _ _).bind fun _ => reads_lift _ _

/-- **What is found out about a source is a function of the files.** -/
theorem reads_prepare (c : Converter) (source : Path) :
    Reads (c.prepare source) (c.prepared source) := by
  refine Reads.congr
    ((reads_resolveInput source).bind fun _ => (reads_note _ _ _).bind fun _ =>
      (reads_loadSvg source).bind fun text => (c.reads_extractGraphic source text).bind
        fun graphic => (c.reads_checkMarkup source graphic).bind fun warnings =>
          (c.reads_generateComponent _ graphic).bind fun component =>
            reads_pure (graphic, warnings, component)) fun fs => ?_
  rw [prepared, sourceText]
  cases resolved source fs <;> rfl

theorem understood_of_error {source : Path} {text : String} {why : Unusable}
    (h : Graphic.extract c.defaultSize text = .error why) :
    c.understood source text = .error (.unusable why) := by
  rw [understood, h]
  rfl

theorem understood_of_ok {source : Path} {text : String} {graphic : Graphic}
    (h : Graphic.extract c.defaultSize text = .ok graphic) :
    c.understood source text = c.warningsFor graphic >>= fun warnings =>
      (c.generator.generate (baseName source) graphic).mapError Fault.number >>= fun component =>
        .ok (graphic, warnings, component) := by
  rw [understood, h]
  rfl

/-- **What is found out about a source** comes from its text and the settings. -/
theorem understood_eq_ok {source : Path} {text : String} {graphic : Graphic}
    {warnings : List String} {component : CodeText}
    (h : c.understood source text = .ok (graphic, warnings, component)) :
    Graphic.extract c.defaultSize text = .ok graphic ∧ c.warningsFor graphic = .ok warnings ∧
      c.generator.generate (baseName source) graphic = .ok component := by
  obtain ⟨found, hgraphic, h⟩ := bind_eq_ok_iff.1 h
  obtain ⟨said, hwarnings, h⟩ := bind_eq_ok_iff.1 h
  obtain ⟨made, hcomponent, ⟨⟩⟩ := bind_eq_ok_iff.1 h
  exact ⟨mapError_eq_ok_iff.1 hgraphic, hwarnings, mapError_eq_ok_iff.1 hcomponent⟩

/-- The warnings of a converter that checks are those of the check. -/
theorem warningsFor_of_answer {graphic : Graphic} {answer : Option Markup.Offence}
    (hchecks : c.checksMarkup = true)
    (h : Markup.offence? c.maxMarkupSize graphic.namespaces graphic.inner = .ok answer) :
    c.warningsFor graphic = .ok (answer.toList.map Markup.Offence.message) := by
  rw [warningsFor, if_pos hchecks, h]
  rfl

theorem sourceText_eq_ok {source : Path} {fs : FileSystem} {text : String}
    (h : sourceText source fs = .ok text) :
    ∃ bytes, fs.read source = .ok bytes ∧ Storage.textOfBytes bytes = .ok text := by
  -- Each step in front of reading ends with a fault or changes nothing.
  obtain ⟨_, -, h⟩ := bind_eq_ok_iff.1 h
  obtain ⟨present, -, h⟩ := bind_eq_ok_iff.1 h
  cases present with
  | false => cases h
  | true =>
      obtain ⟨bytes, hread, htext⟩ := bind_eq_ok_iff.1 h
      exact ⟨bytes, mapError_eq_ok_iff.1 hread, mapError_eq_ok_iff.1 htext⟩

theorem prepared_eq_ok {source : Path} {fs : FileSystem} {graphic : Graphic}
    {warnings : List String} {component : CodeText}
    (h : c.prepared source fs = .ok (graphic, warnings, component)) :
    ∃ text, sourceText source fs = .ok text ∧
      c.understood source text = .ok (graphic, warnings, component) := by
  exact bind_eq_ok_iff.1 h

end Converter

/-! ## Saving -/

namespace Storage

/-- What writing a text comes to: its result and the files behind it. -/
def written (text : CodeText) (path : Path) (fs : FileSystem) : Except Fault Unit × FileSystem :=
  match fs.write path (encodeChunks [text]).1 with
  | .error fault => (.error (.file fault), fs)
  | .ok after =>
    match (encodeChunks [text]).2 with
    | none => (.ok (), after)
    | some fault => (.error (.encoding fault), after)

/-- What saving a component comes to: its result and the files behind it. -/
@[irreducible]
def saved (room : Nat) (text : CodeText) (path : Path) (fs : FileSystem) :
    Except Fault Unit × FileSystem :=
  match fs.makeDirectories room path.parent with
  | (.error fault, made) => (.error (.file fault), made)
  | (.ok _, made) => written text path made

theorem perform_writeText (path : Path) (text : CodeText) (w : Workspace) :
    (writeText path text).perform w =
      ((written text path w.files).1, { w with files := (written text path w.files).2 }) := by
  rw [writeText, writeChunks, written]
  rcases encodeChunks [text] with ⟨bytes, fault⟩
  simp only [perform_bind, perform_writeBytes, id_eq]
  cases w.files.write path bytes with
  | error obstacle => rfl
  | ok after => cases fault <;> rfl

/-- **Writing a text behind the directories above it does to the files what `saved` says**, whatever
is noted about it. -/
theorem perform_saved (room : Nat) (text : CodeText) (path : Path) (introduction : CodeText)
    (level : Log.Level) (remark : CodeText) (w : Workspace) :
    ∃ after, (makeParents room path >>= fun _ => reporting .storage introduction
        (writeText path text >>= fun _ => note level .storage remark)).perform w =
          ((saved room text path w.files).1, after) ∧
      after.files = (saved room text path w.files).2 ∧ after.answers = w.answers ∧
      after.asked = w.asked := by
  rw [perform_bind, perform_makeParents, saved]
  rcases w.files.makeDirectories room path.parent with ⟨fault | done, made⟩
  · exact ⟨_, rfl, rfl, rfl, rfl⟩
  · rcases hreport : (reporting .storage introduction
        (writeText path text >>= fun _ => note level .storage remark)).perform
        { w with files := made } with ⟨result, after⟩
    obtain ⟨between, hperform, halike⟩ := reporting_effect hreport
    show ∃ after : Workspace, _ = ((written text path made).1, after) ∧
      after.files = (written text path made).2 ∧ after.answers = w.answers ∧ after.asked = w.asked
    rw [perform_bind, perform_writeText] at hperform
    refine ⟨after, ?_⟩
    rcases hwritten : written text path made with ⟨fault | done, left⟩
    · simp only [hwritten] at hperform
      obtain ⟨rfl, rfl⟩ := Prod.mk.inj hperform
      exact ⟨hreport, halike.files, halike.answers, halike.asked⟩
    · simp only [hwritten] at hperform
      obtain ⟨rfl, rfl⟩ := Prod.mk.inj hperform
      exact ⟨hreport, halike.files, halike.answers, halike.asked⟩

theorem perform_saveComponent (room : Room) (text : CodeText) (path : Path) (w : Workspace) :
    ∃ after, (saveComponent room text path true).perform w =
        ((saved room.making text path w.files).1, after) ∧
      after.files = (saved room.making text path w.files).2 ∧ after.answers = w.answers ∧
      after.asked = w.asked :=
  perform_saved room.making text path ("Error saving component to " ++ path.text) .debug
    ("Component saved to: " ++ path.text) w

end Storage

/-! ## Outcomes -/

namespace Converter

variable {c : Converter}

/-- The outcome of a conversion that ended with a fault. -/
def failure (source : Path) (fault : Fault) : Outcome where
  source := source
  status := .error
  error := some fault.message

/-- What a conversion in a run comes to: its outcome and the files behind it. -/
inductive Course (c : Converter) (source : Path) (before : FileSystem) :
    Outcome → FileSystem → Prop where
  /-- It ended before anything was written. -/
  | failed (fault : Fault) : Course c source before (failure source fault) before
  /-- The component was there and was not replaced. -/
  | skipped (graphic : Graphic) (warnings : List String) (component : CodeText)
      (found : c.prepared source before = .ok (graphic, warnings, component)) :
      Course c source before (c.outcomeOf source graphic warnings .skipped) before
  /-- The component was saved. -/
  | created (graphic : Graphic) (warnings : List String) (component : CodeText)
      (found : c.prepared source before = .ok (graphic, warnings, component))
      (saved : (Storage.saved c.room.making component (c.outputPath source) before).1 = .ok ()) :
      Course c source before (c.outcomeOf source graphic warnings .created)
        (Storage.saved c.room.making component (c.outputPath source) before).2
  /-- Saving the component ended with a fault. -/
  | broken (graphic : Graphic) (warnings : List String) (component : CodeText)
      (found : c.prepared source before = .ok (graphic, warnings, component)) (fault : Fault)
      (saved :
        (Storage.saved c.room.making component (c.outputPath source) before).1 = .error fault) :
      Course c source before (failure source fault)
        (Storage.saved c.room.making component (c.outputPath source) before).2

theorem perform_convertOrReport_of_ok {source : Path} {w after : Workspace} {outcome : Outcome}
    (h : (c.convertFile source).perform w = (.ok outcome, after)) :
    (c.convertOrReport source).perform w = (.ok outcome, after) := by
  rw [convertOrReport, perform_tryCatch, h]

theorem perform_convertOrReport_of_error {source : Path} {w between : Workspace} {fault : Fault}
    (h : (c.convertFile source).perform w = (.error fault, between)) :
    ∃ after, (c.convertOrReport source).perform w = (.ok (failure source fault), after) ∧
      Alike between after := by
  rw [convertOrReport, perform_tryCatch, h]
  exact ⟨_, rfl, rfl, rfl, rfl⟩

/-- Nothing is delivered for a source about which nothing can be found out. -/
theorem perform_convertOrReport_of_prepared {source : Path} {w : Workspace} {fault : Fault}
    (h : c.prepared source w.files = .error fault) :
    ∃ after, (c.convertOrReport source).perform w = (.ok (failure source fault), after) ∧
      Alike w after := by
  rcases hprepare : (c.prepare source).perform w with ⟨result, between⟩
  obtain ⟨hresult, halike⟩ := (c.reads_prepare source).perform_eq hprepare
  rw [h] at hresult
  have hfile : (c.convertFile source).perform w = (.error fault, between) := by
    rw [convertFile_eq, perform_bind, hprepare, hresult]
  obtain ⟨after, hperform, halike'⟩ := perform_convertOrReport_of_error hfile
  exact ⟨after, hperform, halike.trans halike'⟩

/-- The end of a conversion that may write its component. -/
theorem perform_finish (c : Converter) (source : Path) (graphic : Graphic) (warnings : List String)
    (component : CodeText) (w : Workspace) :
    ∃ after, (c.finish source (graphic, warnings, component) true).perform w =
        ((Storage.saved c.room.making component (c.outputPath source) w.files).1.map fun _ =>
          c.outcomeOf source graphic warnings .created, after) ∧
      after.files = (Storage.saved c.room.making component (c.outputPath source) w.files).2 ∧
      after.answers = w.answers ∧ after.asked = w.asked := by
  obtain ⟨behind, hsave, hbehind⟩ :=
    Storage.perform_saveComponent c.room component (c.outputPath source) w
  rw [finish, if_pos rfl, perform_bind, hsave]
  cases (Storage.saved c.room.making component (c.outputPath source) w.files).1 with
  | error fault => exact ⟨behind, rfl, hbehind⟩
  | ok done => exact ⟨_, rfl, hbehind⟩

/-- The outcome of a conversion that saved its component or tried to. -/
def savedOutcome (c : Converter) (source : Path) (graphic : Graphic) (warnings : List String) :
    Except Fault Unit → Outcome
  | .ok _ => c.outcomeOf source graphic warnings .created
  | .error fault => failure source fault

/-- A conversion that comes to saving its component has the outcome of that. -/
theorem perform_convertOrReport_of_finish {source : Path} {graphic : Graphic}
    {warnings : List String} {component : CodeText} {w between : Workspace}
    (h : (c.convertFile source).perform w =
      (c.finish source (graphic, warnings, component) true).perform between) :
    ∃ after, (c.convertOrReport source).perform w =
        (.ok (c.savedOutcome source graphic warnings
          (Storage.saved c.room.making component (c.outputPath source) between.files).1), after) ∧
      after.files = (Storage.saved c.room.making component (c.outputPath source) between.files).2 ∧
      after.answers = between.answers ∧ after.asked = between.asked := by
  obtain ⟨behind, hend, hbehind⟩ := c.perform_finish source graphic warnings component between
  rw [hend] at h
  cases hsaved : (Storage.saved c.room.making component (c.outputPath source) between.files).1 with
  | ok done =>
      rw [hsaved] at h
      exact ⟨behind, perform_convertOrReport_of_ok h, hbehind⟩
  | error fault =>
      rw [hsaved] at h
      obtain ⟨after, hperform, halike⟩ := perform_convertOrReport_of_error h
      exact ⟨after, hperform, halike.files.trans hbehind.1, halike.answers.trans hbehind.2.1,
        halike.asked.trans hbehind.2.2⟩

theorem perform_convertFile_of_prepared {source : Path} {w : Workspace}
    {prepared : Graphic × List String × CodeText} (h : c.prepared source w.files = .ok prepared) :
    ∃ ready, (c.convertFile source).perform w = (c.deliver source prepared).perform ready ∧
      Alike w ready := by
  rcases hprepare : (c.prepare source).perform w with ⟨result, ready⟩
  obtain ⟨hresult, halike⟩ := (c.reads_prepare source).perform_eq hprepare
  rw [h] at hresult
  refine ⟨ready, ?_, halike⟩
  rw [convertFile_eq, perform_bind, hprepare, hresult]

theorem Course.of_saved {source : Path} {before : FileSystem} {graphic : Graphic}
    {warnings : List String} {component : CodeText}
    (found : c.prepared source before = .ok (graphic, warnings, component)) :
    c.Course source before
      (c.savedOutcome source graphic warnings
        (Storage.saved c.room.making component (c.outputPath source) before).1)
      (Storage.saved c.room.making component (c.outputPath source) before).2 := by
  cases hsaved : (Storage.saved c.room.making component (c.outputPath source) before).1 with
  | ok done => exact .created graphic warnings component found hsaved
  | error fault => exact .broken graphic warnings component found fault hsaved

/-- A conversion that fails before anything is written takes the first course. -/
theorem course_of_error {source : Path} {w between : Workspace} {fault : Fault}
    (hfiles : between.files = w.files)
    (h : (c.convertFile source).perform w = (.error fault, between)) :
    ∃ outcome after, (c.convertOrReport source).perform w = (.ok outcome, after) ∧
      c.Course source w.files outcome after.files := by
  obtain ⟨after, hperform, hafter⟩ := perform_convertOrReport_of_error h
  exact ⟨_, after, hperform, (hafter.files.trans hfiles) ▸ .failed fault⟩

/-- What may be written is saved, whatever was asked before. -/
theorem course_of_finish {source : Path} {graphic : Graphic} {warnings : List String}
    {component : CodeText} {w between : Workspace}
    (hprepared : c.prepared source w.files = .ok (graphic, warnings, component))
    (hfiles : between.files = w.files)
    (h : (c.convertFile source).perform w =
      (c.finish source (graphic, warnings, component) true).perform between) :
    ∃ outcome after, (c.convertOrReport source).perform w = (.ok outcome, after) ∧
      c.Course source w.files outcome after.files := by
  obtain ⟨after, hperform, hleft, -⟩ := perform_convertOrReport_of_finish h
  refine ⟨_, after, hperform, ?_⟩
  rw [hleft, hfiles]
  exact .of_saved hprepared

/-- **In a run, a conversion takes one of the four courses.** -/
theorem convertOrReport_course (c : Converter) (source : Path) (w : Workspace) :
    ∃ outcome after, (c.convertOrReport source).perform w = (.ok outcome, after) ∧
      c.Course source w.files outcome after.files := by
  cases hprepared : c.prepared source w.files with
  | error fault =>
      obtain ⟨after, hperform, halike⟩ := perform_convertOrReport_of_prepared hprepared
      exact ⟨_, after, hperform, halike.files ▸ .failed fault⟩
  | ok prepared =>
  obtain ⟨graphic, warnings, component⟩ := prepared
  obtain ⟨ready, hfile, halike⟩ := perform_convertFile_of_prepared hprepared
  rw [perform_deliver] at hfile
  cases hexists : ready.files.existsAt (c.outputPath source) with
  | error fault =>
      rw [hexists] at hfile
      exact course_of_error halike.files hfile
  | ok present =>
      rw [hexists] at hfile
      cases present with
      | false => exact course_of_finish hprepared halike.files hfile
      | true =>
          simp only [perform_bind] at hfile
          rcases hmay : (c.mayReplace (c.generator.fileName (baseName source))).perform ready with
            ⟨fault | allowed, between⟩
          · obtain ⟨hfiles, -⟩ := mayReplace_effect hmay
            rw [hmay] at hfile
            exact course_of_error (hfiles.trans halike.files) hfile
          · obtain ⟨hfiles, -⟩ := mayReplace_effect hmay
            rw [hmay] at hfile
            cases allowed with
            | true => exact course_of_finish hprepared (hfiles.trans halike.files) hfile
            | false =>
                have hskipped : (c.convertFile source).perform w =
                    (.ok (c.outcomeOf source graphic warnings .skipped),
                      ((c.finish source (graphic, warnings, component) false).perform between).2) :=
                  hfile
                refine ⟨_, _, perform_convertOrReport_of_ok hskipped, ?_⟩
                have hleft : ((c.finish source (graphic, warnings, component) false).perform
                    between).2.files = w.files := hfiles.trans halike.files
                rw [hleft]
                exact .skipped graphic warnings component hprepared

/-! ## Rows -/

/-- What was found out about a source can be shown: its view box was written into the component. -/
theorem row_outcomeOf {source : Path} {fs : FileSystem} {graphic : Graphic} {warnings : List String}
    {component : CodeText} (h : c.prepared source fs = .ok (graphic, warnings, component))
    (status : Status) : ∃ row, (c.outcomeOf source graphic warnings status).row = .ok row ∧
      row.source = source.text ∧ row.status = status.name ∧
      row.warnings = String.intercalate "; " warnings := by
  obtain ⟨text, -, hunderstood⟩ := prepared_eq_ok h
  obtain ⟨-, -, hcomponent⟩ := understood_eq_ok hunderstood
  rw [Generator.generate] at hcomponent
  obtain ⟨viewBox, hbox, -⟩ := bind_eq_ok_iff.1 hcomponent
  rw [Outcome.row]
  show ∃ row, (some <$> graphic.viewBox.text >>= _) = _ ∧ _
  rw [hbox]
  exact ⟨_, rfl, rfl, rfl, rfl⟩

/-- The outcome of a course can be shown, and its row is about the source. -/
theorem Course.row {source : Path} {before after : FileSystem} {outcome : Outcome}
    (h : c.Course source before outcome after) :
    ∃ row, outcome.row = .ok row ∧ row.source = source.text ∧
      (row.status = Status.created.name ∨ row.status = Status.skipped.name ∨
        row.status = Status.error.name) := by
  cases h with
  | failed fault => exact ⟨_, rfl, rfl, Or.inr (Or.inr rfl)⟩
  | skipped graphic warnings component found =>
      obtain ⟨row, hrow, hsource, hname, -⟩ := row_outcomeOf found .skipped
      exact ⟨row, hrow, hsource, Or.inr (Or.inl hname)⟩
  | created graphic warnings component found saved =>
      obtain ⟨row, hrow, hsource, hname, -⟩ := row_outcomeOf found .created
      exact ⟨row, hrow, hsource, Or.inl hname⟩
  | broken graphic warnings component found fault saved => exact ⟨_, rfl, rfl, Or.inr (Or.inr rfl)⟩

theorem Course.source_eq {source : Path} {before after : FileSystem} {outcome : Outcome}
    (h : c.Course source before outcome after) : outcome.source = source := by
  cases h <;> rfl

/-- **A run always gives rows**, one for every source in the order of the sources. -/
theorem run_rows (c : Converter) (sources : List Path) (w : Workspace) :
    ∃ outcomes rows after, (sources.mapM c.convertOrReport).perform w = (.ok outcomes, after) ∧
      outcomes.map Outcome.source = sources ∧ outcomes.mapM Outcome.row = .ok rows ∧
      rows.map Row.source = sources.map Path.text ∧
      ∀ row ∈ rows, row.status = Status.created.name ∨ row.status = Status.skipped.name ∨
        row.status = Status.error.name := by
  induction sources generalizing w with
  | nil => exact ⟨[], [], w, rfl, rfl, rfl, rfl, by simp⟩
  | cons source sources ih =>
      obtain ⟨outcome, between, hfirst, hcourse⟩ := c.convertOrReport_course source w
      obtain ⟨row, hrow, hsource, hstatus⟩ := hcourse.row
      obtain ⟨outcomes, rows, after, hrest, hsame, hrows, hsources, hall⟩ := ih between
      refine ⟨outcome :: outcomes, row :: rows, after, ?_, ?_, ?_, ?_, ?_⟩
      · simp only [List.mapM_cons, perform_bind, hfirst, hrest, perform_pure]
      · rw [List.map_cons, hcourse.source_eq, hsame]
      · rw [List.mapM_cons, hrow, hrows]
        rfl
      · rw [List.map_cons, List.map_cons, hsource, hsources]
      · intro other hother
        rcases List.mem_cons.1 hother with rfl | hother
        · exact hstatus
        · exact hall other hother

theorem length_run {sources : List Path} {w after : Workspace} {outcomes : List Outcome}
    (h : (sources.mapM c.convertOrReport).perform w = (.ok outcomes, after)) :
    outcomes.length = sources.length := by
  obtain ⟨found, _, left, hperform, hsame, -⟩ := c.run_rows sources w
  rw [h] at hperform
  obtain rfl : outcomes = found := Except.ok.inj (Prod.mk.inj hperform).1
  rw [← hsame, List.length_map]

/-- A run over some sources goes on with the run over the others. -/
theorem run_append {front behind : List Path} {w between after : Workspace}
    {outcomes others : List Outcome}
    (h : (front.mapM c.convertOrReport).perform w = (.ok outcomes, between))
    (h' : (behind.mapM c.convertOrReport).perform between = (.ok others, after)) :
    ((front ++ behind).mapM c.convertOrReport).perform w = (.ok (outcomes ++ others), after) := by
  rw [List.mapM_append]
  simp only [perform_bind, h, h', perform_pure]

/-- **A run over a directory whose sources can be found gives rows**: those of a run over the
sources. -/
theorem convertDirectory_rows (c : Converter) {directory : Path} {recursive : Bool} {w : Workspace}
    (h : Searchable c.room.searching w.files directory recursive) :
    ∃ noted outcomes rows after, Alike w noted ∧
      ((sourcesIn w.files directory recursive).mapM c.convertOrReport).perform noted =
        (.ok outcomes, after) ∧ outcomes.mapM Outcome.row = .ok rows ∧
      (c.convertDirectory directory recursive).perform w = (.ok rows, after) ∧
      rows.map Row.source = (sourcesIn w.files directory recursive).map Path.text ∧
      ∀ row ∈ rows, row.status = Status.created.name ∨ row.status = Status.skipped.name ∨
        row.status = Status.error.name := by
  obtain ⟨noted, hnoted, halike⟩ : ∃ noted,
      (c.convertDirectory directory recursive).perform w =
        ((sourcesIn w.files directory recursive).mapM c.convertOrReport >>= rowsOf).perform noted ∧
          Alike w noted :=
    ⟨_, perform_convertDirectory h, rfl, rfl, rfl⟩
  obtain ⟨outcomes, rows, after, hrun, -, hrows, hsources, hall⟩ :=
    c.run_rows (sourcesIn w.files directory recursive) noted
  refine ⟨noted, outcomes, rows, after, halike, hrun, hrows, ?_, hsources, hall⟩
  rw [hnoted, perform_bind, hrun]
  show (rowsOf outcomes).perform after = _
  rw [rowsOf, perform_lift, hrows]
  rfl

end Converter

end IconForge
