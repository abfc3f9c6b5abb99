import IconForge.Proofs.Conversion.Effect

set_option autoImplicit false

/-! # What a conversion creates

With settings that can be written out and name a file (`Generator.Plain`), a conversion has one of
three effects (`convertFile_effect`): it creates the component and changes no other file, it skips
a file that is there and changes nothing, or it ends with a fault and changes no file at all.

A component takes the place of something only when the converter overwrites or the answer to the
question allows it, with one exception. Whether something is there is found out before the missing
directories above the output are made. When the output directory goes up behind a missing directory
(`FileSystem.TurnsBack`), nothing is found at first, so what the path leads to afterwards is
replaced without a question. -/

namespace IconForge

open IconForge.Action FileSystem Text.Encoding

/-! ## Texts with bytes -/

/-- Whether a text can be written to a file: it holds no half of a surrogate pair. -/
def HasBytes (text : CodeText) : Prop :=
  ∀ point ∈ text, point.isSurrogate = false

theorem hasBytes_append {text more : CodeText} :
    HasBytes (text ++ more) ↔ HasBytes text ∧ HasBytes more :=
  List.forall_mem_append

theorem hasBytes_ofString (s : String) : HasBytes (CodeText.ofString s) := by
  intro point hpoint
  obtain ⟨c, -, rfl⟩ := List.mem_map.1 hpoint
  rfl

theorem HasBytes.faultFrom?_eq_none {text : CodeText} (h : HasBytes text) (use : Use)
    (position : Nat) : faultFrom? use position text = none := by
  induction text generalizing position with
  | nil => rfl
  | cons point text ih =>
      cases point with
      | char c => exact ih (fun other hother => h other (List.mem_cons_of_mem _ hother)) _
      | surrogate half => exact absurd (h (.surrogate half) List.mem_cons_self) Bool.true_eq_false.mp

theorem HasBytes.spellName {text : CodeText} (h : HasBytes text) : spellName text = text := by
  have hnone : text.any CodePoint.isSurrogate = false :=
    List.any_eq_false.2 fun point hpoint => by rw [h point hpoint]; decide
  rw [Text.Encoding.spellName, hnone]
  rfl

/-! ## Plain settings -/

/-- Settings that can be written out, with component files that stay in their folder and are not
named by full stops alone. -/
structure Generator.Plain (g : Generator) : Prop where
  package : HasBytes g.package
  wrapper : HasBytes g.wrapper
  propsType : HasBytes g.propsType
  suffix : HasBytes g.suffix
  extension : HasBytes g.extension
  stays : g.StaysInFolder
  notFullStops : ∃ point ∈ g.suffix ++ g.extension, point ≠ .char '.'

namespace Generator.Plain

variable {g : Generator}

theorem fileName (h : g.Plain) (base : String) : HasBytes (g.fileName base) := by
  rw [fileName_eq]
  simp only [hasBytes_append]
  exact ⟨hasBytes_ofString _, h.suffix, h.extension⟩

/-- The name of a component file is neither a single full stop nor a double one. -/
theorem fileName_ne (h : g.Plain) (base : String) {name : CodeText}
    (hname : ∀ point ∈ name, point = .char '.') : g.fileName base ≠ name := by
  obtain ⟨point, hpoint, hne⟩ := h.notFullStops
  rintro rfl
  apply hne
  apply hname
  rw [fileName_eq]
  exact List.mem_append_right _ hpoint

theorem isPathPart_fileName (h : g.Plain) (base : String) : isPathPart (g.fileName base) := by
  have hempty : g.fileName base ≠ [] := h.fileName_ne base (by simp)
  have hstop : g.fileName base ≠ [.char '.'] := h.fileName_ne base (by simp)
  have hsolidus : (g.fileName base).any (CodePoint.isChar '/') = false :=
    List.any_eq_false.2 fun point hpoint => by
      rw [CodePoint.isChar, decide_eq_false (no_solidus_fileName h.stays base point hpoint)]
      decide
  simp [isPathPart, hempty, hstop, hsolidus]

/-- The source of a component can be written out. -/
theorem source (h : g.Plain) {name : CodeText} (hname : HasBytes name) (viewBox inner : String) :
    HasBytes (g.source name viewBox inner) := by
  unfold Generator.source
  simp only [hasBytes_append, hasBytes_ofString, h.wrapper, h.package, h.propsType, hname, and_self]

theorem generate (h : g.Plain) {base : String} {graphic : Graphic} {component : CodeText}
    (hcomponent : g.generate base graphic = .ok component) : HasBytes component := by
  rw [Generator.generate] at hcomponent
  cases htext : graphic.viewBox.text with
  | error fault =>
      rw [htext, Except.map] at hcomponent
      cases hcomponent
  | ok viewBox =>
      rw [htext, Except.map, Except.ok.injEq] at hcomponent
      rw [← hcomponent]
      refine h.source ?_ viewBox graphic.inner
      rw [componentName, hasBytes_append]
      exact ⟨hasBytes_ofString _, h.suffix⟩

end Generator.Plain

namespace Converter

variable {c : Converter}

theorem componentBytes_ne_encoding (hplain : c.generator.Plain) (base : String)
    (bytes : List UInt8) (fault : Text.Encoding.Fault) :
    c.componentBytes base bytes ≠ .error (.encoding fault) := by
  intro h
  rcases c.componentBytes_cases base bytes with ⟨other, hother, heq⟩ |
    ⟨graphic, component, hgenerate, heq⟩
  · rw [heq, Except.error.injEq] at h
    exact hother fault h
  · rw [heq, encode, (hplain.generate hgenerate).faultFrom?_eq_none] at h
    cases h

/-! ## The effect of a conversion -/

/-- What a conversion has done when it created a component. -/
structure Creates (c : Converter) (source : Path) (before after : Workspace) (stem : CodeText)
    (bytes encoded : List UInt8) (directory : Location) : Prop where
  /-- The source is named by the stem and the ending of SVG files. -/
  named : source.name = stem ++ svgEnding
  read : before.files.read source = .ok bytes
  /-- What is written are the bytes of the component for the source. -/
  content : c.componentBytes (CodeText.shown stem) bytes = .ok encoded
  /-- The output is right in the output directory. -/
  folder : after.files.locate (c.folder source) = .ok directory
  output : after.files.locate (c.outputPath source) =
    .ok (directory.within (c.generator.fileName (CodeText.shown stem)))
  written : after.files.get? (directory.within (c.generator.fileName (CodeText.shown stem))) =
    some (.file encoded)
  /-- Everything else is as before, but for missing directories above the output. -/
  others : ∀ place, place ≠ directory.within (c.generator.fileName (CodeText.shown stem)) →
    after.files.get? place = before.files.get? place ∨ before.files.get? place = none ∧
      after.files.get? place = some .directory ∧ Passes (c.folder source) place
  /-- Something was replaced only if that was allowed, or behind a path that turned back. -/
  replaced : before.files.get? (directory.within (c.generator.fileName (CodeText.shown stem))) =
      none ∨ c.overwrite = true ∨
    (c.asks = true ∧ before.answers.first? = some true ∧
      after.asked = before.asked ++ [c.generator.fileName (CodeText.shown stem)]) ∨
    before.files.TurnsBack (c.outputPath source)
  /-- Behind such a path nothing is ever asked. -/
  unasked : before.files.TurnsBack (c.outputPath source) → after.asked = before.asked

theorem Permitted.unasked {source : Path} {before after : Workspace}
    (h : c.Permitted source before after)
    (hturns : before.files.TurnsBack (c.outputPath source)) : after.asked = before.asked := by
  cases h with
  | absent found unasked => exact unasked
  | overwriting found set =>
      rw [hturns.existsAt] at found
      cases found
  | answered found asks answer asked =>
      rw [hturns.existsAt] at found
      cases found

/-- **One conversion has one of three effects.** -/
theorem convertFile_effect (c : Converter) (hplain : c.generator.Plain) (source : Path)
    (w : Workspace) :
    ∃ result after, (c.convertFile source).perform w = (result, after) ∧
      match result with
      | .ok outcome =>
        outcome.source = source ∧ outcome.output = some (c.outputPath source) ∧
          ((outcome.status = .created ∧ ∃ stem bytes encoded directory,
              c.Creates source w after stem bytes encoded directory) ∨
            (outcome.status = .skipped ∧ after.files = w.files ∧ ∃ location entry,
              w.files.locate (c.outputPath source) = .ok location ∧
                w.files.get? location = some entry))
      | .error _ => w.files.AddsDirectories after.files (Passes (c.folder source)) := by
  have hpart := hplain.isPathPart_fileName (baseName source)
  have hparent := outputPath_parent hplain.stays hpart
  rcases hperform : (c.convertFile source).perform w with ⟨fault | outcome, after⟩
  · refine ⟨.error fault, after, rfl, ?_⟩
    cases effect_convertFile hperform with
    | failed fault adds => rwa [hparent] at adds
    | broken fault made bytes left permitted adds content written =>
        exact absurd content (componentBytes_ne_encoding hplain _ bytes fault)
  · refine ⟨.ok outcome, after, rfl, ?_⟩
    cases effect_convertFile hperform with
    | skipped graphic warnings found same =>
        exact ⟨rfl, rfl, Or.inr ⟨rfl, same, existsAt_eq_true_iff.1 found⟩⟩
    | created graphic warnings made bytes encoded permitted adds named read content written =>
        refine ⟨rfl, rfl, Or.inl ⟨rfl, ?_⟩⟩
        rw [hparent] at adds
        obtain ⟨stem, hname, hbase⟩ := exists_stem named
        obtain ⟨location, hmade, hafter, hfile, -, hothers⟩ := made_write_effect adds written
        have hparts := outputPath_parts hplain.stays source
        rw [List.filter_cons_of_pos hpart, List.filter_nil] at hparts
        obtain ⟨directory, hdirectory, rfl⟩ := locate_child hparts
          (hplain.fileName _).spellName (hplain.fileName_ne _ (by simp [upwards])) hafter
        rw [hparent] at hdirectory
        rw [hbase] at hafter hfile hothers content
        refine ⟨stem, bytes, encoded, directory, hname, read, content, hdirectory, hafter, hfile,
          hothers, ?_, permitted.unasked⟩
        cases permitted with
        | absent found unasked =>
            -- What was found missing is there now only if the path turned back.
            cases hbefore : w.files.get? (directory.within (c.generator.fileName stem.shown)) with
            | none => exact Or.inl rfl
            | some entry =>
                rw [hbase] at hmade
                exact Or.inr (Or.inr (Or.inr
                  (turnsBack_of_opened adds.grows found hmade hbefore)))
        | overwriting found set => exact Or.inr (Or.inl set)
        | answered found asks answer asked =>
            rw [hbase] at asked
            exact Or.inr (Or.inr (Or.inl ⟨asks, answer, asked⟩))

/-! ## A path that turns back -/

/-- An icon, and in the directory `out` a component that someone has changed. -/
def changedComponent : FileSystem where
  entries :=
    [(Location.top.within "out", .directory),
     ((Location.top.within "out").within "StarIcon.tsx", .file [0x2a]),
     (Location.top.within "star.svg",
       .file (Text.Utf8.encode "<svg viewBox=\"0 0 1 1\"><g/></svg>".toList))]
  named := by decide
  nodup := by decide
  rooted := by decide

/-- A converter that neither overwrites nor asks and whose output directory goes up behind a
directory that is missing in these files. -/
def turningConverter : Converter :=
  { default (.ofLevels 8) with outputDirectory := some (Path.ofText "missing/../out") }

theorem plain_default : Generator.default.Plain where
  package := hasBytes_ofString _
  wrapper := hasBytes_ofString _
  propsType := hasBytes_ofString _
  suffix := hasBytes_ofString _
  extension := hasBytes_ofString _
  stays := by decide
  notFullStops := by decide

def turnedRun : Except Fault Outcome × Workspace :=
  (turningConverter.convertFile (Path.ofText "star.svg")).perform { files := changedComponent }

/-- The changed component is replaced without a question, because the path turns back. -/
theorem convertFile_effect_turned :
    turningConverter.generator.Plain ∧ turningConverter.overwrite = false ∧
      changedComponent.get? ((Location.top.within "out").within "StarIcon.tsx") =
        some (.file [0x2a]) ∧
      ∃ outcome after encoded, turnedRun = (.ok outcome, after) ∧ outcome.status = .created ∧
        after.asked = [] ∧ encoded ≠ [0x2a] ∧
        after.files.get? ((Location.top.within "out").within "StarIcon.tsx") =
          some (.file encoded) ∧
        changedComponent.TurnsBack (turningConverter.outputPath (Path.ofText "star.svg")) := by
  have hplain : turningConverter.generator.Plain := plain_default
  have hthere : changedComponent.get? ((Location.top.within "out").within "StarIcon.tsx") =
      some (.file [0x2a]) := by decide
  -- What the run gives and where its output leads is computed; the rest follows from the theorem.
  have hrun : turnedRun.1.toOption.map Outcome.status = some .created ∧
      turnedRun.2.files.locate (turningConverter.outputPath (Path.ofText "star.svg")) =
        .ok ((Location.top.within "out").within "StarIcon.tsx") ∧
      turnedRun.2.files.get? ((Location.top.within "out").within "StarIcon.tsx") ≠
        some (.file [0x2a]) := by
    decide +kernel
  obtain ⟨result, after, hperform, heffect⟩ := convertFile_effect turningConverter hplain
    (Path.ofText "star.svg") { files := changedComponent }
  replace hperform : turnedRun = (result, after) := hperform
  rw [hperform] at hrun
  obtain ⟨hstatus, hlocate, hchanged⟩ := hrun
  refine ⟨hplain, rfl, hthere, ?_⟩
  cases result with
  | error fault => cases hstatus
  | ok outcome =>
      replace hstatus : outcome.status = .created := Option.some.inj hstatus
      rcases heffect.2.2 with ⟨-, stem, bytes, encoded, directory, hcreates⟩ | ⟨hskipped, -⟩
      · have houtput := hcreates.output
        rw [hlocate, Except.ok.injEq] at houtput
        have hwritten := hcreates.written
        have hreplaced := hcreates.replaced
        rw [← houtput] at hwritten hreplaced
        have hturns : changedComponent.TurnsBack
            (turningConverter.outputPath (Path.ofText "star.svg")) := by
          rcases hreplaced with hnone | hoverwrite | ⟨hasks, -⟩ | hturns
          · rw [hthere] at hnone
            cases hnone
          · cases hoverwrite
          · cases hasks
          · exact hturns
        refine ⟨outcome, after, encoded, hperform, hstatus, hcreates.unasked hturns, ?_, hwritten,
          hturns⟩
        rintro rfl
        exact hchanged hwritten
      · rw [hstatus] at hskipped
        cases hskipped

end Converter

end IconForge
