import IconForge.Proofs.Conversion.Names
import IconForge.Proofs.Conversion.Perform

set_option autoImplicit false

/-! # The effect of one conversion

A conversion first finds out everything about its source, and until then it only writes to its log
(`prepare`). What it does to the files comes afterwards (`deliver`), and there are four ways it can
go (`Effect`): it leaves the files alone, it fails with nothing but directories added, it writes the
component, or it breaks off because the component has no bytes. -/

namespace IconForge

open IconForge.Action FileSystem Text.Encoding

namespace Converter

/-! ## What a component holds -/

/-- The bytes of the component for a source with a base name and its own bytes. -/
def componentBytes (c : Converter) (base : String) (bytes : List UInt8) :
    Except Fault (List UInt8) := do
  let text ← (Storage.textOfBytes bytes).mapError .decoding
  let graphic ← (Graphic.extract c.defaultSize text).mapError .unusable
  let component ← (c.generator.generate base graphic).mapError .number
  (encode .content component).mapError .encoding

theorem componentBytes_eq {c : Converter} {base : String} {bytes : List UInt8} {text : String}
    {graphic : Graphic} {component : CodeText} (htext : Storage.textOfBytes bytes = .ok text)
    (hgraphic : Graphic.extract c.defaultSize text = .ok graphic)
    (hcomponent : c.generator.generate base graphic = .ok component) :
    c.componentBytes base bytes = (encode .content component).mapError .encoding := by
  rw [componentBytes, htext]
  show (Except.mapError Fault.unusable (Graphic.extract c.defaultSize text) >>= _) = _
  rw [hgraphic]
  show (Except.mapError Fault.number (c.generator.generate base graphic) >>= _) = _
  rw [hcomponent]
  rfl

/-- What becomes of a component: an earlier part of the conversion failed, with a fault that is not
of the encoding, or the component was generated and its bytes are asked for. -/
theorem componentBytes_cases (c : Converter) (base : String) (bytes : List UInt8) :
    (∃ fault, (∀ broken, fault ≠ .encoding broken) ∧ c.componentBytes base bytes = .error fault) ∨
      ∃ graphic component, c.generator.generate base graphic = .ok component ∧
        c.componentBytes base bytes = (encode .content component).mapError .encoding := by
  cases htext : Storage.textOfBytes bytes with
  | error why =>
      left
      refine ⟨.decoding why, fun broken => by simp, ?_⟩
      rw [componentBytes, htext]
      rfl
  | ok text =>
  cases hgraphic : Graphic.extract c.defaultSize text with
  | error why =>
      left
      refine ⟨.unusable why, fun broken => by simp, ?_⟩
      rw [componentBytes, htext]
      show (Except.mapError Fault.unusable (Graphic.extract c.defaultSize text) >>= _) = _
      rw [hgraphic]
      rfl
  | ok graphic =>
  cases hcomponent : c.generator.generate base graphic with
  | error why =>
      left
      refine ⟨.number why, fun broken => by simp, ?_⟩
      rw [componentBytes, htext]
      show (Except.mapError Fault.unusable (Graphic.extract c.defaultSize text) >>= _) = _
      rw [hgraphic]
      show (Except.mapError Fault.number (c.generator.generate base graphic) >>= _) = _
      rw [hcomponent]
      rfl
  | ok component =>
      right
      exact ⟨graphic, component, hcomponent, componentBytes_eq htext hgraphic hcomponent⟩

/-! ## Before anything is written -/

/-- The part of a conversion that finds out about its source: the graphic, the warnings about it
and the component. -/
def prepare (c : Converter) (source : Path) : Action (Graphic × List String × CodeText) := do
  resolveInput source
  note .debug .conversion ("Processing SVG file: " ++ source.text)
  let text ← Storage.loadSvg source
  let graphic ← c.extractGraphic source text
  let warnings ← c.checkMarkup source graphic
  let component ← c.generateComponent (baseName source) graphic
  return (graphic, warnings, component)

def outcomeOf (c : Converter) (source : Path) (graphic : Graphic) (warnings : List String)
    (status : Status) : Outcome where
  source := source
  status := status
  output := some (c.outputPath source)
  component := some (c.generator.componentName (baseName source))
  viewBox := some graphic.viewBox
  warnings := warnings

/-- The end of a conversion: the component is written, or it is skipped. -/
def finish (c : Converter) (source : Path) (prepared : Graphic × List String × CodeText)
    (replace : Bool) : Action Outcome := do
  let (graphic, warnings, component) := prepared
  let fileName := c.generator.fileName (baseName source)
  if replace then
    Storage.saveComponent c.room component (c.outputPath source) true
    note .info .conversion ("Successfully created React component: " ++ fileName)
    return c.outcomeOf source graphic warnings .created
  else
    note .info .conversion ("Skipped existing file: " ++ fileName)
    return c.outcomeOf source graphic warnings .skipped

/-- The part of a conversion behind the preparation. -/
def deliver (c : Converter) (source : Path) (prepared : Graphic × List String × CodeText) :
    Action Outcome := do
  let present ← lift .file ((← files).existsAt (c.outputPath source))
  let replace ← if present then c.mayReplace (c.generator.fileName (baseName source)) else pure true
  c.finish source prepared replace

theorem convertFile_eq (c : Converter) (source : Path) :
    c.convertFile source = c.prepare source >>= c.deliver source := by
  simp only [prepare, bind_assoc, pure_bind]
  rfl

theorem onlyLogs_resolveInput (source : Path) : OnlyLogs (resolveInput source) := by
  have hfile : OnlyLogs (do
      if !(← lift .file ((← files).isFile source)) then throw (.inputNotFound source)) := by
    refine onlyLogs_files.bind fun fs => (onlyLogs_lift _ _).bind fun found => ?_
    cases found
    · exact onlyLogs_throw _
    · exact onlyLogs_pure _
  unfold resolveInput
  dsimp only
  split
  · exact (onlyLogs_throw _).bind fun _ => hfile
  · exact hfile

theorem onlyLogs_loadSvg (source : Path) : OnlyLogs (Storage.loadSvg source) := by
  have hread : OnlyLogs (Storage.readText source) :=
    onlyLogs_files.bind fun _ => (onlyLogs_lift _ _).bind fun _ => onlyLogs_lift _ _
  refine onlyLogs_files.bind fun fs => (onlyLogs_lift _ _).bind fun found => ?_
  cases found
  · exact (onlyLogs_throw _).bind fun _ => hread.reporting _ _
  · exact hread.reporting _ _

theorem onlyLogs_extractGraphic (c : Converter) (source : Path) (text : String) :
    OnlyLogs (c.extractGraphic source text) := by
  unfold extractGraphic
  dsimp only
  cases Graphic.extract c.defaultSize text with
  | ok graphic =>
      split
      · exact (onlyLogs_note _ _ _).bind fun _ => onlyLogs_pure graphic
      · exact onlyLogs_pure graphic
  | error why =>
      have hthrow : ∀ said : CodeText, OnlyLogs (do
          note .debug .conversion said
          throw (.unusable why) : Action Graphic) :=
        fun said => (onlyLogs_note _ _ _).bind fun _ => onlyLogs_throw _
      split
      · exact (onlyLogs_note _ _ _).bind fun _ => hthrow _
      · exact hthrow _

theorem onlyLogs_checkMarkup (c : Converter) (source : Path) (graphic : Graphic) :
    OnlyLogs (c.checkMarkup source graphic) := by
  unfold checkMarkup
  split
  · refine (onlyLogs_lift _ _).bind fun offence? => ?_
    cases offence? with
    | none => exact onlyLogs_pure _
    | some offence => exact (onlyLogs_note _ _ _).bind fun _ => onlyLogs_pure _
  · exact onlyLogs_pure _

theorem onlyLogs_generateComponent (c : Converter) (base : String) (graphic : Graphic) :
    OnlyLogs (c.generateComponent base graphic) :=
  (onlyLogs_note _ _ _).bind fun _ => onlyLogs_lift _ _

theorem onlyLogs_prepare (c : Converter) (source : Path) : OnlyLogs (c.prepare source) :=
  (onlyLogs_resolveInput source).bind fun _ => (onlyLogs_note _ _ _).bind fun _ =>
    (onlyLogs_loadSvg source).bind fun text => (c.onlyLogs_extractGraphic source text).bind
      fun graphic => (c.onlyLogs_checkMarkup source graphic).bind fun _ =>
        (c.onlyLogs_generateComponent _ graphic).bind fun _ => onlyLogs_pure _

/-! ### What is found out -/

theorem resolveInput_ok {source : Path} {w after : Workspace}
    (h : (resolveInput source).perform w = (.ok (), after)) :
    svgEnding.isSuffixOf source.text := by
  unfold resolveInput at h
  dsimp only at h
  split at h
  · rw [perform_bind, perform_throw] at h
    cases h
  · next hsuffix => simpa using hsuffix

theorem loadSvg_ok {source : Path} {w after : Workspace} {text : String}
    (h : (Storage.loadSvg source).perform w = (.ok text, after)) :
    ∃ bytes, w.files.read source = .ok bytes ∧ Storage.textOfBytes bytes = .ok text := by
  rw [Storage.loadSvg, perform_files_bind] at h
  obtain ⟨found, w₁, hfound, h⟩ := perform_bind_eq_ok h
  obtain ⟨-, rfl⟩ := perform_lift_eq_ok hfound
  cases found with
  | false => cases h
  | true =>
      obtain ⟨between, hread, -⟩ := reporting_effect h
      rw [Storage.readText, perform_files_bind] at hread
      obtain ⟨bytes, w₂, hbytes, htext⟩ := perform_bind_eq_ok hread
      exact ⟨bytes, (perform_lift_eq_ok hbytes).1, (perform_lift_eq_ok htext).1⟩

theorem extractGraphic_ok {c : Converter} {source : Path} {text : String} {w after : Workspace}
    {graphic : Graphic} (h : (c.extractGraphic source text).perform w = (.ok graphic, after)) :
    Graphic.extract c.defaultSize text = .ok graphic := by
  unfold extractGraphic at h
  dsimp only at h
  cases hextract : Graphic.extract c.defaultSize text with
  | ok found =>
      rw [hextract] at h
      split at h
      · rw [perform_bind, perform_note] at h
        exact congrArg Except.ok (Except.ok.inj (Prod.mk.inj h).1)
      · exact congrArg Except.ok (Except.ok.inj (Prod.mk.inj h).1)
  | error why =>
      rw [hextract] at h
      split at h
      · cases h
      · cases h

theorem generateComponent_ok {c : Converter} {base : String} {graphic : Graphic}
    {w after : Workspace} {component : CodeText}
    (h : (c.generateComponent base graphic).perform w = (.ok component, after)) :
    c.generator.generate base graphic = .ok component := by
  obtain ⟨_, w₁, -, h⟩ := perform_bind_eq_ok h
  exact (perform_lift_eq_ok h).1

/-- **What a source that is converted has**: the name of an SVG file and bytes from which its
component is generated. -/
theorem prepare_ok {c : Converter} {source : Path} {w after : Workspace}
    {prepared : Graphic × List String × CodeText}
    (h : (c.prepare source).perform w = (.ok prepared, after)) :
    svgEnding.isSuffixOf source.text ∧ ∃ bytes, w.files.read source = .ok bytes ∧
      c.componentBytes (baseName source) bytes =
        (encode .content prepared.2.2).mapError .encoding := by
  obtain ⟨_, w₁, hresolve, h⟩ := perform_bind_eq_ok h
  obtain ⟨_, w₂, hnote, h⟩ := perform_bind_eq_ok h
  obtain ⟨text, w₃, hload, h⟩ := perform_bind_eq_ok h
  obtain ⟨graphic, w₄, hgraphic, h⟩ := perform_bind_eq_ok h
  obtain ⟨warnings, w₅, -, h⟩ := perform_bind_eq_ok h
  obtain ⟨component, w₆, hcomponent, h⟩ := perform_bind_eq_ok h
  obtain ⟨hprepared, -⟩ := Prod.mk.inj h
  cases hprepared
  -- Nothing has touched the files until the source is read.
  have hsame : w₂.files = w.files :=
    ((onlyLogs_note _ _ _).alike hnote).files.trans ((onlyLogs_resolveInput source).alike hresolve).files
  obtain ⟨bytes, hread, htext⟩ := loadSvg_ok hload
  rw [hsame] at hread
  exact ⟨resolveInput_ok hresolve, bytes, hread,
    componentBytes_eq htext (extractGraphic_ok hgraphic) (generateComponent_ok hcomponent)⟩

/-! ## What is done to the files -/

/-- Why a component may be written: nothing was found where it goes, or what is there may be
replaced. -/
inductive Permitted (c : Converter) (source : Path) (before after : Workspace) : Prop where
  | absent (found : before.files.existsAt (c.outputPath source) = .ok false)
      (unasked : after.asked = before.asked)
  | overwriting (found : before.files.existsAt (c.outputPath source) = .ok true)
      (set : c.overwrite = true)
  | answered (found : before.files.existsAt (c.outputPath source) = .ok true)
      (asks : c.asks = true) (answer : before.answers.first? = some true)
      (asked : after.asked = before.asked ++ [c.generator.fileName (baseName source)])

/-- What a conversion does to a workspace, with its result. -/
inductive Effect (c : Converter) (source : Path) (before after : Workspace) :
    Except Fault Outcome → Prop where
  /-- Something was found where the component goes, and it stays. -/
  | skipped (graphic : Graphic) (warnings : List String)
      (found : before.files.existsAt (c.outputPath source) = .ok true)
      (same : after.files = before.files) :
      Effect c source before after (.ok (c.outcomeOf source graphic warnings .skipped))
  /-- No more than directories were made. -/
  | failed (fault : Fault)
      (adds : before.files.AddsDirectories after.files (Passes (c.outputPath source).parent)) :
      Effect c source before after (.error fault)
  /-- The component was written into the file system with its directories. -/
  | created (graphic : Graphic) (warnings : List String) (made : FileSystem)
      (bytes encoded : List UInt8) (permitted : c.Permitted source before after)
      (adds : before.files.AddsDirectories made (Passes (c.outputPath source).parent))
      (named : svgEnding.isSuffixOf source.text) (read : before.files.read source = .ok bytes)
      (content : c.componentBytes (baseName source) bytes = .ok encoded)
      (written : made.write (c.outputPath source) encoded = .ok after.files) :
      Effect c source before after (.ok (c.outcomeOf source graphic warnings .created))
  /-- The component turned out to have no bytes when its file was there. -/
  | broken (fault : Text.Encoding.Fault) (made : FileSystem) (bytes left : List UInt8)
      (permitted : c.Permitted source before after)
      (adds : before.files.AddsDirectories made (Passes (c.outputPath source).parent))
      (content : c.componentBytes (baseName source) bytes = .error (.encoding fault))
      (written : made.write (c.outputPath source) left = .ok after.files) :
      Effect c source before after (.error (.encoding fault))

theorem mayReplace_effect {c : Converter} {fileName : CodeText} {w after : Workspace}
    {result : Except Fault Bool} (h : (c.mayReplace fileName).perform w = (result, after)) :
    after.files = w.files ∧ (result = .ok true → c.overwrite = true ∨
      c.asks = true ∧ w.answers.first? = some true ∧ after.asked = w.asked ++ [fileName]) := by
  rw [mayReplace] at h
  by_cases hoverwrite : c.overwrite = true
  · rw [if_pos hoverwrite] at h
    obtain ⟨-, rfl⟩ := Prod.mk.inj h
    exact ⟨rfl, fun _ => Or.inl hoverwrite⟩
  · rw [if_neg hoverwrite] at h
    by_cases hasks : c.asks = true
    · rw [if_pos hasks] at h
      obtain ⟨hfiles, hasked, hanswer⟩ := ask_effect h
      exact ⟨hfiles, fun htrue => Or.inr ⟨hasks, hanswer true htrue, hasked⟩⟩
    · rw [if_neg hasks] at h
      obtain ⟨rfl, rfl⟩ := Prod.mk.inj h
      exact ⟨rfl, fun hfalse => absurd (Except.ok.inj hfalse) (by decide)⟩

/-- What a conversion knows when it comes to writing its component. -/
structure Ready (c : Converter) (source : Path) (fs : FileSystem) (component : CodeText)
    (bytes : List UInt8) : Prop where
  named : svgEnding.isSuffixOf source.text
  read : fs.read source = .ok bytes
  content : c.componentBytes (baseName source) bytes =
    (encode .content component).mapError .encoding

/-- A component that may be written is written, or the writing fails. -/
theorem effect_finish {c : Converter} {source : Path} {graphic : Graphic} {warnings : List String}
    {component : CodeText} {bytes : List UInt8} {before w after : Workspace}
    {result : Except Fault Outcome} (hready : c.Ready source before.files component bytes)
    (hfiles : w.files = before.files)
    (hpermitted : ∀ behind : Workspace, behind.asked = w.asked → c.Permitted source before behind)
    (h : (c.finish source (graphic, warnings, component) true).perform w = (result, after)) :
    c.Effect source before after result := by
  rw [finish, if_pos rfl, perform_bind] at h
  rcases hsave : (Storage.saveComponent c.room component (c.outputPath source) true).perform w with
    ⟨saved, behind⟩
  obtain ⟨-, hasked, made, hadds, hcase⟩ := Storage.saveComponent_effect hsave
  have hcontent := hready.content
  rw [hfiles] at hadds
  rw [hsave] at h
  rcases hcase with ⟨hmade, fault, rfl⟩ | ⟨encoded, hwrite, ⟨rfl, hencode⟩ | ⟨fault, rfl, hencode⟩⟩
  · obtain ⟨rfl, rfl⟩ := Prod.mk.inj h
    exact .failed fault (hmade ▸ hadds)
  · simp only [perform_bind, perform_note, perform_pure] at h
    obtain ⟨rfl, rfl⟩ := Prod.mk.inj h
    rw [hencode] at hcontent
    exact .created graphic warnings made bytes encoded (hpermitted _ hasked) hadds hready.named
      hready.read hcontent hwrite
  · obtain ⟨rfl, rfl⟩ := Prod.mk.inj h
    rw [hencode] at hcontent
    exact .broken fault made bytes encoded (hpermitted _ hasked) hadds hcontent hwrite

/-- What is delivered depends on what is found where the component goes. -/
theorem perform_deliver (c : Converter) (source : Path)
    (prepared : Graphic × List String × CodeText) (w : Workspace) :
    (c.deliver source prepared).perform w =
      match w.files.existsAt (c.outputPath source) with
      | .error fault => (.error (.file fault), w)
      | .ok true => (c.mayReplace (c.generator.fileName (baseName source)) >>=
          c.finish source prepared).perform w
      | .ok false => (c.finish source prepared true).perform w := by
  rw [deliver, perform_files_bind, perform_bind, perform_lift]
  rcases w.files.existsAt (c.outputPath source) with fault | found
  · rfl
  · cases found with
    | false =>
        show (pure true >>= c.finish source prepared).perform w = _
        rw [perform_bind, perform_pure]
    | true => rfl

theorem effect_deliver {c : Converter} {source : Path} {graphic : Graphic} {warnings : List String}
    {component : CodeText} {bytes : List UInt8} {before w after : Workspace}
    {result : Except Fault Outcome} (hready : c.Ready source before.files component bytes)
    (halike : Alike before w)
    (h : (c.deliver source (graphic, warnings, component)).perform w = (result, after)) :
    c.Effect source before after result := by
  rw [perform_deliver, halike.files] at h
  cases hexists : before.files.existsAt (c.outputPath source) with
  | error fault =>
      rw [hexists] at h
      obtain ⟨rfl, rfl⟩ := Prod.mk.inj h
      refine .failed _ ?_
      rw [halike.files]
      exact .refl _ _
  | ok found =>
      rw [hexists] at h
      cases found with
      | false =>
          exact effect_finish hready halike.files
            (fun behind hasked => .absent hexists (hasked.trans halike.asked)) h
      | true =>
          -- What is there is only replaced when that is allowed.
          simp only [perform_bind] at h
          rcases hmay : (c.mayReplace (c.generator.fileName (baseName source))).perform w with
            ⟨fault | allowed, between⟩
          · obtain ⟨hfiles, -⟩ := mayReplace_effect hmay
            rw [hmay] at h
            obtain ⟨rfl, rfl⟩ := Prod.mk.inj h
            refine .failed fault ?_
            rw [hfiles, halike.files]
            exact .refl _ _
          · obtain ⟨hfiles, hallowed⟩ := mayReplace_effect hmay
            rw [halike.files] at hfiles
            rw [halike.answers, halike.asked] at hallowed
            rw [hmay] at h
            cases allowed with
            | false =>
                obtain ⟨rfl, rfl⟩ := Prod.mk.inj h
                exact .skipped graphic warnings hexists hfiles
            | true =>
                refine effect_finish hready hfiles ?_ h
                intro behind hasked
                rcases hallowed rfl with hoverwrite | ⟨hasks, hanswer, hquestion⟩
                · exact .overwriting hexists hoverwrite
                · exact .answered hexists hasks hanswer (hasked.trans hquestion)

/-- **Every conversion has one of the four effects.** -/
theorem effect_convertFile {c : Converter} {source : Path} {w after : Workspace}
    {result : Except Fault Outcome} (h : (c.convertFile source).perform w = (result, after)) :
    c.Effect source w after result := by
  rw [convertFile_eq, perform_bind] at h
  rcases hprepare : (c.prepare source).perform w with ⟨fault | ⟨graphic, warnings, component⟩, between⟩
  · have halike := (c.onlyLogs_prepare source).alike hprepare
    rw [hprepare] at h
    obtain ⟨rfl, rfl⟩ := Prod.mk.inj h
    refine .failed fault ?_
    rw [halike.files]
    exact .refl _ _
  · obtain ⟨hnamed, bytes, hread, hcontent⟩ := prepare_ok hprepare
    rw [hprepare] at h
    exact effect_deliver ⟨hnamed, hread, hcontent⟩ ((c.onlyLogs_prepare source).alike hprepare) h

end Converter

end IconForge
