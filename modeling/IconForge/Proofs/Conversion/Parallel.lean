import Mathlib.Data.List.Forall2
import IconForge.Proofs.Conversion.Findings
import IconForge.Proofs.Files.Locality

set_option autoImplicit false

/-! # Two runs side by side

Two actions go in parallel on some places (`Action.Parallel`) when, from workspaces that hold the
same there, they come to the same fault or to related values, and to workspaces that hold the same
there again. There is one rule for each of the ways in which actions are put together.

A conversion looks at the places that its source and its output pass, so it goes in parallel with
itself on them (`Converter.parallel_convertOrReport`). The check of the inner markup only decides
about the warnings, so it also goes in parallel with a conversion that checks otherwise, as far as
the warnings may differ (`Converter.parallel_checking`). -/

namespace IconForge

open IconForge.Action FileSystem Text.Encoding

namespace Action

variable {α β γ δ : Type}

/-! ## Workspaces -/

/-- Whether two workspaces hold the same at some places, with the same questions asked and the same
answers left. -/
structure AlikeAt (places : Location → Prop) (w v : Workspace) : Prop where
  files : Agree places w.files v.files
  answers : v.answers = w.answers
  asked : v.asked = w.asked

theorem Alike.alikeAt {w v : Workspace} (h : Alike w v) (places : Location → Prop) :
    AlikeAt places w v :=
  ⟨h.files ▸ .refl places w.files, h.answers, h.asked⟩

theorem AlikeAt.symm {places : Location → Prop} {w v : Workspace} (h : AlikeAt places w v) :
    AlikeAt places v w :=
  ⟨h.files.symm, h.answers.symm, h.asked.symm⟩

theorem AlikeAt.trans {places : Location → Prop} {first second third : Workspace}
    (h : AlikeAt places first second) (h' : AlikeAt places second third) :
    AlikeAt places first third :=
  ⟨h.files.trans h'.files, h'.answers.trans h.answers, h'.asked.trans h.asked⟩

theorem AlikeAt.of_alike {places : Location → Prop} {w v w' v' : Workspace}
    (h : AlikeAt places w v) (hw : Alike w w') (hv : Alike v v') : AlikeAt places w' v' :=
  ((hw.alikeAt places).symm.trans h).trans (hv.alikeAt places)

/-! ## Actions in parallel -/

/-- Whether two actions, from workspaces that hold the same at some places, come to the same fault
or related values and to workspaces that hold the same there again. -/
def Parallel (places : Location → Prop) (related : α → β → Prop) (left : Action α)
    (right : Action β) : Prop :=
  ∀ w v, AlikeAt places w v →
    Matches related (left.perform w).1 (right.perform v).1 ∧
      AlikeAt places (left.perform w).2 (right.perform v).2

variable {places : Location → Prop} {related : α → β → Prop} {related' : γ → δ → Prop}

/-- Two actions that only look go in parallel when what they see is related. -/
theorem Reads.parallel {left : Action α} {right : Action β} {value : FileSystem → Except Fault α}
    {value' : FileSystem → Except Fault β} (hleft : Reads left value) (hright : Reads right value')
    (h : ∀ fs other, Agree places fs other → Matches related (value fs) (value' other)) :
    Parallel places related left right := by
  intro w v hwv
  obtain ⟨hvalue, halike⟩ := hleft w
  obtain ⟨hvalue', halike'⟩ := hright v
  rw [hvalue, hvalue']
  exact ⟨h _ _ hwv.files, hwv.of_alike halike halike'⟩

theorem parallel_pure {left : α} {right : β} (h : related left right) :
    Parallel places related (pure left) (pure right) :=
  (reads_pure left).parallel (reads_pure right) fun _ _ _ => .ok h

theorem parallel_note (level : Log.Level) (origin : Log.Origin) (text : CodeText) :
    Parallel places Eq (note level origin text) (note level origin text) :=
  (reads_note _ _ _).parallel (reads_note _ _ _) fun _ _ _ => .ok rfl

theorem Parallel.bind {left : Action α} {right : Action β} {next : α → Action γ}
    {next' : β → Action δ} (h : Parallel places related left right)
    (hnext : ∀ a b, related a b → Parallel places related' (next a) (next' b)) :
    Parallel places related' (left >>= next) (right >>= next') := by
  intro w v hwv
  have hfirst := h w v hwv
  rw [perform_bind, perform_bind]
  generalize left.perform w = first at hfirst ⊢
  generalize right.perform v = second at hfirst ⊢
  obtain ⟨result, between⟩ := first
  obtain ⟨result', between'⟩ := second
  obtain ⟨hresult, hbetween⟩ := hfirst
  cases hresult with
  | ok hrelated => exact hnext _ _ hrelated between between' hbetween
  | error fault => exact ⟨.error fault, hbetween⟩

theorem Parallel.look {ε : Type} {fault : ε → Fault} {look : FileSystem → Except ε α}
    {next : α → Action γ} {next' : α → Action δ}
    (hlook : ∀ fs other, Agree places fs other → look other = look fs)
    (hnext : ∀ a, Parallel places related' (next a) (next' a)) :
    Parallel places related' (files >>= fun fs => lift fault (look fs) >>= next)
      (files >>= fun fs => lift fault (look fs) >>= next') := by
  intro w v hwv
  rw [perform_files_bind, perform_files_bind, perform_bind, perform_bind, perform_lift,
    perform_lift, hlook _ _ hwv.files]
  cases look w.files with
  | error obstacle => exact ⟨.error _, hwv⟩
  | ok a => exact hnext a w v hwv

theorem Parallel.tryCatch {left : Action α} {right : Action β} {handler : Fault → Action α}
    {handler' : Fault → Action β} (h : Parallel places related left right)
    (hhandler : ∀ fault, Parallel places related (handler fault) (handler' fault)) :
    Parallel places related (tryCatch left handler) (tryCatch right handler') := by
  intro w v hwv
  have hfirst := h w v hwv
  rw [perform_tryCatch, perform_tryCatch]
  generalize left.perform w = first at hfirst ⊢
  generalize right.perform v = second at hfirst ⊢
  obtain ⟨result, between⟩ := first
  obtain ⟨result', between'⟩ := second
  obtain ⟨hresult, hbetween⟩ := hfirst
  cases hresult with
  | ok hrelated => exact ⟨.ok hrelated, hbetween⟩
  | error fault => exact hhandler fault between between' hbetween

/-- **Actions over a list go in parallel when those for its items do.** -/
theorem Parallel.mapM {ι : Type} {items : List ι} {left : ι → Action α} {right : ι → Action β}
    (h : ∀ item ∈ items, Parallel places related (left item) (right item)) :
    Parallel places (List.Forall₂ related) (items.mapM left) (items.mapM right) := by
  induction items with
  | nil =>
      rw [List.mapM_nil, List.mapM_nil]
      exact parallel_pure .nil
  | cons item items ih =>
      rw [List.mapM_cons, List.mapM_cons]
      refine (h item List.mem_cons_self).bind fun a b hab => ?_
      refine (ih fun other hother => h other (List.mem_cons_of_mem _ hother)).bind fun as bs habs => ?_
      exact parallel_pure (.cons hab habs)

theorem parallel_ask (fileName : CodeText) :
    Parallel places Eq (ask fileName) (ask fileName) := by
  rintro ⟨fs, ⟨next, further⟩, asked, log⟩ ⟨other, answers, asked', log'⟩ ⟨hfiles, hanswers, hasked⟩
  obtain rfl : answers = ⟨next, further⟩ := hanswers
  obtain rfl : asked' = asked := hasked
  cases next with
  | cons answer next => exact ⟨.ok rfl, hfiles, rfl, rfl⟩
  | nil =>
      cases further with
      | some answer => exact ⟨.ok rfl, hfiles, rfl, rfl⟩
      | none => exact ⟨.error _, hfiles, rfl, rfl⟩

end Action

/-! ## Saving -/

namespace FileSystem.Agree

variable {places : Location → Prop} {fs other : FileSystem} {path : Path}

theorem written (h : Agree places fs other) (hpath : KeepsTo path places) (text : CodeText) :
    (Storage.written text path other).1 = (Storage.written text path fs).1 ∧
      Agree places (Storage.written text path fs).2 (Storage.written text path other).2 := by
  have hwrite := h.write hpath (encodeChunks [text]).1
  rw [Storage.written, Storage.written]
  generalize fs.write path (encodeChunks [text]).1 = result at hwrite ⊢
  generalize other.write path (encodeChunks [text]).1 = result' at hwrite ⊢
  cases hwrite with
  | error fault => exact ⟨rfl, h⟩
  | ok hafter =>
      cases (encodeChunks [text]).2 with
      | none => exact ⟨rfl, hafter⟩
      | some fault => exact ⟨rfl, hafter⟩

/-- **What becomes of saving a component depends on the places that its path passes.** -/
theorem saved (h : Agree places fs other) (hpath : KeepsTo path places)
    (hparent : KeepsTo path.parent places) (room : Nat) (text : CodeText) :
    (Storage.saved room text path other).1 = (Storage.saved room text path fs).1 ∧
      Agree places (Storage.saved room text path fs).2 (Storage.saved room text path other).2 := by
  obtain ⟨hresult, hmade⟩ := h.makeDirectories room hparent
  rw [Storage.saved, Storage.saved]
  generalize fs.makeDirectories room path.parent = first at hresult hmade ⊢
  generalize other.makeDirectories room path.parent = second at hresult hmade ⊢
  obtain ⟨result, made⟩ := first
  obtain ⟨result', made'⟩ := second
  obtain rfl : result' = result := hresult
  cases result' with
  | error fault => exact ⟨rfl, hmade⟩
  | ok done => exact hmade.written hpath text

end FileSystem.Agree

namespace Storage

variable {places : Location → Prop} {path : Path}

theorem parallel_saveComponent (hpath : KeepsTo path places) (hparent : KeepsTo path.parent places)
    (room : Room) (text : CodeText) :
    Parallel places Eq (saveComponent room text path true) (saveComponent room text path true) := by
  intro w v hwv
  obtain ⟨hresult, hagree⟩ := hwv.files.saved hpath hparent room.making text
  obtain ⟨after, hperform, hfiles, hanswers, hasked⟩ := perform_saveComponent room text path w
  obtain ⟨after', hperform', hfiles', hanswers', hasked'⟩ := perform_saveComponent room text path v
  rw [hperform, hperform', hresult]
  refine ⟨matches_eq_iff.2 rfl, ?_, ?_, ?_⟩
  · rwa [hfiles, hfiles']
  · rw [hanswers, hanswers', hwv.answers]
  · rw [hasked, hasked', hwv.asked]

/-- Saving a component leaves the places alone that its path does not pass. -/
theorem get?_saved (hpath : KeepsTo path places) (hparent : KeepsTo path.parent places)
    (room : Nat) (text : CodeText) (fs : FileSystem) {place : Location} (hplace : ¬ places place) :
    (saved room text path fs).2.get? place = fs.get? place := by
  have hmade := hparent.get?_makeDirectories room fs hplace
  rw [saved]
  generalize fs.makeDirectories room path.parent = made at hmade ⊢
  obtain ⟨result, made⟩ := made
  cases result with
  | error fault => exact hmade
  | ok done =>
      refine Eq.trans ?_ hmade
      show (written text path made).2.get? place = made.get? place
      rw [written]
      cases hwrite : made.write path (encodeChunks [text]).1 with
      | error fault => rfl
      | ok after =>
          have hafter := hpath.get?_write hwrite hplace
          cases (encodeChunks [text]).2 with
          | none => exact hafter
          | some fault => exact hafter

end Storage

/-! ## Conversions -/

namespace Converter

variable {c : Converter} {places : Location → Prop} {source : Path}

/-- The converter that checks inner markup or does not. -/
def checking (c : Converter) (checks : Bool) : Converter :=
  { c with checksMarkup := checks }

/-- Whether the component of a source, and the directories above it, are at some places only. -/
structure OutputKeepsTo (c : Converter) (source : Path) (places : Location → Prop) : Prop where
  output : KeepsTo (c.outputPath source) places
  parent : KeepsTo (c.outputPath source).parent places

theorem OutputKeepsTo.mono {more : Location → Prop} (h : c.OutputKeepsTo source places)
    (hmore : ∀ place, places place → more place) : c.OutputKeepsTo source more :=
  ⟨fun names hnames place hplace => hmore place (h.output names hnames place hplace),
    fun names hnames place hplace => hmore place (h.parent names hnames place hplace)⟩

theorem outputKeepsTo_true (c : Converter) (source : Path) :
    c.OutputKeepsTo source fun _ => True :=
  ⟨fun _ _ _ _ => trivial, fun _ _ _ _ => trivial⟩

/-- Whether the findings about a source differ in the warnings at most, and these are related. -/
def FindingsBut (warned : List String → List String → Prop)
    (prepared other : Graphic × List String × CodeText) : Prop :=
  ∃ said, other = (prepared.1, said, prepared.2.2) ∧ warned prepared.2.1 said

/-- Whether outcomes differ in the warnings at most, and these are related. -/
def OutcomeBut (warned : List String → List String → Prop) (outcome other : Outcome) : Prop :=
  ∃ said, other = { outcome with warnings := said } ∧ warned outcome.warnings said

theorem parallel_mayReplace (c : Converter) (checks : Bool) (fileName : CodeText) :
    Parallel places Eq (c.mayReplace fileName) ((c.checking checks).mayReplace fileName) := by
  show Parallel places Eq (c.mayReplace fileName) (c.mayReplace fileName)
  rw [mayReplace]
  split
  · exact parallel_pure rfl
  · split
    · exact parallel_ask fileName
    · exact parallel_pure rfl

theorem parallel_finish {warned : List String → List String → Prop} {checks : Bool}
    (houtput : c.OutputKeepsTo source places)
    {prepared other : Graphic × List String × CodeText} (h : FindingsBut warned prepared other)
    (replace : Bool) :
    Parallel places (OutcomeBut warned) (c.finish source prepared replace)
      ((c.checking checks).finish source other replace) := by
  obtain ⟨said, rfl, hwarned⟩ := h
  have houtcome : ∀ status, OutcomeBut warned (c.outcomeOf source prepared.1 prepared.2.1 status)
      ((c.checking checks).outcomeOf source prepared.1 said status) :=
    fun status => ⟨said, rfl, hwarned⟩
  cases replace with
  | true =>
      exact (Storage.parallel_saveComponent houtput.output houtput.parent _ _).bind fun _ _ _ =>
        (parallel_note _ _ _).bind fun _ _ _ => parallel_pure (houtcome .created)
  | false => exact (parallel_note _ _ _).bind fun _ _ _ => parallel_pure (houtcome .skipped)

theorem parallel_deliver {warned : List String → List String → Prop} {checks : Bool}
    (houtput : c.OutputKeepsTo source places)
    {prepared other : Graphic × List String × CodeText} (h : FindingsBut warned prepared other) :
    Parallel places (OutcomeBut warned) (c.deliver source prepared)
      ((c.checking checks).deliver source other) := by
  refine Parallel.look (fun fs other hagree => hagree.existsAt houtput.output) fun present => ?_
  have hfinish : ∀ replace replace' : Bool, replace = replace' →
      Parallel places (OutcomeBut warned) (c.finish source prepared replace)
        ((c.checking checks).finish source other replace') := by
    rintro replace _ rfl
    exact parallel_finish houtput h replace
  cases present with
  | true => exact (c.parallel_mayReplace checks _).bind hfinish
  | false => exact (parallel_pure rfl).bind hfinish

/-- **Conversions go in parallel when what they find out does**, up to the warnings. -/
theorem parallel_checking {warned : List String → List String → Prop} {checks : Bool}
    (hnone : warned [] []) (houtput : c.OutputKeepsTo source places)
    (h : ∀ fs other, Agree places fs other → Matches (FindingsBut warned) (c.prepared source fs)
      ((c.checking checks).prepared source other)) :
    Parallel places (OutcomeBut warned) (c.convertOrReport source)
      ((c.checking checks).convertOrReport source) := by
  have hfile : Parallel places (OutcomeBut warned) (c.convertFile source)
      ((c.checking checks).convertFile source) := by
    rw [convertFile_eq, convertFile_eq]
    exact ((c.reads_prepare source).parallel ((c.checking checks).reads_prepare source) h).bind
      fun _ _ hprepared => parallel_deliver houtput hprepared
  refine hfile.tryCatch fun fault => (parallel_note _ _ _).bind fun _ _ _ => parallel_pure ?_
  exact ⟨[], rfl, hnone⟩

/-- The text of a source depends on the places that its path passes. -/
theorem sourceText_of_agree {fs other : FileSystem} (h : Agree places fs other)
    (hsource : KeepsTo source places) : sourceText source other = sourceText source fs := by
  rw [sourceText, sourceText, resolved, resolved, loaded, loaded, h.isFile hsource,
    h.existsAt hsource, h.read hsource]

theorem prepared_of_agree {fs other : FileSystem} (h : Agree places fs other)
    (hsource : KeepsTo source places) : c.prepared source other = c.prepared source fs := by
  rw [prepared, prepared, sourceText_of_agree h hsource]

/-- **A conversion depends on the places that its source and its output pass.** -/
theorem parallel_convertOrReport (hsource : KeepsTo source places)
    (houtput : c.OutputKeepsTo source places) :
    Parallel places Eq (c.convertOrReport source) (c.convertOrReport source) := by
  have hparallel : Parallel places (OutcomeBut Eq) (c.convertOrReport source)
      ((c.checking c.checksMarkup).convertOrReport source) := by
    refine parallel_checking rfl houtput fun fs other hagree => ?_
    show Matches _ (c.prepared source fs) (c.prepared source other)
    rw [prepared_of_agree hagree hsource]
    exact (matches_eq_iff.2 rfl).mono fun prepared _ heq => heq ▸ ⟨prepared.2.1, rfl, rfl⟩
  intro w v hwv
  obtain ⟨hresult, hafter⟩ := hparallel w v hwv
  refine ⟨hresult.mono fun outcome other hother => ?_, hafter⟩
  obtain ⟨said, rfl, rfl⟩ := hother
  rfl

/-- So does a run, on the places that its sources and their outputs pass. -/
theorem parallel_run {sources : List Path} (hsources : ∀ source ∈ sources, KeepsTo source places)
    (houtputs : ∀ source ∈ sources, c.OutputKeepsTo source places) :
    Parallel places Eq (sources.mapM c.convertOrReport) (sources.mapM c.convertOrReport) := by
  have hrun : Parallel places (List.Forall₂ Eq) (sources.mapM c.convertOrReport)
      (sources.mapM c.convertOrReport) :=
    Parallel.mapM fun source hsource =>
      parallel_convertOrReport (hsources source hsource) (houtputs source hsource)
  intro w v hwv
  obtain ⟨hresult, hafter⟩ := hrun w v hwv
  exact ⟨hresult.mono fun _ _ houtcomes => List.forall₂_eq_eq_eq ▸ houtcomes, hafter⟩

theorem Course.get?_eq {before after : FileSystem} {outcome : Outcome}
    (h : c.Course source before outcome after) (houtput : c.OutputKeepsTo source places)
    {place : Location} (hplace : ¬ places place) : after.get? place = before.get? place := by
  cases h with
  | failed fault => rfl
  | skipped graphic warnings component found => rfl
  | created graphic warnings component found saved =>
      exact Storage.get?_saved houtput.output houtput.parent _ component before hplace
  | broken graphic warnings component found fault saved =>
      exact Storage.get?_saved houtput.output houtput.parent _ component before hplace

theorem get?_run {sources : List Path}
    (houtputs : ∀ source ∈ sources, c.OutputKeepsTo source places) {w after : Workspace}
    {result : Except Fault (List Outcome)}
    (h : (sources.mapM c.convertOrReport).perform w = (result, after)) {place : Location}
    (hplace : ¬ places place) : after.files.get? place = w.files.get? place := by
  induction sources generalizing w after result with
  | nil =>
      rw [List.mapM_nil, perform_pure] at h
      obtain ⟨-, rfl⟩ := Prod.mk.inj h
      rfl
  | cons source sources ih =>
      obtain ⟨outcome, between, hfirst, hcourse⟩ := c.convertOrReport_course source w
      obtain ⟨outcomes, _, left, hrest, -⟩ := c.run_rows sources between
      rw [List.mapM_cons] at h
      simp only [perform_bind, hfirst, hrest, perform_pure] at h
      obtain ⟨-, rfl⟩ := Prod.mk.inj h
      rw [ih (fun other hother => houtputs other (List.mem_cons_of_mem _ hother)) hrest]
      exact hcourse.get?_eq (houtputs source List.mem_cons_self) hplace

/-- A run from a workspace with the same files everywhere is the same run. -/
theorem run_of_alikeAt {sources : List Path} {w v after : Workspace}
    {result : Except Fault (List Outcome)} (h : AlikeAt (fun _ => True) w v)
    (hrun : (sources.mapM c.convertOrReport).perform w = (result, after)) :
    ∃ after', (sources.mapM c.convertOrReport).perform v = (result, after') ∧
      AlikeAt (fun _ => True) after after' := by
  have hparallel : Parallel (fun _ => True) Eq (sources.mapM c.convertOrReport)
      (sources.mapM c.convertOrReport) :=
    parallel_run (fun _ _ _ _ _ _ => trivial) fun source _ => c.outputKeepsTo_true source
  obtain ⟨hresult, hafter⟩ := hparallel w v h
  rw [hrun, matches_eq_iff] at hresult
  rw [hrun] at hafter
  rcases hother : (sources.mapM c.convertOrReport).perform v with ⟨result', after'⟩
  rw [hother] at hresult hafter
  obtain rfl : result = result' := hresult
  exact ⟨after', rfl, hafter⟩

end Converter

end IconForge
