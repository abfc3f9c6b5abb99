import IconForge.Proofs.Conversion.Parallel
import IconForge.Proofs.Json.Shortness

set_option autoImplicit false

/-! # The check only warns

Two converters that differ in whether they check inner markup go in parallel, as long as the limit
of the check is a number that can be displayed: the check cannot fail then, so all that it leaves
behind are warnings. A run over a directory changes the same files, asks the same questions and
gives the same rows, but for their warnings (`convertDirectory_checking`).

The warnings of a row are about the content of its source when its turn comes. A limit that cannot
be displayed makes the check fail, and with it the conversion (`checking_hidden_limit`). -/

namespace IconForge

open IconForge.Action FileSystem

/-- Whether a value is a number that can be displayed. -/
def Json.isLimit : Json → Bool
  | .boolean _ => true
  | .integer value => !isTooLong value
  | .real _ => true
  | _ => false

theorem Json.isShort_of_isLimit {limit : Json} (h : limit.isLimit) : limit.isShort := by
  cases limit with
  | boolean value => rfl
  | integer value => exact h
  | real x => rfl
  | _ => cases h

namespace Markup

/-- **With a limit that can be displayed, the check always comes to an answer.** -/
theorem exists_offence?_of_isLimit {limit : Json} (h : limit.isLimit)
    (namespaces : List (String × String)) (content : String) :
    ∃ answer, offence? limit namespaces content = .ok answer := by
  have hanswer : ∀ exceeded : Bool, limit.exceededBy? content.utf8ByteSize = some exceeded →
      ∃ answer, offence? limit namespaces content = .ok answer := by
    intro exceeded hexceeded
    rw [offence?, hexceeded]
    cases exceeded with
    | false => exact ⟨_, rfl⟩
    | true =>
        -- The message of the offence displays the limit.
        obtain ⟨shown, hshown⟩ := Json.exists_inspect limit (Json.isShort_of_isLimit h)
        dsimp only
        rw [sizeOffence, hshown]
        exact ⟨_, rfl⟩
  cases limit with
  | boolean b => exact hanswer _ rfl
  | integer i => exact hanswer _ rfl
  | real x => exact hanswer _ rfl
  | _ => cases h

end Markup

namespace Converter

variable {c : Converter}

/-- Whether a text is what the check says about the content of a source: the message of the first
offence in the graphic that is taken from it, or nothing. -/
def Judged (c : Converter) (source : Path) (fs : FileSystem) (said : String) : Prop :=
  ∃ text graphic answer, sourceText source fs = .ok text ∧
    Graphic.extract c.defaultSize text = .ok graphic ∧
    Markup.offence? c.maxMarkupSize graphic.namespaces graphic.inner = .ok answer ∧
    said = (answer.map Markup.Offence.message).getD ""

/-! ## With and without the check -/

/-- The check decides about the warnings only, and without it there are none. -/
theorem matches_understood (hlimit : c.maxMarkupSize.isLimit) (source : Path) (text : String) :
    Matches (FindingsBut fun _ plain => plain = []) ((c.checking true).understood source text)
      ((c.checking false).understood source text) := by
  cases hgraphic : Graphic.extract c.defaultSize text with
  | error why =>
      rw [understood_of_error (c := c.checking true) hgraphic,
        understood_of_error (c := c.checking false) hgraphic]
      exact .error _
  | ok graphic =>
      obtain ⟨answer, hanswer⟩ :=
        Markup.exists_offence?_of_isLimit hlimit graphic.namespaces graphic.inner
      have hchecked : (c.checking true).warningsFor graphic =
          .ok (answer.toList.map Markup.Offence.message) :=
        warningsFor_of_answer rfl hanswer
      have hunchecked : (c.checking false).warningsFor graphic = .ok [] := rfl
      rw [understood_of_ok (c := c.checking true) hgraphic,
        understood_of_ok (c := c.checking false) hgraphic, hchecked, hunchecked]
      -- The component does not depend on the check.
      show Matches _
        ((c.generator.generate (baseName source) graphic).mapError Fault.number >>= _)
        ((c.generator.generate (baseName source) graphic).mapError Fault.number >>= _)
      cases c.generator.generate (baseName source) graphic with
      | error fault => exact .error _
      | ok component => exact .ok ⟨[], rfl, rfl⟩

/-- **A run with the check and one without go in parallel.** -/
theorem parallel_run_checking (hlimit : c.maxMarkupSize.isLimit) (sources : List Path) :
    Parallel (fun _ => True) (List.Forall₂ (OutcomeBut fun _ plain => plain = []))
      (sources.mapM (c.checking true).convertOrReport)
      (sources.mapM (c.checking false).convertOrReport) := by
  refine Parallel.mapM fun source _ => ?_
  show Parallel _ _ ((c.checking true).convertOrReport source)
    (((c.checking true).checking false).convertOrReport source)
  refine parallel_checking rfl (outputKeepsTo_true _ source) fun fs other hagree => ?_
  have htext : sourceText source other = sourceText source fs :=
    sourceText_of_agree hagree fun _ _ _ _ => trivial
  show Matches _ (sourceText source fs >>= (c.checking true).understood source)
    (sourceText source other >>= (c.checking false).understood source)
  rw [htext]
  cases sourceText source fs with
  | error fault => exact .error fault
  | ok text => exact matches_understood hlimit source text

/-! ## Rows -/

/-- A row without its warnings. -/
def plain (row : Row) : Row :=
  { row with warnings := "" }

theorem row_of_outcomeBut {outcome other : Outcome} {row : Row}
    (h : OutcomeBut (fun _ plain => plain = []) outcome other) (hrow : outcome.row = .ok row) :
    other.row = .ok (plain row) := by
  obtain ⟨_, rfl, rfl⟩ := h
  rw [Outcome.row] at hrow ⊢
  dsimp only
  cases hbox : outcome.viewBox.mapM ViewBox.text with
  | error fault =>
      rw [hbox] at hrow
      cases hrow
  | ok viewBox =>
      rw [hbox] at hrow
      cases hrow
      rfl

theorem rows_of_outcomesBut {outcomes others : List Outcome} {rows : List Row}
    (h : List.Forall₂ (OutcomeBut fun _ plain => plain = []) outcomes others)
    (hrows : outcomes.mapM Outcome.row = .ok rows) :
    others.mapM Outcome.row = .ok (rows.map plain) := by
  rw [mapM_eq_ok_iff] at hrows ⊢
  induction h generalizing rows with
  | nil =>
      cases hrows
      exact .nil
  | cons hfirst hrest ih =>
      cases hrows with
      | cons hrow hrows => exact .cons (row_of_outcomeBut hfirst hrow) (ih hrows)

/-- The outcome of a source in a run is that of its conversion when its turn comes. -/
theorem outcome_at_turn {front behind : List Path} {source : Path} {w after : Workspace}
    {outcomes : List Outcome}
    (h : ((front ++ source :: behind).mapM c.convertOrReport).perform w = (.ok outcomes, after)) :
    ∃ outcome later, outcomes[front.length]? = some outcome ∧
      (c.convertOrReport source).perform ((front.mapM c.convertOrReport).perform w).2 =
        (.ok outcome, later) := by
  rw [List.mapM_append] at h
  obtain ⟨before, turn, hfront, h⟩ := perform_bind_eq_ok h
  obtain ⟨rest, between, hrest, h⟩ := perform_bind_eq_ok h
  obtain rfl : before ++ rest = outcomes := Except.ok.inj (Prod.mk.inj h).1
  rw [List.mapM_cons] at hrest
  obtain ⟨outcome, later, hsource, hrest⟩ := perform_bind_eq_ok hrest
  obtain ⟨others, _, -, hrest⟩ := perform_bind_eq_ok hrest
  obtain rfl : outcome :: others = rest := Except.ok.inj (Prod.mk.inj hrest).1
  have hlength : before.length = front.length := length_run hfront
  refine ⟨outcome, later, ?_, ?_⟩
  · rw [← hlength, List.getElem?_append_right (Nat.le_refl _), Nat.sub_self]
    rfl
  · rw [hfront]
    exact hsource

/-- What is warned of is what the check says about the source. -/
theorem judged_of_prepared (hlimit : c.maxMarkupSize.isLimit) {source : Path} {fs : FileSystem}
    {graphic : Graphic} {warnings : List String} {component : CodeText}
    (h : (c.checking true).prepared source fs = .ok (graphic, warnings, component)) :
    c.Judged source fs (String.intercalate "; " warnings) := by
  obtain ⟨text, htext, hunderstood⟩ := prepared_eq_ok h
  obtain ⟨hgraphic, hwarnings, -⟩ := understood_eq_ok hunderstood
  obtain ⟨answer, hanswer⟩ :=
    Markup.exists_offence?_of_isLimit hlimit graphic.namespaces graphic.inner
  rw [warningsFor_of_answer (c := c.checking true) rfl hanswer, Except.ok.injEq] at hwarnings
  refine ⟨text, graphic, answer, htext, hgraphic, hanswer, ?_⟩
  rw [← hwarnings]
  cases answer <;> rfl

/-- **The row of a source in a run with the check**: an error without warnings, or a row whose
warnings are what the check says about the source when its turn comes. -/
theorem row_at_turn (hlimit : c.maxMarkupSize.isLimit) {front behind : List Path} {source : Path}
    {w after : Workspace} {outcomes : List Outcome} {rows : List Row}
    (h : ((front ++ source :: behind).mapM (c.checking true).convertOrReport).perform w =
      (.ok outcomes, after)) (hrows : outcomes.mapM Outcome.row = .ok rows) :
    ∃ row, rows[front.length]? = some row ∧ row.source = source.text ∧
      (row.status = Status.error.name ∧ row.warnings = "" ∨
        c.Judged source ((front.mapM (c.checking true).convertOrReport).perform w).2.files
          row.warnings) := by
  obtain ⟨outcome, later, hplace, hturn⟩ := outcome_at_turn h
  -- Rows and outcomes correspond place by place.
  obtain ⟨row, hrow, hoption⟩ : ∃ row, outcome.row = .ok row ∧ rows[front.length]? = some row := by
    have hpairs := List.forall₂_iff_get.1 (mapM_eq_ok_iff.1 hrows)
    obtain ⟨hlt, houtcome⟩ := List.getElem?_eq_some_iff.1 hplace
    have hlt' : front.length < rows.length := hpairs.1 ▸ hlt
    refine ⟨rows[front.length], ?_, List.getElem?_eq_getElem hlt'⟩
    rw [← houtcome]
    exact hpairs.2 _ hlt hlt'
  refine ⟨row, hoption, ?_⟩
  obtain ⟨found, left, hperform, hcourse⟩ := (c.checking true).convertOrReport_course source
    ((front.mapM (c.checking true).convertOrReport).perform w).2
  generalize left.files = fs at hcourse
  rw [hturn] at hperform
  obtain rfl : outcome = found := Except.ok.inj (Prod.mk.inj hperform).1
  -- What was found out is shown with its warnings, whatever became of the component.
  have hfound : ∀ graphic warnings component status,
      (c.checking true).prepared source
        ((front.mapM (c.checking true).convertOrReport).perform w).2.files =
          .ok (graphic, warnings, component) →
      ((c.checking true).outcomeOf source graphic warnings status).row = .ok row →
        row.source = source.text ∧ c.Judged source
          ((front.mapM (c.checking true).convertOrReport).perform w).2.files row.warnings := by
    intro graphic warnings component status hprepared hshown
    obtain ⟨found, hfound, hsource, -, hwarnings⟩ := row_outcomeOf hprepared status
    rw [hshown, Except.ok.injEq] at hfound
    rw [hfound, hwarnings]
    exact ⟨hsource, judged_of_prepared hlimit hprepared⟩
  cases hcourse with
  | failed fault =>
      obtain rfl := Except.ok.inj hrow
      exact ⟨rfl, Or.inl ⟨rfl, rfl⟩⟩
  | skipped graphic warnings component found =>
      exact (hfound graphic warnings component .skipped found hrow).imp_right Or.inr
  | created graphic warnings component found saved =>
      exact (hfound graphic warnings component .created found hrow).imp_right Or.inr
  | broken graphic warnings component found fault saved =>
      obtain rfl := Except.ok.inj hrow
      exact ⟨rfl, Or.inl ⟨rfl, rfl⟩⟩

/-! ## The run over a directory -/

/-- **The check of inner markup only warns.** When the sources in a directory can be found, runs
over it with and without the check give the same rows but for their warnings, change the files in
the same way and ask the same questions; otherwise both end with the same fault and nothing happens.
Without the check there are no warnings; with it, those of a row are what the check says about its
source when its turn comes, and an error has none. -/
theorem convertDirectory_checking (c : Converter) (hlimit : c.maxMarkupSize.isLimit)
    (directory : Path) (recursive : Bool) (w : Workspace) :
    ∃ checked unchecked after after',
      ((c.checking true).convertDirectory directory recursive).perform w = (checked, after) ∧
      ((c.checking false).convertDirectory directory recursive).perform w = (unchecked, after') ∧
      (∀ place, after'.files.get? place = after.files.get? place) ∧
      after'.asked = after.asked ∧ after'.answers = after.answers ∧
      (¬ Searchable c.room.searching w.files directory recursive →
        (∃ fault, checked = .error fault ∧ unchecked = .error fault) ∧ after.files = w.files) ∧
      (Searchable c.room.searching w.files directory recursive →
        ∃ rows, checked = .ok rows ∧ unchecked = .ok (rows.map plain) ∧
          rows.length = (sourcesIn w.files directory recursive).length ∧
          ∀ front source behind,
            sourcesIn w.files directory recursive = front ++ source :: behind →
              ∃ row, rows[front.length]? = some row ∧ row.source = source.text ∧
                (row.status = Status.error.name ∧ row.warnings = "" ∨
                  c.Judged source ((front.mapM (c.checking true).convertOrReport).perform w).2.files
                    row.warnings)) := by
  by_cases hsearch : Searchable c.room.searching w.files directory recursive
  · obtain ⟨noted, outcomes, rows, after, halike, hrun, hrows, hperform, hsources, -⟩ :=
      (c.checking true).convertDirectory_rows hsearch
    obtain ⟨noted', outcomes', rows', after', halike', hrun', hrows', hperform', -⟩ :=
      (c.checking false).convertDirectory_rows hsearch
    -- The two runs begin with the same files and questions.
    have hstart : AlikeAt (fun _ => True) noted noted' :=
      ((halike.alikeAt _).symm).trans (halike'.alikeAt _)
    obtain ⟨hresult, hafter⟩ := parallel_run_checking hlimit _ noted noted' hstart
    rw [hrun, hrun'] at hresult hafter
    obtain ⟨houtcomes⟩ := hresult
    rw [rows_of_outcomesBut houtcomes hrows, Except.ok.injEq] at hrows'
    refine ⟨.ok rows, .ok rows', after, after', hperform, hperform',
      fun place => hafter.files place trivial, hafter.asked, hafter.answers,
      fun hno => absurd hsearch hno, fun _ => ⟨rows, rfl, hrows' ▸ rfl, ?_, ?_⟩⟩
    · rw [← List.length_map (f := Row.source), hsources, List.length_map]
    · intro front source behind hsplit
      rw [hsplit] at hrun
      obtain ⟨row, hoption, hsource, hcase⟩ := row_at_turn hlimit hrun hrows
      refine ⟨row, hoption, hsource, hcase.imp_right ?_⟩
      -- The log that the run began with does not matter.
      rintro ⟨text, graphic, answer, htext, hjudged⟩
      refine ⟨text, graphic, answer, ?_, hjudged⟩
      obtain ⟨before, _, turn, hfront, -⟩ := (c.checking true).run_rows front noted
      obtain ⟨turn', hfront', hturn⟩ := run_of_alikeAt (halike.alikeAt _).symm hfront
      rw [hfront] at htext
      rw [hfront', ← htext]
      exact sourceText_of_agree hturn.files fun _ _ _ _ => trivial
  · obtain ⟨fault, hrefused⟩ := perform_convertDirectory_refused hsearch
    exact ⟨_, _, w, w, hrefused (c.checking true) rfl, hrefused (c.checking false) rfl,
      fun _ => rfl, rfl, rfl, fun _ => ⟨⟨fault, rfl, rfl⟩, rfl⟩, fun hyes => absurd hyes hsearch⟩

/-! ## An icon with a script -/

def scriptedIcon : FileSystem where
  entries :=
    [(Location.top.within "in", .directory),
     ((Location.top.within "in").within "star.svg",
       .file (Text.Utf8.encode "<svg viewBox=\"0 0 1 1\"><script/></svg>".toList))]
  named := by decide
  nodup := by decide
  rooted := by decide

theorem locate_scriptedIcon :
    scriptedIcon.locate (Path.ofText "in") = .ok (Location.top.within "in") := by
  decide

theorem searchable_scriptedIcon : Searchable 8 scriptedIcon (Path.ofText "in") false :=
  searchable_of_answered locate_scriptedIcon (by decide) (by decide)

/-- The converter with the default settings and some room. -/
def usualConverter : Converter :=
  default (.ofLevels 8)

def scriptedRun (c : Converter) : Except Fault (List Row) × Workspace :=
  (c.convertDirectory (Path.ofText "in") false).perform { files := scriptedIcon }

/-- What the rows of a run say about the icons. -/
def verdicts (run : Except Fault (List Row) × Workspace) : Option (List (String × String)) :=
  run.1.toOption.map (List.map fun row => (row.status, row.warnings))

theorem exists_rows_of_verdicts {run : Except Fault (List Row) × Workspace}
    {said : List (String × String)} (h : verdicts run = some said) :
    ∃ rows after, run = (.ok rows, after) ∧
      rows.map (fun row => (row.status, row.warnings)) = said := by
  rcases run with ⟨fault | rows, after⟩
  · cases h
  · exact ⟨rows, after, rfl, Option.some.inj h⟩

theorem verdicts_scriptedRun :
    verdicts (scriptedRun (usualConverter.checking true)) =
      some [("created", "Script elements cannot be embedded in a component")] := by
  have hrun : scriptedRun (usualConverter.checking true) = _ :=
    perform_convertDirectory searchable_scriptedIcon
  rw [hrun, sourcesIn_of_sorted locate_scriptedIcon (by decide)]
  decide +kernel

/-- The component is created in spite of the script, and the same without the check and without the
warning. -/
theorem convertDirectory_checking_script :
    usualConverter.maxMarkupSize.isLimit ∧ ∃ rows after after',
      scriptedRun (usualConverter.checking true) = (.ok rows, after) ∧
      rows.map (fun row => (row.status, row.warnings)) =
        [("created", "Script elements cannot be embedded in a component")] ∧
      scriptedRun (usualConverter.checking false) = (.ok (rows.map plain), after') ∧
      ∀ place, after'.files.get? place = after.files.get? place := by
  have hlimit : usualConverter.maxMarkupSize.isLimit := by decide +kernel
  refine ⟨hlimit, ?_⟩
  obtain ⟨checked, unchecked, after, after', hchecked, hunchecked, hfiles, -, -, -, hrows⟩ :=
    convertDirectory_checking usualConverter hlimit (Path.ofText "in") false
      { files := scriptedIcon }
  obtain ⟨rows, rfl, rfl, -⟩ := hrows searchable_scriptedIcon
  obtain ⟨found, later, hrun, hsaid⟩ := exists_rows_of_verdicts verdicts_scriptedRun
  obtain ⟨hsame, rfl⟩ := Prod.mk.inj (hchecked.symm.trans hrun)
  obtain rfl := Except.ok.inj hsame
  exact ⟨rows, after, after', hrun, hsaid, hunchecked, hfiles⟩

/-- The converter with a limit that every content exceeds and that has more digits than can be
displayed. -/
def hiddenLimitConverter : Converter :=
  { usualConverter with maxMarkupSize := .integer (-10 ^ 5000) }

theorem verdicts_hiddenLimit :
    verdicts (scriptedRun (hiddenLimitConverter.checking true)) = some [("error", "")] ∧
      verdicts (scriptedRun (hiddenLimitConverter.checking false)) = some [("created", "")] := by
  have hrun : ∀ checks : Bool, scriptedRun (hiddenLimitConverter.checking checks) = _ :=
    fun _ => perform_convertDirectory searchable_scriptedIcon
  rw [hrun, hrun, sourcesIn_of_sorted locate_scriptedIcon (by decide)]
  decide +kernel

/-- A limit that cannot be displayed makes the check more than a warning: with it the component is
not created, and without it the component is. -/
theorem checking_hidden_limit :
    ∃ rows rows' after after',
      scriptedRun (hiddenLimitConverter.checking true) = (.ok rows, after) ∧
      scriptedRun (hiddenLimitConverter.checking false) = (.ok rows', after') ∧
      rows.map Row.status = ["error"] ∧ rows'.map Row.status = ["created"] := by
  obtain ⟨hchecked, hunchecked⟩ := verdicts_hiddenLimit
  obtain ⟨rows, after, hrun, hsaid⟩ := exists_rows_of_verdicts hchecked
  obtain ⟨rows', after', hrun', hsaid'⟩ := exists_rows_of_verdicts hunchecked
  have hstatus : ∀ others : List Row, others.map Row.status =
      (others.map fun row => (row.status, row.warnings)).map Prod.fst := by
    simp
  refine ⟨rows, rows', after, after', hrun, hrun', ?_, ?_⟩
  · rw [hstatus, hsaid]
    rfl
  · rw [hstatus, hsaid']
    rfl

end Converter

end IconForge
