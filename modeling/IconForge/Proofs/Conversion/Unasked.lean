import IconForge.Proofs.Conversion.Parallel
import IconForge.Proofs.Conversion.Saving

set_option autoImplicit false

/-! # Conversions that ask nothing

A converter that asks nothing leaves the answers alone, and what it does is a function of the files:
the outcome of a conversion with the files behind it (`Converter.turn`), and the outcomes of a run
with the files behind that (`Converter.turns`). A run over a directory whose sources can be found
gives the rows of these outcomes (`perform_convertDirectory_turns`). -/

namespace IconForge

open IconForge.Action FileSystem Text.Encoding

namespace Converter

variable {c : Converter}

/-! ## One conversion -/

/-- What a conversion that asks nothing comes to: its outcome and the files behind it. -/
def turn (c : Converter) (source : Path) (fs : FileSystem) : Outcome × FileSystem :=
  match c.prepared source fs with
  | .error fault => (failure source fault, fs)
  | .ok (graphic, warnings, component) =>
    match fs.existsAt (c.outputPath source) with
    | .error fault => (failure source (.file fault), fs)
    | .ok present =>
      if present && !c.overwrite then (c.outcomeOf source graphic warnings .skipped, fs)
      else
        (c.savedOutcome source graphic warnings
          (Storage.saved c.room.making component (c.outputPath source) fs).1,
          (Storage.saved c.room.making component (c.outputPath source) fs).2)

section

variable {source : Path} {fs : FileSystem} {graphic : Graphic} {warnings : List String}
  {component : CodeText}

theorem turn_of_error {fault : Fault} (h : c.prepared source fs = .error fault) :
    c.turn source fs = (failure source fault, fs) := by
  rw [turn, h]

theorem turn_of_unanswered (h : c.prepared source fs = .ok (graphic, warnings, component))
    {fault : FileSystem.Fault} (hexists : fs.existsAt (c.outputPath source) = .error fault) :
    c.turn source fs = (failure source (.file fault), fs) := by
  rw [turn, h]
  simp only [hexists]

theorem turn_of_present (h : c.prepared source fs = .ok (graphic, warnings, component))
    (hexists : fs.existsAt (c.outputPath source) = .ok true) (hkeeps : c.overwrite = false) :
    c.turn source fs = (c.outcomeOf source graphic warnings .skipped, fs) := by
  rw [turn, h]
  simp only [hexists, hkeeps, Bool.not_false, Bool.and_self, if_true]

theorem turn_of_saved (h : c.prepared source fs = .ok (graphic, warnings, component))
    {present : Bool} (hexists : fs.existsAt (c.outputPath source) = .ok present)
    (hreplaces : present = false ∨ c.overwrite = true) :
    c.turn source fs = (c.savedOutcome source graphic warnings
      (Storage.saved c.room.making component (c.outputPath source) fs).1,
      (Storage.saved c.room.making component (c.outputPath source) fs).2) := by
  have hnot : (present && !c.overwrite) = false := by
    rcases hreplaces with rfl | hreplaces
    · rfl
    · rw [hreplaces, Bool.not_true, Bool.and_false]
  rw [turn, h]
  simp only [hexists, hnot, Bool.false_eq_true, if_false]

end

/-- **A conversion that asks nothing does what `turn` says.** -/
theorem perform_convertOrReport_turn (hasks : c.asks = false) (source : Path) (w : Workspace) :
    ∃ after, (c.convertOrReport source).perform w = (.ok (c.turn source w.files).1, after) ∧
      after.files = (c.turn source w.files).2 ∧ after.answers = w.answers ∧
      after.asked = w.asked := by
  cases hprepared : c.prepared source w.files with
  | error fault =>
      obtain ⟨after, hperform, halike⟩ := perform_convertOrReport_of_prepared hprepared
      rw [turn_of_error hprepared]
      exact ⟨after, hperform, halike.files, halike.answers, halike.asked⟩
  | ok prepared =>
  obtain ⟨graphic, warnings, component⟩ := prepared
  obtain ⟨ready, hfile, halike⟩ := perform_convertFile_of_prepared hprepared
  rw [perform_deliver, halike.files] at hfile
  cases hexists : w.files.existsAt (c.outputPath source) with
  | error fault =>
      rw [hexists] at hfile
      obtain ⟨after, hperform, hafter⟩ := perform_convertOrReport_of_error hfile
      rw [turn_of_unanswered hprepared hexists]
      exact ⟨after, hperform, hafter.files.trans halike.files,
        hafter.answers.trans halike.answers, hafter.asked.trans halike.asked⟩
  | ok present =>
  rw [hexists] at hfile
  -- Without a question, whether to replace is settled beforehand.
  have hmay : c.mayReplace (c.generator.fileName (baseName source)) = pure c.overwrite := by
    rw [mayReplace, hasks]
    cases c.overwrite <;> rfl
  by_cases hreplaces : present = false ∨ c.overwrite = true
  · have hfinish : (c.convertFile source).perform w =
        (c.finish source (graphic, warnings, component) true).perform ready := by
      cases present with
      | false => exact hfile
      | true =>
          simp only [hmay, perform_bind, perform_pure] at hfile
          rw [hfile, hreplaces.resolve_left (by decide)]
    obtain ⟨after, hperform, hfiles, hanswers, hasked⟩ :=
      perform_convertOrReport_of_finish hfinish
    rw [halike.files] at hperform hfiles
    rw [turn_of_saved hprepared hexists hreplaces]
    exact ⟨after, hperform, hfiles, hanswers.trans halike.answers, hasked.trans halike.asked⟩
  · rw [not_or, Bool.not_eq_false, Bool.not_eq_true] at hreplaces
    obtain ⟨rfl, hkeeps⟩ := hreplaces
    simp only [hmay, perform_bind, perform_pure, hkeeps] at hfile
    rw [turn_of_present hprepared hexists hkeeps]
    exact ⟨_, perform_convertOrReport_of_ok hfile, halike.files, halike.answers, halike.asked⟩

theorem source_savedOutcome (c : Converter) (source : Path) (graphic : Graphic)
    (warnings : List String) (result : Except Fault Unit) :
    (c.savedOutcome source graphic warnings result).source = source := by
  cases result <;> rfl

/-- A conversion leaves the files alone and creates nothing, or its component is saved. -/
theorem turn_cases (c : Converter) (source : Path) (fs : FileSystem) :
    (∃ outcome : Outcome, outcome.source = source ∧ saysCreated outcome = false ∧
      c.turn source fs = (outcome, fs)) ∨
      ∃ graphic warnings component, c.turn source fs =
        (c.savedOutcome source graphic warnings
          (Storage.saved c.room.making component (c.outputPath source) fs).1,
          (Storage.saved c.room.making component (c.outputPath source) fs).2) := by
  cases hprepared : c.prepared source fs with
  | error fault => exact Or.inl ⟨_, rfl, rfl, turn_of_error hprepared⟩
  | ok prepared =>
      obtain ⟨graphic, warnings, component⟩ := prepared
      cases hexists : fs.existsAt (c.outputPath source) with
      | error fault => exact Or.inl ⟨_, rfl, rfl, turn_of_unanswered hprepared hexists⟩
      | ok present =>
          by_cases hreplaces : present = false ∨ c.overwrite = true
          · exact Or.inr ⟨_, _, _, turn_of_saved hprepared hexists hreplaces⟩
          · rw [not_or, Bool.not_eq_false, Bool.not_eq_true] at hreplaces
            obtain ⟨rfl, hkeeps⟩ := hreplaces
            exact Or.inl ⟨_, rfl, rfl, turn_of_present hprepared hexists hkeeps⟩

/-- The outcome of a conversion is about its source. -/
theorem source_turn (c : Converter) (source : Path) (fs : FileSystem) :
    (c.turn source fs).1.source = source := by
  rcases c.turn_cases source fs with ⟨outcome, hsource, -, hturn⟩ | ⟨_, _, _, hturn⟩
  · rw [hturn, hsource]
  · rw [hturn]
    exact source_savedOutcome c source _ _ _

theorem develops_turn (c : Converter) (source : Path) (fs : FileSystem) :
    fs.Develops (c.turn source fs).2 := by
  rcases c.turn_cases source fs with ⟨_, -, -, hturn⟩ | ⟨_, _, component, hturn⟩
  · rw [hturn]
    exact .refl fs
  · rw [hturn]
    exact Storage.develops_saved c.room.making component _ fs

section

variable {places : Location → Prop} {source : Path} {fs other : FileSystem}

/-- **What a conversion comes to depends on the places that its source and its output pass.** -/
theorem turn_of_agree (h : Agree places fs other) (hsource : KeepsTo source places)
    (houtput : c.OutputKeepsTo source places) :
    (c.turn source other).1 = (c.turn source fs).1 ∧
      Agree places (c.turn source fs).2 (c.turn source other).2 := by
  have hfound := prepared_of_agree h hsource (c := c)
  have hpresent := h.existsAt houtput.output
  -- Every branch of a turn asks for the places of the source and of the output only.
  cases hprepared : c.prepared source fs with
  | error fault =>
      rw [turn_of_error hprepared, turn_of_error (hfound.trans hprepared)]
      exact ⟨rfl, h⟩
  | ok prepared =>
      obtain ⟨graphic, warnings, component⟩ := prepared
      replace hfound := hfound.trans hprepared
      cases hexists : fs.existsAt (c.outputPath source) with
      | error fault =>
          rw [turn_of_unanswered hprepared hexists,
            turn_of_unanswered hfound (hpresent.trans hexists)]
          exact ⟨rfl, h⟩
      | ok present =>
          by_cases hreplaces : present = false ∨ c.overwrite = true
          · obtain ⟨hresult, hagree⟩ :=
              h.saved houtput.output houtput.parent c.room.making component
            rw [turn_of_saved hprepared hexists hreplaces,
              turn_of_saved hfound (hpresent.trans hexists) hreplaces, hresult]
            exact ⟨rfl, hagree⟩
          · rw [not_or, Bool.not_eq_false, Bool.not_eq_true] at hreplaces
            obtain ⟨rfl, hkeeps⟩ := hreplaces
            rw [turn_of_present hprepared hexists hkeeps,
              turn_of_present hfound (hpresent.trans hexists) hkeeps]
            exact ⟨rfl, h⟩

theorem get?_turn (houtput : c.OutputKeepsTo source places) (fs : FileSystem) {place : Location}
    (hplace : ¬ places place) : (c.turn source fs).2.get? place = fs.get? place := by
  rcases c.turn_cases source fs with ⟨_, -, -, hturn⟩ | ⟨_, _, component, hturn⟩
  · rw [hturn]
  · rw [hturn]
    exact Storage.get?_saved houtput.output houtput.parent c.room.making component fs hplace

end

/-! ## A run -/

/-- What a run of conversions that ask nothing comes to: their outcomes and the files behind
them. -/
def turns (c : Converter) : List Path → FileSystem → List Outcome × FileSystem
  | [], fs => ([], fs)
  | source :: sources, fs =>
    let first := c.turn source fs
    let rest := c.turns sources first.2
    (first.1 :: rest.1, rest.2)

theorem turns_cons (c : Converter) (source : Path) (sources : List Path) (fs : FileSystem) :
    c.turns (source :: sources) fs =
      ((c.turn source fs).1 :: (c.turns sources (c.turn source fs).2).1,
        (c.turns sources (c.turn source fs).2).2) := rfl

theorem sources_turns (c : Converter) (sources : List Path) (fs : FileSystem) :
    (c.turns sources fs).1.map Outcome.source = sources := by
  induction sources generalizing fs with
  | nil => rfl
  | cons source sources ih => rw [turns_cons, List.map_cons, source_turn, ih]

theorem develops_turns (c : Converter) (sources : List Path) (fs : FileSystem) :
    fs.Develops (c.turns sources fs).2 := by
  induction sources generalizing fs with
  | nil => exact .refl fs
  | cons source sources ih => exact (c.develops_turn source fs).trans (ih _)

theorem get?_turns {places : Location → Prop} {sources : List Path}
    (houtputs : ∀ source ∈ sources, c.OutputKeepsTo source places) (fs : FileSystem)
    {place : Location} (hplace : ¬ places place) :
    (c.turns sources fs).2.get? place = fs.get? place := by
  induction sources generalizing fs with
  | nil => rfl
  | cons source sources ih =>
      rw [turns_cons, ih (fun other hother => houtputs other (List.mem_cons_of_mem _ hother)),
        get?_turn (houtputs source List.mem_cons_self) fs hplace]

/-- **A run of conversions that ask nothing does what `turns` says.** -/
theorem perform_run_turns (hasks : c.asks = false) (sources : List Path) (w : Workspace) :
    ∃ after, (sources.mapM c.convertOrReport).perform w =
        (.ok (c.turns sources w.files).1, after) ∧
      after.files = (c.turns sources w.files).2 ∧ after.answers = w.answers ∧
      after.asked = w.asked := by
  induction sources generalizing w with
  | nil => exact ⟨w, rfl, rfl, rfl, rfl⟩
  | cons source sources ih =>
      obtain ⟨between, hfirst, hfiles, hanswers, hasked⟩ :=
        perform_convertOrReport_turn hasks source w
      obtain ⟨after, hrest, hafter⟩ := ih between
      rw [hfiles, hanswers, hasked] at hafter
      rw [hfiles] at hrest
      refine ⟨after, ?_, hafter⟩
      rw [List.mapM_cons]
      simp only [perform_bind, hfirst, hrest, perform_pure, turns_cons]

/-- **A run over a directory that asks nothing** gives the rows of its turns. -/
theorem perform_convertDirectory_turns (hasks : c.asks = false) {directory : Path}
    {recursive : Bool} {w : Workspace}
    (h : Searchable c.room.searching w.files directory recursive) :
    ∃ rows after, (c.turns (sourcesIn w.files directory recursive) w.files).1.mapM Outcome.row =
        .ok rows ∧
      (c.convertDirectory directory recursive).perform w = (.ok rows, after) ∧
      after.files = (c.turns (sourcesIn w.files directory recursive) w.files).2 ∧
      after.answers = w.answers ∧ after.asked = w.asked := by
  obtain ⟨noted, outcomes, rows, after, halike, hrun, hrows, hperform, -⟩ :=
    c.convertDirectory_rows h
  obtain ⟨after', hrun', hfiles, hanswers, hasked⟩ :=
    perform_run_turns hasks (sourcesIn w.files directory recursive) noted
  rw [hrun] at hrun'
  obtain ⟨houtcomes, rfl⟩ := Prod.mk.inj hrun'
  rw [Except.ok.inj houtcomes, halike.files] at hrows
  rw [halike.files] at hfiles
  exact ⟨rows, after, hrows, hperform, hfiles, hanswers.trans halike.answers,
    hasked.trans halike.asked⟩

end Converter

end IconForge
