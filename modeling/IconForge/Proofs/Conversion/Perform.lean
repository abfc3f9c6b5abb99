import IconForge.Conversion.Converter
import IconForge.Proofs.Files.Changes

set_option autoImplicit false

/-! # Performed actions

What performing an action gives, for each of the ways in which actions are put together. A
performance of one action after the other is taken apart by `perform_bind_eq_ok` and
`perform_bind_eq_error`, so no proof about a longer action has to unfold the steps in front.

Most steps of a conversion touch neither the files nor the answers (`OnlyLogs`). The two that do are
asking a question (`ask_effect`) and saving a component (`saveComponent_effect`). -/

namespace IconForge

/-- The answer to the next question, if there is one to be had. -/
def Answers.first? (answers : Answers) : Option Bool :=
  answers.next.head?.or answers.further

namespace Action

variable {α β : Type}

/-! ## Single steps -/

theorem perform_pure (value : α) (w : Workspace) :
    (pure value : Action α).perform w = (.ok value, w) := rfl

theorem perform_throw (fault : Fault) (w : Workspace) :
    (throw fault : Action α).perform w = (.error fault, w) := rfl

theorem perform_files (w : Workspace) : files.perform w = (.ok w.files, w) := rfl

theorem perform_note (level : Log.Level) (origin : Log.Origin) (text : CodeText) (w : Workspace) :
    (note level origin text).perform w =
      (.ok (), { w with log := w.log ++ [⟨level, origin, text⟩] }) := rfl

theorem perform_lift {ε : Type} (fault : ε → Fault) (value : Except ε α) (w : Workspace) :
    (lift fault value).perform w = (value.mapError fault, w) := by
  cases value <;> rfl

theorem perform_lift_eq_ok {ε : Type} {fault : ε → Fault} {value : Except ε α} {w after : Workspace}
    {result : α} (h : (lift fault value).perform w = (.ok result, after)) :
    value = .ok result ∧ after = w := by
  rw [perform_lift] at h
  cases value with
  | error e => cases h
  | ok found =>
      obtain ⟨hresult, rfl⟩ := Prod.mk.inj h
      exact ⟨congrArg Except.ok (Except.ok.inj hresult), rfl⟩

/-! ## One after the other -/

theorem perform_bind (action : Action α) (next : α → Action β) (w : Workspace) :
    (action >>= next).perform w =
      match action.perform w with
      | (.ok value, between) => (next value).perform between
      | (.error fault, between) => (.error fault, between) := by
  unfold perform ExceptT.run StateT.run
  show (ExceptT.bindCont next (action w).1) (action w).2 = _
  cases action w with
  | mk result between => cases result <;> rfl

theorem perform_files_bind (next : FileSystem → Action β) (w : Workspace) :
    (files >>= next).perform w = (next w.files).perform w := by
  rw [perform_bind, perform_files]

/-- A performance that gives a result gave one for each of its parts. -/
theorem perform_bind_eq_ok {action : Action α} {next : α → Action β} {w after : Workspace}
    {result : β} (h : (action >>= next).perform w = (.ok result, after)) :
    ∃ value between, action.perform w = (.ok value, between) ∧
      (next value).perform between = (.ok result, after) := by
  rw [perform_bind] at h
  rcases hfirst : action.perform w with ⟨fault | value, between⟩
  · rw [hfirst] at h
    cases h
  · rw [hfirst] at h
    exact ⟨value, between, rfl, h⟩

theorem perform_tryCatch (action : Action α) (handler : Fault → Action α) (w : Workspace) :
    (tryCatch action handler).perform w =
      match action.perform w with
      | (.ok value, between) => (.ok value, between)
      | (.error fault, between) => (handler fault).perform between := by
  unfold perform ExceptT.run StateT.run
  simp only [tryCatch, tryCatchThe, MonadExceptOf.tryCatch, ExceptT.tryCatch, ExceptT.mk, bind,
    StateT.bind]
  cases action w with
  | mk result between => cases result <;> rfl

/-! ## Actions that only log -/

/-- Whether two workspaces differ in their logs at most. -/
structure Alike (before after : Workspace) : Prop where
  files : after.files = before.files
  answers : after.answers = before.answers
  asked : after.asked = before.asked

theorem Alike.refl (w : Workspace) : Alike w w :=
  ⟨rfl, rfl, rfl⟩

theorem Alike.trans {first second third : Workspace} (h : Alike first second)
    (h' : Alike second third) : Alike first third :=
  ⟨h'.files.trans h.files, h'.answers.trans h.answers, h'.asked.trans h.asked⟩

/-- Whether an action does nothing to a workspace but write to its log. -/
def OnlyLogs (action : Action α) : Prop :=
  ∀ w, Alike w (action.perform w).2

theorem OnlyLogs.alike {action : Action α} (h : OnlyLogs action) {w after : Workspace}
    {result : Except Fault α} (hperform : action.perform w = (result, after)) : Alike w after := by
  have halike := h w
  rwa [hperform] at halike

theorem onlyLogs_pure (value : α) : OnlyLogs (pure value : Action α) :=
  Alike.refl

theorem onlyLogs_throw (fault : Fault) : OnlyLogs (throw fault : Action α) :=
  Alike.refl

theorem onlyLogs_files : OnlyLogs files :=
  Alike.refl

theorem onlyLogs_lift {ε : Type} (fault : ε → Fault) (value : Except ε α) :
    OnlyLogs (lift fault value) := by
  intro w
  rw [perform_lift]
  exact .refl w

theorem onlyLogs_note (level : Log.Level) (origin : Log.Origin) (text : CodeText) :
    OnlyLogs (note level origin text) :=
  fun _ => ⟨rfl, rfl, rfl⟩

theorem OnlyLogs.bind {action : Action α} {next : α → Action β} (h : OnlyLogs action)
    (hnext : ∀ value, OnlyLogs (next value)) : OnlyLogs (action >>= next) := by
  intro w
  rw [perform_bind]
  rcases hfirst : action.perform w with ⟨fault | value, between⟩
  · exact h.alike hfirst
  · exact (h.alike hfirst).trans (hnext value between)

theorem OnlyLogs.reporting {action : Action α} (h : OnlyLogs action) (origin : Log.Origin)
    (introduction : CodeText) : OnlyLogs (reporting origin introduction action) := by
  intro w
  rw [Action.reporting, perform_tryCatch]
  rcases hfirst : action.perform w with ⟨fault | value, between⟩
  · refine (h.alike hfirst).trans ?_
    exact (onlyLogs_note _ _ _).bind (fun _ => onlyLogs_throw fault) between
  · exact h.alike hfirst

/-- Reporting a fault adds an entry to the log and leaves the result as it is. -/
theorem reporting_effect {action : Action α} {origin : Log.Origin} {introduction : CodeText}
    {w after : Workspace} {result : Except Fault α}
    (h : (reporting origin introduction action).perform w = (result, after)) :
    ∃ between, action.perform w = (result, between) ∧ Alike between after := by
  rw [reporting, perform_tryCatch] at h
  rcases hfirst : action.perform w with ⟨fault | value, between⟩
  · simp only [hfirst, perform_bind, perform_note, perform_throw] at h
    obtain ⟨rfl, rfl⟩ := Prod.mk.inj h
    exact ⟨between, rfl, ⟨rfl, rfl, rfl⟩⟩
  · rw [hfirst] at h
    obtain ⟨rfl, rfl⟩ := Prod.mk.inj h
    exact ⟨between, rfl, .refl between⟩

/-! ## Questions -/

theorem ask_effect {fileName : CodeText} {w after : Workspace} {result : Except Fault Bool}
    (h : (ask fileName).perform w = (result, after)) :
    after.files = w.files ∧ after.asked = w.asked ++ [fileName] ∧
      ∀ answer, result = .ok answer → w.answers.first? = some answer := by
  obtain ⟨fs, ⟨next, further⟩, asked, log⟩ := w
  cases next with
  | cons first next =>
      obtain ⟨rfl, rfl⟩ := Prod.mk.inj h
      refine ⟨rfl, rfl, ?_⟩
      rintro answer ⟨⟩
      rfl
  | nil =>
      cases further with
      | some always =>
          obtain ⟨rfl, rfl⟩ := Prod.mk.inj h
          refine ⟨rfl, rfl, ?_⟩
          rintro answer ⟨⟩
          rfl
      | none =>
          obtain ⟨rfl, rfl⟩ := Prod.mk.inj h
          refine ⟨rfl, rfl, ?_⟩
          rintro answer ⟨⟩

end Action

namespace Storage

open IconForge.Action Text.Encoding

/-! ## Saving a component -/

theorem perform_makeParents (room : Nat) (path : Path) (w : Workspace) :
    (makeParents room path).perform w =
      ((w.files.makeDirectories room path.parent).1.mapError .file,
      { w with files := (w.files.makeDirectories room path.parent).2 }) := by
  rw [← perform_lift]
  rfl

/-- A text as the only chunk: all of its bytes, or none and its fault. -/
theorem encodeChunks_singleton (text : CodeText) :
    ∃ bytes fault, encodeChunks [text] = (bytes, fault) ∧
      (fault = none ∧ encode .content text = .ok bytes ∨
        ∃ why, fault = some why ∧ encode .content text = .error why) := by
  cases hencode : encode .content text with
  | error why =>
      refine ⟨[], some why, ?_, Or.inr ⟨why, rfl, rfl⟩⟩
      simp only [encodeChunks, hencode]
  | ok bytes =>
      refine ⟨bytes, none, ?_, Or.inl ⟨rfl, rfl⟩⟩
      simp only [encodeChunks, hencode, List.append_nil]

theorem perform_writeBytes (path : Path) (bytes : List UInt8) (w : Workspace) :
    (writeBytes path bytes).perform w =
      match w.files.write path bytes with
      | .ok fs => (.ok (), { w with files := fs })
      | .error fault => (.error (.file fault), w) := by
  rw [writeBytes, perform_files_bind, perform_bind, perform_lift]
  cases w.files.write path bytes <;> rfl

/-- Writing a text fails without a trace, or it leaves the bytes of the text at one location. When
the text has no bytes, what is left is no component and the writing ends with a fault. -/
theorem writeText_effect {path : Path} {text : CodeText} {w after : Workspace}
    {result : Except Fault Unit} (h : (writeText path text).perform w = (result, after)) :
    after.answers = w.answers ∧ after.asked = w.asked ∧
      ((after.files = w.files ∧ ∃ fault, result = .error fault) ∨
        ∃ bytes, w.files.write path bytes = .ok after.files ∧
          (result = .ok () ∧ encode .content text = .ok bytes ∨
            ∃ fault, result = .error (.encoding fault) ∧ encode .content text = .error fault)) := by
  obtain ⟨bytes, fault, hchunks, hcase⟩ := encodeChunks_singleton text
  rw [writeText, writeChunks] at h
  simp only [hchunks, perform_bind, perform_writeBytes, id_eq] at h
  cases hfile : w.files.write path bytes with
  | error obstacle =>
      simp only [hfile] at h
      obtain ⟨rfl, rfl⟩ := Prod.mk.inj h
      exact ⟨rfl, rfl, Or.inl ⟨rfl, _, rfl⟩⟩
  | ok fs =>
      rw [hfile] at h
      rcases hcase with ⟨rfl, hencode⟩ | ⟨why, rfl, hencode⟩
      · obtain ⟨rfl, rfl⟩ := Prod.mk.inj h
        exact ⟨rfl, rfl, Or.inr ⟨bytes, hfile, Or.inl ⟨rfl, hencode⟩⟩⟩
      · obtain ⟨rfl, rfl⟩ := Prod.mk.inj h
        exact ⟨rfl, rfl, Or.inr ⟨bytes, hfile, Or.inr ⟨why, rfl, hencode⟩⟩⟩

/-- **What saving a component does**: directories above its path may be added, and then either the
saving fails, or the component is written into a file system that has these directories. -/
theorem saveComponent_effect {room : Room} {text : CodeText} {path : Path} {w after : Workspace}
    {result : Except Fault Unit}
    (h : (saveComponent room text path true).perform w = (result, after)) :
    after.answers = w.answers ∧ after.asked = w.asked ∧
      ∃ made, w.files.AddsDirectories made (FileSystem.Passes path.parent) ∧
        ((after.files = made ∧ ∃ fault, result = .error fault) ∨
          ∃ bytes, made.write path bytes = .ok after.files ∧
            (result = .ok () ∧ encode .content text = .ok bytes ∨
              ∃ fault, result = .error (.encoding fault) ∧ encode .content text = .error fault)) := by
  have hmade := w.files.makeDirectories_adds room.making path.parent
  have hsplit : saveComponent room text path true = makeParents room.making path >>= fun _ =>
      reporting .storage ("Error saving component to " ++ path.text)
        (writeText path text >>= fun _ =>
          note .debug .storage ("Component saved to: " ++ path.text)) := rfl
  rw [hsplit, perform_bind, perform_makeParents] at h
  cases hparents : (w.files.makeDirectories room.making path.parent).1 with
  | error fault =>
      rw [hparents] at h
      obtain ⟨rfl, rfl⟩ := Prod.mk.inj h
      exact ⟨rfl, rfl, _, hmade, Or.inl ⟨rfl, _, rfl⟩⟩
  | ok done =>
      rw [hparents] at h
      obtain ⟨between, hperform, halike⟩ := reporting_effect h
      rw [halike.files, halike.answers, halike.asked]
      -- The note at the end changes neither the result nor the files.
      rw [perform_bind] at hperform
      rcases hwritten : (writeText path text).perform
          { w with files := (w.files.makeDirectories room.making path.parent).2 }
        with ⟨written, behind⟩
      have heffect := writeText_effect hwritten
      have hbehind : Alike behind between ∧ result = written := by
        rw [hwritten] at hperform
        cases written with
        | error fault =>
            obtain ⟨rfl, rfl⟩ := Prod.mk.inj hperform
            exact ⟨.refl behind, rfl⟩
        | ok done =>
            obtain ⟨rfl, rfl⟩ := Prod.mk.inj hperform
            exact ⟨⟨rfl, rfl, rfl⟩, rfl⟩
      rw [hbehind.2, hbehind.1.files, hbehind.1.answers, hbehind.1.asked]
      exact ⟨heffect.1, heffect.2.1, _, hmade, heffect.2.2⟩

end Storage

end IconForge
