import IconForge.Proofs.Conversion.Findings
import IconForge.Proofs.Files.Repetition

set_option autoImplicit false

/-! # Saving a component, once and again

Saving a component makes the directories above it and writes its text. It comes out in one of three
ways (`Saving`), and the files develop by it (`develops_saved`).

When a component is saved again, after the files have developed, the result is the same, and the
files change at its place at most (`saved_again`). Between the two it can be told from the result of
the first whether there is something at its path (`exists_of_saved`, `not_exists_of_saved`,
`saved_of_unanswered`). -/

namespace IconForge.Storage

open FileSystem Text.Encoding

/-- Whether all of a text was written: its first code point without bytes ends the writing. -/
def completion (text : CodeText) : Except IconForge.Fault Unit :=
  match (encodeChunks [text]).2 with
  | none => .ok ()
  | some fault => .error (.encoding fault)

theorem completion_ne_file {text : CodeText} {fault : FileSystem.Fault} :
    completion text ≠ .error (.file fault) := by
  rw [completion]
  cases (encodeChunks [text]).2 <;> rintro ⟨⟩

/-- How saving a component comes out. -/
inductive Saving (room : Nat) (text : CodeText) (path : Path) (fs : FileSystem) :
    Except IconForge.Fault Unit × FileSystem → Prop where
  /-- The directories above it cannot be made. -/
  | unmade (fault : FileSystem.Fault) (made : FileSystem)
      (makes : fs.makeDirectories room path.parent = (.error fault, made)) :
      Saving room text path fs (.error (.file fault), made)
  /-- The file cannot be written. -/
  | unwritten (fault : FileSystem.Fault) (made : FileSystem)
      (makes : fs.makeDirectories room path.parent = (.ok (), made))
      (writes : made.write path (encodeChunks [text]).1 = .error fault) :
      Saving room text path fs (.error (.file fault), made)
  /-- The file is written, as far as the text has bytes. -/
  | written (made after : FileSystem) (makes : fs.makeDirectories room path.parent = (.ok (), made))
      (writes : made.write path (encodeChunks [text]).1 = .ok after) :
      Saving room text path fs (completion text, after)

section

variable {room : Nat} {text : CodeText} {path : Path} {fs made : FileSystem}

theorem saved_of_unmade {fault : FileSystem.Fault}
    (h : fs.makeDirectories room path.parent = (.error fault, made)) :
    saved room text path fs = (.error (.file fault), made) := by
  rw [saved, h]

theorem saved_of_unwritten {fault : FileSystem.Fault}
    (h : fs.makeDirectories room path.parent = (.ok (), made))
    (hwrite : made.write path (encodeChunks [text]).1 = .error fault) :
    saved room text path fs = (.error (.file fault), made) := by
  rw [saved, h]
  show written text path made = _
  rw [written, hwrite]

theorem saved_of_written {after : FileSystem}
    (h : fs.makeDirectories room path.parent = (.ok (), made))
    (hwrite : made.write path (encodeChunks [text]).1 = .ok after) :
    saved room text path fs = (completion text, after) := by
  rw [saved, h]
  show written text path made = _
  rw [written, hwrite, completion]
  cases (encodeChunks [text]).2 <;> rfl

/-- **Saving a component comes out in one of three ways.** -/
theorem saving_saved (room : Nat) (text : CodeText) (path : Path) (fs : FileSystem) :
    Saving room text path fs (saved room text path fs) := by
  rcases hmake : fs.makeDirectories room path.parent with ⟨fault | done, made⟩
  · rw [saved_of_unmade hmake]
    exact .unmade fault made hmake
  · cases hwrite : made.write path (encodeChunks [text]).1 with
    | error fault =>
        rw [saved_of_unwritten hmake hwrite]
        exact .unwritten fault made hmake hwrite
    | ok after =>
        rw [saved_of_written hmake hwrite]
        exact .written made after hmake hwrite

end

theorem develops_saved (room : Nat) (text : CodeText) (path : Path) (fs : FileSystem) :
    fs.Develops (saved room text path fs).2 := by
  have hmade := (fs.makeDirectories_adds room path.parent).grows.develops
  have hsaving := saving_saved room text path fs
  generalize saved room text path fs = first at hsaving ⊢
  cases hsaving with
  | unmade fault made makes =>
      rw [makes] at hmade
      exact hmade
  | unwritten fault made makes writes =>
      rw [makes] at hmade
      exact hmade
  | written made after makes writes =>
      rw [makes] at hmade
      exact hmade.trans (develops_of_write writes)

/-- A component that is written as a whole fails only for the sake of a file. -/
theorem exists_file_fault {room : Nat} {text : CodeText} {path : Path} {fs : FileSystem}
    {fault : IconForge.Fault} (hwhole : completion text = .ok ())
    (h : (saved room text path fs).1 = .error fault) : ∃ why, fault = .file why := by
  have hsaving := saving_saved room text path fs
  generalize saved room text path fs = first at hsaving h
  cases hsaving with
  | unmade why made makes => exact ⟨why, (Except.error.inj h).symm⟩
  | unwritten why made makes writes => exact ⟨why, (Except.error.inj h).symm⟩
  | written made after makes writes =>
      rw [hwhole] at h
      cases h

/-! ## Saving again -/

section

variable {room : Nat} {text : CodeText} {path : Path} {fs later : FileSystem}

/-- What making directories changed is not changed again. -/
theorem kept_of_made {made after again : FileSystem} {allowed : Location → Prop}
    (hadds : fs.AddsDirectories made allowed) (hlater : after.Develops later) {place : Location}
    (hafter : after.get? place = made.get? place) (hagain : again.get? place = later.get? place) :
    again.get? place = after.get? place ∨
      again.get? place = later.get? place ∧ after.get? place = fs.get? place := by
  rcases hadds place with heq | ⟨-, hdirectory, -⟩
  · exact Or.inr ⟨hagain, hafter.trans heq⟩
  · rw [hdirectory] at hafter
    exact Or.inl (by rw [hagain, hlater.directory hafter, hafter])

/-- **A component that is saved again has the same result.** Every place is left as it was
afterwards for the first time, or as it was before both times; and no file is touched that could not
be written for the first time. -/
theorem saved_again (hsteady : fs.Steady room path.parent)
    (hlater : (saved room text path fs).2.Develops later) :
    (saved room text path later).1 = (saved room text path fs).1 ∧
      (∀ place, (saved room text path later).2.get? place = (saved room text path fs).2.get? place ∨
        (saved room text path later).2.get? place = later.get? place ∧
          (saved room text path fs).2.get? place = fs.get? place) ∧
      ∀ fault, (saved room text path fs).1 = .error (.file fault) →
        (saved room text path later).2 = later := by
  have hadds := fs.makeDirectories_adds room path.parent
  have hsaving := saving_saved room text path fs
  -- The first time ended with the directories, with the file, or well.
  generalize saved room text path fs = first at hsaving hlater ⊢
  cases hsaving with
  | unmade fault made makes =>
      rw [makes] at hadds
      rw [saved_of_unmade (makeDirectories_error_again makes hsteady hlater)]
      exact ⟨rfl, fun place => kept_of_made hadds hlater rfl rfl, fun _ _ => rfl⟩
  | unwritten fault made makes writes =>
      rw [makes] at hadds
      have hparent := makeDirectories_eq_ok makes
      rw [saved_of_unwritten (makeDirectories_of_directory (hlater.isDirectory hparent))
        (write_error_again writes hparent hlater)]
      exact ⟨rfl, fun place => kept_of_made hadds hlater rfl rfl, fun _ _ => rfl⟩
  | written made after makes writes =>
      rw [makes] at hadds
      have hparent := (develops_of_write writes).isDirectory (makeDirectories_eq_ok makes)
      obtain ⟨location, again, -, hfile, hothers, hwrite, hagain⟩ := write_again writes hlater
      rw [saved_of_written (makeDirectories_of_directory (hlater.isDirectory hparent)) hwrite]
      refine ⟨rfl, fun place => ?_, fun fault hfault => absurd hfault completion_ne_file⟩
      by_cases hplace : place = location
      · rw [hplace]
        exact Or.inl ((hagain location).trans ((if_pos rfl).trans hfile.symm))
      · exact kept_of_made hadds hlater (hothers place hplace)
          ((hagain place).trans (if_neg hplace))

/-! ## In between -/

/-- A component that was saved is there. -/
theorem exists_of_saved (h : (saved room text path fs).1 = .ok ())
    (hlater : (saved room text path fs).2.Develops later) : later.existsAt path = .ok true := by
  have hsaving := saving_saved room text path fs
  generalize saved room text path fs = first at hsaving hlater h
  cases hsaving with
  | unmade fault made makes => cases h
  | unwritten fault made makes writes => cases h
  | written made after makes writes =>
      obtain ⟨location, _, hlocate, hfile, -⟩ := write_again writes hlater
      obtain ⟨bytes, hthere⟩ := hlater.file hfile
      exact existsAt_eq_true_iff.2 ⟨location, _, hlocate, hthere⟩

/-- Directories of a steady path that could not be made make it come to nothing. -/
theorem existsAt_of_unmade {fault : FileSystem.Fault} {made : FileSystem}
    (hmake : fs.makeDirectories room path.parent = (.error fault, made))
    (hsteady : fs.Steady room path.parent)
    (hlater : made.Develops later) (hexists : fs.existsAt path = .ok false) :
    later.existsAt path = .ok false := by
  have hagain := makeDirectories_error_again hmake hsteady hlater
  refine FileSystem.existsAt_of_unmade (fun names hnames => ?_) hexists hagain
  rcases hsteady names hnames with hdirectory | ⟨-, hshort, -⟩
  · rw [makeDirectories_of_directory hdirectory] at hmake
    cases hmake
  · exact hshort

/-- Where there is no answer any more, saving had failed for the same reason. -/
theorem saved_of_unanswered (hsteady : fs.Steady room path.parent)
    (hlater : (saved room text path fs).2.Develops later) {present : Bool}
    (hexists : fs.existsAt path = .ok present) {fault : FileSystem.Fault}
    (hunanswered : later.existsAt path = .error fault) :
    (saved room text path fs).1 = .error (.file fault) := by
  have hdevelops := (develops_saved room text path fs).trans hlater
  obtain ⟨hlocate, -⟩ := existsAt_eq_error_iff.1 hunanswered
  have hsaving := saving_saved room text path fs
  generalize saved room text path fs = first at hsaving hlater ⊢
  cases hsaving with
  | unmade fault' made makes =>
      exfalso
      have hanswer : ∃ answer, later.existsAt path = .ok answer := by
        cases present with
        | false => exact ⟨_, existsAt_of_unmade makes hsteady hlater hexists⟩
        | true => exact ⟨_, hdevelops.existsAt_true hexists⟩
      obtain ⟨answer, hanswer⟩ := hanswer
      rw [hanswer] at hunanswered
      cases hunanswered
  | unwritten fault' made makes writes =>
      have hwrite := write_error_again writes (makeDirectories_eq_ok makes) hlater
      rw [write, hlocate] at hwrite
      rw [Except.error.inj hwrite]
  | written made after makes writes =>
      obtain ⟨location, _, hlocate', -⟩ := write_again writes hlater
      rw [hlocate] at hlocate'
      cases hlocate'

/-- Where a file could not be saved there is none, unless the path goes up again at its end. -/
theorem not_exists_of_saved (hsteady : fs.Steady room path.parent)
    (hstraight : fs.isDirectory path.parent = .ok true ∨ upwards ∉ path.parts)
    (hlater : (saved room text path fs).2.Develops later) (hexists : fs.existsAt path = .ok false)
    {fault : FileSystem.Fault} (h : (saved room text path fs).1 = .error (.file fault)) :
    later.existsAt path ≠ .ok true := by
  intro hthere
  have hsaving := saving_saved room text path fs
  generalize saved room text path fs = first at hsaving hlater h
  cases hsaving with
  | unmade fault' made makes =>
      rw [existsAt_of_unmade makes hsteady hlater hexists] at hthere
      cases hthere
  | unwritten fault' made makes writes =>
      obtain ⟨location, entry, hlocate, hentry⟩ := existsAt_eq_true_iff.1 hthere
      rw [write] at writes
      cases hmade : made.locate path with
      | error found =>
          -- What keeps the path from leading anywhere keeps it from it for good.
          have hwhy := ne_missing_of_parent (makeDirectories_eq_ok makes) hmade
          rw [hlater.locate_error hmade hwhy] at hlocate
          cases hlocate
      | ok location' =>
          rw [locate_of_directories (fun _ => hlater.directory) hmade, Except.ok.injEq] at hlocate
          subst hlocate
          simp only [hmade] at writes
          by_cases hroom : made.HasRoom location'
          · rw [dif_pos hroom] at writes
            cases writes
          obtain ⟨names, -, hplace, hopen⟩ := locate_eq_ok_iff.1 hmade
          have hdirectory : made.get? location' = some .directory := by
            refine Decidable.byContradiction fun hfile =>
              hroom ⟨⟨?_, isFileName_of_get? hentry⟩, ?_, hfile⟩
            · rintro rfl
              exact hfile made.get?_top
            · rw [hplace]
              exact directory_above_of_open hopen
          rcases hstraight with hparent | hup
          · rw [makeDirectories_of_directory hparent] at makes
            obtain rfl := (Prod.mk.inj makes).2
            rw [existsAt_eq_true_iff.2 ⟨_, _, hmade, hdirectory⟩] at hexists
            cases hexists
          · exact ne_directory_of_made hup hexists makes hmade hdirectory
  | written made after makes writes => exact completion_ne_file h

end

end IconForge.Storage
