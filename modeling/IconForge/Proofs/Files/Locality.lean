import Mathlib.Data.List.Induction
import Mathlib.Logic.Function.Iterate
import IconForge.Proofs.Files.Changes

set_option autoImplicit false

/-! # What a path depends on

A path is followed through the places that it passes, and nothing else decides where it leads. So
two file systems that hold the same there (`Agree`) give the same answers about the path
(`Agree.locate`, `Agree.entryAt?`, `Agree.read`), and what is written along it is the same in both
(`Agree.makeDirectories`, `Agree.write`). The places that a path passes are closed under going up
(`Passes.above`), so whether there is room for an entry depends on nothing else either. -/

namespace IconForge

/-- Whether two results are the same fault, or two values in a relation. -/
inductive Matches {ε α β : Type} (related : α → β → Prop) : Except ε α → Except ε β → Prop where
  | ok {left : α} {right : β} (h : related left right) : Matches related (.ok left) (.ok right)
  | error (fault : ε) : Matches related (.error fault) (.error fault)

theorem Matches.mono {ε α β : Type} {related related' : α → β → Prop} {left : Except ε α}
    {right : Except ε β} (h : Matches related left right)
    (himp : ∀ a b, related a b → related' a b) : Matches related' left right := by
  cases h with
  | ok hrelated => exact .ok (himp _ _ hrelated)
  | error fault => exact .error fault

theorem matches_eq_iff {ε α : Type} {left right : Except ε α} :
    Matches Eq left right ↔ left = right := by
  constructor
  · rintro (rfl | _) <;> rfl
  · rintro rfl
    cases left with
    | ok value => exact .ok rfl
    | error fault => exact .error fault

namespace FileSystem

open Text.Encoding

/-! ## Agreement -/

/-- Whether two file systems hold the same at some places. -/
def Agree (places : Location → Prop) (fs other : FileSystem) : Prop :=
  ∀ place, places place → other.get? place = fs.get? place

theorem Agree.refl (places : Location → Prop) (fs : FileSystem) : Agree places fs fs :=
  fun _ _ => rfl

theorem Agree.symm {places : Location → Prop} {fs other : FileSystem}
    (h : Agree places fs other) : Agree places other fs :=
  fun place hplace => (h place hplace).symm

theorem Agree.trans {places : Location → Prop} {first second third : FileSystem}
    (h : Agree places first second) (h' : Agree places second third) : Agree places first third :=
  fun place hplace => (h' place hplace).trans (h place hplace)

theorem Agree.mono {places fewer : Location → Prop} {fs other : FileSystem}
    (h : Agree places fs other) (hfewer : ∀ place, fewer place → places place) :
    Agree fewer fs other :=
  fun place hplace => h place (hfewer place hplace)

theorem Agree.put {places : Location → Prop} {fs other : FileSystem} {location : Location}
    (h : Agree places fs other) (entry : Entry) (room : fs.HasRoom location)
    (otherRoom : other.HasRoom location) :
    Agree places (fs.put location entry room) (other.put location entry otherRoom) := by
  intro place hplace
  rw [get?_put, get?_put, h place hplace]

/-! ## The places of a path -/

/-- Whether a path passes some places only, if it can be handed over at all. -/
def KeepsTo (path : Path) (places : Location → Prop) : Prop :=
  ∀ names, namesOf path = .ok names → ∀ place, Passes path place → places place

theorem above_iterate_top (count : Nat) : Location.above^[count] Location.top = .top := by
  induction count with
  | zero => rfl
  | succ count ih =>
      rw [Function.iterate_succ_apply]
      exact ih

/-- However far one goes up from where a walk from the top ends, one comes to a place on the
walk. -/
theorem exists_prefix_above (names : List CodeText) (count : Nat) :
    ∃ front, front <+: names ∧ Location.above^[count] (walk .top names) = walk .top front := by
  induction names using List.reverseRecOn generalizing count with
  | nil => exact ⟨[], List.prefix_rfl, above_iterate_top count⟩
  | append_singleton front last ih =>
      have hfront : front <+: front ++ [last] := List.prefix_append _ _
      rw [walk_append]
      show ∃ passed, _ ∧ Location.above^[count] (step (walk .top front) last) = _
      by_cases hup : last = upwards
      · subst hup
        obtain ⟨passed, hpassed, hplace⟩ := ih (count + 1)
        rw [Function.iterate_succ_apply] at hplace
        exact ⟨passed, hpassed.trans hfront, by rw [step_upwards, hplace]⟩
      · cases count with
        | zero => exact ⟨front ++ [last], List.prefix_rfl, by rw [walk_append]; rfl⟩
        | succ count =>
            obtain ⟨passed, hpassed, hplace⟩ := ih count
            refine ⟨passed, hpassed.trans hfront, ?_⟩
            rw [Function.iterate_succ_apply, step_of_ne hup, Location.above_within, hplace]

/-- **A path passes what is above the places that it passes.** -/
theorem Passes.above {path : Path} {place : Location} (h : Passes path place) :
    Passes path place.above := by
  obtain ⟨front, hfront, rfl⟩ := h
  obtain ⟨passed, hpassed, hplace⟩ := exists_prefix_above front 1
  exact ⟨passed, hpassed.trans hfront, hplace⟩

theorem Passes.of_parent {path : Path} {place : Location} (h : Passes path.parent place) :
    Passes path place := by
  obtain ⟨front, hfront, rfl⟩ := h
  refine ⟨front, hfront.trans ?_, rfl⟩
  rw [parent_parts, List.map_dropLast]
  exact List.dropLast_prefix _

theorem passes_of_locate {fs : FileSystem} {path : Path} {location : Location}
    (h : fs.locate path = .ok location) : Passes path location := by
  obtain ⟨names, hnames, hlocation, -⟩ := locate_eq_ok_iff.1 h
  obtain ⟨-, -, -, rfl⟩ := namesOf_eq_ok_iff.1 hnames
  exact ⟨_, List.prefix_rfl, hlocation⟩

theorem KeepsTo.of_locate {fs : FileSystem} {path : Path} {location : Location}
    {places : Location → Prop} (h : KeepsTo path places) (hlocate : fs.locate path = .ok location) :
    ∀ place, Passes path place → places place := by
  obtain ⟨names, hnames, -⟩ := locate_eq_ok_iff.1 hlocate
  exact h names hnames

/-! ## Following -/

/-- Following names looks at the places on the way only. -/
theorem follow_congr {fs other : FileSystem} {names : List CodeText} {here : Location}
    (h : ∀ front, front <+: names →
      other.get? (walk here front) = fs.get? (walk here front)) :
    other.follow here names = fs.follow here names := by
  induction names generalizing here with
  | nil => rfl
  | cons name names ih =>
      have hhere : other.get? here = fs.get? here := h [] List.nil_prefix
      have hrest : other.follow (step here name) names = fs.follow (step here name) names :=
        ih fun front hfront => h (name :: front) (List.cons_prefix_cons.2 ⟨rfl, hfront⟩)
      rw [follow, follow, hhere, hrest]

namespace Agree

variable {places : Location → Prop} {fs other : FileSystem} {path : Path}

theorem follow_path (h : Agree places fs other) (hpath : ∀ place, Passes path place → places place) :
    other.follow .top (path.parts.map spellName) = fs.follow .top (path.parts.map spellName) :=
  follow_congr fun front hfront => h _ (hpath _ ⟨front, hfront, rfl⟩)

/-- **Where a path leads to depends on the places that it passes.** -/
theorem locate (h : Agree places fs other) (hpath : KeepsTo path places) :
    other.locate path = fs.locate path := by
  rw [FileSystem.locate, FileSystem.locate]
  cases hnames : namesOf path with
  | error obstacle => rfl
  | ok names =>
      obtain ⟨-, -, -, rfl⟩ := namesOf_eq_ok_iff.1 hnames
      show Except.mapError _ (other.follow _ _) = Except.mapError _ (fs.follow _ _)
      rw [h.follow_path (hpath _ hnames)]

theorem get?_of_locate (h : Agree places fs other) (hpath : KeepsTo path places)
    {location : Location} (hlocate : fs.locate path = .ok location) :
    other.get? location = fs.get? location :=
  h _ (hpath.of_locate hlocate _ (passes_of_locate hlocate))

theorem entryAt? (h : Agree places fs other) (hpath : KeepsTo path places) :
    other.entryAt? path = fs.entryAt? path := by
  rw [FileSystem.entryAt?, FileSystem.entryAt?, h.locate hpath]
  cases hlocate : fs.locate path with
  | error fault => rfl
  | ok location =>
      show Except.ok (other.get? location) = Except.ok (fs.get? location)
      rw [h.get?_of_locate hpath hlocate]

theorem existsAt (h : Agree places fs other) (hpath : KeepsTo path places) :
    other.existsAt path = fs.existsAt path := by
  rw [FileSystem.existsAt, FileSystem.existsAt, h.entryAt? hpath]

theorem isFile (h : Agree places fs other) (hpath : KeepsTo path places) :
    other.isFile path = fs.isFile path := by
  rw [FileSystem.isFile, FileSystem.isFile, h.entryAt? hpath]

theorem isDirectory (h : Agree places fs other) (hpath : KeepsTo path places) :
    other.isDirectory path = fs.isDirectory path := by
  rw [FileSystem.isDirectory, FileSystem.isDirectory, h.entryAt? hpath]

theorem unanswered? (h : Agree places fs other) (hpath : KeepsTo path places) :
    other.unanswered? path = fs.unanswered? path := by
  rw [FileSystem.unanswered?, FileSystem.unanswered?, h.entryAt? hpath]

theorem read (h : Agree places fs other) (hpath : KeepsTo path places) :
    other.read path = fs.read path := by
  rw [FileSystem.read, FileSystem.read, h.locate hpath]
  cases hlocate : fs.locate path with
  | error fault => rfl
  | ok location => simp only [h.get?_of_locate hpath hlocate]

/-! ## Changing -/

/-- Whether there is room at a place depends on the place and the one above. -/
theorem hasRoom_iff (h : Agree places fs other) {location : Location} (hplace : places location)
    (habove : places location.above) : other.HasRoom location ↔ fs.HasRoom location := by
  rw [HasRoom, HasRoom, h _ hplace, h _ habove]

theorem withDirectory? (h : Agree places fs other) {here : Location} (hhere : places here)
    (habove : places here.above) :
    fs.withDirectory? here = none ∧ other.withDirectory? here = none ∨
      ∃ made otherMade, fs.withDirectory? here = some made ∧
        other.withDirectory? here = some otherMade ∧ Agree places made otherMade := by
  have hentry := h _ hhere
  rw [FileSystem.withDirectory?, FileSystem.withDirectory?]
  by_cases hdirectory : fs.get? here = some .directory
  · rw [if_pos hdirectory, if_pos (hentry.trans hdirectory)]
    exact Or.inr ⟨fs, other, rfl, rfl, h⟩
  · rw [if_neg hdirectory, if_neg (hentry ▸ hdirectory)]
    by_cases room : fs.get? here = none ∧ fs.HasRoom here
    · have otherRoom : other.get? here = none ∧ other.HasRoom here :=
        ⟨hentry.trans room.1, (h.hasRoom_iff hhere habove).2 room.2⟩
      rw [dif_pos room, dif_pos otherRoom]
      exact Or.inr ⟨_, _, rfl, rfl, h.put .directory room.2 otherRoom.2⟩
    · have otherRoom : ¬ (other.get? here = none ∧ other.HasRoom here) := by
        rwa [hentry, h.hasRoom_iff hhere habove]
      rw [dif_neg room, dif_neg otherRoom]
      exact Or.inl ⟨rfl, rfl⟩

theorem makeAlong {names : List CodeText} {here : Location} (h : Agree places fs other)
    (hplaces : ∀ front, front <+: names →
      places (walk here front) ∧ places (walk here front).above) :
    (other.makeAlong here names).1 = (fs.makeAlong here names).1 ∧
      Agree places (fs.makeAlong here names).2 (other.makeAlong here names).2 := by
  induction names generalizing here fs other with
  | nil =>
      obtain ⟨hhere, habove⟩ : places here ∧ places here.above := hplaces [] List.prefix_rfl
      rw [FileSystem.makeAlong, FileSystem.makeAlong]
      rcases h.withDirectory? hhere habove with ⟨hnone, hother⟩ | ⟨made, otherMade, hmade, hother, h'⟩
      · rw [hnone, hother]
        exact ⟨rfl, h⟩
      · rw [hmade, hother]
        exact ⟨rfl, h'⟩
  | cons name names ih =>
      obtain ⟨hhere, habove⟩ : places here ∧ places here.above := hplaces [] List.nil_prefix
      rw [FileSystem.makeAlong, FileSystem.makeAlong]
      rcases h.withDirectory? hhere habove with ⟨hnone, hother⟩ | ⟨made, otherMade, hmade, hother, h'⟩
      · rw [hnone, hother]
        exact ⟨rfl, h⟩
      · rw [hmade, hother]
        by_cases hlong : maxNameLength < byteLength name
        · simp only [if_pos hlong]
          exact ⟨trivial, h'⟩
        · simp only [if_neg hlong]
          exact ih h' fun front hfront =>
            hplaces (name :: front) (List.cons_prefix_cons.2 ⟨rfl, hfront⟩)

/-- **What becomes of making directories depends on the places that the path passes.** -/
theorem makeDirectories (room : Nat) (h : Agree places fs other) (hpath : KeepsTo path places) :
    (other.makeDirectories room path).1 = (fs.makeDirectories room path).1 ∧
      Agree places (fs.makeDirectories room path).2 (other.makeDirectories room path).2 := by
  have halong : (∀ place, Passes path place → places place) → ∀ front rest,
      path.parts.map spellName = front ++ rest →
      (other.makeAlong (walk .top front) rest).1 = (fs.makeAlong (walk .top front) rest).1 ∧
        Agree places (fs.makeAlong (walk .top front) rest).2
          (other.makeAlong (walk .top front) rest).2 := by
    intro hpasses front rest hsplit
    refine h.makeAlong fun more hmore => ?_
    have hplace : Passes path (walk (walk .top front) more) := by
      refine ⟨front ++ more, ?_, (walk_append _ _ _).symm⟩
      rw [hsplit]
      exact (List.prefix_append_right_inj front).2 hmore
    exact ⟨hpasses _ hplace, hpasses _ hplace.above⟩
  rw [FileSystem.makeDirectories, FileSystem.makeDirectories]
  cases hnames : namesOf path with
  | error obstacle => exact ⟨rfl, h⟩
  | ok names =>
      obtain ⟨-, -, -, rfl⟩ := namesOf_eq_ok_iff.1 hnames
      replace halong := halong (hpath _ hnames)
      simp only [h.follow_path (hpath _ hnames)]
      cases hfollow : fs.follow .top (path.parts.map spellName) with
      | ok location =>
          obtain ⟨rfl, -⟩ := follow_eq_ok_iff.1 hfollow
          obtain ⟨hresult, hagree⟩ := halong _ [] (List.append_nil _).symm
          exact ⟨congrArg (Except.mapError _) hresult, hagree⟩
      | error stop =>
          -- From here on both make what is missing from the same place on, or nothing.
          by_cases hmissing : stop.obstacle = .missing
          · simp only [if_neg (Classical.not_not.2 hmissing)]
            by_cases hmany : room ≤ stop.rest.length
            · simp only [if_pos hmany]
              exact ⟨trivial, h⟩
            · simp only [if_neg hmany]
              obtain ⟨front, hsplit, -, -, hplace, -⟩ := follow_eq_missing hfollow hmissing
              rw [hplace]
              obtain ⟨hresult, hagree⟩ := halong front stop.rest hsplit
              exact ⟨congrArg (Except.mapError _) hresult, hagree⟩
          · simp only [if_pos hmissing]
            exact ⟨trivial, h⟩

/-- **What becomes of writing a file depends on the places that its path passes.** -/
theorem write (h : Agree places fs other) (hpath : KeepsTo path places) (bytes : List UInt8) :
    Matches (Agree places) (fs.write path bytes) (other.write path bytes) := by
  rw [FileSystem.write, FileSystem.write, h.locate hpath]
  cases hlocate : fs.locate path with
  | error fault => exact .error fault
  | ok location =>
      have hplaces := hpath.of_locate hlocate
      have hpasses := passes_of_locate hlocate
      have hiff := h.hasRoom_iff (hplaces _ hpasses) (hplaces _ hpasses.above)
      by_cases room : fs.HasRoom location
      · simp only [dif_pos room, dif_pos (hiff.2 room)]
        exact .ok (h.put _ room (hiff.2 room))
      · simp only [dif_neg room, dif_neg (mt hiff.1 room)]
        exact .error _

end Agree

/-! ## Changes outside -/

theorem KeepsTo.get?_makeDirectories {path : Path} {places : Location → Prop}
    (h : KeepsTo path places) (room : Nat) (fs : FileSystem) {place : Location}
    (hplace : ¬ places place) :
    (fs.makeDirectories room path).2.get? place = fs.get? place := by
  cases hnames : namesOf path with
  | error obstacle =>
      rw [FileSystem.makeDirectories, hnames]
  | ok names =>
      rcases fs.makeDirectories_adds room path place with heq | ⟨-, -, hpasses⟩
      · exact heq
      · exact absurd (h names hnames place hpasses) hplace

theorem KeepsTo.get?_write {path : Path} {places : Location → Prop} (h : KeepsTo path places)
    {fs after : FileSystem} {bytes : List UInt8} (hwrite : fs.write path bytes = .ok after)
    {place : Location} (hplace : ¬ places place) : after.get? place = fs.get? place := by
  obtain ⟨location, hlocate, -, hafter⟩ := write_effect hwrite
  have hne : place ≠ location := by
    rintro rfl
    exact hplace (h.of_locate hlocate place (passes_of_locate hlocate))
  rw [hafter, if_neg hne]

/-! ## Deleted files -/

/-- The file system without what is at a location. A directory stays. -/
def delete (fs : FileSystem) (location : Location) : FileSystem :=
  if h : fs.get? location = some .directory then fs
  else
    { entries := fs.entries.filter fun item => item.1 ≠ location
      named := fun item hitem => fs.named item (List.mem_filter.1 hitem).1
      nodup := ((List.filter_sublist (l := fs.entries)).map _).nodup fs.nodup
      rooted := by
        intro item hitem
        obtain ⟨hne, habove⟩ := fs.rooted item (List.mem_filter.1 hitem).1
        refine ⟨hne, habove.imp_right fun hmem => List.mem_filter.2 ⟨hmem, ?_⟩⟩
        -- What is above holds something, so it is a directory and stays.
        have hentry := get?_eq_some_of_mem hmem
        rw [decide_eq_true_eq]
        rintro heq
        exact h (heq ▸ hentry) }

/-- **Deleting a file changes what is at its location, and nothing else.** -/
theorem get?_delete {fs : FileSystem} {location : Location}
    (h : fs.get? location ≠ some .directory) (place : Location) :
    (fs.delete location).get? place = if place = location then none else fs.get? place := by
  have hmem : ∀ entry, (place, entry) ∈ (fs.delete location).entries ↔
      (place, entry) ∈ fs.entries ∧ place ≠ location := by
    intro entry
    rw [delete, dif_neg h]
    simp only [List.mem_filter, decide_eq_true_eq]
  by_cases htop : place = .top
  · subst htop
    have hne : Location.top ≠ location := by
      rintro rfl
      exact h fs.get?_top
    rw [if_neg hne, get?_top, get?_top]
  · apply Option.ext
    intro entry
    rw [show (fs.delete location).get? place = some entry ↔ (place, entry) ∈
        (fs.delete location).entries from
      ⟨mem_entries_of_get? htop, fun hmember => get?_eq_some_of_mem hmember⟩, hmem]
    by_cases hplace : place = location
    · simp [hplace]
    · rw [if_neg hplace]
      exact ⟨fun hmember => get?_eq_some_of_mem hmember.1,
        fun hentry => ⟨mem_entries_of_get? htop hentry, hplace⟩⟩

theorem agree_delete {fs : FileSystem} {location : Location}
    (h : fs.get? location ≠ some .directory) : Agree (· ≠ location) fs (fs.delete location) := by
  intro place hplace
  rw [get?_delete h, if_neg hplace]

end FileSystem

end IconForge
