import IconForge.Proofs.Files.Walk

set_option autoImplicit false

/-! # Changes to a file system

What the operations do to a file system as a whole. Making directories only adds directories, and
only where a path passes (`makeDirectories_adds`); writing a file changes what is at one location
and nothing else (`write_effect`). So directories stay directories and files stay files, whatever
the files hold by then (`Develops`), and what stops a walk stops it for good unless something is
missing.

Whether a path leads to something is asked before the directories above it are made. Making them
can open a way that was closed: a path that goes up behind a missing directory leads nowhere at
first and may lead to something afterwards. Such a path turns back (`TurnsBack`), and no other path
can come to something that it did not lead to before (`turnsBack_of_opened`). -/

namespace IconForge.FileSystem

open Text.Encoding

/-! ## Growth -/

/-- Whether everything that is in a file system is in another one too. -/
def Grows (before after : FileSystem) : Prop :=
  ∀ place entry, before.get? place = some entry → after.get? place = some entry

theorem Grows.refl (fs : FileSystem) : fs.Grows fs :=
  fun _ _ h => h

theorem Grows.trans {first second third : FileSystem} (h : first.Grows second)
    (h' : second.Grows third) : first.Grows third :=
  fun place entry hentry => h' place entry (h place entry hentry)

/-- Places that are empty in the end were empty before. -/
theorem Grows.get?_eq_none {before after : FileSystem} (h : before.Grows after) {place : Location}
    (hnone : after.get? place = none) : before.get? place = none := by
  cases hbefore : before.get? place with
  | none => rfl
  | some entry =>
      rw [h place entry hbefore] at hnone
      cases hnone

theorem Open.of_directories {before after : FileSystem}
    (h : ∀ place, before.get? place = some .directory → after.get? place = some .directory)
    {names : List CodeText} {here : Location} (hopen : before.Open here names) :
    after.Open here names := by
  induction names generalizing here with
  | nil => trivial
  | cons name names ih => exact ⟨h here hopen.1, hopen.2.1, ih hopen.2.2⟩

/-! ## Development -/

/-- Whether directories stay directories and files stay files, whatever the files hold. -/
def Develops (before after : FileSystem) : Prop :=
  ∀ place entry, before.get? place = some entry →
    ∃ entry', after.get? place = some entry' ∧ (entry' = .directory ↔ entry = .directory)

theorem Develops.refl (fs : FileSystem) : fs.Develops fs :=
  fun _ entry h => ⟨entry, h, .rfl⟩

theorem Develops.trans {first second third : FileSystem} (h : first.Develops second)
    (h' : second.Develops third) : first.Develops third := by
  intro place entry hentry
  obtain ⟨between, hbetween, hsame⟩ := h place entry hentry
  obtain ⟨final, hfinal, hsame'⟩ := h' place between hbetween
  exact ⟨final, hfinal, hsame'.trans hsame⟩

theorem Develops.directory {before after : FileSystem} (h : before.Develops after) {place : Location}
    (hdirectory : before.get? place = some .directory) : after.get? place = some .directory := by
  obtain ⟨entry, hentry, hsame⟩ := h place _ hdirectory
  rw [hentry, hsame.2 rfl]

theorem Develops.file {before after : FileSystem} (h : before.Develops after) {place : Location}
    {bytes : List UInt8} (hfile : before.get? place = some (.file bytes)) :
    ∃ bytes', after.get? place = some (.file bytes') := by
  obtain ⟨entry, hentry, hsame⟩ := h place _ hfile
  cases entry with
  | directory => exact absurd (hsame.1 rfl) (by rintro ⟨⟩)
  | file bytes' => exact ⟨bytes', hentry⟩

theorem Develops.get?_eq_none {before after : FileSystem} (h : before.Develops after)
    {place : Location} (hnone : after.get? place = none) : before.get? place = none := by
  cases hbefore : before.get? place with
  | none => rfl
  | some entry =>
      obtain ⟨entry', hentry, -⟩ := h place entry hbefore
      rw [hnone] at hentry
      cases hentry

theorem Grows.develops {before after : FileSystem} (h : before.Grows after) :
    before.Develops after :=
  fun place entry hentry => ⟨entry, h place entry hentry, .rfl⟩

/-- A walk that is stopped by a file or a name is stopped there for good. -/
theorem Develops.follow_of_ne_missing {before after : FileSystem} (h : before.Develops after)
    {names : List CodeText} {here : Location} {stop : Stop}
    (hstop : before.follow here names = .error stop) (hwhy : stop.obstacle ≠ .missing) :
    after.follow here names = .error stop := by
  induction names generalizing here with
  | nil => cases hstop
  | cons name names ih =>
      rw [follow] at hstop ⊢
      cases hhere : before.get? here with
      | none =>
          simp only [hhere, Except.error.injEq] at hstop
          exact absurd (congrArg Stop.obstacle hstop).symm hwhy
      | some entry =>
          cases entry with
          | file bytes =>
              obtain ⟨bytes', hafter⟩ := h.file hhere
              simp only [hhere] at hstop
              simp only [hafter]
              exact hstop
          | directory =>
              simp only [hhere] at hstop
              simp only [h.directory hhere]
              by_cases hlong : maxNameLength < byteLength name
              · rw [if_pos hlong] at hstop ⊢
                exact hstop
              · rw [if_neg hlong] at hstop ⊢
                exact ih hstop

/-- A walk that misses something missed something before, with no fewer names left over. -/
theorem Develops.follow_missing {before after : FileSystem} (h : before.Develops after)
    {names : List CodeText} {here : Location} {stop : Stop}
    (hstop : after.follow here names = .error stop) (hmissing : stop.obstacle = .missing) :
    ∃ earlier, before.follow here names = .error earlier ∧ earlier.obstacle = .missing ∧
      stop.rest <:+ earlier.rest := by
  cases hbefore : before.follow here names with
  | ok location =>
      obtain ⟨rfl, hopen⟩ := follow_eq_ok_iff.1 hbefore
      have hafter := follow_eq_ok_iff.2 ⟨rfl, Open.of_directories (fun _ => h.directory) hopen⟩
      rw [hstop] at hafter
      cases hafter
  | error earlier =>
      have hmissing' : earlier.obstacle = .missing := by
        refine Decidable.byContradiction fun hwhy => ?_
        rw [h.follow_of_ne_missing hbefore hwhy, Except.error.injEq] at hstop
        exact hwhy (hstop ▸ hmissing)
      refine ⟨earlier, rfl, hmissing', ?_⟩
      obtain ⟨front, hnames, -, hopen, hplace, -⟩ := follow_eq_missing hbefore hmissing'
      obtain ⟨front', hnames', hrest, hopen', hplace', hnone⟩ := follow_eq_missing hstop hmissing
      -- The later walk is open at least as far as the earlier one was.
      rw [hnames] at hnames'
      rcases List.append_eq_append_iff.1 hnames' with ⟨more, rfl, hmore⟩ | ⟨more, rfl, hmore⟩
      · rw [hmore]
        exact List.suffix_append more stop.rest
      · cases more with
        | nil =>
            rw [List.nil_append] at hmore
            exact hmore ▸ List.suffix_rfl
        | cons name more =>
            exfalso
            rw [open_append] at hopen
            rw [hplace', ← Option.not_isSome_iff_eq_none] at hnone
            rw [h.directory hopen.2.1] at hnone
            exact hnone rfl

theorem Grows.follow_missing {before after : FileSystem} (h : before.Grows after)
    {names : List CodeText} {here : Location} {stop : Stop}
    (hstop : after.follow here names = .error stop) (hmissing : stop.obstacle = .missing) :
    ∃ earlier, before.follow here names = .error earlier ∧ earlier.obstacle = .missing ∧
      stop.rest <:+ earlier.rest :=
  h.develops.follow_missing hstop hmissing

/-! ## Paths that turn back -/

/-- Whether a path goes up again behind a directory that is missing. -/
def TurnsBack (fs : FileSystem) (path : Path) : Prop :=
  ∃ names stop, namesOf path = .ok names ∧ fs.follow .top names = .error stop ∧
    stop.obstacle = .missing ∧ upwards ∈ stop.rest

/-- A path that never goes up does not turn back, whatever is missing. -/
theorem not_turnsBack_of_upwards_not_mem {fs : FileSystem} {path : Path}
    (h : upwards ∉ path.parts.map spellName) : ¬ fs.TurnsBack path := by
  rintro ⟨names, stop, hnames, hstop, hmissing, hback⟩
  obtain ⟨-, -, -, rfl⟩ := namesOf_eq_ok_iff.1 hnames
  obtain ⟨front, hsplit, -⟩ := follow_eq_missing hstop hmissing
  rw [hsplit] at h
  exact h (List.mem_append_right _ hback)

theorem Grows.turnsBack {before after : FileSystem} (h : before.Grows after) {path : Path}
    (hturns : after.TurnsBack path) : before.TurnsBack path := by
  obtain ⟨names, stop, hnames, hstop, hmissing, hup⟩ := hturns
  obtain ⟨earlier, hearlier, hmissing', hsuffix⟩ := h.follow_missing hstop hmissing
  exact ⟨names, earlier, hnames, hearlier, hmissing', hsuffix.subset hup⟩

/-- A path whose last name does not lead up turns back only if its parent does. -/
theorem TurnsBack.parent {fs : FileSystem} {path : Path} {front : List CodeText} {last : CodeText}
    (h : fs.TurnsBack path) (hparts : path.parts = front ++ [last])
    (hup : spellName last ≠ upwards) : fs.TurnsBack path.parent := by
  obtain ⟨names, stop, hnames, hstop, hmissing, hback⟩ := h
  obtain ⟨-, -, -, hspell⟩ := namesOf_eq_ok_iff.1 hnames
  rw [hparts, List.map_append, List.map_cons, List.map_nil] at hspell
  have hparent := namesOf_parent hnames
  rw [hspell, List.dropLast_concat] at hparent
  obtain ⟨passed, hsplit, hrest, hopen, hplace, hnone⟩ := follow_eq_missing hstop hmissing
  -- The last name is left over together with the one that leads up, which stands before it.
  obtain ⟨init, final, hfinal⟩ : ∃ init final, stop.rest = init ++ [final] :=
    ⟨_, _, (List.dropLast_concat_getLast hrest).symm⟩
  rw [hspell, hfinal, ← List.append_assoc] at hsplit
  obtain ⟨hinit, hlast⟩ := List.append_inj' hsplit rfl
  rw [hfinal, List.mem_append, ← hlast, List.mem_singleton] at hback
  rcases hback with hback | hback
  · cases init with
    | nil => exact absurd hback List.not_mem_nil
    | cons name init =>
        rw [hplace] at hnone
        exact ⟨_, _, hparent, hinit ▸ follow_of_missing hopen hnone, rfl, hback⟩
  · exact absurd hback.symm hup

/-- A path whose last name leads up can only lead to a directory. -/
theorem get?_of_upwards {fs : FileSystem} {path : Path} {front : List CodeText} {last : CodeText}
    {location : Location} (hparts : path.parts = front ++ [last]) (hup : spellName last = upwards)
    (h : fs.locate path = .ok location) : fs.get? location = some .directory := by
  obtain ⟨names, hnames, rfl, hopen⟩ := locate_eq_ok_iff.1 h
  obtain ⟨-, -, -, rfl⟩ := namesOf_eq_ok_iff.1 hnames
  rw [hparts, List.map_append, List.map_cons, List.map_nil, hup] at hopen ⊢
  rw [walk_append, walk_cons, step_upwards]
  exact get?_above (open_append.1 hopen).2.1

theorem existsAt_eq_true_iff {fs : FileSystem} {path : Path} :
    fs.existsAt path = .ok true ↔
      ∃ location entry, fs.locate path = .ok location ∧ fs.get? location = some entry := by
  rw [existsAt, entryAt?]
  constructor
  · intro h
    cases hlocate : fs.locate path with
    | error fault =>
        rw [hlocate] at h
        by_cases hlong : fault.obstacle = .nameTooLong
        · simp only [if_pos hlong] at h
          cases h
        · simp only [if_neg hlong] at h
          cases h
    | ok location =>
        rw [hlocate] at h
        obtain ⟨entry, hentry⟩ := Option.isSome_iff_exists.1 (Except.ok.inj h)
        exact ⟨location, entry, rfl, hentry⟩
  · rintro ⟨location, entry, hlocate, hentry⟩
    rw [hlocate]
    show Except.ok (fs.get? location).isSome = Except.ok true
    rw [hentry]
    rfl

theorem TurnsBack.existsAt {fs : FileSystem} {path : Path} (h : fs.TurnsBack path) :
    fs.existsAt path = .ok false := by
  obtain ⟨names, stop, hnames, hstop, hmissing, -⟩ := h
  rw [FileSystem.existsAt, entryAt?, locate_of_follow_error hnames hstop, hmissing]
  rfl

/-- **Only a path that turns back can come to something that it did not lead to before**, when the
file system only grew in between. -/
theorem turnsBack_of_opened {before after : FileSystem} (hgrows : before.Grows after) {path : Path}
    {location : Location} {entry : Entry} (hexists : before.existsAt path = .ok false)
    (hlocate : after.locate path = .ok location) (hthere : before.get? location = some entry) :
    before.TurnsBack path := by
  obtain ⟨names, hnames, rfl, hopen⟩ := locate_eq_ok_iff.1 hlocate
  cases hfollow : before.follow .top names with
  | ok found =>
      -- The way was open before, so the path did lead to what is there.
      exfalso
      obtain ⟨-, hbefore⟩ := follow_eq_ok_iff.1 hfollow
      have htrue := existsAt_eq_true_iff.2
        ⟨_, entry, locate_eq_ok_iff.2 ⟨names, hnames, rfl, hbefore⟩, hthere⟩
      rw [htrue] at hexists
      cases hexists
  | error stop =>
      have hfault := locate_of_follow_error hnames hfollow
      rcases follow_eq_error hfollow with hlong | ⟨front, hsplit, hrest, -, hplace, hwhy⟩
      · exfalso
        rw [FileSystem.existsAt, entryAt?, hfault] at hexists
        simp only [if_pos hlong] at hexists
        cases hexists
      rw [hsplit, open_append, ← hplace] at hopen
      rw [hsplit, walk_append, ← hplace] at hthere
      rcases hwhy with ⟨hmissing, hnone⟩ | ⟨-, bytes, hfile⟩
      · refine ⟨names, stop, hnames, hfollow, hmissing, ?_⟩
        refine Decidable.byContradiction fun hup => ?_
        rcases get?_of_walk hup hthere with hnil | hdirectory
        · exact hrest hnil
        · rw [hnone] at hdirectory
          cases hdirectory
      · -- A file in the way is still there.
        exfalso
        cases hrestof : stop.rest with
        | nil => exact hrest hrestof
        | cons name rest =>
            rw [hrestof] at hopen
            have hdirectory := hopen.2.1
            rw [hgrows _ _ hfile] at hdirectory
            cases hdirectory

theorem locate_of_directories {before after : FileSystem}
    (h : ∀ place, before.get? place = some .directory → after.get? place = some .directory)
    {path : Path} {location : Location} (hlocate : before.locate path = .ok location) :
    after.locate path = .ok location := by
  obtain ⟨names, hnames, hlocation, hopen⟩ := locate_eq_ok_iff.1 hlocate
  exact locate_eq_ok_iff.2 ⟨names, hnames, hlocation, Open.of_directories h hopen⟩

theorem Grows.locate {before after : FileSystem} (h : before.Grows after) {path : Path}
    {location : Location} (hlocate : before.locate path = .ok location) :
    after.locate path = .ok location :=
  locate_of_directories (fun place => h place .directory) hlocate

/-! ## Added directories -/

/-- Whether a file system is another one with nothing but directories added, at places that may
get one. -/
def AddsDirectories (before after : FileSystem) (allowed : Location → Prop) : Prop :=
  ∀ place, after.get? place = before.get? place ∨
    before.get? place = none ∧ after.get? place = some .directory ∧ allowed place

theorem AddsDirectories.refl (fs : FileSystem) (allowed : Location → Prop) :
    fs.AddsDirectories fs allowed :=
  fun _ => Or.inl rfl

theorem AddsDirectories.trans {first second third : FileSystem} {allowed : Location → Prop}
    (h : first.AddsDirectories second allowed) (h' : second.AddsDirectories third allowed) :
    first.AddsDirectories third allowed := by
  intro place
  rcases h' place with heq' | ⟨hnone, hdirectory, hallowed⟩
  · rw [heq']
    exact h place
  · rcases h place with heq | ⟨-, hthere, -⟩
    · exact Or.inr ⟨heq ▸ hnone, hdirectory, hallowed⟩
    · rw [hnone] at hthere
      cases hthere

theorem AddsDirectories.mono {before after : FileSystem} {allowed allowed' : Location → Prop}
    (h : before.AddsDirectories after allowed) (himp : ∀ place, allowed place → allowed' place) :
    before.AddsDirectories after allowed' := by
  intro place
  refine (h place).imp_right ?_
  rintro ⟨hnone, hdirectory, hallowed⟩
  exact ⟨hnone, hdirectory, himp place hallowed⟩

theorem AddsDirectories.grows {before after : FileSystem} {allowed : Location → Prop}
    (h : before.AddsDirectories after allowed) : before.Grows after := by
  intro place entry hentry
  rcases h place with heq | ⟨hnone, -, -⟩
  · rw [heq, hentry]
  · rw [hnone] at hentry
    cases hentry

/-! ## Putting an entry -/

/-- Putting an entry changes what is at its location, and nothing else. -/
theorem get?_put (fs : FileSystem) {location : Location} (entry : Entry)
    (room : fs.HasRoom location) (place : Location) :
    (fs.put location entry room).get? place =
      if place = location then some entry else fs.get? place := by
  rw [get?, get?, put]
  by_cases htop : place = .top
  · have hne : place ≠ location := fun heq => room.1.1 (heq.symm.trans htop)
    rw [if_pos htop, if_neg hne, if_pos htop]
  · rw [if_neg htop, if_neg htop, KeyedList.get?_set]
    by_cases heq : place = location
    · rw [if_pos heq.symm, if_pos heq]
    · rw [if_neg (Ne.symm heq), if_neg heq]

/-! ## Making directories -/

theorem withDirectory?_adds {fs after : FileSystem} {here : Location}
    (h : fs.withDirectory? here = some after) : fs.AddsDirectories after (· = here) := by
  rw [withDirectory?] at h
  by_cases hdirectory : fs.get? here = some .directory
  · rw [if_pos hdirectory, Option.some.injEq] at h
    rw [h]
    exact .refl after _
  · rw [if_neg hdirectory] at h
    by_cases hroom : fs.get? here = none ∧ fs.HasRoom here
    · rw [dif_pos hroom, Option.some.injEq] at h
      subst h
      intro place
      rw [get?_put]
      by_cases heq : place = here
      · rw [if_pos heq]
        exact Or.inr ⟨heq ▸ hroom.1, rfl, heq⟩
      · rw [if_neg heq]
        exact Or.inl rfl
    · rw [dif_neg hroom] at h
      cases h

/-- Making directories along names adds them at places on the way. -/
theorem makeAlong_adds (names : List CodeText) (fs : FileSystem) (here : Location) :
    fs.AddsDirectories (fs.makeAlong here names).2
      (fun place => ∃ front, front <+: names ∧ place = walk here front) := by
  induction names generalizing fs here with
  | nil =>
      rw [makeAlong]
      cases hmade : fs.withDirectory? here with
      | none => exact .refl fs _
      | some made =>
          refine (withDirectory?_adds hmade).mono ?_
          rintro place rfl
          exact ⟨[], List.prefix_rfl, rfl⟩
  | cons name names ih =>
      rw [makeAlong]
      cases hmade : fs.withDirectory? here with
      | none => exact .refl fs _
      | some made =>
          have hhere : fs.AddsDirectories made
              (fun place => ∃ front, front <+: name :: names ∧ place = walk here front) := by
            refine (withDirectory?_adds hmade).mono ?_
            rintro place rfl
            exact ⟨[], List.nil_prefix, rfl⟩
          by_cases hlong : maxNameLength < byteLength name
          · simp only [if_pos hlong]
            exact hhere
          · simp only [if_neg hlong]
            refine hhere.trans ((ih made (step here name)).mono ?_)
            rintro place ⟨front, hfront, rfl⟩
            exact ⟨name :: front, List.cons_prefix_cons.2 ⟨rfl, hfront⟩, rfl⟩

/-- Whether a place is one that a path leads to or passes. -/
def Passes (path : Path) (place : Location) : Prop :=
  ∃ front, front <+: path.parts.map spellName ∧ place = walk .top front

/-- **Making the directories of a path adds directories where it passes, and changes nothing
else**, however far it gets. -/
theorem makeDirectories_adds (room : Nat) (fs : FileSystem) (path : Path) :
    fs.AddsDirectories (fs.makeDirectories room path).2 (Passes path) := by
  rw [makeDirectories]
  cases hnames : namesOf path with
  | error obstacle => exact .refl fs _
  | ok names =>
      obtain ⟨-, -, -, rfl⟩ := namesOf_eq_ok_iff.1 hnames
      cases hfollow : fs.follow .top (path.parts.map spellName) with
      | ok location =>
          obtain ⟨rfl, -⟩ := follow_eq_ok_iff.1 hfollow
          simp only [hfollow]
          refine (makeAlong_adds [] fs _).mono ?_
          rintro place ⟨front, hfront, rfl⟩
          rw [List.prefix_nil.1 hfront]
          exact ⟨_, List.prefix_rfl, rfl⟩
      | error stop =>
          simp only [hfollow]
          -- Only a walk that misses something has directories made, those of the names left over.
          by_cases hmissing : stop.obstacle = .missing
          · rw [if_neg (Classical.not_not.2 hmissing)]
            by_cases hmany : room ≤ stop.rest.length
            · rw [if_pos hmany]
              exact .refl fs _
            · rw [if_neg hmany]
              obtain ⟨front, hsplit, -, -, hplace, -⟩ := follow_eq_missing hfollow hmissing
              refine (makeAlong_adds stop.rest fs stop.place).mono ?_
              rintro place ⟨more, hmore, rfl⟩
              refine ⟨front ++ more, ?_, ?_⟩
              · rw [hsplit]
                exact (List.prefix_append_right_inj front).2 hmore
              · rw [hplace, walk_append]
          · rw [if_pos hmissing]
            exact .refl fs _

/-! ## Writing a file -/

/-- **Writing a file changes what is at the location that its path leads to, and nothing else.** No
directory is replaced. -/
theorem write_effect {fs after : FileSystem} {path : Path} {bytes : List UInt8}
    (h : fs.write path bytes = .ok after) :
    ∃ location, fs.locate path = .ok location ∧ fs.get? location ≠ some .directory ∧
      ∀ place, after.get? place =
        if place = location then some (.file bytes) else fs.get? place := by
  rw [write] at h
  cases hlocate : fs.locate path with
  | error fault =>
      rw [hlocate] at h
      cases h
  | ok location =>
      simp only [hlocate] at h
      by_cases room : fs.HasRoom location
      · rw [dif_pos room, Except.ok.injEq] at h
        subst h
        exact ⟨location, rfl, room.2.2, fs.get?_put _ room⟩
      · rw [dif_neg room] at h
        cases h

theorem develops_of_write {fs after : FileSystem} {path : Path} {bytes : List UInt8}
    (h : fs.write path bytes = .ok after) : fs.Develops after := by
  obtain ⟨location, -, hfile, hafter⟩ := write_effect h
  intro place entry hentry
  rw [hafter]
  by_cases hplace : place = location
  · subst hplace
    rw [if_pos rfl]
    refine ⟨_, rfl, ?_⟩
    cases entry with
    | directory => exact absurd hentry hfile
    | file bytes' => simp
  · rw [if_neg hplace]
    exact ⟨entry, hentry, .rfl⟩

/-- **Making directories and writing a file behind that**: the path leads to the file afterwards,
no directory was there, and nothing but the added directories is different elsewhere. -/
theorem made_write_effect {before made after : FileSystem} {path : Path} {bytes : List UInt8}
    {allowed : Location → Prop} (hadds : before.AddsDirectories made allowed)
    (hwrite : made.write path bytes = .ok after) :
    ∃ location, made.locate path = .ok location ∧ after.locate path = .ok location ∧
      after.get? location = some (.file bytes) ∧ before.get? location ≠ some .directory ∧
      ∀ place, place ≠ location → after.get? place = before.get? place ∨
        before.get? place = none ∧ after.get? place = some .directory ∧ allowed place := by
  obtain ⟨location, hlocate, hfile, hafter⟩ := write_effect hwrite
  refine ⟨location, hlocate, ?_, ?_, ?_, ?_⟩
  · refine locate_of_directories ?_ hlocate
    intro place hplace
    have hne : place ≠ location := by
      rintro rfl
      exact hfile hplace
    rw [hafter, if_neg hne, hplace]
  · rw [hafter, if_pos rfl]
  · intro hdirectory
    exact hfile (hadds.grows location .directory hdirectory)
  · intro place hne
    rw [hafter, if_neg hne]
    exact hadds place

/-- **Where nothing was found, nothing is lost**: when the path of a file does not turn back, a
file that is written there after its directories were made is new. -/
theorem made_write_grows {before made after : FileSystem} {path : Path} {bytes : List UInt8}
    {allowed : Location → Prop} (hexists : before.existsAt path = .ok false)
    (hturns : ¬ before.TurnsBack path) (hadds : before.AddsDirectories made allowed)
    (hwrite : made.write path bytes = .ok after) :
    before.Grows after ∧ ∃ location, before.get? location = none ∧
      after.locate path = .ok location ∧ after.get? location = some (.file bytes) := by
  obtain ⟨location, hmade, hlocate, hfile, -, hothers⟩ := made_write_effect hadds hwrite
  have hnone : before.get? location = none := by
    cases hbefore : before.get? location with
    | none => rfl
    | some entry => exact absurd (turnsBack_of_opened hadds.grows hexists hmade hbefore) hturns
  refine ⟨?_, location, hnone, hlocate, hfile⟩
  intro place entry hentry
  have hne : place ≠ location := by
    rintro rfl
    rw [hnone] at hentry
    cases hentry
  rcases hothers place hne with heq | ⟨hempty, -, -⟩
  · rw [heq, hentry]
  · rw [hempty] at hentry
    cases hentry

end IconForge.FileSystem
