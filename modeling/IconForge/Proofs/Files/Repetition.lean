import IconForge.Proofs.Files.Reach

set_option autoImplicit false

/-! # Doing the same again

In a file system that has developed since, an operation that was done already does nothing new.
Directories that were made are there (`makeDirectories_eq_ok`, `makeDirectories_of_directory`), a
file that was written is written to the same place (`write_again`), and what failed fails in the
same way (`write_error_again`).

Making directories may fail halfway, and a second attempt begins where the first one ended. It comes
to the same fault as long as the path never goes up, has no name that is too long and does not miss
too many directories at once (`Steady`, `makeDirectories_error_again`). -/

namespace IconForge.FileSystem

open Text.Encoding

/-! ## Walks -/

/-- What is above the end of an open walk is a directory. -/
theorem directory_above_of_open {fs : FileSystem} {names : List CodeText}
    (h : fs.Open .top names) : fs.get? (walk .top names).above = some .directory := by
  rcases List.eq_nil_or_concat names with rfl | ⟨front, last, rfl⟩
  · exact fs.get?_top
  · rw [List.concat_eq_append] at h ⊢
    have hfront := (open_append.1 h).2.1
    rw [walk_append, walk_cons]
    show fs.get? (step (walk .top front) last).above = some .directory
    by_cases hup : last = upwards
    · rw [hup, step_upwards]
      exact get?_above (get?_above hfront)
    · rw [step_of_ne hup, Location.above_within]
      exact hfront

/-- A walk with short names in front stops at a long name only if that is the last one and
everything in front of it is there. -/
theorem open_of_follow_tooLong {fs : FileSystem} {front : List CodeText} {last : CodeText}
    {here : Location} {stop : Stop} (hshort : ∀ name ∈ front, byteLength name ≤ maxNameLength)
    (hstop : fs.follow here (front ++ [last]) = .error stop)
    (hlong : stop.obstacle = .nameTooLong) :
    fs.Open here front ∧ fs.get? (walk here front) = some .directory := by
  -- A walk looks at a name only from within a directory, and no name in front is too long.
  induction front generalizing here with
  | nil =>
      refine ⟨trivial, ?_⟩
      rw [List.nil_append, follow] at hstop
      show fs.get? here = some .directory
      cases hhere : fs.get? here with
      | none =>
          simp only [hhere, Except.error.injEq] at hstop
          rw [← hstop] at hlong
          cases hlong
      | some entry =>
          cases entry with
          | directory => rfl
          | file bytes =>
              simp only [hhere, Except.error.injEq] at hstop
              rw [← hstop] at hlong
              cases hlong
  | cons name front ih =>
      rw [List.cons_append, follow] at hstop
      have hname := hshort name List.mem_cons_self
      cases hhere : fs.get? here with
      | none =>
          simp only [hhere, Except.error.injEq] at hstop
          rw [← hstop] at hlong
          cases hlong
      | some entry =>
          cases entry with
          | file bytes =>
              simp only [hhere, Except.error.injEq] at hstop
              rw [← hstop] at hlong
              cases hlong
          | directory =>
              simp only [hhere, if_neg (Nat.not_lt.2 hname)] at hstop
              obtain ⟨hopen, hdirectory⟩ :=
                ih (fun other hother => hshort other (List.mem_cons_of_mem _ hother)) hstop
              exact ⟨⟨hhere, hname, hopen⟩, hdirectory⟩

/-! ## Directories that cannot be made -/

theorem directory_of_withDirectory? {fs made : FileSystem} {here : Location}
    (h : fs.withDirectory? here = some made) : made.get? here = some .directory := by
  rw [withDirectory?] at h
  by_cases hdirectory : fs.get? here = some .directory
  · rw [if_pos hdirectory, Option.some.injEq] at h
    rw [← h, hdirectory]
  · rw [if_neg hdirectory] at h
    by_cases hroom : fs.get? here = none ∧ fs.HasRoom here
    · rw [dif_pos hroom, Option.some.injEq] at h
      rw [← h, get?_put, if_pos rfl]
    · rw [dif_neg hroom] at h
      cases h

/-- Where a directory cannot be made in a directory though nothing is there, the name is none. -/
theorem unnamed_of_withDirectory? {fs : FileSystem} {place : Location}
    (habove : fs.get? place.above = some .directory) (hempty : fs.get? place = none)
    (h : fs.withDirectory? place = none) : ¬ ∀ name ∈ place.names, isFileName name := by
  intro hnames
  have hne : place ≠ .top := by
    rintro rfl
    rw [get?_top] at hempty
    cases hempty
  have hfile : fs.get? place ≠ some .directory := by
    rw [hempty]
    rintro ⟨⟩
  rw [withDirectory?, if_neg hfile, dif_pos ⟨hempty, ⟨hne, hnames⟩, habove, hfile⟩] at h
  cases h

/-- Nothing is where the name is none. -/
theorem get?_eq_none_of_unnamed {place : Location} (h : ¬ ∀ name ∈ place.names, isFileName name)
    (fs : FileSystem) : fs.get? place = none := by
  cases hentry : fs.get? place with
  | none => rfl
  | some entry => exact absurd (isFileName_of_get? hentry) h

theorem get?_walk_eq_none {fs : FileSystem} {names : List CodeText} {here : Location}
    (hup : upwards ∉ names) (h : fs.get? here = none) : fs.get? (walk here names) = none := by
  cases hthere : fs.get? (walk here names) with
  | none => rfl
  | some entry =>
      rcases get?_of_walk hup hthere with rfl | hdirectory
      · exact hthere.symm.trans h
      · rw [h] at hdirectory
        cases hdirectory

theorem AddsDirectories.get?_eq_none {before after : FileSystem} {allowed : Location → Prop}
    (h : before.AddsDirectories after allowed) {place : Location}
    (hempty : before.get? place = none) (hnone : after.withDirectory? place = none) :
    after.get? place = none := by
  rcases h place with heq | ⟨-, hdirectory, -⟩
  · exact heq.trans hempty
  · rw [withDirectory?, if_pos hdirectory] at hnone
    cases hnone

/-- Where a directory could not be made in a directory, none can be made later. -/
theorem Develops.withDirectory?_eq_none {fs later : FileSystem} (h : fs.Develops later)
    {place : Location} (habove : fs.get? place.above = some .directory)
    (hnone : fs.withDirectory? place = none) : later.withDirectory? place = none := by
  cases hplace : fs.get? place with
  | none =>
      have hunnamed := unnamed_of_withDirectory? habove hplace hnone
      have hempty := get?_eq_none_of_unnamed hunnamed later
      rw [withDirectory?, if_neg (by rw [hempty]; rintro ⟨⟩), dif_neg fun hroom =>
        hunnamed hroom.2.1.2]
  | some entry =>
      cases entry with
      | directory =>
          rw [withDirectory?, if_pos hplace] at hnone
          cases hnone
      | file bytes =>
          obtain ⟨bytes', hfile⟩ := h.file hplace
          rw [withDirectory?, if_neg (by rw [hfile]; rintro ⟨⟩), dif_neg fun hroom => by
            rw [hfile] at hroom
            cases hroom.1]

/-! ## Making directories again -/

variable {room : Nat}

/-- Where no directory can be made, none is made along any names. -/
theorem makeAlong_of_blocked {fs : FileSystem} {here : Location}
    (h : fs.withDirectory? here = none) (names : List CodeText) :
    fs.makeAlong here names = (.error ⟨.alreadyThere, here, names⟩, fs) := by
  cases names with
  | nil => rw [makeAlong, h]
  | cons name names => rw [makeAlong, h]

theorem makeAlong_eq_ok {names : List CodeText} {fs made : FileSystem} {here : Location}
    (h : fs.makeAlong here names = (.ok (), made)) :
    made.Open here names ∧ made.get? (walk here names) = some .directory := by
  induction names generalizing fs here with
  | nil =>
      rw [makeAlong] at h
      cases hhere : fs.withDirectory? here with
      | none =>
          rw [hhere] at h
          cases h
      | some first =>
          rw [hhere] at h
          obtain ⟨-, rfl⟩ := Prod.mk.inj h
          exact ⟨trivial, directory_of_withDirectory? hhere⟩
  | cons name names ih =>
      rw [makeAlong] at h
      cases hhere : fs.withDirectory? here with
      | none =>
          rw [hhere] at h
          cases h
      | some first =>
          simp only [hhere] at h
          by_cases hlong : maxNameLength < byteLength name
          · rw [if_pos hlong] at h
            cases h
          · rw [if_neg hlong] at h
            obtain ⟨hopen, hdirectory⟩ := ih h
            -- The first directory stays while the others are made.
            have hgrows := (makeAlong_adds names first (step here name)).grows
            rw [h] at hgrows
            exact ⟨⟨hgrows here _ (directory_of_withDirectory? hhere), Nat.le_of_not_lt hlong,
              hopen⟩, hdirectory⟩

/-- Making directories along short names ends at a place where none can be made, with those in front
made. -/
theorem makeAlong_eq_error {names : List CodeText} {fs made : FileSystem} {here : Location}
    {stop : Stop} (hshort : ∀ name ∈ names, byteLength name ≤ maxNameLength)
    (h : fs.makeAlong here names = (.error stop, made)) :
    ∃ front, names = front ++ stop.rest ∧ stop.obstacle = .alreadyThere ∧
      made.Open here front ∧ made.withDirectory? (walk here front) = none := by
  induction names generalizing fs here with
  | nil =>
      rw [makeAlong] at h
      cases hhere : fs.withDirectory? here with
      | none =>
          rw [hhere] at h
          obtain ⟨hstop, rfl⟩ := Prod.mk.inj h
          obtain rfl := Except.error.inj hstop
          exact ⟨[], rfl, rfl, trivial, hhere⟩
      | some first =>
          rw [hhere] at h
          cases h
  | cons name names ih =>
      rw [makeAlong] at h
      cases hhere : fs.withDirectory? here with
      | none =>
          rw [hhere] at h
          obtain ⟨hstop, rfl⟩ := Prod.mk.inj h
          obtain rfl := Except.error.inj hstop
          exact ⟨[], rfl, rfl, trivial, hhere⟩
      | some first =>
          have hname := hshort name List.mem_cons_self
          simp only [hhere, if_neg (Nat.not_lt.2 hname)] at h
          obtain ⟨front, hsplit, hwhy, hopen, hnone⟩ :=
            ih (fun other hother => hshort other (List.mem_cons_of_mem _ hother)) h
          -- The first directory stays while the others are made.
          have hgrows := (makeAlong_adds names first (step here name)).grows
          rw [h] at hgrows
          refine ⟨name :: front, ?_, hwhy,
            ⟨hgrows here _ (directory_of_withDirectory? hhere), hname, hopen⟩, hnone⟩
          rw [List.cons_append, ← hsplit]

/-- What making directories for a path comes to from a place on, along the names behind it. -/
def madeFrom (fs : FileSystem) (path : Path) (here : Location) (rest : List CodeText) :
    Except Fault Unit × FileSystem :=
  ((fs.makeAlong here rest).1.mapError fun stop =>
    ⟨stop.obstacle, (path.ancestor stop.rest.length).text⟩, (fs.makeAlong here rest).2)

/-- How the directories of a path come to be made, or are refused. -/
inductive Making (room : Nat) (fs : FileSystem) (path : Path) :
    Except Fault Unit × FileSystem → Prop where
  /-- The path cannot be handed over. -/
  | unnamed (obstacle : Obstacle) (names : namesOf path = .error obstacle) :
      Making room fs path (.error ⟨obstacle, path.text⟩, fs)
  /-- A file or a name is in the way. -/
  | stopped (names : List CodeText) (stop : Stop) (named : namesOf path = .ok names)
      (follows : fs.follow .top names = .error stop) (why : stop.obstacle ≠ .missing) :
      Making room fs path (.error ⟨stop.obstacle, path.text⟩, fs)
  /-- Too many directories are missing. -/
  | tooMany (names : List CodeText) (stop : Stop) (named : namesOf path = .ok names)
      (follows : fs.follow .top names = .error stop) (missing : stop.obstacle = .missing)
      (many : room ≤ stop.rest.length) :
      Making room fs path (.error ⟨.tooManyMissing, path.text⟩, fs)
  /-- The way is open up to a place, and the directories from there on are made. -/
  | attempted (front rest : List CodeText) (named : namesOf path = .ok (front ++ rest))
      (way : fs.Open .top front)
      (end? : rest = [] ∨ fs.get? (walk .top front) = none ∧ rest.length < room) :
      Making room fs path (fs.madeFrom path (walk .top front) rest)

/-- Where the way is open up to a place, the directories from there on are made. -/
theorem makeDirectories_of_way {fs : FileSystem} {path : Path} {front rest : List CodeText}
    (hnames : namesOf path = .ok (front ++ rest)) (hopen : fs.Open .top front)
    (hend : rest = [] ∨ fs.get? (walk .top front) = none ∧ rest.length < room) :
    fs.makeDirectories room path = fs.madeFrom path (walk .top front) rest := by
  rw [makeDirectories, hnames]
  cases rest with
  | nil =>
      rw [List.append_nil]
      simp only [follow_eq_ok_iff.2 ⟨rfl, hopen⟩]
      rfl
  | cons name rest =>
      obtain ⟨hnone, hfew⟩ := hend.resolve_left (List.cons_ne_nil name rest)
      simp only [follow_of_missing hopen hnone, ne_eq, not_true_eq_false, if_false,
        if_neg (Nat.not_le.2 hfew)]
      rfl

/-- Where the way is open up to a place and no directory can be made there, the path is refused at
the part that leads to this place. -/
theorem makeDirectories_of_blocked {fs : FileSystem} {path : Path} {front rest : List CodeText}
    (hnames : namesOf path = .ok (front ++ rest)) (hopen : fs.Open .top front)
    (hend : rest = [] ∨ fs.get? (walk .top front) = none ∧ rest.length < room)
    (hblocked : fs.withDirectory? (walk .top front) = none) :
    fs.makeDirectories room path =
      (.error ⟨.alreadyThere, (path.ancestor rest.length).text⟩, fs) := by
  rw [makeDirectories_of_way hnames hopen hend, madeFrom, makeAlong_of_blocked hblocked rest]
  rfl

theorem makeDirectories_of_stop {fs : FileSystem} {path : Path} {names : List CodeText} {stop : Stop}
    (hnames : namesOf path = .ok names) (hfollow : fs.follow .top names = .error stop)
    (hwhy : stop.obstacle ≠ .missing) :
    fs.makeDirectories room path = (.error ⟨stop.obstacle, path.text⟩, fs) := by
  rw [makeDirectories, hnames]
  simp only [hfollow, if_pos hwhy]

theorem makeDirectories_of_many {fs : FileSystem} {path : Path} {names : List CodeText} {stop : Stop}
    (hnames : namesOf path = .ok names) (hfollow : fs.follow .top names = .error stop)
    (hmissing : stop.obstacle = .missing) (hmany : room ≤ stop.rest.length) :
    fs.makeDirectories room path = (.error ⟨.tooManyMissing, path.text⟩, fs) := by
  rw [makeDirectories, hnames]
  simp only [hfollow, hmissing, ne_eq, not_true_eq_false, if_false, if_pos hmany]

/-- **Directories come to be made, or are refused, in one of four ways.** -/
theorem making_makeDirectories (room : Nat) (fs : FileSystem) (path : Path) :
    fs.Making room path (fs.makeDirectories room path) := by
  cases hnames : namesOf path with
  | error obstacle =>
      have hrefused : fs.makeDirectories room path = (.error ⟨obstacle, path.text⟩, fs) := by
        rw [makeDirectories, hnames]
      rw [hrefused]
      exact .unnamed obstacle hnames
  | ok names =>
  cases hfollow : fs.follow .top names with
  | ok location =>
      obtain ⟨-, hopen⟩ := follow_eq_ok_iff.1 hfollow
      rw [← List.append_nil names] at hnames
      rw [makeDirectories_of_way hnames hopen (Or.inl rfl)]
      exact .attempted names [] hnames hopen (Or.inl rfl)
  | error stop =>
      by_cases hmissing : stop.obstacle = .missing
      · by_cases hmany : room ≤ stop.rest.length
        · rw [makeDirectories_of_many hnames hfollow hmissing hmany]
          exact .tooMany names stop hnames hfollow hmissing hmany
        · obtain ⟨front, hsplit, -, hopen, hplace, hnone⟩ := follow_eq_missing hfollow hmissing
          rw [hplace] at hnone
          rw [hsplit] at hnames
          -- The walk stopped for want of something: what is there is the front.
          have hend : stop.rest = [] ∨ fs.get? (walk .top front) = none ∧
              stop.rest.length < room := Or.inr ⟨hnone, Nat.lt_of_not_le hmany⟩
          rw [makeDirectories_of_way hnames hopen hend]
          exact .attempted front stop.rest hnames hopen hend
      · rw [makeDirectories_of_stop hnames hfollow hmissing]
        exact .stopped names stop hnames hfollow hmissing

/-- **Directories that were made are there.** -/
theorem makeDirectories_eq_ok {fs made : FileSystem} {path : Path}
    (h : fs.makeDirectories room path = (.ok (), made)) : made.isDirectory path = .ok true := by
  have hgrows := (fs.makeDirectories_adds room path).grows
  have hmaking := fs.making_makeDirectories room path
  rw [h] at hgrows hmaking
  generalize hresult : (Except.ok (), made) = result at hmaking
  cases hmaking with
  | unnamed obstacle names => cases hresult
  | stopped names stop named follows why => cases hresult
  | tooMany names stop named follows missing many => cases hresult
  | attempted front rest named way end? =>
      obtain ⟨hok, hafter⟩ := Prod.mk.inj hresult
      have hdone : (fs.makeAlong (walk .top front) rest).1 = .ok () := by
        cases hfirst : (fs.makeAlong (walk .top front) rest).1 with
        | ok done => rfl
        | error stop =>
            rw [hfirst] at hok
            cases hok
      -- The way is open where it was, and goes on through what was made.
      obtain ⟨hrest, hdirectory⟩ := makeAlong_eq_ok (Prod.ext hdone hafter.symm)
      refine isDirectory_eq_true_iff.2
        ⟨walk .top (front ++ rest), locate_eq_ok_iff.2 ⟨_, named, rfl, ?_⟩, ?_⟩
      · rw [open_append]
        exact ⟨Open.of_directories (fun place hplace => hgrows place _ hplace) way, hrest⟩
      · rw [walk_append]
        exact hdirectory

/-- **Where a directory is, nothing has to be made.** -/
theorem makeDirectories_of_directory {fs : FileSystem} {path : Path}
    (h : fs.isDirectory path = .ok true) : fs.makeDirectories room path = (.ok (), fs) := by
  obtain ⟨location, hlocate, hdirectory⟩ := isDirectory_eq_true_iff.1 h
  obtain ⟨names, hnames, rfl, hopen⟩ := locate_eq_ok_iff.1 hlocate
  rw [← List.append_nil names] at hnames
  rw [makeDirectories_of_way hnames hopen (Or.inl rfl), madeFrom, makeAlong, withDirectory?,
    if_pos hdirectory]
  rfl

/-! ## Paths whose directories are made steadily -/

/-- Whether a path that can be handed over never goes up, has no name that is too long and does not
miss more directories than there is room to make, as far as its directory is not there yet. -/
def Steady (room : Nat) (fs : FileSystem) (path : Path) : Prop :=
  ∀ names, namesOf path = .ok names → fs.isDirectory path = .ok true ∨
    upwards ∉ names ∧ (∀ name ∈ names, byteLength name ≤ maxNameLength) ∧
    ∀ stop, fs.follow .top names = .error stop → stop.obstacle = .missing →
      stop.rest.length < room

theorem steady_of_isDirectory {fs : FileSystem} {path : Path} (h : fs.isDirectory path = .ok true) :
    fs.Steady room path :=
  fun _ _ => Or.inl h

theorem Develops.isDirectory {fs later : FileSystem} (h : fs.Develops later) {path : Path}
    (hdirectory : fs.isDirectory path = .ok true) : later.isDirectory path = .ok true := by
  rw [isDirectory_eq_true_iff] at hdirectory ⊢
  obtain ⟨location, hlocate, hthere⟩ := hdirectory
  exact ⟨location, locate_of_directories (fun _ => h.directory) hlocate, h.directory hthere⟩

theorem Steady.develops {fs later : FileSystem} {path : Path} (h : fs.Steady room path)
    (hlater : fs.Develops later) : later.Steady room path := by
  refine fun names hnames => (h names hnames).imp hlater.isDirectory ?_
  rintro ⟨hup, hshort, hfew⟩
  refine ⟨hup, hshort, fun stop hstop hmissing => ?_⟩
  obtain ⟨earlier, hearlier, hmissing', hsuffix⟩ := hlater.follow_missing hstop hmissing
  exact Nat.lt_of_le_of_lt hsuffix.length_le (hfew earlier hearlier hmissing')

/-- What kept directories from being made behind an open way keeps them from it again. The second
attempt begins where the first one ended, since the directories in front of that have been made. -/
theorem madeFrom_error_again {fs made later : FileSystem} {path : Path} {front rest : List CodeText}
    {fault : Fault} (hnames : namesOf path = .ok (front ++ rest)) (hopen : fs.Open .top front)
    (hend : rest = [] ∨ fs.get? (walk .top front) = none ∧ rest.length < room)
    (hup : upwards ∉ rest) (hshort : ∀ name ∈ rest, byteLength name ≤ maxNameLength)
    (h : fs.madeFrom path (walk .top front) rest = (.error fault, made))
    (hlater : made.Develops later) : later.makeDirectories room path = (.error fault, later) := by
  have hadds := fs.makeDirectories_adds room path
  rw [makeDirectories_of_way hnames hopen hend, h] at hadds
  obtain ⟨hfault, hmade⟩ := Prod.mk.inj h
  cases hfirst : (fs.makeAlong (walk .top front) rest).1 with
  | ok done =>
      rw [hfirst] at hfault
      cases hfault
  | error stop =>
  rw [hfirst] at hfault
  obtain rfl := Except.error.inj hfault
  obtain ⟨more, hrest, hwhy, hmore, hnone⟩ := makeAlong_eq_error hshort (Prod.ext hfirst hmade)
  have hway : made.Open .top (front ++ more) :=
    open_append.2 ⟨Open.of_directories (fun place => hadds.grows place _) hopen, hmore⟩
  have habove := directory_above_of_open hway
  rw [← walk_append] at hnone
  have hnamed : namesOf path = .ok ((front ++ more) ++ stop.rest) := by
    rw [hnames, hrest, List.append_assoc]
  have hend' : stop.rest = [] ∨ later.get? (walk .top (front ++ more)) = none ∧
      stop.rest.length < room := by
    rcases hend with rfl | ⟨hempty, hcount⟩
    · exact Or.inl (List.append_eq_nil_iff.1 hrest.symm).2
    · refine Or.inr ⟨?_, ?_⟩
      · -- Nothing was there, since nothing was in front of it; so its name is none.
        have hdown : upwards ∉ more := fun hmem => hup (hrest ▸ List.mem_append_left _ hmem)
        have hbefore : fs.get? (walk .top (front ++ more)) = none := by
          rw [walk_append]
          exact get?_walk_eq_none hdown hempty
        exact get?_eq_none_of_unnamed
          (unnamed_of_withDirectory? habove (hadds.get?_eq_none hbefore hnone) hnone) later
      · rw [hrest, List.length_append] at hcount
        omega
  rw [makeDirectories_of_blocked hnamed (Open.of_directories (fun _ => hlater.directory) hway)
    hend' (hlater.withDirectory?_eq_none habove hnone), ← hwhy]

/-- **What kept the directories of a steady path from being made keeps them from it again**, and
nothing more is made. -/
theorem makeDirectories_error_again {fs made later : FileSystem} {path : Path} {fault : Fault}
    (h : fs.makeDirectories room path = (.error fault, made)) (hsteady : fs.Steady room path)
    (hlater : made.Develops later) : later.makeDirectories room path = (.error fault, later) := by
  have hmakes : ∀ names, namesOf path = .ok names → upwards ∉ names ∧
      (∀ name ∈ names, byteLength name ≤ maxNameLength) ∧
      ∀ stop, fs.follow .top names = .error stop → stop.obstacle = .missing →
        stop.rest.length < room := by
    refine fun names hnames => (hsteady names hnames).resolve_left fun hdirectory => ?_
    rw [makeDirectories_of_directory hdirectory] at h
    cases h
  have hmaking := fs.making_makeDirectories room path
  rw [h] at hmaking
  generalize hresult : (Except.error fault, made) = result at hmaking
  cases hmaking with
  | unnamed obstacle names =>
      obtain ⟨hfault, -⟩ := Prod.mk.inj hresult
      rw [Except.error.inj hfault, makeDirectories, names]
  | stopped names stop named follows why =>
      obtain ⟨hfault, rfl⟩ := Prod.mk.inj hresult
      rw [Except.error.inj hfault,
        makeDirectories_of_stop named (hlater.follow_of_ne_missing follows why) why]
  | tooMany names stop named follows missing many =>
      exact absurd many (Nat.not_le.2 ((hmakes names named).2.2 stop follows missing))
  | attempted front rest named way end? =>
      obtain ⟨hup, hshort, -⟩ := hmakes _ named
      exact madeFrom_error_again named way end? (fun hmem => hup (List.mem_append_right _ hmem))
        (fun name hname => hshort name (List.mem_append_right _ hname)) hresult.symm hlater

/-! ## Answers -/

/-- The names of a path are refused for what they are. -/
theorem namesOf_ne_missing {path : Path} {obstacle : Obstacle} (h : namesOf path = .error obstacle) :
    obstacle ≠ .missing := by
  rintro rfl
  rw [namesOf] at h
  split at h
  · cases h
  · split at h
    · cases h
    · split at h
      · cases h
      · cases h

/-- A path that is not located for another reason than that something is missing is never
located. -/
theorem Develops.locate_error {fs later : FileSystem} (h : fs.Develops later) {path : Path}
    {fault : Fault} (hlocate : fs.locate path = .error fault) (hwhy : fault.obstacle ≠ .missing) :
    later.locate path = .error fault := by
  cases hnames : namesOf path with
  | error obstacle =>
      rw [locate, hnames] at hlocate ⊢
      exact hlocate
  | ok names =>
      obtain ⟨stop, hfollow, rfl⟩ := exists_stop_of_locate hnames hlocate
      exact locate_of_follow_error hnames (h.follow_of_ne_missing hfollow hwhy)

/-- There is no answer about a path only if it is too long itself or has a name that is. -/
theorem existsAt_eq_error_iff {fs : FileSystem} {path : Path} {fault : Fault} :
    fs.existsAt path = .error fault ↔
      fs.locate path = .error fault ∧ fault.obstacle = .nameTooLong := by
  rw [existsAt, entryAt?]
  cases fs.locate path with
  | ok location => simp [Except.map]
  | error found =>
      by_cases hlong : found.obstacle = .nameTooLong
      · simp only [if_pos hlong, Except.map, Except.error.injEq]
        constructor
        · rintro rfl
          exact ⟨rfl, hlong⟩
        · exact And.left
      · simp only [if_neg hlong, Except.map, reduceCtorEq, Except.error.injEq, false_iff]
        rintro ⟨rfl, hobstacle⟩
        exact hlong hobstacle

theorem Develops.existsAt_error {fs later : FileSystem} (h : fs.Develops later) {path : Path}
    {fault : Fault} (hexists : fs.existsAt path = .error fault) :
    later.existsAt path = .error fault := by
  rw [existsAt_eq_error_iff] at hexists ⊢
  exact ⟨h.locate_error hexists.1 (by rw [hexists.2]; decide), hexists.2⟩

theorem Develops.existsAt_true {fs later : FileSystem} (h : fs.Develops later) {path : Path}
    (hexists : fs.existsAt path = .ok true) : later.existsAt path = .ok true := by
  rw [existsAt_eq_true_iff] at hexists ⊢
  obtain ⟨location, entry, hlocate, hentry⟩ := hexists
  obtain ⟨entry', hthere, -⟩ := h location entry hentry
  exact ⟨location, entry', locate_of_directories (fun _ => h.directory) hlocate, hthere⟩

/-! ## Parents -/

theorem isDirectory_parent {fs : FileSystem} {path : Path} {location : Location}
    (h : fs.locate path = .ok location) : fs.isDirectory path.parent = .ok true := by
  rw [isDirectory_eq_true_iff]
  obtain ⟨names, hnames, -, hopen⟩ := locate_eq_ok_iff.1 h
  have hparent := namesOf_parent hnames
  rcases List.eq_nil_or_concat names with rfl | ⟨front, last, rfl⟩
  · exact ⟨.top, locate_eq_ok_iff.2 ⟨_, hparent, rfl, trivial⟩, fs.get?_top⟩
  · rw [List.concat_eq_append] at hopen hparent
    rw [List.dropLast_concat] at hparent
    obtain ⟨hfront, hdirectory, -⟩ := open_append.1 hopen
    exact ⟨_, locate_eq_ok_iff.2 ⟨_, hparent, rfl, hfront⟩, hdirectory⟩

theorem ne_missing_of_parent {fs : FileSystem} {path : Path} {fault : Fault}
    (hparent : fs.isDirectory path.parent = .ok true) (h : fs.locate path = .error fault) :
    fault.obstacle ≠ .missing := by
  intro hmissing
  obtain ⟨directory, hlocate, hdirectory⟩ := isDirectory_eq_true_iff.1 hparent
  cases hnames : namesOf path with
  | error obstacle =>
      rw [locate, hnames] at h
      obtain rfl := Except.error.inj h
      exact namesOf_ne_missing hnames hmissing
  | ok names =>
      obtain ⟨stop, hfollow, rfl⟩ := exists_stop_of_locate hnames h
      obtain ⟨front, hsplit, hrest, -, hplace, hnone⟩ := follow_eq_missing hfollow hmissing
      -- Up to the last name the walk passes directories only.
      obtain ⟨init, final, hfinal⟩ : ∃ init final, stop.rest = init ++ [final] :=
        ⟨_, _, (List.dropLast_concat_getLast hrest).symm⟩
      have hparentNames := namesOf_parent hnames
      rw [hsplit, hfinal, ← List.append_assoc, List.dropLast_concat] at hparentNames
      obtain ⟨parentNames, hparentNames', rfl, hopen⟩ := locate_eq_ok_iff.1 hlocate
      rw [hparentNames, Except.ok.injEq] at hparentNames'
      subst hparentNames'
      have hthere : fs.get? (walk .top front) = some .directory := by
        cases init with
        | nil => rwa [List.append_nil] at hdirectory
        | cons name init => exact (open_append.1 hopen).2.1
      rw [hplace, hthere] at hnone
      cases hnone

/-- A path never comes to exist while its parent cannot be made, if the names in the parent are
short. -/
theorem existsAt_of_unmade {fs later : FileSystem} {path : Path} {made : FileSystem} {fault : Fault}
    (hshort : ∀ names, namesOf path.parent = .ok names →
      ∀ name ∈ names, byteLength name ≤ maxNameLength)
    (hexists : fs.existsAt path = .ok false)
    (hmake : later.makeDirectories room path.parent = (.error fault, made)) :
    later.existsAt path = .ok false := by
  have hnowhere : later.isDirectory path.parent ≠ .ok true := by
    intro hdirectory
    rw [makeDirectories_of_directory hdirectory] at hmake
    cases hmake
  cases hlater : later.existsAt path with
  | ok present =>
      cases present with
      | false => rfl
      | true =>
          obtain ⟨location, -, hlocate, -⟩ := existsAt_eq_true_iff.1 hlater
          exact absurd (isDirectory_parent hlocate) hnowhere
  | error found =>
      exfalso
      obtain ⟨hlocate, hlong⟩ := existsAt_eq_error_iff.1 hlater
      cases hnames : namesOf path with
      | error obstacle =>
          -- The path is too long, so there was no answer before.
          rw [locate, hnames] at hlocate
          have hbefore : fs.existsAt path = .error found :=
            existsAt_eq_error_iff.2 ⟨by rw [locate, hnames]; exact hlocate, hlong⟩
          rw [hbefore] at hexists
          cases hexists
      | ok names =>
          obtain ⟨stop, hfollow, rfl⟩ := exists_stop_of_locate hnames hlocate
          have hparent := namesOf_parent hnames
          replace hshort := hshort _ hparent
          rcases List.eq_nil_or_concat names with rfl | ⟨front, last, rfl⟩
          · cases hfollow
          · rw [List.concat_eq_append] at hfollow hparent hshort
            rw [List.dropLast_concat] at hparent hshort
            obtain ⟨hopen, hdirectory⟩ := open_of_follow_tooLong hshort hfollow hlong
            exact hnowhere (isDirectory_eq_true_iff.2
              ⟨_, locate_eq_ok_iff.2 ⟨_, hparent, rfl, hopen⟩, hdirectory⟩)

/-! ## Writing again -/

theorem hasRoom_of_file {fs : FileSystem} {place : Location} {bytes : List UInt8}
    (h : fs.get? place = some (.file bytes)) : fs.HasRoom place := by
  refine ⟨⟨?_, isFileName_of_get? h⟩, get?_above h, ?_⟩
  · rintro rfl
    rw [get?_top] at h
    cases h
  · rw [h]
    rintro ⟨⟩

/-- **What was written can be written again**, to the same place. -/
theorem write_again {fs after later : FileSystem} {path : Path} {bytes : List UInt8}
    (h : fs.write path bytes = .ok after) (hlater : after.Develops later) :
    ∃ location again, later.locate path = .ok location ∧
      after.get? location = some (.file bytes) ∧
      (∀ place, place ≠ location → after.get? place = fs.get? place) ∧
      later.write path bytes = .ok again ∧
      ∀ place, again.get? place =
        if place = location then some (.file bytes) else later.get? place := by
  obtain ⟨location, hlocate, -, hafter⟩ := write_effect h
  have hfile : after.get? location = some (.file bytes) := by rw [hafter, if_pos rfl]
  have hlocate' : later.locate path = .ok location :=
    locate_of_directories (fun _ => ((develops_of_write h).trans hlater).directory) hlocate
  obtain ⟨bytes', hthere⟩ := hlater.file hfile
  have hroom := hasRoom_of_file hthere
  refine ⟨location, later.put location (.file bytes) hroom, hlocate', hfile, ?_, ?_,
    later.get?_put _ hroom⟩
  · intro place hne
    rw [hafter, if_neg hne]
  · rw [write, hlocate']
    simp only [dif_pos hroom]

/-- **What could not be written into a directory cannot be written later.** -/
theorem write_error_again {fs later : FileSystem} {path : Path} {bytes : List UInt8} {fault : Fault}
    (h : fs.write path bytes = .error fault) (hparent : fs.isDirectory path.parent = .ok true)
    (hlater : fs.Develops later) : later.write path bytes = .error fault := by
  rw [write] at h ⊢
  cases hlocate : fs.locate path with
  | error found =>
      rw [hlocate] at h
      rw [hlater.locate_error hlocate (ne_missing_of_parent hparent hlocate)]
      exact h
  | ok location =>
      simp only [hlocate] at h
      simp only [locate_of_directories (fun _ => hlater.directory) hlocate]
      by_cases room : fs.HasRoom location
      · rw [dif_pos room] at h
        cases h
      · rw [dif_neg room] at h
        refine (dif_neg fun room' => room ⟨room'.1, ?_, fun hthere => ?_⟩).trans h
        · obtain ⟨names, -, rfl, hopen⟩ := locate_eq_ok_iff.1 hlocate
          exact directory_above_of_open hopen
        · exact room'.2.2 (hlater.directory hthere)

/-! ## Paths that never go up -/

/-- No part of a path is spelled as the name that leads up, unless it is that. -/
theorem upwards_not_mem_names {path : Path} {names : List CodeText} (h : upwards ∉ path.parts)
    (hnames : namesOf path = .ok names) : upwards ∉ names := by
  obtain ⟨hfault, -, -, rfl⟩ := namesOf_eq_ok_iff.1 hnames
  intro hmem
  obtain ⟨part, hpart, hspelled⟩ := List.mem_map.1 hmem
  have hbytes : ∀ point ∈ part, pointBytes point ≠ [] := fun point hpoint =>
    pointBytes_ne_nil hfault point (Path.mem_text_of_mem_part hpart hpoint)
  have hascii : ∀ c ∈ ['.', '.'], c.toNat < 0x80 := by simp
  have hsame : part = upwards := eq_of_spellName_eq hascii hbytes hspelled
  exact h (hsame ▸ hpart)

/-- A path without too many parts, none of which leads up or is too long, is steady. -/
theorem steady_of_length {path : Path} (hup : upwards ∉ path.parts)
    (hshort : ∀ name ∈ path.parts.map spellName, byteLength name ≤ maxNameLength)
    (hlength : path.parts.length ≤ room) (fs : FileSystem) : fs.Steady room path := by
  intro names hnames
  have hdown := upwards_not_mem_names hup hnames
  obtain ⟨-, -, -, rfl⟩ := namesOf_eq_ok_iff.1 hnames
  refine Or.inr ⟨hdown, hshort, fun stop hstop hmissing => ?_⟩
  obtain ⟨front, hsplit, -, -, hplace, hnone⟩ := follow_eq_missing hstop hmissing
  -- The top is there, so at least one name was passed.
  have hfront : front ≠ [] := by
    rintro rfl
    rw [hplace, walk, List.foldl_nil, get?_top] at hnone
    cases hnone
  have hcount := congrArg List.length hsplit
  rw [List.length_map, List.length_append] at hcount
  have hpositive := List.length_pos_iff.2 hfront
  omega

/-- A path with such parts is steady, or it is refused for the number of its directories. -/
theorem steady_or_refused {path : Path} (hup : upwards ∉ path.parts)
    (hshort : ∀ name ∈ path.parts.map spellName, byteLength name ≤ maxNameLength)
    (fs : FileSystem) :
    fs.Steady room path ∨ ∃ fault, fs.makeDirectories room path = (.error fault, fs) := by
  by_cases hmany : ∃ names stop, namesOf path = .ok names ∧ fs.follow .top names = .error stop ∧
      stop.obstacle = .missing ∧ room ≤ stop.rest.length
  · obtain ⟨names, stop, hnames, hstop, hmissing, hcount⟩ := hmany
    exact Or.inr ⟨_, makeDirectories_of_many hnames hstop hmissing hcount⟩
  · refine Or.inl fun names hnames => Or.inr ⟨upwards_not_mem_names hup hnames, ?_, ?_⟩
    · obtain ⟨-, -, -, rfl⟩ := namesOf_eq_ok_iff.1 hnames
      exact hshort
    · intro stop hstop hmissing
      exact Nat.lt_of_not_le fun hcount => hmany ⟨names, stop, hnames, hstop, hmissing, hcount⟩

/-- A path that never goes up and did not exist leads to no directory when those above it are
made. -/
theorem ne_directory_of_made {fs made : FileSystem} {path : Path} {location : Location}
    (hparts : upwards ∉ path.parts) (hexists : fs.existsAt path = .ok false)
    (hmake : fs.makeDirectories room path.parent = (.ok (), made))
    (hlocate : made.locate path = .ok location) : made.get? location ≠ some .directory := by
  intro hdirectory
  obtain ⟨names, hnames, rfl, -⟩ := locate_eq_ok_iff.1 hlocate
  have hup := upwards_not_mem_names hparts hnames
  obtain ⟨-, -, -, rfl⟩ := namesOf_eq_ok_iff.1 hnames
  have hadds := fs.makeDirectories_adds room path.parent
  rw [hmake] at hadds
  have hempty : fs.get? (walk .top (path.parts.map spellName)) = none := by
    cases hthere : fs.get? (walk .top (path.parts.map spellName)) with
    | none => rfl
    | some entry =>
        exact absurd (turnsBack_of_opened hadds.grows hexists hlocate hthere)
          (not_turnsBack_of_upwards_not_mem hup)
  rcases hadds (walk .top (path.parts.map spellName)) with heq | ⟨-, -, front, hfront, hplace⟩
  · rw [heq, hempty] at hdirectory
    cases hdirectory
  · -- The directory would be above the path and its last name at once.
    have hbelow : front <+: path.parts.map spellName := by
      rw [parent_parts, List.map_dropLast] at hfront
      exact hfront.trans (List.dropLast_prefix _)
    rw [walk_eq_down hup, walk_eq_down fun hmem => hup (hbelow.subset hmem)] at hplace
    obtain rfl := Location.down_injective hplace
    rw [parent_parts, List.map_dropLast] at hfront
    have hnil : path.parts.map spellName = [] := by
      have hlength := hfront.length_le
      rw [List.length_dropLast] at hlength
      rw [← List.length_eq_zero_iff]
      omega
    rw [hnil, walk, List.foldl_nil, get?_top] at hempty
    cases hempty

end IconForge.FileSystem
