import IconForge.Files.Location
import IconForge.Files.Path
import IconForge.KeyedList
import IconForge.Text.Encoding
import IconForge.Text.Quoted

set_option autoImplicit false

/-! # File systems

A file system is a tree of directories. It is kept as a list of locations with what is there:
locations are made of names, every location occurs once, and whatever is somewhere is in a
directory. The two operations that change a file system, writing a file and making a directory, ask
for what they need to keep it so.

A run works in the directory at the top of the tree. So a path with an anchor and the same path
without one lead to the same place, and nothing is above where paths begin.

Paths are followed part by part. Every part but the last has to name a directory, and a double
full stop leads back to the directory above. A path needs bytes without the null byte, and it and
its names may only be so long. The directories that are missing on the way to a path can be made,
but only as many at once as there is room for. -/

namespace IconForge

/-- What is at a location. -/
inductive Entry where
  | file (bytes : List UInt8)
  | directory
deriving DecidableEq, Repr

/-- Whether a text can be the name of a file or a directory: a part of a path that is no double
full stop, holds no null character and is the one spelling of its bytes. -/
def isFileName (text : CodeText) : Bool :=
  isPathPart text && text ≠ [.char '.', .char '.'] && !text.any (CodePoint.isChar '\x00') &&
    Text.Encoding.spellName text = text

/-- A tree of directories and files. -/
structure FileSystem where
  /-- The locations below the top with what is there. -/
  entries : List (Location × Entry)
  /-- Locations are made of names. -/
  named : ∀ item ∈ entries, ∀ name ∈ item.1.names, isFileName name
  /-- Every location occurs once. -/
  nodup : (entries.map (·.1)).Nodup
  /-- Whatever is somewhere is in a directory. -/
  rooted : ∀ item ∈ entries, item.1 ≠ .top ∧
    (item.1.above = .top ∨ (item.1.above, Entry.directory) ∈ entries)

namespace FileSystem

/-- The file system with nothing below its top. -/
def empty : FileSystem :=
  ⟨[], by simp, List.nodup_nil, by simp⟩

instance : Inhabited FileSystem := ⟨empty⟩

/-! ## What is where -/

/-- What is at a location. The top is always there. -/
def get? (fs : FileSystem) (location : Location) : Option Entry :=
  if location = .top then some .directory
  else KeyedList.get? fs.entries location

theorem mem_entries_of_get? {fs : FileSystem} {location : Location} {entry : Entry}
    (hne : location ≠ .top) (h : fs.get? location = some entry) :
    (location, entry) ∈ fs.entries := by
  rw [get?, if_neg hne] at h
  exact KeyedList.mem_of_get? h

theorem get?_eq_some_of_mem {fs : FileSystem} {item : Location × Entry} (h : item ∈ fs.entries) :
    fs.get? item.1 = some item.2 := by
  rw [get?, if_neg (fs.rooted item h).1]
  exact KeyedList.get?_of_mem fs.nodup h

/-- Whether an entry can be put at a location: a directory has to be there to hold it, and no
directory may be replaced. -/
def HasRoom (fs : FileSystem) (location : Location) : Prop :=
  (location ≠ .top ∧ ∀ name ∈ location.names, isFileName name) ∧
    fs.get? location.above = some .directory ∧ fs.get? location ≠ some .directory

instance (fs : FileSystem) (location : Location) : Decidable (fs.HasRoom location) :=
  inferInstanceAs (Decidable (_ ∧ _ ∧ _))

/-- Put an entry at a location that has room for it. -/
def put (fs : FileSystem) (location : Location) (entry : Entry) (room : fs.HasRoom location) :
    FileSystem where
  entries := KeyedList.set fs.entries location entry
  named := by
    intro item hitem
    rcases KeyedList.mem_set hitem with rfl | hitem
    · exact room.1.2
    · exact fs.named item hitem
  nodup := KeyedList.nodup_set fs.nodup
  rooted := by
    intro item hitem
    have hbelow : ∀ other : Location × Entry, other ∈ fs.entries → other.1.above = .top ∨
        (other.1.above, Entry.directory) ∈ KeyedList.set fs.entries location entry := by
      intro other hother
      rcases (fs.rooted other hother).2 with h | h
      · exact Or.inl h
      · refine Or.inr (KeyedList.mem_set_of_ne h fun heq => room.2.2 ?_)
        have := get?_eq_some_of_mem h
        rwa [heq] at this
    rcases KeyedList.mem_set hitem with rfl | hitem
    · refine ⟨room.1.1, ?_⟩
      by_cases htop : location.above = .top
      · exact Or.inl htop
      · exact Or.inr (KeyedList.mem_set_of_ne (mem_entries_of_get? htop room.2.1)
          (Location.above_ne room.1.1))
    · exact ⟨(fs.rooted item hitem).1, hbelow item hitem⟩

/-! ## Following paths -/

/-- Why a path leads nowhere or an operation fails there. -/
inductive Obstacle where
  | missing
  | alreadyThere
  | notADirectory
  | isADirectory
  /-- The path or one of its names has too many bytes. -/
  | nameTooLong
  /-- The path holds the null character. -/
  | nullInPath
  /-- More directories are missing than are made at once. -/
  | tooManyMissing
  /-- The directory is deeper than a search goes. -/
  | tooDeep
  /-- The path has no bytes. -/
  | unencodable (fault : Text.Encoding.Fault)
deriving DecidableEq, Repr

/-- An obstacle at a path. -/
structure Fault where
  obstacle : Obstacle
  /-- The text of the path. -/
  place : CodeText
deriving DecidableEq, Repr

/-- The wording of a fault. -/
def Fault.message (fault : Fault) : String :=
  let place := Text.quoted fault.place
  match fault.obstacle with
  | .missing => "[Errno 2] No such file or directory: " ++ place
  | .alreadyThere => "[Errno 17] File exists: " ++ place
  | .notADirectory => "[Errno 20] Not a directory: " ++ place
  | .isADirectory => "[Errno 21] Is a directory: " ++ place
  | .nameTooLong => "[Errno 36] File name too long: " ++ place
  | .nullInPath => "embedded null byte"
  | .tooManyMissing => "maximum recursion depth exceeded while calling a Python object"
  | .tooDeep => "maximum recursion depth exceeded"
  | .unencodable fault => fault.message

/-- The most bytes that a name may have. -/
def maxNameLength : Nat :=
  255

/-- The most bytes that a path may have. -/
def maxPathLength : Nat :=
  4095

/-- How many bytes a text has as a name. -/
def byteLength (text : CodeText) : Nat :=
  (text.flatMap Text.Encoding.pointBytes).length

/-- The names that a path is made of, if it can be handed to the file system at all. -/
def namesOf (path : Path) : Except Obstacle (List CodeText) :=
  match Text.Encoding.faultFrom? .name 0 path.text with
  | some fault => .error (.unencodable fault)
  | none =>
    if path.text.any (CodePoint.isChar '\x00') then .error .nullInPath
    else if maxPathLength < byteLength path.text then .error .nameTooLong
    else .ok (path.parts.map Text.Encoding.spellName)

/-- The location that a name leads to from a directory. -/
def step (here : Location) (name : CodeText) : Location :=
  if name = [.char '.', .char '.'] then here.above else here.within name

/-- Why a walk along names ends early. -/
structure Stop where
  obstacle : Obstacle
  /-- The location with the obstacle. -/
  place : Location
  /-- The names behind it. -/
  rest : List CodeText

/-- Follow names from a location. The last one need not be there. -/
def follow (fs : FileSystem) (here : Location) : List CodeText → Except Stop Location
  | [] => .ok here
  | name :: names =>
    match fs.get? here with
    | none => .error ⟨.missing, here, name :: names⟩
    | some (.file _) => .error ⟨.notADirectory, here, name :: names⟩
    | some .directory =>
      if maxNameLength < byteLength name then .error ⟨.nameTooLong, step here name, names⟩
      else fs.follow (step here name) names

/-- The location that a path leads to. A run works at the top, so every anchor is the top. -/
def locate (fs : FileSystem) (path : Path) : Except Fault Location :=
  match namesOf path with
  | .error obstacle => .error ⟨obstacle, path.text⟩
  | .ok names => (fs.follow .top names).mapError fun stop => ⟨stop.obstacle, path.text⟩

/-- What a path leads to. An obstacle on the way means that nothing is there; only when a name is
too long there is no answer. -/
def entryAt? (fs : FileSystem) (path : Path) : Except Fault (Option Entry) :=
  match fs.locate path with
  | .ok location => .ok (fs.get? location)
  | .error fault => if fault.obstacle = .nameTooLong then .error fault else .ok none

/-- The fault of a path about which there is no answer. -/
def unanswered? (fs : FileSystem) (path : Path) : Option Fault :=
  match fs.entryAt? path with
  | .error fault => some fault
  | .ok _ => none

/-- Whether a path leads to a file or a directory. -/
def existsAt (fs : FileSystem) (path : Path) : Except Fault Bool :=
  (fs.entryAt? path).map Option.isSome

/-- Whether a path leads to a file. -/
def isFile (fs : FileSystem) (path : Path) : Except Fault Bool :=
  (fs.entryAt? path).map fun
    | some (.file _) => true
    | _ => false

/-- Whether a path leads to a directory. -/
def isDirectory (fs : FileSystem) (path : Path) : Except Fault Bool :=
  (fs.entryAt? path).map fun entry => decide (entry = some .directory)

/-! ## Files -/

/-- The bytes of a file. -/
def read (fs : FileSystem) (path : Path) : Except Fault (List UInt8) :=
  match fs.locate path with
  | .error fault => .error fault
  | .ok location =>
    match fs.get? location with
    | none => .error ⟨.missing, path.text⟩
    | some .directory => .error ⟨.isADirectory, path.text⟩
    | some (.file bytes) => .ok bytes

/-- The file system with a file's bytes replaced or a file added. The directory of a location that
a path leads to is there, so only a directory at the location itself can be in the way. -/
def write (fs : FileSystem) (path : Path) (bytes : List UInt8) : Except Fault FileSystem :=
  match fs.locate path with
  | .error fault => .error fault
  | .ok location =>
    if room : fs.HasRoom location then .ok (fs.put location (.file bytes) room)
    else .error ⟨.isADirectory, path.text⟩

/-! ## Directories -/

/-- The file system with a directory at a location, unless something else is there. -/
def withDirectory? (fs : FileSystem) (location : Location) : Option FileSystem :=
  if fs.get? location = some .directory then some fs
  else if room : fs.get? location = none ∧ fs.HasRoom location then
    some (fs.put location .directory room.2)
  else none

/-- Make directories where they are missing: at a location and along the names that go on from
there. What was made before an obstacle stays. -/
def makeAlong (fs : FileSystem) (here : Location) (names : List CodeText) :
    Except Stop Unit × FileSystem :=
  match fs.withDirectory? here with
  | none => (.error ⟨.alreadyThere, here, names⟩, fs)
  | some fs =>
    match names with
    | [] => (.ok (), fs)
    | name :: names =>
      if maxNameLength < byteLength name then (.error ⟨.nameTooLong, step here name, names⟩, fs)
      else fs.makeAlong (step here name) names

/-- Make the directory of a path and, as far as they are missing, those above it. A path with an
obstacle on the way, or with more missing than there is room to make at once, is refused as a whole;
an obstacle behind a directory that was made is met at the part of the path that leads to it. -/
def makeDirectories (room : Nat) (fs : FileSystem) (path : Path) :
    Except Fault Unit × FileSystem :=
  let refused (obstacle : Obstacle) : Except Fault Unit × FileSystem :=
    (.error ⟨obstacle, path.text⟩, fs)
  let made (here : Location) (names : List CodeText) : Except Fault Unit × FileSystem :=
    let (result, fs) := fs.makeAlong here names
    (result.mapError fun stop => ⟨stop.obstacle, (path.ancestor stop.rest.length).text⟩, fs)
  match namesOf path with
  | .error obstacle => refused obstacle
  | .ok names =>
    match fs.follow .top names with
    | .ok location => made location []
    | .error stop =>
      if stop.obstacle ≠ .missing then refused stop.obstacle
      else if room ≤ stop.rest.length then refused .tooManyMissing
      else made stop.place stop.rest

/-! ## Finding files -/

/-- Whether names stand in front of other names or are the same, compared name by name. -/
def namesLE : List CodeText → List CodeText → Bool
  | [], _ => true
  | _ :: _, [] => false
  | name :: names, other :: others =>
    if name = other then namesLE names others else CodeText.le name other

/-- Whether names end with a name that has an ending. -/
def lastHas (ending : CodeText) (names : List CodeText) : Bool :=
  ending.isSuffixOf (names.getLastD [])

/-- Whether a search for an ending comes to some names no later than to others: it looks at what is
less deep first, and at what has the ending before it goes into the directories beside that. -/
def searchLE (ending : CodeText) (names others : List CodeText) : Bool :=
  if names.length ≠ others.length then decide (names.length < others.length)
  else if lastHas ending names ≠ lastHas ending others then lastHas ending names
  else namesLE names others

/-- Where a search for an ending looks below a location, as the names that lead there: at
everything that has the ending and, with `recursive`, into every directory; without it only right
in the location. -/
def searched (fs : FileSystem) (location : Location) (ending : CodeText) (recursive : Bool) :
    List (List CodeText) :=
  let places := fs.entries.filterMap fun (place, entry) =>
    match location.namesBelow? place with
    | some names =>
      if ((recursive || names.length = 1) && lastHas ending names) ||
          (recursive && entry = .directory) then some names
      else none
    | none => none
  places.mergeSort (searchLE ending)

/-- Whether names lead to a directory that is deeper below a location than a search has room for. -/
def isTooDeep (room : Nat) (fs : FileSystem) (location : Location) (names : List CodeText) : Bool :=
  room < names.length && fs.get? (location.down names) = some .directory

/-- The files below a location whose names have an ending, as the names that lead to them, in
ascending order; without `recursive` only those right in it. -/
def filesBelow (fs : FileSystem) (location : Location) (ending : CodeText) (recursive : Bool) :
    List (List CodeText) :=
  let found := fs.entries.filterMap fun (place, entry) =>
    match entry, location.namesBelow? place with
    | .file _, some names =>
      if (recursive || names.length = 1) && lastHas ending names then some names
      else none
    | _, _ => none
  found.mergeSort namesLE

end FileSystem

end IconForge
