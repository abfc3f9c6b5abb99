import Mathlib
import IconForge.Conversion.Settings
import IconForge.Proofs.Conversion.TextFiles
import IconForge.Proofs.Json.Characters
import IconForge.Proofs.Json.Refusal
import IconForge.Proofs.Json.Shortness

set_option autoImplicit false

/-! # Configurations saved and loaded

A configuration that is written as a whole is saved whenever its file can be (`TakesFile`), and what
is in the file then is its text. The text is ASCII with line feeds, so reading the file gives the
text back (`textOfBytes_encode`), and reading the text gives the configuration with its members in
order (`Json.readWithin_write`). So a configuration for which there is room is loaded as the same
mapping, and settings that are saved are loaded as the same settings (`saveConfiguration_reloads`).

Whatever room there is, some settings are too deep for it: if they are saved at all, they cannot be
loaded (`deepSettings_not_reloaded`). -/

namespace IconForge

open IconForge.Action FileSystem Text.Encoding

namespace FileSystem

/-- The empty path stands for the directory that is there. -/
theorem not_takesFile_empty (room : Nat) (fs : FileSystem) :
    ¬ fs.TakesFile room (Path.ofText "") := by
  intro h
  obtain ⟨made, after, -, hwrite⟩ := h.exists_write
  obtain ⟨location, hlocate, hfile, -⟩ := write_effect hwrite
  have hnames : namesOf (Path.ofText "") = .ok [] := by decide
  rw [locate, hnames] at hlocate
  obtain rfl := Except.ok.inj hlocate
  exact hfile made.get?_top

end FileSystem

namespace Storage

variable {room : Room} {path : Path} {w after : Workspace}

/-! ## Records -/

theorem saveConfiguration_eq (room : Room) (value : Json) (path : Path) :
    saveConfiguration room value path = makeParents room.filing path >>= fun _ =>
      reporting .storage ("Error saving configuration to " ++ path.text)
        (writeText path (value.writeWithin room.writing).1 >>= fun _ =>
          checkWriting (value.writeWithin room.writing).2 >>= fun _ =>
            note .info .storage ("Run configuration saved to: " ++ path.text)) := rfl

/-- Saving a record that is written as a whole does to the files what `saved` says. -/
theorem perform_saveConfiguration {value : Json}
    (hwhole : value.writeWithin room.writing = (value.write, none)) (path : Path) (w : Workspace) :
    ∃ after, (saveConfiguration room value path).perform w =
        ((saved room.filing value.write path w.files).1, after) ∧
      after.files = (saved room.filing value.write path w.files).2 ∧ after.answers = w.answers ∧
      after.asked = w.asked := by
  rw [saveConfiguration_eq, hwhole]
  exact perform_saved room.filing value.write path ("Error saving configuration to " ++ path.text)
    .info ("Run configuration saved to: " ++ path.text) w

theorem writeWithin_of_saved {value : Json}
    (h : (saveConfiguration room value path).perform w = (.ok (), after)) :
    value.writeWithin room.writing = (value.write, none) := by
  rw [saveConfiguration_eq] at h
  obtain ⟨_, _, -, h⟩ := perform_bind_eq_ok h
  obtain ⟨_, h, -⟩ := reporting_effect h
  obtain ⟨_, _, -, h⟩ := perform_bind_eq_ok h
  obtain ⟨_, _, hcheck, -⟩ := perform_bind_eq_ok h
  cases hfault : (value.writeWithin room.writing).2 with
  | none => exact Prod.ext (Json.writeWithin_fst hfault) hfault
  | some fault =>
      rw [hfault] at hcheck
      cases hcheck

theorem perform_saveConfiguration_eq_ok {value : Json}
    (h : (saveConfiguration room value path).perform w = (.ok (), after)) :
    WritesFile path (Text.Utf8.encode value.write.toList) w.files after.files := by
  obtain ⟨_, hperform, hfiles, -, -⟩ :=
    perform_saveConfiguration (writeWithin_of_saved h) path w
  rw [h] at hperform
  obtain ⟨hresult, rfl⟩ := Prod.mk.inj hperform
  rw [hfiles]
  exact writesFile_of_saved hresult.symm

theorem exists_read_of_saved {value : Json}
    (h : (saveConfiguration room value path).perform w = (.ok (), after)) :
    after.files.existsAt path = .ok true ∧
      after.files.read path = .ok (Text.Utf8.encode value.write.toList) :=
  ⟨(perform_saveConfiguration_eq_ok h).existsAt, (perform_saveConfiguration_eq_ok h).read⟩

/-- A record is saved whenever its file can be written and the room suffices for its text. -/
theorem perform_saveConfiguration_of_takesFile {value : Json} (h : value.Storable)
    (hfile : w.files.TakesFile room.filing path) (hroom : room.writing value.write = none) :
    ∃ after, (saveConfiguration room value path).perform w = (.ok (), after) := by
  obtain ⟨after, hperform, -⟩ := perform_saveConfiguration (h.writeWithin_eq hroom) path w
  rw [saved_of_takesFile hfile] at hperform
  exact ⟨after, hperform⟩

/-! ## Loading -/

theorem textOfBytes_encode {text : String} (h : ∀ c ∈ text.toList, Json.IsPlain c) :
    textOfBytes (Text.Utf8.encode text.toList) = .ok text := by
  have hreturn : '\r' ∉ text.toList := fun hmem => absurd (h '\r' hmem) (by decide)
  rw [textOfBytes, Text.Utf8.decode_encode]
  show Except.ok (String.ofList (Text.toLineFeeds text.toList)) = _
  rw [Text.toLineFeeds_eq_self hreturn, String.ofList_toList]

/-- The members of a configuration, which has to be an object. -/
def membersOf (path : Path) : Json → Except Fault (List (CodeText × Json))
  | .object members => .ok members
  | _ => .error (.configurationNotObject path)

def fileValue (room : Room) (path : Path) (fs : FileSystem) : Except Fault Json := do
  let text ← (fs.read path).mapError .file >>= fun bytes =>
    (textOfBytes bytes).mapError .decoding
  (Json.readWithin room.reading text).mapError .json

/-- The members of the configuration in a file. -/
def configured (room : Room) (path : Path) (fs : FileSystem) :
    Except Fault (List (CodeText × Json)) := do
  if !(← (fs.existsAt path).mapError .file) then throw (.configurationMissing path)
  let value ← fileValue room path fs
  membersOf path value

/-- What is loaded from a configuration is a function of the files. -/
theorem reads_loadConfiguration (room : Room) (path : Path) :
    Reads (loadConfiguration room path) (configured room path) := by
  have hobject : ∀ value : Json, Reads
      (match value with
        | .object members => return members
        | _ => throw (.configurationNotObject path)) fun _ => membersOf path value := by
    intro value
    cases value with
    | object members => exact reads_pure members
    | _ => exact reads_throw _
  -- Faults of the file and of its text are logged; that it holds no object is found out behind that.
  have hmembers := (((Converter.reads_readText path).bind fun text =>
    reads_lift .json (Json.readWithin room.reading text)).reporting .storage
      ("Error loading configuration from " ++ path.text)).bind hobject
  refine reads_lift_files_bind .file (FileSystem.existsAt · path) fun found => ?_
  cases found
  · exact (reads_throw _).bind fun _ => hmembers
  · exact hmembers

section

variable {fs : FileSystem} {value : Json}

/-- The value of a file that holds the text of a value is what the text is read as. -/
theorem fileValue_of_write (hread : fs.read path = .ok (Text.Utf8.encode value.write.toList)) :
    fileValue room path fs = (Json.readWithin room.reading value.write).mapError .json := by
  rw [fileValue, hread]
  show ((textOfBytes (Text.Utf8.encode value.write.toList)).mapError _ >>= _) = _
  rw [textOfBytes_encode (Json.isPlain_of_mem_write value)]
  rfl

theorem configured_of_exists (hexists : fs.existsAt path = .ok true) :
    configured room path fs = fileValue room path fs >>= membersOf path := by
  rw [configured, hexists]
  rfl

/-- The text of an object that is not too deep is the configuration with its members in order. -/
theorem configured_of_write {members : List (CodeText × Json)}
    (h : (Json.object members).Storable) (hdepth : (Json.object members).depth ≤ room.reading)
    (hexists : fs.existsAt path = .ok true)
    (hread : fs.read path = .ok (Text.Utf8.encode (Json.object members).write.toList)) :
    configured room path fs = .ok ((Json.inOrder members).map fun m => (m.1, m.2.sorted)) := by
  rw [configured_of_exists hexists, fileValue_of_write hread,
    Json.readWithin_write h hdepth, Json.sorted_object]
  rfl

/-- The text of an object that is too deep is no configuration. -/
theorem configured_of_write_deep {members : List (CodeText × Json)}
    (h : (Json.object members).Storable) (hdepth : room.reading < (Json.object members).depth)
    (hexists : fs.existsAt path = .ok true)
    (hread : fs.read path = .ok (Text.Utf8.encode (Json.object members).write.toList)) :
    ∃ fault, configured room path fs = .error (.json fault) ∧ fault.problem.IsTooDeep := by
  obtain ⟨fault, hfault, hproblem⟩ := Json.readWithin_write_of_lt h hdepth
  refine ⟨fault, ?_, hproblem⟩
  rw [configured_of_exists hexists, fileValue_of_write hread, hfault]
  rfl

end

/-- The values in a configuration are short. -/
theorem isShort_of_configured {fs : FileSystem} {members : List (CodeText × Json)}
    (h : configured room path fs = .ok members) : ∀ m ∈ members, m.2.isShort := by
  obtain ⟨found, hfound, h⟩ := bind_eq_ok_iff.1 h
  cases found with
  | false => cases h
  | true =>
      obtain ⟨value, hvalue, hmembers⟩ := bind_eq_ok_iff.1 h
      obtain ⟨text, -, hread⟩ := bind_eq_ok_iff.1 hvalue
      have hshort := Json.isShort_of_readWithin (mapError_eq_ok_iff.1 hread)
      -- A value that is no object has no members.
      cases value with
      | object found =>
          obtain rfl := Except.ok.inj hmembers
          exact Json.isShort_object.1 hshort
      | _ => cases hmembers

/-! ## Settings -/

/-- Members laid over defaults, whose names are the only ones that they may have. -/
def laidOver (defaults : List (CodeText × Json)) (path : Path) (members : List (CodeText × Json)) :
    Except Fault (List (CodeText × Json)) :=
  match unknownKeys defaults members with
  | [] => .ok (KeyedList.setAll defaults members)
  | keys => .error (.unknownKeys path keys)

theorem reads_loadOver (room : Room) (defaults : List (CodeText × Json)) (path : Path) :
    Reads (loadOver room defaults path) fun fs =>
      configured room path fs >>= laidOver defaults path := by
  refine (reads_loadConfiguration room path).bind fun members => ?_
  rw [laidOver]
  cases unknownKeys defaults members with
  | nil => exact reads_pure _
  | cons key keys => exact reads_throw _

/-- Members with the names of the defaults replace all of them. -/
theorem laidOver_of_names {defaults members : List (CodeText × Json)}
    (h : ∀ m ∈ members, m.1 ∈ defaults.map (·.1)) (path : Path) :
    laidOver defaults path members = .ok (KeyedList.setAll defaults members) := by
  have hnone : unknownKeys defaults members = [] := by
    have hfilter : (members.map (·.1)).filter
        (fun name => !(defaults.map (·.1)).contains name) = [] := by
      rw [List.filter_eq_nil_iff]
      intro name hname
      obtain ⟨m, hm, rfl⟩ := List.mem_map.1 hname
      simpa using h m hm
    rw [unknownKeys, hfilter, List.mergeSort_nil]
  rw [laidOver, hnone]

end Storage

namespace Settings

open Storage

theorem storable_toMembers {settings : Settings} (h : ∀ m ∈ settings.toMembers, m.2.Storable) :
    (Json.object settings.toMembers).Storable := by
  have hnames : settings.toMembers.map (·.1) = default.toMembers.map (·.1) := rfl
  have hdistinct : (default.toMembers.map (·.1)).Nodup := by decide
  have hwhole : ∀ name ∈ default.toMembers.map (·.1), ∀ point ∈ name,
      point.isSurrogate = false := by decide
  exact .object _ (hnames ▸ hdistinct)
    (fun m hm => hwhole m.1 (hnames ▸ List.mem_map_of_mem hm)) h

theorem reads_load (room : Room) {text : String} (h : text ≠ "") :
    Reads (load room (some text)) fun fs =>
      (configured room (Path.ofText text) fs >>= laidOver default.toMembers (Path.ofText text)) >>=
        fun members => .ok (ofMembers members) := by
  have hload := (reads_loadOver room default.toMembers (Path.ofText text)).bind fun members =>
    (reads_note .debug .settings s!"Loaded settings from {text}").bind fun _ =>
      reads_pure (ofMembers members)
  -- An empty text asks for the defaults, as no text does.
  have hgiven : load room (some text) =
      loadOver room default.toMembers (Path.ofText text) >>= fun members =>
        note .debug .settings s!"Loaded settings from {text}" >>= fun _ =>
          pure (ofMembers members) := load.eq_3 room text fun heq => h heq
  rw [hgiven]
  exact hload

/-- Settings are loaded from a configuration that has names of defaults only. -/
theorem perform_load {room : Room} {text : String} (h : text ≠ "") {w : Workspace}
    {members : List (CodeText × Json)}
    (hconfigured : configured room (Path.ofText text) w.files = .ok members)
    (hknown : ∀ m ∈ members, m.1 ∈ default.toMembers.map (·.1)) :
    ((load room (some text)).perform w).1 =
      .ok (ofMembers (KeyedList.setAll default.toMembers members)) := by
  refine (reads_load room h w).1.trans ?_
  dsimp only
  rw [hconfigured]
  show (laidOver default.toMembers (Path.ofText text) members >>= _) = _
  rw [laidOver_of_names hknown]
  rfl

theorem isShort_default : ∀ m ∈ default.toMembers, m.2.isShort := by
  simp only [toMembers, default, List.forall_mem_cons]
  exact ⟨rfl, rfl, rfl, rfl, rfl, Json.isShort_integer.2 (by decide), rfl,
    Json.isShort_integer.2 (by decide), by simp⟩

/-- Settings of short values are made of them and of defaults. -/
theorem isShort_ofMembers {members : List (CodeText × Json)}
    (h : ∀ m ∈ members, m.2.isShort) : ∀ m ∈ (ofMembers members).toMembers, m.2.isShort := by
  have hget : ∀ (name : String) (fallback : Json), fallback.isShort →
      ((KeyedList.get? members (CodeText.ofString name)).getD fallback).isShort := by
    intro name fallback hfallback
    cases hfound : KeyedList.get? members (CodeText.ofString name) with
    | none => exact hfallback
    | some value => exact h _ (KeyedList.mem_of_get? hfound)
  have hdefault := isShort_default
  simp only [toMembers, List.forall_mem_cons] at hdefault
  simp only [toMembers, ofMembers, List.forall_mem_cons]
  obtain ⟨h₁, h₂, h₃, h₄, h₅, h₆, h₇, h₈, -⟩ := hdefault
  exact ⟨hget _ _ h₁, hget _ _ h₂, hget _ _ h₃, hget _ _ h₄, hget _ _ h₅, hget _ _ h₆, hget _ _ h₇,
    hget _ _ h₈, by simp⟩

theorem isShort_of_load {room : Room} {path : Option String} {w after : Workspace}
    {settings : Settings} (h : (load room path).perform w = (.ok settings, after)) :
    ∀ m ∈ settings.toMembers, m.2.isShort := by
  by_cases hgiven : ∃ text, path = some text ∧ text ≠ ""
  · obtain ⟨text, rfl, hne⟩ := hgiven
    have hload := (reads_load room hne w).1
    rw [h] at hload
    dsimp only at hload
    obtain ⟨laid, hlaid, hload⟩ := bind_eq_ok_iff.1 hload.symm
    obtain ⟨members, hconfigured, hlaid⟩ := bind_eq_ok_iff.1 hlaid
    obtain rfl := Except.ok.inj hload
    rw [laidOver] at hlaid
    split at hlaid
    · cases hlaid
      refine isShort_ofMembers fun m hm => ?_
      rcases KeyedList.mem_setAll hm with hm | hm
      · exact isShort_default m hm
      · exact isShort_of_configured hconfigured m hm
    · cases hlaid
  · have hdefault : (load room path).perform w = (.ok default, w) := by
      unfold load
      split
      · rfl
      · rfl
      · next text hne => exact absurd ⟨text, rfl, hne⟩ hgiven
    obtain ⟨hsettings, -⟩ := Prod.mk.inj (h.symm.trans hdefault)
    obtain rfl := Except.ok.inj hsettings
    exact isShort_default

/-- **Loaded settings always say how components are made**: each of their values can be
displayed. -/
theorem exists_generator_of_load {room : Room} {path : Option String} {w after : Workspace}
    {settings : Settings} (h : (load room path).perform w = (.ok settings, after)) :
    ∃ generator, settings.generator = .ok generator := by
  have hshort := isShort_of_load h
  simp only [toMembers, List.forall_mem_cons] at hshort
  obtain ⟨hpackage, hwrapper, hprops, hsuffix, hextension, -⟩ := hshort
  obtain ⟨package, hpackage⟩ := Json.exists_display hpackage
  obtain ⟨wrapper, hwrapper⟩ := Json.exists_display hwrapper
  obtain ⟨propsType, hprops⟩ := Json.exists_display hprops
  obtain ⟨suffix, hsuffix⟩ := Json.exists_display hsuffix
  obtain ⟨extension, hextension⟩ := Json.exists_display hextension
  rw [generator, hpackage, hwrapper, hprops, hsuffix, hextension]
  exact ⟨_, rfl⟩

theorem eq_of_get? {members : List (CodeText × Json)} {m : CodeText × Json}
    (hm : m ∈ (ofMembers members).toMembers) {value : Json}
    (h : KeyedList.get? members m.1 = some value) : m.2 = value := by
  simp only [ofMembers, toMembers, List.mem_cons, List.not_mem_nil, or_false] at hm
  rcases hm with rfl | rfl | rfl | rfl | rfl | rfl | rfl | rfl
  all_goals
    dsimp only at h ⊢
    rw [h, Option.getD_some]

/-- Settings that are laid over the defaults under all of their names are the same mapping. -/
theorem same_ofMembers {members loaded : List (CodeText × Json)}
    (hnames : (members.map (·.1)).Perm (default.toMembers.map (·.1)))
    (hdistinct : (members.map (·.1)).Nodup)
    (hsame : Json.Same (.object members) (.object loaded)) :
    Json.Same (.object members)
      (.object (ofMembers (KeyedList.setAll default.toMembers loaded)).toMembers) := by
  obtain ⟨hperm, heach⟩ := hsame.of_object hdistinct
  refine .object hnames fun m hm other hother hname => ?_
  obtain ⟨found, hfound, hfoundName⟩ :=
    List.mem_map.1 (hperm.mem_iff.1 (List.mem_map_of_mem hm))
  -- The names are those of the defaults, so what is looked up under any of them was loaded.
  have hvalue : KeyedList.get? (KeyedList.setAll default.toMembers loaded) found.1 =
      some found.2 := KeyedList.get?_setAll_of_mem (hperm.nodup_iff.1 hdistinct) hfound
  rw [hfoundName.trans hname] at hvalue
  rw [eq_of_get? hother hvalue]
  exact heach m hm found hfound hfoundName.symm

end Settings

namespace Storage

/-- **A configuration that is saved is loaded as the same mapping**, and so are settings, if there
is room for writing and reading them. What is done to save it depends on the mapping only. -/
theorem saveConfiguration_reloads (room : Room) {members : List (CodeText × Json)}
    (h : (Json.object members).Storable) (path : Path) (w : Workspace) :
    (∀ other, Json.Same (.object members) other →
      saveConfiguration room other path = saveConfiguration room (.object members) path) ∧
    (w.files.TakesFile room.filing path → room.writing (Json.object members).write = none →
      (Json.object members).depth ≤ room.reading →
      ∃ after, (saveConfiguration room (.object members) path).perform w = (.ok (), after) ∧
        (∃ loaded, ((loadConfiguration room path).perform after).1 = .ok loaded ∧
          Json.Same (.object members) (.object loaded)) ∧
        ∀ text : String, Path.ofText text = path →
          (members.map (·.1)).Perm (Settings.default.toMembers.map (·.1)) →
          ∃ settings, ((Settings.load room (some text)).perform after).1 = .ok settings ∧
            Json.Same (.object members) (.object settings.toMembers)) := by
  refine ⟨fun other hother => ?_, fun hfile hroom hdepth => ?_⟩
  · rw [saveConfiguration_eq, saveConfiguration_eq, Json.writeWithin_eq_of_same hother h]
  · obtain ⟨after, hperform⟩ := perform_saveConfiguration_of_takesFile h hfile hroom
    obtain ⟨hexists, hread⟩ := exists_read_of_saved hperform
    have hconfigured := configured_of_write h hdepth hexists hread
    have hsame := h.same_sorted
    rw [Json.sorted_object] at hsame
    -- From here on it only counts that what is read is the same mapping.
    generalize (Json.inOrder members).map (fun m => (m.1, m.2.sorted)) = loaded
      at hconfigured hsame
    refine ⟨after, hperform, ⟨loaded, ?_, hsame⟩, ?_⟩
    · rw [(reads_loadConfiguration room path after).1, hconfigured]
    · rintro text rfl hnames
      have hne : text ≠ "" := by
        rintro rfl
        exact not_takesFile_empty room.filing w.files hfile
      cases h with
      | object _ distinct whole each =>
          obtain ⟨hperm, -⟩ := hsame.of_object distinct
          have hknown : ∀ m ∈ loaded, m.1 ∈ Settings.default.toMembers.map (·.1) := fun m hm =>
            (hperm.symm.trans hnames).mem_iff.1 (List.mem_map_of_mem hm)
          exact ⟨_, Settings.perform_load hne hconfigured hknown,
            Settings.same_ofMembers hnames distinct hsame⟩

def nestedSettings : Settings where
  componentPackage := .text "\"\u00e9\"\n"
  wrapperComponent := .real .notANumber
  propsType := .list [.object [("b", .list []), ("a", .integer (-5))], .null]
  componentSuffix := .real (.infinite true)
  fileExtension := .text ".tsx"
  defaultSize := .real (.finite true .zero)
  checkMarkup := .boolean false
  maxMarkupSize := .integer 100000

theorem saveConfiguration_reloads_nested :
    (Json.object nestedSettings.toMembers).Storable ∧
      FileSystem.empty.TakesFile 8 (Path.ofText "out/settings.json") ∧
      (Json.object nestedSettings.toMembers).depth ≤ 8 ∧
      ∃ after, (saveConfiguration (.ofLevels 8) (.object nestedSettings.toMembers)
          (Path.ofText "out/settings.json")).perform { files := .empty } =
            (.ok (), after) ∧
        ∃ settings, ((Settings.load (.ofLevels 8) (some "out/settings.json")).perform after).1 =
            .ok settings ∧
          Json.Same (.object nestedSettings.toMembers) (.object settings.toMembers) := by
  have hstorable : (Json.object nestedSettings.toMembers).Storable := by
    have hlist : (Json.list [.object [("b", .list []), ("a", .integer (-5))], .null]).Storable := by
      refine .list _ ?_
      simp only [List.forall_mem_cons]
      refine ⟨.object _ (by decide) (by decide) ?_, .null, by simp⟩
      simp only [List.forall_mem_cons]
      exact ⟨.list _ (by simp), .integer _ (by decide), by simp⟩
    refine Settings.storable_toMembers ?_
    simp only [Settings.toMembers, nestedSettings, List.forall_mem_cons]
    exact ⟨.text _ (hasBytes_ofString _), .real _, hlist, .real _, .text _ (hasBytes_ofString _),
      .real _, .boolean _, .integer _ (by decide), by simp⟩
  have hfile : FileSystem.empty.TakesFile 8 (Path.ofText "out/settings.json") := by decide
  have hdepth : (Json.object nestedSettings.toMembers).depth ≤ 8 := by decide
  obtain ⟨after, hperform, -, hload⟩ := (saveConfiguration_reloads (.ofLevels 8) hstorable
    (Path.ofText "out/settings.json") { files := .empty }).2 hfile rfl hdepth
  exact ⟨hstorable, hfile, hdepth, after, hperform, hload "out/settings.json" rfl (.refl _)⟩

/-! ## Configurations that are too deep -/

/-- Lists inside of each other, an empty one inside of all. -/
def nestedLists : Nat → Json
  | 0 => .list []
  | count + 1 => .list [nestedLists count]

theorem storable_nestedLists (count : Nat) : (nestedLists count).Storable := by
  induction count with
  | zero => exact .list _ (by simp)
  | succ count ih => exact .list _ (by simpa using ih)

theorem depth_nestedLists (count : Nat) : (nestedLists count).depth = count + 1 := by
  induction count with
  | zero => rfl
  | succ count ih =>
      rw [nestedLists, Json.depth, Json.depthItems, Json.depthItems, ih, Nat.max_zero]

/-- The default settings with lists inside of each other in a value. -/
def deepSettings (count : Nat) : Settings :=
  { Settings.default with checkMarkup := nestedLists count }

theorem storable_deepSettings (count : Nat) :
    (Json.object (deepSettings count).toMembers).Storable := by
  refine Settings.storable_toMembers ?_
  simp only [Settings.toMembers, deepSettings, Settings.default, List.forall_mem_cons]
  exact ⟨.text _ (hasBytes_ofString _), .text _ (hasBytes_ofString _),
    .text _ (hasBytes_ofString _), .text _ (hasBytes_ofString _), .text _ (hasBytes_ofString _),
    .integer _ (by decide), storable_nestedLists _, .integer _ (by decide), by simp⟩

theorem lt_depth_deepSettings (count : Nat) :
    count < (Json.object (deepSettings count).toMembers).depth := by
  have hmember : (CodeText.ofString "check_markup", nestedLists count) ∈
      (deepSettings count).toMembers := by simp [Settings.toMembers, deepSettings]
  have hle := Json.depth_le_depthMembers hmember
  rw [depth_nestedLists] at hle
  rw [Json.depth]
  omega

/-- **Whatever room there is, not all settings can be saved and loaded again**: those with as many
lists inside of each other as are read, and one more, are refused when they are loaded. -/
theorem deepSettings_not_reloaded :
    ¬ ∃ room : Room, ∀ settings : Settings, (Json.object settings.toMembers).Storable →
      ∃ after, (saveConfiguration room (.object settings.toMembers) (Path.ofText "p.json")).perform
          { files := .empty } = (.ok (), after) ∧
        ∃ loaded, ((Settings.load room (some "p.json")).perform after).1 = .ok loaded := by
  rintro ⟨room, hall⟩
  have hstorable := storable_deepSettings room.reading
  obtain ⟨after, hperform, loaded, hloaded⟩ := hall (deepSettings room.reading) hstorable
  obtain ⟨hexists, hread⟩ := exists_read_of_saved hperform
  obtain ⟨fault, hconfigured, -⟩ :=
    configured_of_write_deep hstorable (lt_depth_deepSettings _) hexists hread
  have hrefused := (Settings.reads_load room (show "p.json" ≠ "" by decide) after).1
  dsimp only at hrefused
  rw [hloaded, hconfigured] at hrefused
  cases hrefused

end Storage

end IconForge
