import Mathlib.Data.List.Perm.Basic
import IconForge.Proofs.Conversion.Isolation
import IconForge.Proofs.Conversion.Unasked
import IconForge.Proofs.Files.Reach

set_option autoImplicit false

/-! # Directory by directory

Without an output directory a component goes beside its source. So a conversion depends on the
directories and on what is right in one folder (`FileSystem.Around`), and that is all that it
changes. Conversions in different folders therefore do not notice each other, while those in one
folder keep their order: what a run over a whole directory does in a folder is what a run over the
sources in that folder does alone (`Converter.turns_filter`).

A run over a directory with everything below it thus comes to the same files and the same rows as
runs over its folders one by one, in whatever order (`Converter.convertDirectory_recursive`). -/

namespace IconForge

open IconForge.Action FileSystem Text.Encoding

/-! ## Lists in parts -/

/-- A list is made of its parts with the same key, in whatever order the keys come. -/
theorem flatMap_filter_perm {α β : Type} [DecidableEq β] (key : α → β) {keys : List β}
    (hnodup : keys.Nodup) {items : List α} (h : ∀ item ∈ items, key item ∈ keys) :
    (keys.flatMap fun k => items.filter fun item => key item = k).Perm items := by
  induction keys generalizing items with
  | nil =>
      rw [List.eq_nil_iff_forall_not_mem.2 fun item hitem => List.not_mem_nil (h item hitem)]
      exact .refl _
  | cons first keys ih =>
      obtain ⟨hfirst, hkeys⟩ := List.nodup_cons.1 hnodup
      rw [List.flatMap_cons]
      refine List.Perm.trans (List.Perm.append_left _ ?_)
        (List.filter_append_perm (fun item => key item = first) items)
      -- The other parts are parts of what has another key than the first one.
      have hrest : (keys.flatMap fun k => items.filter fun item => key item = k) =
          keys.flatMap fun k => (items.filter fun item => !decide (key item = first)).filter
            fun item => key item = k := by
        rw [List.flatMap_def, List.flatMap_def]
        congr 1
        refine List.map_congr_left fun k hk => ?_
        rw [List.filter_filter]
        refine List.filter_congr fun item _ => ?_
        by_cases hkey : key item = k
        · have hne : key item ≠ first := by
            rintro rfl
            exact hfirst (hkey ▸ hk)
          simp [hkey, hkey ▸ hne]
        · simp [hkey]
      rw [hrest]
      refine ih hkeys fun item hitem => ?_
      obtain ⟨hitem, hne⟩ := List.mem_filter.1 hitem
      exact (List.mem_cons.1 (h item hitem)).resolve_left (by simpa using hne)

namespace FileSystem

/-! ## Around a folder -/

/-- The places that matter in a folder: all directories and what is right in the folder. -/
def Around (fs : FileSystem) (folder place : Location) : Prop :=
  fs.get? place = some .directory ∨ place.above = folder

/-- Whether the directories of a file system are directories of another one too. -/
def KeepsDirectories (before after : FileSystem) : Prop :=
  ∀ place, before.get? place = some .directory → after.get? place = some .directory

/-- **What changes around one folder leaves alone what matters in another one.** -/
theorem agree_around {fs before after : FileSystem} {folder other : Location} (hne : folder ≠ other)
    (hbefore : fs.KeepsDirectories before) (hafter : fs.KeepsDirectories after)
    (hrest : ∀ place, ¬ fs.Around other place → after.get? place = before.get? place) :
    Agree (fs.Around folder) before after := by
  intro place hplace
  by_cases hdirectory : fs.get? place = some .directory
  · rw [hbefore place hdirectory, hafter place hdirectory]
  · refine hrest place ?_
    rintro (hthere | habove)
    · exact hdirectory hthere
    · exact hne ((hplace.resolve_left hdirectory).symm.trans habove)

section

variable {fs : FileSystem} {directory : Path} {here : Location} {front : List CodeText}
  {last : CodeText} {entry : Entry}

/-- The path of a directory below passes directories only. -/
theorem passes_directory_below (hlocate : fs.locate directory = .ok here)
    (h : fs.get? (here.down front) = some .directory) {place : Location}
    (hpasses : Passes (directory.below front) place) : fs.get? place = some .directory := by
  rcases passes_below hlocate h hpasses with hdirectory | rfl
  · exact hdirectory
  · exact h

/-- The path of whatever is right in a folder keeps to what matters there. -/
theorem keepsTo_around (hlocate : fs.locate directory = .ok here)
    (h : fs.get? (here.down (front ++ [last])) = some entry) :
    KeepsTo (directory.below (front ++ [last])) (fs.Around (here.down front)) := by
  rintro _ - place hpasses
  rcases passes_below hlocate h hpasses with hdirectory | rfl
  · exact Or.inl hdirectory
  · refine Or.inr ?_
    rw [Location.down_concat, Location.above_within]

theorem walk_below (hlocate : fs.locate directory = .ok here)
    (h : fs.get? (here.down front) = some entry) :
    walk .top ((directory.below front).parts.map spellName) = here.down front := by
  obtain ⟨names, hnames, rfl, -⟩ := locate_eq_ok_iff.1 hlocate
  obtain ⟨-, -, -, rfl⟩ := namesOf_eq_ok_iff.1 hnames
  rw [below_names h, walk_append, walk_eq_down (upwards_not_mem_of_down h)]

end

end FileSystem

namespace Converter

variable {c : Converter} {fs : FileSystem} {directory : Path} {here : Location}

/-- The component of a source, beside the source, keeps to what matters in its folder. -/
theorem outputKeepsTo_around (hbeside : c.outputDirectory = none)
    (hstays : c.generator.StaysInFolder) (hlocate : fs.locate directory = .ok here)
    {front : List CodeText} {last : CodeText} {entry : Entry}
    (h : fs.get? (here.down (front ++ [last])) = some entry) :
    c.OutputKeepsTo (directory.below (front ++ [last])) (fs.Around (here.down front)) := by
  have hfront := directory_of_down h
  have hfolder : c.folder (directory.below (front ++ [last])) = directory.below front := by
    rw [folder, hbeside]
    exact parent_below h
  have hpasses : ∀ place, Passes (directory.below front) place →
      fs.Around (here.down front) place :=
    fun place hplace => Or.inl (passes_directory_below hlocate hfront hplace)
  -- A name that is no part of a path is dropped, and the output is the folder itself.
  by_cases hpart : isPathPart (c.generator.fileName (baseName (directory.below (front ++ [last]))))
  · have hparts := outputPath_parts hstays (directory.below (front ++ [last]))
    rw [List.filter_cons_of_pos hpart, List.filter_nil, hfolder] at hparts
    refine ⟨?_, ?_⟩
    · rintro _ - place ⟨passed, hpassed, rfl⟩
      rw [hparts, List.map_append, List.map_cons, List.map_nil, List.prefix_concat_iff] at hpassed
      rcases hpassed with rfl | hpassed
      · rw [walk_append, walk_below hlocate hfront, walk_cons]
        by_cases hup : spellName
            (c.generator.fileName (baseName (directory.below (front ++ [last])))) = upwards
        · rw [hup, step_upwards]
          exact Or.inl (get?_above hfront)
        · rw [step_of_ne hup]
          exact Or.inr (Location.above_within _ _)
      · exact hpasses _ ⟨passed, hpassed, rfl⟩
    · rw [outputPath_parent hstays hpart, hfolder]
      exact fun _ _ => hpasses
  · rw [Bool.not_eq_true] at hpart
    have houtput := outputPath_eq_folder hstays hpart
    rw [hfolder] at houtput
    refine ⟨?_, ?_⟩
    · rw [houtput]
      exact fun _ _ => hpasses
    · rw [houtput]
      exact fun _ _ place hplace => hpasses place hplace.of_parent

/-! ## The sources of a folder -/

theorem below_injective {names others : List CodeText} (hnames : ∀ name ∈ names, isFileName name)
    (hothers : ∀ name ∈ others, isFileName name)
    (h : directory.below names = directory.below others) : names = others := by
  have hparts := congrArg Path.parts h
  rw [below_parts hnames, below_parts hothers] at hparts
  exact List.append_cancel_left hparts

/-- **What a run does in one folder is what a run over the sources in that folder does alone.** -/
theorem turns_filter (hbeside : c.outputDirectory = none) (hstays : c.generator.StaysInFolder)
    (hlocate : fs.locate directory = .ok here) {sources : List Path}
    (hsources : ∀ source ∈ sources, ∃ front last bytes,
      source = directory.below (front ++ [last]) ∧
        fs.get? (here.down (front ++ [last])) = some (.file bytes))
    {names : List CodeText} (hnames : fs.get? (here.down names) = some .directory)
    {before other : FileSystem} (hbefore : fs.KeepsDirectories before)
    (hagree : Agree (fs.Around (here.down names)) before other) :
    (c.turns (sources.filter fun source => source.parent = directory.below names) other).1 =
        ((c.turns sources before).1.filter fun outcome =>
          outcome.source.parent = directory.below names) ∧
      Agree (fs.Around (here.down names)) (c.turns sources before).2
        (c.turns (sources.filter fun source => source.parent = directory.below names) other).2 := by
  induction sources generalizing before other with
  | nil => exact ⟨rfl, hagree⟩
  | cons source sources ih =>
      have hrest := fun other hother => hsources other (List.mem_cons_of_mem _ hother)
      obtain ⟨front, last, bytes, rfl, hfile⟩ := hsources source List.mem_cons_self
      have hparent : (directory.below (front ++ [last])).parent = directory.below front :=
        parent_below hfile
      have houtput := outputKeepsTo_around hbeside hstays hlocate hfile
      have hafter : fs.KeepsDirectories (c.turn (directory.below (front ++ [last])) before).2 :=
        fun place hplace => (c.develops_turn _ before).directory (hbefore place hplace)
      rw [turns_cons]
      -- A source in the folder is converted both times; any other leaves the folder as it is.
      by_cases hhere : directory.below front = directory.below names
      · obtain rfl := below_injective (isFileName_of_down (directory_of_down hfile))
          (isFileName_of_down hnames) hhere
        obtain ⟨hsame, hagree'⟩ :=
          turn_of_agree hagree (keepsTo_around hlocate hfile) houtput
        obtain ⟨houtcomes, hfiles⟩ := ih hrest hafter hagree'
        rw [List.filter_cons_of_pos (by simpa using hparent),
          List.filter_cons_of_pos (by rw [source_turn]; simpa using hparent), turns_cons, hsame,
          houtcomes]
        exact ⟨rfl, hfiles⟩
      · have hne : here.down names ≠ here.down front :=
          fun heq => hhere (congrArg directory.below (Location.down_injective heq)).symm
        have hleft : Agree (fs.Around (here.down names)) before
            (c.turn (directory.below (front ++ [last])) before).2 :=
          agree_around hne hbefore hafter fun place hplace => get?_turn houtput before hplace
        obtain ⟨houtcomes, hfiles⟩ := ih hrest hafter (hleft.symm.trans hagree)
        rw [List.filter_cons_of_neg (by rw [hparent]; simpa using hhere),
          List.filter_cons_of_neg (by rw [source_turn, hparent]; simpa using hhere)]
        exact ⟨houtcomes, hfiles⟩

/-- What is searched for in a folder is among what is found with everything below. -/
theorem filesBelow_filter {later : FileSystem} {names : List CodeText}
    (hnames : fs.get? (here.down names) = some .directory)
    (hagree : Agree (fs.Around (here.down names)) fs later) :
    ((fs.filesBelow here svgEnding true).filter fun found => found.dropLast = names) =
      (later.filesBelow (here.down names) svgEnding false).map (names ++ ·) := by
  -- Both lists are in order and without repetition, so their members are compared.
  refine eq_of_ascending ?_ ((nodup_filesBelow fs here svgEnding true).filter _)
    ((nodup_filesBelow later _ svgEnding false).map (List.append_right_injective names))
    ((sorted_filesBelow fs here svgEnding true).filter _) ?_
  · intro found
    simp only [List.mem_filter, decide_eq_true_eq, List.mem_map, mem_filesBelow_iff, true_or,
      true_and, Bool.false_eq_true, false_or]
    constructor
    · rintro ⟨⟨⟨bytes, hfile⟩, hending⟩, rfl⟩
      rcases List.eq_nil_or_concat found with rfl | ⟨front, last, rfl⟩
      · exact absurd (List.suffix_nil.1 hending) (by decide)
      · rw [List.concat_eq_append] at hfile hending hagree ⊢
        rw [List.dropLast_concat] at hagree ⊢
        rw [List.getLastD_concat] at hending
        refine ⟨[last], ⟨⟨bytes, ?_⟩, rfl, hending⟩, rfl⟩
        rw [← Location.down_append]
        refine (hagree _ (Or.inr ?_)).trans hfile
        rw [Location.down_concat, Location.above_within]
    · rintro ⟨rest, ⟨⟨bytes, hfile⟩, hlength, hending⟩, rfl⟩
      obtain ⟨last, rfl⟩ := List.length_eq_one_iff.1 hlength
      rw [← Location.down_append] at hfile
      refine ⟨⟨⟨bytes, ?_⟩, ?_⟩, List.dropLast_concat⟩
      · refine (hagree _ (Or.inr ?_)).symm.trans hfile
        rw [Location.down_concat, Location.above_within]
      · rw [List.getLastD_concat]
        exact hending
  · rw [List.pairwise_map]
    refine (sorted_filesBelow later _ svgEnding false).imp ?_
    intro found others hle
    rwa [namesLE_append]

/-- **The sources of a folder are those of the whole run that are in it**, as long as what matters
in the folder is as it was. -/
theorem sourcesIn_filter {later : FileSystem} (hlocate : fs.locate directory = .ok here)
    {names : List CodeText} (hnames : fs.get? (here.down names) = some .directory)
    (hagree : Agree (fs.Around (here.down names)) fs later)
    (hfolder : later.locate (directory.below names) = .ok (here.down names)) :
    sourcesIn later (directory.below names) false =
      (sourcesIn fs directory true).filter fun source => source.parent = directory.below names := by
  rw [sourcesIn_of_locate hfolder, sourcesIn_of_locate hlocate, List.filter_map]
  have hkey : ∀ found ∈ fs.filesBelow here svgEnding true,
      ((fun source : Path => decide (source.parent = directory.below names)) ∘ directory.below)
        found = decide (found.dropLast = names) := by
    intro found hfound
    obtain ⟨⟨bytes, hfile⟩, -⟩ := mem_filesBelow_iff.1 hfound
    obtain ⟨front, last, rfl⟩ :=
      (List.eq_nil_or_concat found).resolve_left (endsIn_of_mem_filesBelow hfound).1
    rw [List.concat_eq_append] at hfile ⊢
    rw [Function.comp_apply, parent_below hfile, List.dropLast_concat, decide_eq_decide]
    refine ⟨below_injective (isFileName_of_down (directory_of_down hfile))
      (isFileName_of_down hnames), fun heq => heq ▸ rfl⟩
  rw [List.filter_congr hkey, filesBelow_filter hnames hagree, List.map_map]
  refine List.map_congr_left fun rest hrest => ?_
  obtain ⟨⟨bytes, hfile⟩, -⟩ := mem_filesBelow_iff.1 hrest
  exact below_append (isFileName_of_down hnames) (isFileName_of_down hfile)

/-- **Each folder can be searched when the whole directory can be**, as long as what matters in it
is as it was. -/
theorem searchable_folder {room : Nat} {later : FileSystem}
    (hlocate : fs.locate directory = .ok here) (hsearch : Searchable room fs directory true)
    {names : List CodeText}
    (hnames : fs.get? (here.down names) = some .directory)
    (hagree : Agree (fs.Around (here.down names)) fs later) :
    later.locate (directory.below names) = .ok (here.down names) ∧
      Searchable room later (directory.below names) false := by
  have hanswered := (searchFault?_eq_none_iff hlocate).1 hsearch.2
  have hpath : KeepsTo (directory.below names) (fs.Around (here.down names)) :=
    fun _ _ place hplace => Or.inl (passes_directory_below hlocate hnames hplace)
  have hfolder : fs.locate (directory.below names) = .ok (here.down names) := by
    rcases List.eq_nil_or_concat names with rfl | ⟨front, last, hconcat⟩
    · rw [below_nil, Location.down_nil, hlocate]
    · refine locate_below hlocate hnames (hanswered names (mem_searched_iff.2 ?_)).2
      refine ⟨fun htop => ?_, _, hnames, Or.inr ⟨rfl, rfl⟩⟩
      rw [hconcat, List.concat_eq_append, Location.down_concat] at htop
      cases htop
  have hthere : later.locate (directory.below names) = .ok (here.down names) :=
    (hagree.locate hpath).trans hfolder
  refine ⟨hthere, isDirectory_eq_true_iff.2 ⟨_, hthere, (hagree _ (Or.inl hnames)).trans hnames⟩,
    (searchFault?_eq_none_iff hthere).2 fun rest hrest => ⟨rfl, ?_⟩⟩
  obtain ⟨-, entry, hentry, hlooked⟩ := mem_searched_iff.1 hrest
  simp only [Bool.false_eq_true, false_or, false_and, or_false] at hlooked
  obtain ⟨hlength, hending⟩ := hlooked
  obtain ⟨last, rfl⟩ := List.length_eq_one_iff.1 hlength
  -- What is right in the folder was there before, and the whole search looked at it.
  rw [← Location.down_append] at hentry
  have hbefore : fs.get? (here.down (names ++ [last])) = some entry := by
    refine (hagree _ (Or.inr ?_)).symm.trans hentry
    rw [Location.down_concat, Location.above_within]
  rw [below_append (isFileName_of_down hnames) fun name hname =>
      isFileName_of_down hbefore name (List.mem_append_right _ hname),
    hagree.unanswered? (keepsTo_around hlocate hbefore)]
  refine (hanswered _ (mem_searched_iff.2 ⟨?_, entry, hbefore, Or.inl ⟨Or.inl rfl, ?_⟩⟩)).2
  · rw [Location.down_concat]
    rintro ⟨⟩
  · rw [List.getLastD_concat]
    exact hending

/-! ## The folders one by one -/

/-- **A run over one folder** does what the whole run does there. -/
theorem perform_convertDirectory_folder (hbeside : c.outputDirectory = none)
    (hasks : c.asks = false) (hstays : c.generator.StaysInFolder)
    (hlocate : fs.locate directory = .ok here)
    (hsearch : Searchable c.room.searching fs directory true) {names : List CodeText}
    (hnames : fs.get? (here.down names) = some .directory) {w : Workspace}
    (hagree : Agree (fs.Around (here.down names)) fs w.files) :
    ∃ rows after, ((c.turns (sourcesIn fs directory true) fs).1.filter fun outcome =>
        outcome.source.parent = directory.below names).mapM Outcome.row = .ok rows ∧
      (c.convertDirectory (directory.below names) false).perform w = (.ok rows, after) ∧
      Agree (fs.Around (here.down names)) (c.turns (sourcesIn fs directory true) fs).2
        after.files ∧
      (∀ place, w.files.get? place = some .directory → after.files.get? place = some .directory) ∧
      ∀ place, ¬ fs.Around (here.down names) place →
        after.files.get? place = w.files.get? place := by
  obtain ⟨hfolder, hsearch'⟩ := searchable_folder hlocate hsearch hnames hagree
  have hsources := sourcesIn_filter hlocate hnames hagree hfolder
  obtain ⟨rows, after, hrows, hperform, hfiles, -⟩ :=
    perform_convertDirectory_turns hasks hsearch'
  obtain ⟨houtcomes, hleft⟩ := turns_filter hbeside hstays hlocate
    (fun source hsource => by
      obtain ⟨front, last, bytes, heq, hfile, -⟩ := mem_sourcesIn hlocate hsource
      exact ⟨front, last, bytes, heq, hfile⟩) hnames (fun _ h => h) hagree
  -- Outside the folder nothing changes, since each source in it has its component there.
  have houtputs : ∀ source ∈ sourcesIn w.files (directory.below names) false,
      c.OutputKeepsTo source (fs.Around (here.down names)) := by
    intro source hsource
    rw [hsources, List.mem_filter, decide_eq_true_eq] at hsource
    obtain ⟨front, last, bytes, rfl, hfile, -⟩ := mem_sourcesIn hlocate hsource.1
    rw [parent_below hfile] at hsource
    obtain rfl := below_injective (isFileName_of_down (directory_of_down hfile))
      (isFileName_of_down hnames) hsource.2
    exact outputKeepsTo_around hbeside hstays hlocate hfile
  refine ⟨rows, after, ?_, hperform, ?_, ?_, ?_⟩
  · rw [← houtcomes, ← hsources]
    exact hrows
  · rw [hfiles, hsources]
    exact hleft
  · intro place hplace
    rw [hfiles]
    exact (c.develops_turns _ _).directory hplace
  · intro place hplace
    rw [hfiles]
    exact get?_turns houtputs _ hplace

/-- **Runs over folders one by one**, in some order, do what the whole run does in these folders. -/
theorem perform_folders (hbeside : c.outputDirectory = none) (hasks : c.asks = false)
    (hstays : c.generator.StaysInFolder) (hlocate : fs.locate directory = .ok here)
    (hsearch : Searchable c.room.searching fs directory true) {order : List (List CodeText)}
    (hnodup : order.Nodup)
    (horder : ∀ names ∈ order, fs.get? (here.down names) = some .directory) {w : Workspace}
    (hkeeps : fs.KeepsDirectories w.files)
    (hagree : ∀ names ∈ order, Agree (fs.Around (here.down names)) fs w.files) :
    ∃ parts after, ((order.map directory.below).mapM (c.convertDirectory · false)).perform w =
        (.ok parts, after) ∧
      ((order.map directory.below).flatMap fun folder =>
        (c.turns (sourcesIn fs directory true) fs).1.filter fun outcome =>
          outcome.source.parent = folder).mapM Outcome.row = .ok parts.flatten ∧
      fs.KeepsDirectories after.files ∧
      (∀ names ∈ order, Agree (fs.Around (here.down names))
        (c.turns (sourcesIn fs directory true) fs).2 after.files) ∧
      ∀ place, (∀ names ∈ order, ¬ fs.Around (here.down names) place) →
        after.files.get? place = w.files.get? place := by
  induction order generalizing w with
  | nil => exact ⟨[], w, rfl, rfl, hkeeps, by simp, fun _ _ => rfl⟩
  | cons names order ih =>
      obtain ⟨hfirst, hnodup⟩ := List.nodup_cons.1 hnodup
      have hnames := horder names List.mem_cons_self
      obtain ⟨rows, between, hrows, hperform, hhere, hdirectories, helsewhere⟩ :=
        perform_convertDirectory_folder hbeside hasks hstays hlocate hsearch hnames
          (hagree names List.mem_cons_self)
      have hbetween : fs.KeepsDirectories between.files :=
        fun place hplace => hdirectories place (hkeeps place hplace)
      have hne : ∀ others ∈ order, here.down others ≠ here.down names := by
        intro others hothers heq
        exact hfirst (Location.down_injective heq ▸ hothers)
      obtain ⟨parts, after, hrest, hparts, hafter, hthere, houtside⟩ := ih hnodup
        (fun others hothers => horder others (List.mem_cons_of_mem _ hothers)) hbetween
        fun others hothers => (hagree others (List.mem_cons_of_mem _ hothers)).trans
          (agree_around (hne others hothers) hkeeps hbetween helsewhere)
      refine ⟨rows :: parts, after, ?_, ?_, hafter, ?_, ?_⟩
      · rw [List.map_cons, List.mapM_cons]
        simp only [perform_bind, hperform, hrest, perform_pure]
      · rw [List.map_cons, List.flatMap_cons, List.flatten_cons, List.mapM_append, hrows, hparts]
        rfl
      · intro others hothers
        rcases List.mem_cons.1 hothers with rfl | hothers
        · -- The later runs are in other folders.
          intro place hplace
          by_cases hdirectory : fs.get? place = some .directory
          · rw [hafter place hdirectory]
            exact ((c.develops_turns _ fs).directory hdirectory).symm
          · rw [houtside place, hhere place hplace]
            rintro others hothers (hthere | habove)
            · exact hdirectory hthere
            · exact hne others hothers (habove.symm.trans (hplace.resolve_left hdirectory))
        · exact hthere others hothers
      · intro place hplace
        rw [houtside place fun others hothers => hplace others (List.mem_cons_of_mem _ hothers),
          helsewhere place (hplace names List.mem_cons_self)]

/-- **A run over a directory with everything below it comes to what runs over its folders one by one
come to**, in whatever order: without an output directory and without questions, the files are the
same and the rows are the same but for their order. -/
theorem convertDirectory_recursive (c : Converter) (hbeside : c.outputDirectory = none)
    (hasks : c.asks = false) (hstays : c.generator.StaysInFolder) (directory : Path)
    (w : Workspace) (hsearch : Searchable c.room.searching w.files directory true) :
    ∃ here rows after, w.files.locate directory = .ok here ∧
      (c.convertDirectory directory true).perform w = (.ok rows, after) ∧
      ∀ order : List (List CodeText), order.Nodup →
        (∀ names, names ∈ order ↔ w.files.get? (here.down names) = some .directory) →
        ∃ parts after', ((order.map directory.below).mapM (c.convertDirectory · false)).perform w =
            (.ok parts, after') ∧
          parts.flatten.Perm rows ∧
          ∀ place, after'.files.get? place = after.files.get? place := by
  obtain ⟨here, hlocate, -⟩ := isDirectory_eq_true_iff.1 hsearch.1
  obtain ⟨rows, after, hrows, hperform, hfiles, -⟩ := perform_convertDirectory_turns hasks hsearch
  refine ⟨here, rows, after, hlocate, hperform, ?_⟩
  intro order hnodup horder
  obtain ⟨parts, after', hparts, hflat, -, hthere, houtside⟩ :=
    perform_folders hbeside hasks hstays hlocate hsearch hnodup
      (fun names hnames => (horder names).1 hnames) (fun _ h => h) (fun _ _ => Agree.refl _ _)
  have hsources : ∀ source ∈ sourcesIn w.files directory true, ∃ front ∈ order,
      source.parent = directory.below front ∧
        c.OutputKeepsTo source (w.files.Around (here.down front)) := by
    intro source hsource
    obtain ⟨front, last, bytes, rfl, hfile, -⟩ := mem_sourcesIn hlocate hsource
    exact ⟨front, (horder front).2 (directory_of_down hfile), parent_below hfile,
      outputKeepsTo_around hbeside hstays hlocate hfile⟩
  refine ⟨parts, after', hparts, ?_, ?_⟩
  · -- Every outcome belongs to one of the folders.
    have hfolders : (order.map directory.below).Nodup := by
      refine hnodup.map_on fun names hnames others hothers => ?_
      exact below_injective (isFileName_of_down ((horder names).1 hnames))
        (isFileName_of_down ((horder others).1 hothers))
    have hkeys : ∀ outcome ∈ (c.turns (sourcesIn w.files directory true) w.files).1,
        outcome.source.parent ∈ order.map directory.below := by
      intro outcome houtcome
      have hsource := List.mem_map_of_mem (f := Outcome.source) houtcome
      rw [sources_turns] at hsource
      obtain ⟨front, hfront, hparent, -⟩ := hsources _ hsource
      exact hparent ▸ List.mem_map_of_mem hfront
    obtain ⟨found, hfound, hperm⟩ := mapM_perm
      (flatMap_filter_perm (fun outcome : Outcome => outcome.source.parent) hfolders hkeys) hrows
    rw [hflat] at hfound
    rwa [Except.ok.inj hfound]
  · have houtputs : ∀ source ∈ sourcesIn w.files directory true,
        c.OutputKeepsTo source fun place => ∃ names ∈ order, w.files.Around (here.down names) place := by
      intro source hsource
      obtain ⟨front, hfront, -, houtput⟩ := hsources source hsource
      exact houtput.mono fun place haround => ⟨front, hfront, haround⟩
    intro place
    rw [hfiles]
    by_cases hplace : ∃ names ∈ order, w.files.Around (here.down names) place
    · obtain ⟨names, hnames, hplace⟩ := hplace
      exact hthere names hnames place hplace
    · rw [houtside place fun names hnames haround => hplace ⟨names, hnames, haround⟩]
      exact (get?_turns houtputs _ hplace).symm

/-! ## An icon in a directory of its own -/

/-- An icon, and another one in a directory beside it. -/
def nestedIcons : FileSystem where
  entries :=
    [(Location.top.within "in", .directory),
     ((Location.top.within "in").within "a.svg",
       .file (Text.Utf8.encode "<svg viewBox=\"0 0 1 1\"><g/></svg>".toList)),
     ((Location.top.within "in").within "sub", .directory),
     (((Location.top.within "in").within "sub").within "b.svg",
       .file (Text.Utf8.encode "<svg viewBox=\"0 0 2 2\"><g/></svg>".toList))]
  named := by decide
  nodup := by decide
  rooted := by decide

theorem locate_nestedIcons :
    nestedIcons.locate (Path.ofText "in") = .ok (Location.top.within "in") := by
  decide

theorem searchable_nestedIcons : Searchable 8 nestedIcons (Path.ofText "in") true :=
  searchable_of_answered locate_nestedIcons (by decide) (by decide)

theorem directories_nestedIcons (names : List CodeText) :
    names ∈ [[CodeText.ofString "sub"], []] ↔
      nestedIcons.get? ((Location.top.within "in").down names) = some .directory := by
  constructor
  · intro h
    rcases List.mem_cons.1 h with rfl | h
    · decide
    · rw [List.mem_singleton.1 h]
      decide
  · intro h
    have hmem := mem_entries_of_get? (fun htop => ?_) h
    · simp only [nestedIcons, List.mem_cons, List.not_mem_nil, or_false, Prod.mk.injEq,
        reduceCtorEq, and_false, and_true, false_or] at hmem
      rcases hmem with hhere | hsub
      · rw [← Location.down_nil (Location.top.within "in")] at hhere
        obtain rfl := Location.down_injective hhere
        simp
      · rw [show ((Location.top.within "in").within "sub" : Location) =
          (Location.top.within "in").down [CodeText.ofString "sub"] from by decide] at hsub
        obtain rfl := Location.down_injective hsub
        simp
    · have hnames := congrArg Location.names htop
      exact List.append_ne_nil_of_right_ne_nil _ (List.cons_ne_nil _ _) hnames

def nestedRun : Except Fault (List Row) × Workspace :=
  ((default (.ofLevels 8)).convertDirectory (Path.ofText "in") true).perform
    { files := nestedIcons }

theorem status_nestedRun :
    nestedRun.1.toOption.map (List.map Row.status) = some ["created", "created"] := by
  have hrun : nestedRun = _ := perform_convertDirectory searchable_nestedIcons
  rw [hrun, sourcesIn_of_sorted locate_nestedIcons (by decide)]
  decide +kernel

/-- First the inner directory and then the outer one: the same components are created. -/
theorem convertDirectory_recursive_nested :
    Searchable 8 nestedIcons (Path.ofText "in") true ∧ ∃ rows after parts after',
      nestedRun = (.ok rows, after) ∧ rows.map Row.status = ["created", "created"] ∧
      ([Path.ofText "in/sub", Path.ofText "in"].mapM
          ((default (.ofLevels 8)).convertDirectory · false)).perform
        { files := nestedIcons } = (.ok parts, after') ∧
      parts.flatten.Perm rows ∧ ∀ place, after'.files.get? place = after.files.get? place := by
  refine ⟨searchable_nestedIcons, ?_⟩
  obtain ⟨here, rows, after, hlocate, hperform, horders⟩ := convertDirectory_recursive
    (default (.ofLevels 8)) rfl rfl (by decide) (Path.ofText "in") { files := nestedIcons }
    searchable_nestedIcons
  obtain rfl : Location.top.within "in" = here :=
    Except.ok.inj (locate_nestedIcons.symm.trans hlocate)
  have hstatus := status_nestedRun
  rw [nestedRun, hperform] at hstatus
  obtain ⟨parts, after', hparts, hperm, hfiles⟩ :=
    horders [[CodeText.ofString "sub"], []] (by decide) directories_nestedIcons
  have hfolders : [[CodeText.ofString "sub"], []].map (Path.ofText "in").below =
      [Path.ofText "in/sub", Path.ofText "in"] := by
    decide
  rw [hfolders] at hparts
  exact ⟨rows, after, parts, after', hperform, Option.some.inj hstatus, hparts, hperm, hfiles⟩

end Converter

end IconForge
