import Mathlib
import IconForge.Proofs.Conversion.Creation
import IconForge.Proofs.Conversion.DirectoryRun
import IconForge.Proofs.Results
import IconForge.Proofs.Text.Spelling

set_option autoImplicit false

/-! # A run that replaces what it made

Icons whose names lead to the same component are converted one after the other. A converter that
overwrites replaces the component of the first by that of the second, and both are reported as
created (`convertDirectory_replaces_created`). What a place holds in the end is the component of the
last icon that was reported as created there, so a component is lost only to a later one
(`convertDirectory_last`).

The run is followed place by place. A conversion changes one place or none: what it writes goes to
one location, and elsewhere nothing happens but that a directory is made where nothing was
(`FileSystem.StaysAt`). The icons themselves are never replaced as long as no component is named
like an icon, so every component is that of the icon as it was when the run began. -/

namespace IconForge

namespace FileSystem

open Text.Encoding

/-! ## Changes place by place -/

/-- What is at a place stays there, but for a directory that is made where nothing was. -/
def StaysAt (before after : FileSystem) (place : Location) : Prop :=
  after.get? place = before.get? place ∨
    before.get? place = none ∧ after.get? place = some .directory

theorem StaysAt.refl (fs : FileSystem) (place : Location) : fs.StaysAt fs place :=
  Or.inl rfl

theorem StaysAt.get?_eq {before after : FileSystem} {place : Location} {entry : Entry}
    (h : before.StaysAt after place) (hentry : before.get? place = some entry) :
    after.get? place = some entry := by
  rcases h with heq | ⟨hnone, -⟩
  · rw [heq, hentry]
  · rw [hnone] at hentry
    cases hentry

theorem StaysAt.trans {first second third : FileSystem} {place : Location}
    (h : first.StaysAt second place) (h' : second.StaysAt third place) :
    first.StaysAt third place := by
  rcases h with heq | ⟨hnone, hdirectory⟩
  · rcases h' with heq' | ⟨hnone, hdirectory⟩
    · exact Or.inl (heq'.trans heq)
    · exact Or.inr ⟨heq ▸ hnone, hdirectory⟩
  · exact Or.inr ⟨hnone, h'.get?_eq hdirectory⟩

def EndsIn (ending : CodeText) (place : Location) : Prop :=
  ∃ name, place.names.head? = some name ∧ ending <:+ name

/-- Whether the directories of a file system are kept, and what is at the places that end in a
text. -/
def Retains (ending : CodeText) (before after : FileSystem) : Prop :=
  ∀ place entry, before.get? place = some entry → entry = .directory ∨ EndsIn ending place →
    after.get? place = some entry

theorem Retains.refl (ending : CodeText) (fs : FileSystem) : Retains ending fs fs :=
  fun _ _ h _ => h

theorem Retains.trans {ending : CodeText} {first second third : FileSystem}
    (h : Retains ending first second) (h' : Retains ending second third) :
    Retains ending first third :=
  fun place entry hentry hkept => h' place entry (h place entry hentry hkept) hkept

theorem Retains.locate {ending : CodeText} {before after : FileSystem}
    (h : Retains ending before after) {path : Path} {location : Location}
    (hlocate : before.locate path = .ok location) : after.locate path = .ok location :=
  locate_of_directories (fun place hplace => h place .directory hplace (Or.inl rfl)) hlocate

/-- A file that was found under a name with an ending is read as it was found. -/
theorem Found.read_of_retains {ending : CodeText} {fs after : FileSystem} {directory path : Path}
    {names : List CodeText} (h : fs.Found directory path names) (hname : ending <:+ path.name)
    (hretains : Retains ending fs after) {bytes : List UInt8}
    (hread : after.read path = .ok bytes) : fs.read path = .ok bytes := by
  refine h.read_of_kept ?_ hread
  intro here file hfile
  refine hretains _ _ hfile (Or.inr ⟨path.name, ?_, hname⟩)
  obtain ⟨front, last, hlast⟩ := (List.eq_nil_or_concat names).resolve_left h.nonempty
  rw [List.concat_eq_append] at hlast
  have hpath : path.name = last := by
    rw [Path.name, h.parts, hlast, ← List.append_assoc, List.getLastD_concat]
  rw [walk_names h.noUpwards, hlast, hpath, List.reverse_append]
  rfl

/-! ## Where a file is written -/

/-- A path that leads to a file or to nothing leads to a place with the name of its last part. -/
theorem head?_of_locate {fs : FileSystem} {path : Path} {location : Location}
    (h : fs.locate path = .ok location) (hfile : fs.get? location ≠ some .directory) :
    location.names.head? = some (spellName path.name) := by
  obtain ⟨names, hnames, hlocation, hopen⟩ := locate_eq_ok_iff.1 h
  obtain ⟨-, -, -, hspell⟩ := namesOf_eq_ok_iff.1 hnames
  rcases List.eq_nil_or_concat path.parts with hnil | ⟨front, last, hparts⟩
  · -- Without parts a path leads to the top.
    rw [hnil, List.map_nil] at hspell
    rw [hlocation, hspell] at hfile
    exact absurd fs.get?_top hfile
  · rw [List.concat_eq_append] at hparts
    have hname : path.name = last := by rw [Path.name, hparts, List.getLastD_concat]
    have hup : spellName last ≠ upwards :=
      fun hup => hfile (get?_of_upwards hparts hup h)
    rw [hlocation, hspell, hparts, hname, List.map_append, walk_append]
    show (step _ (spellName last)).names.head? = _
    rw [step_of_ne hup]
    rfl

/-- The name of a path that can be handed over has no other ending in ASCII when it is spelled. -/
theorem not_suffix_spellName {path : Path} {names : List CodeText} {ending : List Char}
    (hascii : ∀ c ∈ ending, c.toNat < 0x80) (hnames : namesOf path = .ok names)
    (hname : ¬ CodeText.ofChars ending <:+ path.name) :
    ¬ CodeText.ofChars ending <:+ spellName path.name := by
  obtain ⟨hfault, -⟩ := namesOf_eq_ok_iff.1 hnames
  refine fun hending => hname (suffix_of_suffix_spellName hascii ?_ hending)
  intro point hpoint
  refine pointBytes_ne_nil hfault point ?_
  rcases List.eq_nil_or_concat path.parts with hnil | ⟨front, last, hparts⟩
  · rw [Path.name, hnil] at hpoint
    cases hpoint
  · rw [List.concat_eq_append] at hparts
    rw [Path.name, hparts, List.getLastD_concat] at hpoint
    obtain ⟨lead, htext, -⟩ := Path.text_eq_append_last hparts
    rw [htext]
    exact List.mem_append_right lead hpoint

/-- The name of a place that a path leads to has no other ending in ASCII than the path. -/
theorem not_endsIn_of_locate {fs : FileSystem} {path : Path} {location : Location} {ending : List Char}
    (hascii : ∀ c ∈ ending, c.toNat < 0x80) (hname : ¬ CodeText.ofChars ending <:+ path.name)
    (h : fs.locate path = .ok location) (hfile : fs.get? location ≠ some .directory) :
    ¬ EndsIn (CodeText.ofChars ending) location := by
  rintro ⟨name, hhead, hending⟩
  rw [head?_of_locate h hfile, Option.some.injEq] at hhead
  rw [← hhead] at hending
  obtain ⟨names, hnames, -⟩ := locate_eq_ok_iff.1 h
  exact not_suffix_spellName hascii hnames hname hending

/-- Making directories and writing a file behind that keeps all directories, and the files under
names with an ending that the written one has not. -/
theorem made_write_retains {before made after : FileSystem} {path : Path} {bytes : List UInt8}
    {allowed : Location → Prop} {ending : List Char} (hascii : ∀ c ∈ ending, c.toNat < 0x80)
    (hname : ¬ CodeText.ofChars ending <:+ path.name)
    (hadds : before.AddsDirectories made allowed) (hwrite : made.write path bytes = .ok after) :
    Retains (CodeText.ofChars ending) before after := by
  obtain ⟨location, hlocate, hfile, -⟩ := write_effect hwrite
  obtain ⟨location', hlocate', -, -, hbefore, hothers⟩ := made_write_effect hadds hwrite
  rw [hlocate, Except.ok.injEq] at hlocate'
  subst hlocate'
  intro place entry hentry hkept
  have hne : place ≠ location := by
    rintro rfl
    rcases hkept with rfl | hends
    · exact hbefore hentry
    · exact not_endsIn_of_locate hascii hname hlocate hfile hends
  rcases hothers place hne with heq | ⟨hnone, -⟩
  · rw [heq, hentry]
  · rw [hnone] at hentry
    cases hentry

end FileSystem

open IconForge.Action FileSystem Text.Encoding

/-! ## Settings that can be written out -/

theorem hasBytes_of_faultFrom? {text : CodeText} {position : Nat}
    (h : faultFrom? .content position text = none) : HasBytes text := by
  induction text generalizing position with
  | nil => exact fun point hpoint => absurd hpoint List.not_mem_nil
  | cons first text ih =>
      cases first with
      | char c =>
          intro point hpoint
          rcases List.mem_cons.1 hpoint with rfl | hrest
          · rfl
          · exact ih h point hrest
      | surrogate half => cases h

/-- Whether the settings that components show have bytes. -/
structure Generator.Encodable (g : Generator) : Prop where
  suffix : HasBytes g.suffix
  wrapper : HasBytes g.wrapper
  package : HasBytes g.package
  propsType : HasBytes g.propsType

/-- Whether a component has bytes depends on the settings alone. -/
theorem Generator.hasBytes_generate {g : Generator} {base : String} {graphic : Graphic}
    {component : CodeText} (h : g.generate base graphic = .ok component) :
    HasBytes component ↔ g.Encodable := by
  rw [Generator.generate] at h
  cases hbox : graphic.viewBox.text with
  | error fault =>
      rw [hbox] at h
      cases h
  | ok viewBox =>
      rw [hbox, Except.map, Except.ok.injEq] at h
      rw [← h]
      unfold Generator.source Generator.componentName
      simp only [hasBytes_append, hasBytes_ofString, true_and, and_true]
      constructor
      · rintro ⟨⟨⟨⟨⟨⟨⟨hwrapper, hpackage⟩, hpropsType⟩, -⟩, hsuffix⟩, -⟩, -⟩, -⟩
        exact ⟨hsuffix, hwrapper, hpackage, hpropsType⟩
      · intro hall
        simp only [hall.suffix, hall.wrapper, hall.package, hall.propsType, and_self]

namespace Converter

variable {c : Converter}

/-- Whether the components of a converter have bytes. -/
def Writable (c : Converter) : Prop :=
  ∀ base bytes fault, c.componentBytes base bytes ≠ .error (.encoding fault)

/-- What becomes of a component, if it comes to that, is that it was generated and has bytes or has
none. -/
theorem exists_component {base : String} {bytes : List UInt8}
    {result : Except Text.Encoding.Fault (List UInt8)}
    (h : c.componentBytes base bytes = result.mapError .encoding) :
    ∃ graphic component, c.generator.generate base graphic = .ok component ∧
      encode .content component = result := by
  rcases c.componentBytes_cases base bytes with ⟨fault, hfault, heq⟩ |
    ⟨graphic, component, hgenerate, heq⟩
  · rw [heq] at h
    cases result with
    | ok encoded => cases h
    | error broken => exact absurd (Except.error.inj h) (hfault broken)
  · refine ⟨graphic, component, hgenerate, ?_⟩
    exact mapError_injective (fun _ _ => Fault.encoding.inj) (heq.symm.trans h)

/-- Once a component has bytes, every component has. -/
theorem writable_of_componentBytes {base : String} {bytes encoded : List UInt8}
    (h : c.componentBytes base bytes = .ok encoded) : c.Writable := by
  obtain ⟨graphic, component, hgenerate, hencode⟩ :
      ∃ graphic component, c.generator.generate base graphic = .ok component ∧
        encode .content component = .ok encoded := exists_component h
  have hbytes : HasBytes component := by
    rw [encode] at hencode
    split at hencode
    · cases hencode
    · next hnone => exact hasBytes_of_faultFrom? hnone
  rw [Generator.hasBytes_generate hgenerate] at hbytes
  intro other otherBytes fault hbroken
  obtain ⟨drawn, broken, hgenerate', hencode'⟩ :
      ∃ graphic component, c.generator.generate other graphic = .ok component ∧
        encode .content component = .error fault := exists_component hbroken
  have hbytes' := (Generator.hasBytes_generate hgenerate').2 hbytes
  rw [encode, hbytes'.faultFrom?_eq_none] at hencode'
  cases hencode'

/-! ## One conversion -/

def LeadsTo (fs : FileSystem) (outcome : Outcome) (location : Location) : Prop :=
  ∃ path, outcome.output = some path ∧ fs.locate path = .ok location

/-- What is there of a component that was created: its output leads to a location with the bytes of
the component for the source as it was before. -/
structure Leaves (c : Converter) (before after : FileSystem) (outcome : Outcome)
    (location : Location) : Prop where
  leads : LeadsTo after outcome location
  content : ∃ stem bytes encoded, outcome.source.name = stem ++ svgEnding ∧
    before.read outcome.source = .ok bytes ∧
    c.componentBytes (CodeText.shown stem) bytes = .ok encoded ∧
    after.get? location = some (.file encoded)

/-- What a conversion does to the files, by its outcome. A component that was created is all that
changed; otherwise nothing changed, unless a component without bytes was begun. -/
structure Turns (c : Converter) (before after : FileSystem) (outcome : Outcome) : Prop where
  retains : Retains svgEnding before after
  created : saysCreated outcome → c.Writable ∧ ∃ location, c.Leaves before after outcome location ∧
    ∀ place, place ≠ location → before.StaysAt after place
  other : saysCreated outcome = false → c.Writable → ∀ place, before.StaysAt after place

theorem svgEnding_ascii : ∀ letter ∈ ['.', 's', 'v', 'g'], letter.toNat < 0x80 := by
  simp

theorem staysAt_of_addsDirectories {before after : FileSystem} {allowed : Location → Prop}
    (h : before.AddsDirectories after allowed) (place : Location) : before.StaysAt after place :=
  (h place).imp_right fun hadded => ⟨hadded.1, hadded.2.1⟩

theorem retains_of_grows {ending : CodeText} {before after : FileSystem}
    (h : before.Grows after) : Retains ending before after :=
  fun place entry hentry _ => h place entry hentry

theorem Turns.of_not_created {before after : FileSystem} {outcome : Outcome}
    (hretains : Retains svgEnding before after) (hreport : saysCreated outcome = false)
    (hstays : c.Writable → ∀ place, before.StaysAt after place) : c.Turns before after outcome where
  retains := hretains
  created := by
    intro hcreated
    rw [hreport] at hcreated
    cases hcreated
  other := fun _ => hstays

/-- In a run, a conversion always has an outcome, and **one place changes or none**. -/
theorem convertOrReport_turns {source : Path} {w after : Workspace}
    {result : Except Fault Outcome} (hname : ¬ svgEnding <:+ (c.outputPath source).name)
    (h : (c.convertOrReport source).perform w = (result, after)) :
    ∃ outcome, result = .ok outcome ∧ outcome.source = source ∧
      c.Turns w.files after.files outcome := by
  rw [convertOrReport, perform_tryCatch] at h
  rcases hfirst : (c.convertFile source).perform w with ⟨fault | outcome, between⟩
  · -- A fault becomes an error, which changes the log only.
    simp only [hfirst, perform_bind, perform_note, perform_pure] at h
    obtain ⟨rfl, rfl⟩ := Prod.mk.inj h
    refine ⟨_, rfl, rfl, ?_⟩
    cases effect_convertFile hfirst with
    | failed fault adds =>
        exact .of_not_created (retains_of_grows adds.grows) rfl
          fun _ => staysAt_of_addsDirectories adds
    | broken fault made bytes left permitted adds content written =>
        refine .of_not_created (made_write_retains svgEnding_ascii hname adds written) rfl ?_
        intro hwritable
        exact absurd content (hwritable _ bytes fault)
  · rw [hfirst] at h
    obtain ⟨rfl, rfl⟩ := Prod.mk.inj h
    refine ⟨outcome, rfl, ?_⟩
    cases effect_convertFile hfirst with
    | skipped graphic warnings found same =>
        rw [same]
        exact ⟨rfl, .of_not_created (.refl _ _) rfl fun _ => .refl _⟩
    | created graphic warnings made bytes encoded permitted adds named read content written =>
        have hretains : Retains svgEnding w.files between.files :=
          made_write_retains svgEnding_ascii hname adds written
        obtain ⟨location, -, hlocate, hfile, -, hothers⟩ := made_write_effect adds written
        obtain ⟨stem, hstem, hbase⟩ := exists_stem named
        rw [hbase] at content
        have hreport : saysCreated (c.outcomeOf source graphic warnings .created) = true := rfl
        refine ⟨rfl, hretains, fun _ => ⟨writable_of_componentBytes content, location, ?_, ?_⟩, ?_⟩
        · exact ⟨⟨_, rfl, hlocate⟩, stem, bytes, encoded, hstem, read, content, hfile⟩
        · intro place hne
          exact (hothers place hne).imp_right fun hadded => ⟨hadded.1, hadded.2.1⟩
        · intro hfalse
          rw [hreport] at hfalse
          cases hfalse

/-! ## The run -/

/-- What is at a place when a run has come to its end: the component of the last outcome that was
reported as created there, or else what was there before. -/
def Ends (c : Converter) (before start after : FileSystem) (outcomes : List Outcome)
    (place : Location) : Prop :=
  (∃ front last behind, outcomes = front ++ last :: behind ∧ saysCreated last ∧
    c.Leaves before after last place ∧
    ∀ other ∈ behind, saysCreated other → ¬ LeadsTo after other place) ∨
  (∀ other ∈ outcomes, saysCreated other → ¬ LeadsTo after other place) ∧ start.StaysAt after place

theorem LeadsTo.unique {fs : FileSystem} {outcome : Outcome} {place other : Location}
    (h : LeadsTo fs outcome place) (h' : LeadsTo fs outcome other) : place = other := by
  obtain ⟨path, hpath, hplace⟩ := h
  obtain ⟨path', hpath', hother⟩ := h'
  rw [hpath, Option.some.injEq] at hpath'
  rw [← hpath', hplace, Except.ok.injEq] at hother
  exact hother

theorem LeadsTo.retains {ending : CodeText} {before after : FileSystem} {outcome : Outcome}
    {place : Location} (h : LeadsTo before outcome place) (hretains : Retains ending before after) :
    LeadsTo after outcome place := by
  obtain ⟨path, hpath, hplace⟩ := h
  exact ⟨path, hpath, hretains.locate hplace⟩

/-- What a conversion leaves is what the run leaves when nothing changes there any more, and its
source was read as it was when the run began. -/
theorem Leaves.of_run {before start between after : FileSystem} {outcome : Outcome}
    {location : Location} {directory : Path} {names : List CodeText}
    (h : c.Leaves start between outcome location)
    (hfound : before.Found directory outcome.source names) (hbefore : Retains svgEnding before start)
    (hretains : Retains svgEnding between after) (hstays : between.StaysAt after location) :
    c.Leaves before after outcome location := by
  obtain ⟨stem, bytes, encoded, hname, hread, hcontent, hthere⟩ := h.content
  have hending : svgEnding <:+ outcome.source.name := hname ▸ List.suffix_append stem svgEnding
  exact ⟨h.leads.retains hretains, stem, bytes, encoded, hname,
    hfound.read_of_retains hending hbefore hread, hcontent, hstays.get?_eq hthere⟩

/-- The step of the run: a conversion, and what the rest of the run ends with. -/
theorem Ends.cons {before start between after : FileSystem} {outcome : Outcome}
    {outcomes : List Outcome} {place : Location} {directory : Path} {names : List CodeText}
    (hfound : before.Found directory outcome.source names) (hbefore : Retains svgEnding before start)
    (hturns : c.Turns start between outcome) (hretains : Retains svgEnding between after)
    (hwritable : c.Writable) (h : c.Ends before between after outcomes place) :
    c.Ends before start after (outcome :: outcomes) place := by
  rcases h with ⟨front, last, behind, rfl, hlast⟩ | ⟨hnone, hstays⟩
  · exact Or.inl ⟨outcome :: front, last, behind, rfl, hlast⟩
  · cases hreport : saysCreated outcome with
    | false =>
        refine Or.inr ⟨?_, (hturns.other hreport hwritable place).trans hstays⟩
        intro other hother hcreated
        rcases List.mem_cons.1 hother with rfl | hother
        · rw [hreport] at hcreated
          cases hcreated
        · exact hnone other hother hcreated
    | true =>
        obtain ⟨-, location, hleaves, hothers⟩ := hturns.created hreport
        by_cases hplace : place = location
        · -- Nothing was created here later, so this component is the one that stays.
          subst hplace
          exact Or.inl ⟨[], outcome, outcomes, rfl, hreport,
            hleaves.of_run hfound hbefore hretains hstays, hnone⟩
        · refine Or.inr ⟨?_, (hothers place hplace).trans hstays⟩
          intro other hother hcreated hleads
          rcases List.mem_cons.1 hother with rfl | hother
          · exact hplace (hleads.unique (hleaves.leads.retains hretains))
          · exact hnone other hother hcreated hleads

/-- **In a run, the last component that was created at a place is the one that is there.** -/
theorem run_ends {before : FileSystem} {sources : List Path}
    (hfound : ∀ source ∈ sources, ∃ directory names, before.Found directory source names)
    (hnames : ∀ source ∈ sources, ¬ svgEnding <:+ (c.outputPath source).name)
    {w after : Workspace} {result : Except Fault (List Outcome)}
    (h : (sources.mapM c.convertOrReport).perform w = (result, after))
    (hbefore : Retains svgEnding before w.files) :
    ∃ outcomes, result = .ok outcomes ∧ outcomes.map Outcome.source = sources ∧
      Retains svgEnding w.files after.files ∧
      (∀ outcome ∈ outcomes, saysCreated outcome →
        c.Writable ∧ ∃ location, LeadsTo after.files outcome location) ∧
      (c.Writable → ∀ place, c.Ends before w.files after.files outcomes place) := by
  induction sources generalizing w after result with
  | nil =>
      rw [List.mapM_nil, perform_pure] at h
      obtain ⟨rfl, rfl⟩ := Prod.mk.inj h
      refine ⟨[], rfl, rfl, .refl _ _, by simp, ?_⟩
      intro _ place
      exact Or.inr ⟨by simp, .refl _ _⟩
  | cons source sources ih =>
      rw [List.mapM_cons, perform_bind] at h
      rcases hfirst : (c.convertOrReport source).perform w with ⟨first, between⟩
      obtain ⟨outcome, rfl, hsource, hturns⟩ :=
        convertOrReport_turns (hnames source List.mem_cons_self) hfirst
      simp only [hfirst, perform_bind] at h
      rcases hrest : (sources.mapM c.convertOrReport).perform between with ⟨rest, behind⟩
      obtain ⟨outcomes, rfl, hsources, hretains, hcreated, hends⟩ := ih
        (fun other hother => hfound other (List.mem_cons_of_mem _ hother))
        (fun other hother => hnames other (List.mem_cons_of_mem _ hother))
        hrest (hbefore.trans hturns.retains)
      simp only [hrest, perform_pure] at h
      obtain ⟨rfl, rfl⟩ := Prod.mk.inj h
      refine ⟨outcome :: outcomes, rfl, ?_, hturns.retains.trans hretains, ?_, ?_⟩
      · rw [List.map_cons, hsource, hsources]
      · intro other hother hreport
        rcases List.mem_cons.1 hother with rfl | hother
        · obtain ⟨hwritable, location, hleaves, -⟩ := hturns.created hreport
          exact ⟨hwritable, location, hleaves.leads.retains hretains⟩
        · exact hcreated other hother hreport
      · -- The later conversions decide; if none comes to the place, the turn of this one does.
        intro hwritable place
        obtain ⟨directory, names, hnamed⟩ := hfound source List.mem_cons_self
        rw [← hsource] at hnamed
        exact (hends hwritable place).cons hnamed hbefore hturns hretains hwritable

/-- A run over a directory that gives rows was a run over the sources in the directory. -/
theorem exists_run_of_convertDirectory {directory : Path} {recursive : Bool} {w after : Workspace}
    {rows : List Row} (h : (c.convertDirectory directory recursive).perform w = (.ok rows, after)) :
    ∃ noted outcomes, Alike w noted ∧
      ((sourcesIn w.files directory recursive).mapM c.convertOrReport).perform noted =
        (.ok outcomes, after) ∧ outcomes.mapM Outcome.row = .ok rows := by
  by_cases hsearch : Searchable c.room.searching w.files directory recursive
  · rw [perform_convertDirectory hsearch] at h
    obtain ⟨outcomes, between, hrun, hrows⟩ := perform_bind_eq_ok h
    obtain ⟨hmap, rfl⟩ := perform_lift_eq_ok hrows
    refine ⟨_, outcomes, ?_, hrun, hmap⟩
    exact ⟨rfl, rfl, rfl⟩
  · obtain ⟨fault, hrefused⟩ := perform_convertDirectory_refused hsearch
    rw [hrefused c rfl] at h
    cases h

/-- **What was created is only lost to what was created later.** When a run over a directory is
over, the output of every outcome that was reported as created leads to a location with the
component of the last one that was reported as created there, from its source as it was when the run
began. Unless a later one leads there, that is the component of the outcome itself. -/
theorem convertDirectory_last (c : Converter) (directory : Path) (recursive : Bool) (w : Workspace)
    (hnames : ∀ source ∈ sourcesIn w.files directory recursive,
      ¬ svgEnding <:+ (c.outputPath source).name)
    {rows : List Row} {after : Workspace}
    (h : (c.convertDirectory directory recursive).perform w = (.ok rows, after)) :
    ∃ outcomes : List Outcome, outcomes.mapM Outcome.row = .ok rows ∧
      outcomes.map Outcome.source = sourcesIn w.files directory recursive ∧
      ∀ front outcome behind, outcomes = front ++ outcome :: behind → saysCreated outcome →
        ∃ location, LeadsTo after.files outcome location ∧
          (∃ passed last rest, outcome :: behind = passed ++ last :: rest ∧ saysCreated last ∧
            c.Leaves w.files after.files last location) ∧
          ((∀ other ∈ behind, saysCreated other → ¬ LeadsTo after.files other location) →
            c.Leaves w.files after.files outcome location) := by
  obtain ⟨noted, outcomes, halike, hrun, hrows⟩ := exists_run_of_convertDirectory h
  have hstart : Retains svgEnding w.files noted.files := by
    rw [halike.files]
    exact .refl _ _
  obtain ⟨_, houtcomes, hsources, -, hcreated, hends⟩ := run_ends
    (fun source hsource => ⟨directory, found_of_mem_sourcesIn hsource⟩) hnames hrun hstart
  cases houtcomes
  refine ⟨outcomes, hrows, hsources, ?_⟩
  rintro front outcome behind rfl hreport
  obtain ⟨hwritable, location, hleads⟩ := hcreated outcome (by simp) hreport
  refine ⟨location, hleads, ?_⟩
  rcases hends hwritable location with ⟨before, last, rest, hsplit, hlast, hleaves, hlater⟩ | ⟨hno, -⟩
  · -- The outcome is not behind the last one, since it leads to the same location.
    have hbehind : outcome ∉ rest := fun hmem => hlater outcome hmem hreport hleads
    obtain ⟨passed, hpassed⟩ : ∃ passed, outcome :: behind = passed ++ last :: rest := by
      rcases List.append_eq_append_iff.1 hsplit with ⟨more, -, hmore⟩ | ⟨more, -, hmore⟩
      · exact ⟨more, hmore⟩
      · cases more with
        | nil => exact ⟨[], hmore.symm⟩
        | cons first more =>
            rw [List.cons_append, List.cons.injEq] at hmore
            exact absurd (hmore.2 ▸ by simp) hbehind
    refine ⟨⟨passed, last, rest, hpassed, hlast, hleaves⟩, ?_⟩
    intro hnone
    cases passed with
    | nil =>
        rw [List.nil_append, List.cons.injEq] at hpassed
        rw [hpassed.1]
        exact hleaves
    | cons first passed =>
        rw [List.cons_append, List.cons.injEq] at hpassed
        exact absurd hleaves.leads (hnone last (hpassed.2 ▸ by simp) hlast)
  · exact absurd hleads (hno outcome (by simp) hreport)

/-! ## Colliding names -/

/-- The converter that gathers components, with leave to replace them. -/
def replacingConverter : Converter :=
  { gatheringConverter with overwrite := true }

/-- Its run over two icons whose names lead to the same component. -/
def replacingRun : Except Fault (List Row) × Workspace :=
  (replacingConverter.convertDirectory (Path.ofText "in") false).perform { files := collidingIcons }

def secondComponent : Except Fault (List UInt8) :=
  replacingConverter.componentBytes "a_b"
    (Text.Utf8.encode "<svg viewBox=\"0 0 2 2\"><g/></svg>".toList)

theorem rows_replacingRun :
    replacingRun.1.toOption.map (List.map fun row => (row.source, row.status, row.output)) =
      some [(CodeText.ofString "in/a-b.svg", "created", some (CodeText.ofString "made/ABIcon.tsx")),
        (CodeText.ofString "in/a_b.svg", "created", some (CodeText.ofString "made/ABIcon.tsx"))] ∧
    (replacingRun.2.files.read (Path.ofText "made/ABIcon.tsx")).toOption =
      secondComponent.toOption := by
  have hrun : replacingRun = _ := perform_convertDirectory searchable_collidingIcons
  rw [hrun, sourcesIn_collidingIcons]
  decide +kernel

theorem outputs_replacingRun : ∀ source ∈ sourcesIn collidingIcons (Path.ofText "in") false,
    ¬ svgEnding <:+ (replacingConverter.outputPath source).name := by
  rw [sourcesIn_collidingIcons]
  decide

/-- **Two components that are reported as created can share a file.** Of two icons with one name for
their components, the component of the first is replaced. -/
theorem convertDirectory_replaces_created :
    replacingConverter.overwrite = true ∧ replacingConverter.generator.StaysInFolder ∧
      (∀ source ∈ sourcesIn collidingIcons (Path.ofText "in") false,
        ¬ svgEnding <:+ (replacingConverter.outputPath source).name) ∧
      ∃ rows after first, replacingRun = (.ok rows, after) ∧
        rows.map (fun row => (row.source, row.status, row.output)) =
          [(CodeText.ofString "in/a-b.svg", "created", some (CodeText.ofString "made/ABIcon.tsx")),
            (CodeText.ofString "in/a_b.svg", "created",
              some (CodeText.ofString "made/ABIcon.tsx"))] ∧
        replacingConverter.componentBytes "a-b"
          (Text.Utf8.encode "<svg viewBox=\"0 0 1 1\"><g/></svg>".toList) = .ok first ∧
        after.files.read (Path.ofText "made/ABIcon.tsx") ≠ .ok first := by
  refine ⟨rfl, by decide, outputs_replacingRun, ?_⟩
  obtain ⟨hrows, hread⟩ := rows_replacingRun
  rcases hrun : replacingRun with ⟨result, after⟩
  rw [hrun] at hrows hread
  cases result with
  | error fault => cases hrows
  | ok rows =>
      -- The two components differ in their view boxes.
      have hdiffer : (replacingConverter.componentBytes "a-b"
          (Text.Utf8.encode "<svg viewBox=\"0 0 1 1\"><g/></svg>".toList)).toOption.isSome ∧
          (replacingConverter.componentBytes "a-b"
            (Text.Utf8.encode "<svg viewBox=\"0 0 1 1\"><g/></svg>".toList)).toOption ≠
              secondComponent.toOption := by
        decide +kernel
      cases hfirst : replacingConverter.componentBytes "a-b"
          (Text.Utf8.encode "<svg viewBox=\"0 0 1 1\"><g/></svg>".toList) with
      | error fault =>
          rw [hfirst] at hdiffer
          cases hdiffer.1
      | ok first =>
          refine ⟨rows, after, first, rfl, Option.some.inj hrows, rfl, ?_⟩
          intro hkept
          rw [hfirst, ← hread, hkept] at hdiffer
          exact hdiffer.2 rfl

/-- In the end the file holds the component of the icon that was converted last. -/
theorem convertDirectory_last_replacing :
    (∀ source ∈ sourcesIn collidingIcons (Path.ofText "in") false,
      ¬ svgEnding <:+ (replacingConverter.outputPath source).name) ∧
      ∃ rows after, replacingRun = (.ok rows, after) ∧
        rows.map (fun row => (row.source, row.status, row.output)) =
          [(CodeText.ofString "in/a-b.svg", "created", some (CodeText.ofString "made/ABIcon.tsx")),
            (CodeText.ofString "in/a_b.svg", "created",
              some (CodeText.ofString "made/ABIcon.tsx"))] ∧
        ∃ outcomes : List Outcome, outcomes.mapM Outcome.row = .ok rows ∧
          ∀ front outcome, outcomes = front ++ [outcome] → saysCreated outcome → ∃ location,
            replacingConverter.Leaves collidingIcons after.files outcome location := by
  refine ⟨outputs_replacingRun, ?_⟩
  obtain ⟨hrows, -⟩ := rows_replacingRun
  rcases hrun : replacingRun with ⟨result, after⟩
  rw [hrun] at hrows
  cases result with
  | error fault => cases hrows
  | ok rows =>
      obtain ⟨outcomes, hmap, -, hlast⟩ := convertDirectory_last replacingConverter (Path.ofText "in")
        false { files := collidingIcons } outputs_replacingRun hrun
      refine ⟨rows, after, rfl, Option.some.inj hrows, outcomes, hmap, ?_⟩
      intro front outcome hsplit hreport
      obtain ⟨location, -, -, hown⟩ := hlast front outcome [] hsplit hreport
      exact ⟨location, hown (by simp)⟩

end Converter

end IconForge
