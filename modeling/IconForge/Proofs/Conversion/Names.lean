import IconForge.Conversion.Converter
import IconForge.Proofs.Component.Identifier
import IconForge.Proofs.Files.Walk

set_option autoImplicit false

/-! # Names of sources and components

A source is named by its last part, which ends with the ending of SVG files in front of which the
base name stands (`exists_stem`). A component is named by an identifier and two settings. As long as
these hold no solidus (`StaysInFolder`), the name is a single part of a path or none at all, so the
component is right in the output directory. -/

namespace IconForge

open Text

/-! ## One part of a path -/

namespace Path

theorem ofText_of_no_solidus {text : CodeText} (h : ∀ point ∈ text, point ≠ .char '/') :
    (ofText text).anchor = .workingDirectory ∧ (ofText text).parts = [text].filter isPathPart := by
  have hno : ∀ point ∈ text, CodePoint.isChar '/' point = false :=
    fun point hpoint => decide_eq_false (h point hpoint)
  constructor
  · show anchorOf text = .workingDirectory
    have hnone : text.takeWhile (CodePoint.isChar '/') = [] := by
      cases text with
      | nil => rfl
      | cons first rest =>
          rw [List.takeWhile_cons, hno first List.mem_cons_self]
          rfl
    rw [anchorOf, hnone]
    rfl
  · show (splitAtRuns (CodePoint.isChar '/') text).filter isPathPart = _
    rw [splitAtRuns_of_no_separator hno]

theorem parent_join {p q : Path} {part : CodeText} (hanchor : q.anchor = .workingDirectory)
    (hparts : q.parts = [part]) : (p.join q).parent = p := by
  apply ext
  · rw [FileSystem.parent_anchor, join, hanchor]
  · rw [FileSystem.parent_parts, join, hanchor]
    show (p.parts ++ q.parts).dropLast = p.parts
    rw [hparts, List.dropLast_concat]

theorem join_parts {p q : Path} (hanchor : q.anchor = .workingDirectory) :
    (p.join q).parts = p.parts ++ q.parts := by
  rw [join, hanchor]

/-- The text of a path ends with its last part, behind a solidus or at the front. -/
theorem text_eq_append_last {path : Path} {front : List CodeText} {last : CodeText}
    (hparts : path.parts = front ++ [last]) :
    ∃ lead, path.text = lead ++ last ∧ (lead = [] ∨ lead.getLast? = some (.char '/')) := by
  by_cases hfront : front = []
  · rw [hfront, List.nil_append] at hparts
    rw [text, hparts]
    cases path.anchor with
    | workingDirectory => exact ⟨[], by simp [List.intercalate], Or.inl rfl⟩
    | root => exact ⟨[.char '/'], by simp [List.intercalate], Or.inr rfl⟩
    | doubleRoot => exact ⟨[.char '/', .char '/'], by simp [List.intercalate], Or.inr rfl⟩
  · refine ⟨path.parent.text ++ [.char '/'], ?_, Or.inr ?_⟩
    · rw [FileSystem.text_eq_parent_append hparts hfront, List.append_assoc]
      rfl
    · rw [List.getLast?_concat]

end Path

/-! ## Sources -/

namespace Converter

/-- **The name of a source is its base name with the ending of SVG files.** -/
theorem exists_stem {source : Path} (h : svgEnding.isSuffixOf source.text) :
    ∃ stem, source.name = stem ++ svgEnding ∧ baseName source = CodeText.shown stem := by
  rw [List.isSuffixOf_iff_suffix] at h
  -- A path without parts has none of the letters of the ending.
  have hname : svgEnding <:+ source.name := by
    rcases List.eq_nil_or_concat source.parts with hnil | ⟨front, last, hparts⟩
    · exfalso
      have hs : CodePoint.char 's' ∈ source.text := h.subset (by decide)
      rw [Path.text, hnil] at hs
      revert hs
      cases source.anchor <;> simp [List.intercalate]
    · rw [List.concat_eq_append] at hparts
      have hlast : source.name = last := by
        rw [Path.name, hparts, List.getLastD_concat]
      obtain ⟨lead, htext, hlead⟩ := Path.text_eq_append_last hparts
      obtain ⟨before, hbefore⟩ := h
      rw [htext] at hbefore
      rw [hlast]
      rcases List.append_eq_append_iff.1 hbefore with ⟨more, hmore, hending⟩ | ⟨more, -, hending⟩
      · rcases List.eq_nil_or_concat more with rfl | ⟨init, point, rfl⟩
        · rw [hending, List.nil_append]
        · -- The ending would hold the solidus in front of the last part.
          exfalso
          rw [hmore, List.concat_eq_append, ← List.append_assoc, List.getLast?_concat] at hlead
          rcases hlead with hnil | hsolidus
          · simp at hnil
          · have hmem : CodePoint.char '/' ∈ svgEnding := by
              rw [hending, List.concat_eq_append, Option.some.inj hsolidus]
              simp
            exact absurd hmem (by decide)
      · exact ⟨more, hending.symm⟩
  obtain ⟨stem, hstem⟩ := hname
  refine ⟨stem, hstem.symm, ?_⟩
  rw [baseName, ← hstem, List.length_append, Nat.add_sub_cancel, List.take_left]

end Converter

/-! ## Components -/

namespace Generator

/-- Whether the names of component files hold no solidus, whatever the icon. -/
def StaysInFolder (g : Generator) : Prop :=
  ∀ point ∈ g.suffix ++ g.extension, point ≠ .char '/'

instance (g : Generator) : Decidable g.StaysInFolder :=
  inferInstanceAs (Decidable (∀ _ ∈ _, _))

theorem fileName_eq (g : Generator) (base : String) :
    g.fileName base = CodeText.ofString (Component.identifier base) ++
      (g.suffix ++ g.extension) := by
  rw [fileName, componentName, List.append_assoc]

theorem no_solidus_fileName {g : Generator} (h : g.StaysInFolder) (base : String) :
    ∀ point ∈ g.fileName base, point ≠ .char '/' := by
  intro point hpoint
  rw [fileName_eq, List.mem_append] at hpoint
  rcases hpoint with hidentifier | hsettings
  · obtain ⟨c, hc, rfl⟩ := List.mem_map.1 hidentifier
    have hletter := Component.isAsciiAlphanumeric_of_mem_identifier hc
    intro heq
    rw [CodePoint.char.inj heq] at hletter
    exact absurd hletter (by decide)
  · exact h point hsettings

end Generator

namespace Converter

/-- The directory that components are written to. -/
def folder (c : Converter) (source : Path) : Path :=
  c.outputDirectory.getD source.parent

theorem outputPath_parts {c : Converter} (h : c.generator.StaysInFolder) (source : Path) :
    (c.outputPath source).parts =
      (c.folder source).parts ++ [c.generator.fileName (baseName source)].filter isPathPart := by
  obtain ⟨hanchor, hparts⟩ :=
    Path.ofText_of_no_solidus (Generator.no_solidus_fileName h (baseName source))
  rw [outputPath, Path.join_parts hanchor, hparts]
  rfl

/-- A name that is a part of a path names a file right in the folder. -/
theorem outputPath_parent {c : Converter} (h : c.generator.StaysInFolder) {source : Path}
    (hpart : isPathPart (c.generator.fileName (baseName source))) :
    (c.outputPath source).parent = c.folder source := by
  obtain ⟨hanchor, hparts⟩ :=
    Path.ofText_of_no_solidus (Generator.no_solidus_fileName h (baseName source))
  rw [List.filter_cons_of_pos hpart, List.filter_nil] at hparts
  exact Path.parent_join hanchor hparts

theorem outputPath_eq_folder {c : Converter} (h : c.generator.StaysInFolder) {source : Path}
    (hpart : isPathPart (c.generator.fileName (baseName source)) = false) :
    c.outputPath source = c.folder source := by
  obtain ⟨hanchor, hparts⟩ :=
    Path.ofText_of_no_solidus (Generator.no_solidus_fileName h (baseName source))
  rw [List.filter_cons_of_neg (by rw [hpart]; decide), List.filter_nil] at hparts
  apply Path.ext
  · rw [outputPath, Path.join, hanchor]
    rfl
  · rw [outputPath, Path.join_parts hanchor, hparts, List.append_nil]
    rfl

end Converter

end IconForge
