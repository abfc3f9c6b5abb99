import Mathlib
import IconForge.Component.Identifier

set_option autoImplicit false

/-! # The words of a base name

A base name is cut at whole runs of separators, which leaves an empty piece where a run stands at
one of its ends. An empty piece adds nothing to an identifier, so the identifier depends on the
*words* alone: the pieces between any two separators that are not empty
(`identifierCharacters_eq`). Words split at every separator (`words_append_cons`), and all that is
said here about identifiers follows from this one equation: a run of separators, wherever it stands
and whatever it is made of, turns into nothing but a border between two identifiers
(`identifier_append_run`). -/

namespace IconForge

namespace Text

section Pieces

variable {α : Type} {separator : α → Bool}

/-- Cutting at runs and cutting at single separators begin with the same piece, and the other pieces
differ in empty ones only. -/
theorem exists_splitAtRuns_splitOnP (separator : α → Bool) (cs : List α) :
    ∃ piece pieces others, splitAtRuns separator cs = piece :: pieces ∧
      cs.splitOnP separator = piece :: others ∧
        pieces.filter (!·.isEmpty) = others.filter (!·.isEmpty) := by
  induction cs with
  | nil => exact ⟨[], [], [], rfl, rfl, rfl⟩
  | cons c rest ih =>
      obtain ⟨piece, pieces, others, hruns, hsplit, hsame⟩ := ih
      rw [splitAtRuns.eq_def, List.splitOnP_cons_eq_if_modifyHead, hsplit]
      by_cases hc : separator c
      · simp only [hc, if_true]
        cases rest with
        | nil =>
            cases hruns
            exact ⟨[], _, _, rfl, rfl, by rw [List.filter_cons, List.filter_cons, hsame]⟩
        | cons d rest =>
            by_cases hd : separator d
            · -- The run goes on, so the next piece is the empty one at its end.
              rw [List.splitOnP_cons_eq_if_modifyHead, if_pos hd] at hsplit
              cases hsplit
              simp only [hd, if_true]
              exact ⟨[], pieces, _, hruns, rfl, hsame⟩
            · simp only [hd, Bool.false_eq_true, if_false, hruns]
              exact ⟨[], _, _, rfl, rfl, by rw [List.filter_cons, List.filter_cons, hsame]⟩
      · simp only [hc, Bool.false_eq_true, if_false, hruns, List.modifyHead_cons]
        exact ⟨_, _, _, rfl, rfl, hsame⟩

/-- **Runs do not matter** for the pieces that are not empty. -/
theorem filter_splitAtRuns (separator : α → Bool) (cs : List α) :
    (splitAtRuns separator cs).filter (!·.isEmpty) =
      (cs.splitOnP separator).filter (!·.isEmpty) := by
  obtain ⟨piece, pieces, others, hruns, hsplit, hsame⟩ := exists_splitAtRuns_splitOnP separator cs
  rw [hruns, hsplit, List.filter_cons, List.filter_cons, hsame]

end Pieces

end Text

namespace Component

open Text

/-! ## Words -/

/-- The words of a name: what stands between its separators, without the empty pieces. -/
def words (name : List Char) : List (List Char) :=
  (name.splitOnP isSeparator).filter (!·.isEmpty)

theorem words_nil : words [] = [] := by
  simp [words, List.splitOnP_nil]

/-- **Words split at a separator.** -/
theorem words_append_cons {c : Char} (hc : isSeparator c) (front rest : List Char) :
    words (front ++ c :: rest) = words front ++ words rest := by
  rw [words, List.splitOnP_append_cons front rest hc, List.filter_append, words, words]

theorem words_append_run {run : List Char} (hne : run ≠ []) (hrun : ∀ c ∈ run, isSeparator c)
    (front rest : List Char) : words (front ++ run ++ rest) = words front ++ words rest := by
  induction run generalizing front with
  | nil => exact absurd rfl hne
  | cons c run ih =>
      have hc : isSeparator c := hrun c List.mem_cons_self
      rw [List.append_assoc, List.cons_append, words_append_cons hc]
      cases run with
      | nil => rfl
      | cons d run =>
          have htail := ih (List.cons_ne_nil d run)
            (fun e he => hrun e (List.mem_cons_of_mem c he)) []
          rw [List.nil_append, words_nil, List.nil_append] at htail
          rw [htail]

/-- A text without separators is a word of its own, unless it is empty. -/
theorem words_of_no_separator {word : List Char} (hne : word ≠ [])
    (h : ∀ c ∈ word, isSeparator c = false) : words word = [word] := by
  have hword : word.isEmpty = false := by
    rwa [List.isEmpty_eq_false_iff]
  rw [words, List.splitOnP_eq_singleton h, List.filter_cons_of_pos (by rw [hword]; rfl),
    List.filter_nil]

theorem of_mem_words {name word : List Char} (h : word ∈ words name) :
    word ≠ [] ∧ ∀ c ∈ word, isSeparator c = false := by
  obtain ⟨hmem, hne⟩ := List.mem_filter.1 h
  refine ⟨by simpa using hne, ?_⟩
  clear h hne
  induction name generalizing word with
  | nil =>
      rw [List.splitOnP_nil, List.mem_singleton] at hmem
      rw [hmem]
      exact nofun
  | cons c name ih =>
      rw [List.splitOnP_cons_eq_if_modifyHead] at hmem
      split at hmem
      · rcases List.mem_cons.1 hmem with rfl | hmem
        · exact nofun
        · exact ih hmem
      · next hc =>
        -- The character goes to the first piece of the rest.
        obtain ⟨piece, pieces, hsplit⟩ :=
          List.exists_cons_of_ne_nil (List.splitOnP_ne_nil isSeparator name)
        rw [hsplit] at hmem ih
        rcases List.mem_cons.1 hmem with rfl | hmem
        · intro d hd
          rcases List.mem_cons.1 hd with rfl | hd
          · simpa using hc
          · exact ih List.mem_cons_self d hd
        · exact ih (List.mem_cons_of_mem piece hmem)

/-! ## Identifiers -/

/-- **An identifier is made of the words of a name**, each with a capital letter. -/
theorem identifierCharacters_eq (name : List Char) :
    identifierCharacters name = (words name).flatMap capitalize := by
  have hnonempty : ∀ pieces : List (List Char),
      (pieces.filter (!·.isEmpty)).flatMap capitalize = pieces.flatMap capitalize := by
    intro pieces
    induction pieces with
    | nil => rfl
    | cons piece pieces ih =>
        cases piece with
        | nil => exact ih
        | cons c piece =>
            rw [List.filter_cons_of_pos (by rfl), List.flatMap_cons, List.flatMap_cons, ih]
  rw [identifierCharacters, ← hnonempty, filter_splitAtRuns, words]

theorem identifierCharacters_of_mem_words {name word : List Char} (h : word ∈ words name) :
    identifierCharacters word = capitalize word := by
  obtain ⟨hne, hword⟩ := of_mem_words h
  rw [identifierCharacters_eq, words_of_no_separator hne hword, List.flatMap_singleton]

/-- A text of separators, at least one. -/
def IsSeparatorRun (run : String) : Prop :=
  run ≠ "" ∧ ∀ c ∈ run.toList, isSeparator c

section Runs

variable {run : String}

/-- **A run of separators is a border between two identifiers.** -/
theorem identifier_append_run (hrun : IsSeparatorRun run) (front rest : String) :
    identifier (front ++ run ++ rest) = identifier front ++ identifier rest := by
  have hne : run.toList ≠ [] := by
    intro hnil
    exact hrun.1 (String.toList_injective hnil)
  rw [identifier, identifier, identifier, ← String.ofList_append, String.toList_append,
    String.toList_append, identifierCharacters_eq, words_append_run hne hrun.2,
    List.flatMap_append, ← identifierCharacters_eq, ← identifierCharacters_eq]

theorem identifier_empty : identifier "" = "" := by
  decide

/-- Separators at the front of a name are irrelevant. -/
theorem identifier_run_append (hrun : IsSeparatorRun run) (name : String) :
    identifier (run ++ name) = identifier name := by
  have hborder := identifier_append_run hrun "" name
  rwa [String.empty_append, identifier_empty, String.empty_append] at hborder

theorem identifier_append_separators (hrun : IsSeparatorRun run) (name : String) :
    identifier (name ++ run) = identifier name := by
  have hborder := identifier_append_run hrun name ""
  rwa [String.append_empty, identifier_empty, String.append_empty] at hborder

/-- The identifier of a name with any number of parts, each behind its own run of separators. -/
theorem identifier_join (parts : List (String × String))
    (hparts : ∀ part ∈ parts, IsSeparatorRun part.1) (front : String) :
    identifier (front ++ String.join (parts.map fun part => part.1 ++ part.2)) =
      identifier front ++ String.join (parts.map fun part => identifier part.2) := by
  induction parts generalizing front with
  | nil => simp [String.join]
  | cons part parts ih =>
      have hpart := hparts part List.mem_cons_self
      have htail := ih (fun other hother => hparts other (List.mem_cons_of_mem part hother))
      -- What stands behind the run of the first part is that part with all others behind it.
      rw [List.map_cons, List.map_cons, String.join_cons, String.join_cons, String.append_assoc,
        ← String.append_assoc, identifier_append_run hpart, htail]

/-- A name has the identifiers of its words, in their order. -/
theorem identifier_eq_join (name : String) :
    identifier name =
      String.join ((words name.toList).map fun word => identifier (String.ofList word)) := by
  apply String.toList_injective
  rw [String.toList_join, List.flatMap_map, identifier, String.toList_ofList,
    identifierCharacters_eq]
  apply List.flatMap_congr
  intro word hword
  rw [identifier, String.toList_ofList, String.toList_ofList,
    identifierCharacters_of_mem_words hword]

end Runs

/-- **Identifiers are read off the words of a name.** For all names and all characters, those with
longer capital or small forms included: a run of separators between two names joins their
identifiers, at the end of a name it is irrelevant, and any other run does the same. So a name with
any number of parts has the identifiers of its parts one behind the other, and every name those of
its words. -/
theorem identifier_homomorphism {run other : String} (hrun : IsSeparatorRun run)
    (hother : IsSeparatorRun other) (front rest : String) :
    identifier (front ++ run ++ rest) = identifier front ++ identifier rest ∧
    identifier (run ++ rest) = identifier rest ∧
    identifier (front ++ run) = identifier front ∧
    identifier (front ++ run ++ rest) = identifier (front ++ other ++ rest) ∧
    (∀ parts : List (String × String), (∀ part ∈ parts, IsSeparatorRun part.1) →
      identifier (front ++ String.join (parts.map fun part => part.1 ++ part.2)) =
        identifier front ++ String.join (parts.map fun part => identifier part.2)) ∧
    identifier front =
      String.join ((words front.toList).map fun word => identifier (String.ofList word)) := by
  refine ⟨identifier_append_run hrun front rest, identifier_run_append hrun rest,
    identifier_append_separators hrun front, ?_,
    fun parts hparts => identifier_join parts hparts front, identifier_eq_join front⟩
  rw [identifier_append_run hrun, identifier_append_run hother]

/-- Two runs between a word with a ligature and one whose capital letter is written with two. -/
theorem identifier_homomorphism_ligature :
    IsSeparatorRun "-_" ∧ IsSeparatorRun " " ∧
      identifier ("ﬁle" ++ "-_" ++ "ßcut.") = "FIleSScut" ∧
      identifier ("ﬁle" ++ " " ++ "ßcut.") = "FIleSScut" := by
  have hrun : IsSeparatorRun "-_" := ⟨by decide, List.all_eq_true.1 (by decide)⟩
  have hother : IsSeparatorRun " " := ⟨by decide, List.all_eq_true.1 (by decide)⟩
  obtain ⟨hborder, -, -, hsame, -⟩ := identifier_homomorphism hrun hother "ﬁle" "ßcut."
  have hnames : identifier "ﬁle" ++ identifier "ßcut." = "FIleSScut" := by
    decide
  rw [hnames] at hborder
  exact ⟨hrun, hother, hborder, hsame ▸ hborder⟩

end Component

end IconForge
