import Mathlib
import IconForge.Proofs.Conversion.Creation
import IconForge.Proofs.Conversion.Saving
import IconForge.Proofs.Text.Decoding

set_option autoImplicit false

/-! # Texts in files

A text is saved whenever its file can be written (`TakesFile`), and what is in the file then are its
bytes in UTF-8 (`saved_of_takesFile`). A file is loaded as a text exactly when its bytes are those
of one, and then with a line feed for each of its line ends (`textOfBytes_eq_ok_iff`). Only loading
changes line ends, so a text comes back as it was but for these (`saveComponent_loadSvg`). -/

namespace IconForge

open IconForge.Action FileSystem Text.Encoding

/-! ## Bytes -/

namespace Text.Encoding

theorem encode_content_eq_ok_iff {text : CodeText} {bytes : List UInt8} :
    encode .content text = .ok bytes ↔ HasBytes text ∧ bytes = text.flatMap pointBytes := by
  have hfault : faultFrom? .content 0 text = none ↔ HasBytes text := by
    rw [faultFrom?_eq_none_iff]
    constructor
    · intro h point hpoint
      cases point with
      | char c => rfl
      | surrogate half => exact absurd (h half hpoint) Bool.false_ne_true
    · intro h half hmem
      exact absurd (h _ hmem) Bool.true_eq_false.mp
  rw [encode]
  cases hwhy : faultFrom? .content 0 text with
  | none => simp [← hfault, hwhy, eq_comm]
  | some fault => simp [← hfault, hwhy]

/-- A text with bytes is one of characters, and its bytes are their UTF-8. -/
theorem exists_chars_of_encode {text : CodeText} {bytes : List UInt8}
    (h : encode .content text = .ok bytes) :
    ∃ cs, text = CodeText.ofChars cs ∧ bytes = Utf8.encode cs := by
  obtain ⟨hbytes, rfl⟩ := encode_content_eq_ok_iff.1 h
  have hchars : text ∈ Set.range (List.map CodePoint.char) := by
    rw [Set.range_list_map]
    intro point hpoint
    cases point with
    | char c => exact ⟨c, rfl⟩
    | surrogate half => exact absurd (hbytes _ hpoint) Bool.true_eq_false.mp
  obtain ⟨cs, rfl⟩ := hchars
  refine ⟨cs, rfl, ?_⟩
  rw [List.flatMap_map]
  rfl

theorem encodeChunks_ofString (s : String) :
    encodeChunks [CodeText.ofString s] = (Utf8.encode s.toList, none) := by
  have hbytes : (CodeText.ofString s).flatMap pointBytes = Utf8.encode s.toList := by
    rw [CodeText.ofString, CodeText.ofChars, List.flatMap_map]
    rfl
  have hencode := encode_content_eq_ok_iff.2 ⟨hasBytes_ofString s, hbytes.symm⟩
  rw [encodeChunks, hencode]
  show (Utf8.encode s.toList ++ [], none) = _
  rw [List.append_nil]

end Text.Encoding

/-! ## Line ends -/

namespace Text

/-- A text in which each carriage return with a line feed behind it is left out. -/
def dropReturns : List Char → List Char
  | [] => []
  | '\r' :: '\n' :: rest => '\n' :: dropReturns rest
  | c :: rest => c :: dropReturns rest

def lineFeedFor (c : Char) : Char :=
  if c = '\r' then '\n' else c

/-- A text with line feeds for its line ends: in the place of each carriage return with a line feed
behind it, and then in the place of each carriage return that is left. -/
def withLineFeeds (text : String) : String :=
  String.ofList ((dropReturns text.toList).map lineFeedFor)

/-- Line ends are replaced in two passes or in one. -/
theorem map_dropReturns (cs : List Char) :
    (dropReturns cs).map lineFeedFor = toLineFeeds cs := by
  fun_induction toLineFeeds cs with
  | case1 => rfl
  | case2 rest ih => rw [dropReturns, List.map_cons, ih]; rfl
  | case3 rest hfeed ih =>
      have hdrop : dropReturns ('\r' :: rest) = '\r' :: dropReturns rest :=
        dropReturns.eq_3 '\r' rest fun _ _ => hfeed _
      rw [hdrop, List.map_cons, ih]
      rfl
  | case4 c rest hfeed hreturn ih =>
      have hdrop : dropReturns (c :: rest) = c :: dropReturns rest :=
        dropReturns.eq_3 c rest hfeed
      rw [hdrop, List.map_cons, ih, lineFeedFor, if_neg hreturn]

theorem toLineFeeds_eq_self {cs : List Char} (h : '\r' ∉ cs) : toLineFeeds cs = cs := by
  induction cs with
  | nil => rfl
  | cons c cs ih =>
      rw [List.mem_cons, not_or] at h
      have hc : c ≠ '\r' := Ne.symm h.1
      rw [toLineFeeds.eq_4 c cs (fun _ heq => absurd heq hc) hc, ih h.2]

theorem withLineFeeds_eq_self {text : String} (h : '\r' ∉ text.toList) :
    withLineFeeds text = text := by
  rw [withLineFeeds, map_dropReturns, toLineFeeds_eq_self h, String.ofList_toList]

end Text

/-! ## Files -/

namespace FileSystem

/-- Whether a file is written at a path, behind the directories above it. -/
def WritesFile (path : Path) (bytes : List UInt8) (before after : FileSystem) : Prop :=
  ∃ made, before.AddsDirectories made (Passes path.parent) ∧ made.write path bytes = .ok after

/-- Whether a file can be written at a path once the directories above it are made, as there is room
for it. -/
def TakesFile (room : Nat) (fs : FileSystem) (path : Path) : Prop :=
  (fs.makeDirectories room path.parent).1.isOk ∧
    ((fs.makeDirectories room path.parent).2.write path []).isOk

instance (room : Nat) (fs : FileSystem) (path : Path) : Decidable (fs.TakesFile room path) :=
  inferInstanceAs (Decidable (_ ∧ _))

theorem TakesFile.exists_write {room : Nat} {fs : FileSystem} {path : Path}
    (h : fs.TakesFile room path) :
    ∃ made after, fs.makeDirectories room path.parent = (.ok (), made) ∧
      made.write path [] = .ok after := by
  rw [TakesFile] at h
  generalize fs.makeDirectories room path.parent = result at h ⊢
  obtain ⟨hmake, hwrite⟩ := h
  rcases result with ⟨fault | done, made⟩
  · cases hmake
  · cases hfile : made.write path [] with
    | error fault =>
        dsimp only at hwrite
        rw [hfile] at hwrite
        cases hwrite
    | ok after => exact ⟨made, after, rfl, hfile⟩

/-- Whether a file can be written does not depend on its bytes. -/
theorem exists_write {fs after : FileSystem} {path : Path} {bytes : List UInt8}
    (h : fs.write path bytes = .ok after) (bytes' : List UInt8) :
    ∃ after', fs.write path bytes' = .ok after' := by
  rw [write] at h ⊢
  cases hlocate : fs.locate path with
  | error fault =>
      rw [hlocate] at h
      cases h
  | ok location =>
      simp only [hlocate] at h ⊢
      by_cases hroom : fs.HasRoom location
      · rw [dif_pos hroom]
        exact ⟨_, rfl⟩
      · rw [dif_neg hroom] at h
        cases h

namespace WritesFile

variable {path : Path} {bytes : List UInt8} {before after : FileSystem}

theorem read (h : WritesFile path bytes before after) : after.read path = .ok bytes := by
  obtain ⟨made, hadds, hwrite⟩ := h
  obtain ⟨location, -, hlocate, hfile, -⟩ := made_write_effect hadds hwrite
  rw [FileSystem.read, hlocate]
  simp only [hfile]

theorem existsAt (h : WritesFile path bytes before after) : after.existsAt path = .ok true := by
  obtain ⟨made, hadds, hwrite⟩ := h
  obtain ⟨location, -, hlocate, hfile, -⟩ := made_write_effect hadds hwrite
  exact existsAt_eq_true_iff.2 ⟨location, _, hlocate, hfile⟩

end WritesFile

end FileSystem

namespace Storage

/-! ## Saving -/

section

variable {room : Nat} {path : Path} {fs : FileSystem}

theorem writesFile_of_saved {text : String} (h : (saved room text path fs).1 = .ok ()) :
    WritesFile path (Text.Utf8.encode text.toList) fs (saved room text path fs).2 := by
  have hsaving := saving_saved room text path fs
  generalize saved room text path fs = result at hsaving h ⊢
  cases hsaving with
  | unmade fault made makes => cases h
  | unwritten fault made makes writes => cases h
  | written made left makes writes =>
      refine ⟨made, ?_, ?_⟩
      · have hadds := fs.makeDirectories_adds room path.parent
        rwa [makes] at hadds
      · rw [← writes, encodeChunks_ofString]

theorem saved_of_takesFile (h : fs.TakesFile room path) (text : String) :
    (saved room text path fs).1 = .ok () := by
  obtain ⟨made, _, hmake, hwrite⟩ := h.exists_write
  obtain ⟨left, hleft⟩ := exists_write hwrite (encodeChunks [CodeText.ofString text]).1
  rw [saved_of_written hmake hleft, completion, encodeChunks_ofString]

end

/-! ## Loading -/

/-- Bytes are loaded as a text exactly when they are those of one. -/
theorem textOfBytes_eq_ok_iff {bytes : List UInt8} {text : String} :
    textOfBytes bytes = .ok text ↔
      ∃ cs, Text.Utf8.IsText bytes cs ∧ text = Text.withLineFeeds (String.ofList cs) := by
  have hfeeds : ∀ cs : List Char, Text.withLineFeeds (String.ofList cs) =
      String.ofList (Text.toLineFeeds cs) := by
    intro cs
    rw [Text.withLineFeeds, String.toList_ofList, Text.map_dropReturns]
  simp only [← Text.Utf8.decode_eq_ok_iff, hfeeds, textOfBytes]
  cases Text.Utf8.decode bytes with
  | error fault => simp [Except.map]
  | ok cs => simp [Except.map, eq_comm]

theorem loaded_of_read {path : Path} {fs : FileSystem} {bytes : List UInt8}
    (h : fs.read path = .ok bytes) :
    Converter.loaded path fs = (textOfBytes bytes).mapError .decoding := by
  have hexists : fs.existsAt path = .ok true := by
    rw [FileSystem.read] at h
    cases hlocate : fs.locate path with
    | error fault =>
        rw [hlocate] at h
        cases h
    | ok location =>
        cases hentry : fs.get? location with
        | none =>
            simp only [hlocate, hentry] at h
            cases h
        | some entry => exact existsAt_eq_true_iff.2 ⟨location, entry, hlocate, hentry⟩
  rw [Converter.loaded, hexists, h]
  rfl

/-- What is loaded from a file is the text of its bytes. -/
theorem perform_loadSvg {path : Path} {w : Workspace} {bytes : List UInt8}
    (h : w.files.read path = .ok bytes) :
    ((loadSvg path).perform w).1 = (textOfBytes bytes).mapError .decoding ∧
      ((loadSvg path).perform w).2.files = w.files := by
  obtain ⟨hresult, halike⟩ := Converter.reads_loadSvg path w
  rw [hresult, loaded_of_read h]
  exact ⟨rfl, halike.files⟩

/-- **A text that is saved is loaded again** but for its line ends: each carriage return with a line
feed behind it is loaded as a line feed, and so is each other carriage return. **A file is loaded
exactly when its bytes are those of a text**, and no loading changes it. -/
theorem saveComponent_loadSvg (room : Room) (path : Path) (w : Workspace) :
    (w.files.TakesFile room.making path → ∀ text : String,
      ∃ after, (saveComponent room text path true).perform w = (.ok (), after) ∧
        ((loadSvg path).perform after).1 = .ok (Text.withLineFeeds text) ∧
        ('\r' ∉ text.toList → Text.withLineFeeds text = text)) ∧
    ∀ bytes : List UInt8, w.files.read path = .ok bytes →
      (∀ text, ((loadSvg path).perform w).1 = .ok text ↔
        ∃ cs, Text.Utf8.IsText bytes cs ∧ text = Text.withLineFeeds (String.ofList cs)) ∧
      ((¬ ∃ cs, Text.Utf8.IsText bytes cs) →
        ∃ fault, ((loadSvg path).perform w).1 = .error (.decoding fault)) ∧
      ((loadSvg path).perform w).2.files = w.files := by
  constructor
  · intro htakes text
    obtain ⟨after, hperform, hfiles, -, -⟩ := perform_saveComponent room text path w
    have hsaved := saved_of_takesFile htakes text
    have hread := (writesFile_of_saved hsaved).read
    rw [← hfiles] at hread
    rw [hsaved] at hperform
    refine ⟨after, hperform, ?_, Text.withLineFeeds_eq_self⟩
    -- Saving keeps every character; the line ends change in loading.
    have htext : textOfBytes (Text.Utf8.encode text.toList) = .ok (Text.withLineFeeds text) :=
      textOfBytes_eq_ok_iff.2
        ⟨text.toList, Text.Utf8.isText_encode _, by rw [String.ofList_toList]⟩
    rw [(perform_loadSvg hread).1, htext]
    rfl
  · intro bytes hread
    obtain ⟨hresult, hfiles⟩ := perform_loadSvg hread
    rw [hresult]
    refine ⟨fun text => ?_, fun hno => ?_, hfiles⟩
    · rw [← textOfBytes_eq_ok_iff]
      cases textOfBytes bytes with
      | error fault => exact iff_of_false (by rintro ⟨⟩) (by rintro ⟨⟩)
      | ok found =>
          constructor
          · rintro ⟨⟩
            rfl
          · rintro ⟨⟩
            rfl
    · cases htext : textOfBytes bytes with
      | error fault => exact ⟨fault, rfl⟩
      | ok found =>
          obtain ⟨cs, hcs, -⟩ := textOfBytes_eq_ok_iff.1 htext
          exact absurd ⟨cs, hcs⟩ hno

/-- A file with the three bytes that would hold the first surrogate. -/
def surrogateFile : FileSystem where
  entries := [(Location.top.within "a.svg", .file [0xed, 0xa0, 0x80])]
  named := by decide
  nodup := by decide
  rooted := by decide

/-- The file is not loaded; a text that is written over it is. -/
theorem saveComponent_loadSvg_surrogate :
    surrogateFile.TakesFile 8 (Path.ofText "a.svg") ∧
      surrogateFile.read (Path.ofText "a.svg") = .ok [0xed, 0xa0, 0x80] ∧
      (∃ fault, ((loadSvg (Path.ofText "a.svg")).perform { files := surrogateFile }).1 =
        .error (.decoding fault)) ∧
      ∃ after, (saveComponent (.ofLevels 8) "é\r\n\r€" (Path.ofText "a.svg") true).perform
          { files := surrogateFile } = (.ok (), after) ∧
        ((loadSvg (Path.ofText "a.svg")).perform after).1 = .ok "é\n\n€" := by
  have htakes : surrogateFile.TakesFile 8 (Path.ofText "a.svg") := by decide
  have hread : surrogateFile.read (Path.ofText "a.svg") = .ok [0xed, 0xa0, 0x80] := by decide
  obtain ⟨hsave, hload⟩ :=
    saveComponent_loadSvg (.ofLevels 8) (Path.ofText "a.svg") { files := surrogateFile }
  obtain ⟨after, hperform, htext, -⟩ := hsave htakes "é\r\n\r€"
  have hbroken : ¬ ∃ cs, Text.Utf8.IsText [0xed, 0xa0, 0x80] cs := by
    rintro ⟨cs, hcs⟩
    have hnone : (Text.Utf8.decode [0xed, 0xa0, 0x80]).toOption = none := by decide
    rw [Text.Utf8.decode_eq_ok_iff.2 hcs] at hnone
    cases hnone
  exact ⟨htakes, hread, (hload _ hread).2.1 hbroken, after, hperform, htext⟩

end Storage

end IconForge
