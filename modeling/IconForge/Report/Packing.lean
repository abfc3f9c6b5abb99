import IconForge.Files.Path

set_option autoImplicit false

/-! # Packing

The end of a report's name says how its bytes are packed: compressed, in an archive, or both. -/

namespace IconForge.Report

/-- A format of compressed bytes. -/
inductive CompressionFormat where
  | gzip
  | bzip2
  | xz
deriving DecidableEq, Repr

/-- How the bytes of a report are packed. -/
inductive Packing where
  | plain
  | compressed (format : CompressionFormat)
  | tar (format : Option CompressionFormat)
  | zip
  /-- There is nothing at hand that packs in this format. -/
  | zstandard
deriving DecidableEq, Repr

namespace Packing

/-- A text with the capital letters of ASCII in small form. -/
def small (text : CodeText) : CodeText :=
  text.map fun
    | .char c => .char c.toLower
    | point => point

/-- Whether a text ends in another one. -/
def endsIn (text : CodeText) (ending : String) : Bool :=
  (CodeText.ofString ending).isSuffixOf text

/-- How an archive is compressed; here the case of letters matters. -/
def archiveFormat? (path : Path) : Option CompressionFormat :=
  if path.suffix = CodeText.ofString ".gz" then some .gzip
  else if path.suffix = CodeText.ofString ".bz2" then some .bzip2
  else if path.suffix = CodeText.ofString ".xz" then some .xz
  else none

/-- How a report at a path is packed. -/
def ofPath (path : Path) : Packing :=
  let text := small path.text
  if [".tar", ".tar.gz", ".tar.bz2", ".tar.xz"].any (endsIn text) then .tar (archiveFormat? path)
  else if endsIn text ".gz" then .compressed .gzip
  else if endsIn text ".bz2" then .compressed .bzip2
  else if endsIn text ".zip" then .zip
  else if endsIn text ".xz" then .compressed .xz
  else if endsIn text ".zst" then .zstandard
  else .plain

end Packing

end IconForge.Report
