import IconForge.Compression.Bzip2.Stream
import IconForge.Compression.Gzip
import IconForge.Compression.Tar
import IconForge.Compression.Xz
import IconForge.Compression.Zip
import IconForge.Report.Packing

set_option autoImplicit false

/-! # Packing bytes

Bytes are compressed, put into an archive or both. An archive holds one file, which is named after
the report. -/

namespace IconForge.Report

/-- Compress bytes. -/
def CompressionFormat.compress : CompressionFormat → List UInt8 → List UInt8
  | .gzip, bytes => Compression.Gzip.compress bytes
  | .bzip2, bytes => Compression.Bzip2.compress bytes
  | .xz, bytes => Compression.Xz.compress bytes

namespace Packing

/-- The name of the file in an archive at a path: that of the archive, without its suffix if that
names the kind of archive and nothing else. -/
def memberName (archive : CodeText) (path : Path) : List Char :=
  let name :=
    if path.suffix = archive then path.name.take (path.name.length - archive.length)
    else path.name
  (CodeText.shown name).toList

/-- Bytes for a path, packed. -/
def pack (packing : Packing) (path : Path) (bytes : List UInt8) : List UInt8 :=
  match packing with
  | .plain => bytes
  | .compressed format => format.compress bytes
  | .tar format =>
    let archive := Compression.Tar.archive (memberName ".tar" path) bytes
    match format with
    | none => archive
    | some format => format.compress archive
  | .zip => Compression.Zip.archive (Text.Utf8.encode (memberName ".zip" path)) bytes
  | .zstandard => bytes

end Packing

end IconForge.Report
