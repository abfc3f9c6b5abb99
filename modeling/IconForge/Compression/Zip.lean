import IconForge.Compression.Checksum

set_option autoImplicit false

/-! # Zip

A zip archive with one file, which is stored as it is: the file behind its header, a directory
with that one entry and the end of the directory. The file was changed at the beginning of
time. -/

namespace IconForge.Compression.Zip

/-- What the header of the file and the directory both say: the version that is needed, the way of
storing, the time, the checksum, the sizes and the length of the name. -/
def description (name bytes : List UInt8) : List UInt8 :=
  [20, 0, 0, 0, 0, 0, 0, 0, 0x21, 0] ++ lowBytes 4 (crc32 bytes).toNat ++
    lowBytes 4 bytes.length ++ lowBytes 4 bytes.length ++ lowBytes 2 name.length ++ [0, 0]

/-- An archive with one file. -/
def archive (name bytes : List UInt8) : List UInt8 :=
  let file := [0x50, 0x4b, 3, 4] ++ description name bytes ++ name ++ bytes
  let directory := [0x50, 0x4b, 1, 2, 20, 3] ++ description name bytes ++
    [0, 0, 0, 0, 0, 0, 0, 0, 0x80, 1, 0, 0, 0, 0] ++ name
  file ++ directory ++ [0x50, 0x4b, 5, 6, 0, 0, 0, 0, 1, 0, 1, 0] ++
    lowBytes 4 directory.length ++ lowBytes 4 file.length ++ [0, 0]

end IconForge.Compression.Zip
