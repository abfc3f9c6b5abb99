import IconForge.Files.FileSystem
import IconForge.Text.Blank

set_option autoImplicit false

/-! # Destinations

The path of a report may be an address: it is one when it begins with the scheme of a service on a
network, or of local files, and a colon. Nothing can be written to a service. What an address of a
local file stands for is what can be read there; a report for it goes nowhere. -/

namespace IconForge.Report

/-! ## Schemes -/

/-- The schemes that make a path an address. -/
def schemes : List String :=
  ["file", "ftp", "git", "git+ssh", "gopher", "hdl", "http", "https", "imap", "mms", "nfs", "nntp",
   "prospero", "rsync", "rtsp", "rtsps", "rtspu", "sftp", "shttp", "sip", "sips", "snews", "svn",
   "svn+ssh", "tel", "telnet", "wais", "ws", "wss"]

/-- Controls and the blank, which do not count at the front of an address. -/
def isSkipped (c : Char) : Bool :=
  c ≤ ' '

/-- The characters of the middle of an address that do not count. -/
def isIgnored (c : Char) : Bool :=
  c = '\t' || c = '\n' || c = '\r'

/-- The characters in front of the first colon, in small form. -/
def frontOfColon (text : List Char) : String :=
  String.ofList ((text.takeWhile (· ≠ ':')).map Char.toLower)

/-- Whether a text is an address. -/
def isAddress (text : List Char) : Bool :=
  let counted := (text.dropWhile isSkipped).filter (!isIgnored ·)
  counted.contains ':' && schemes.contains (frontOfColon counted)

/-! ## Local files -/

/-- The bytes of a text in which a percent sign and two hexadecimal digits stand for a byte. -/
def unescaped : List Char → List UInt8
  | '%' :: a :: b :: rest =>
    match Text.hexValue? a, Text.hexValue? b with
    | some high, some low => (16 * high + low).toUInt8 :: unescaped rest
    | _, _ => 0x25 :: unescaped (a :: b :: rest)
  | c :: rest => Text.Utf8.encode [c] ++ unescaped rest
  | [] => []

/-- A text without the fragment behind its last number sign. -/
def withoutFragment (text : List Char) : List Char :=
  if text.contains '#' then ((text.reverse.dropWhile (· ≠ '#')).drop 1).reverse else text

/-- The name of a local file in an address. -/
def localName (address : List Char) : String :=
  let behind := (withoutFragment address).dropWhile (· ≠ ':')
  String.ofList (Text.Encoding.shownBytes (unescaped (behind.drop 1)))

/-! ## Destinations -/

/-- Why an address cannot be opened. -/
inductive AddressFault where
  /-- Nothing is known about services with this scheme. -/
  | unknownScheme (scheme : String)
  /-- The address of a page names no host. -/
  | noHost
  /-- The address of a file transfer names no host. -/
  | noTransferHost
  /-- The local file cannot be read. -/
  | unreadable (fault : FileSystem.Fault)
deriving DecidableEq, Repr

/-- The wording of a fault. -/
def AddressFault.message : AddressFault → String
  | .unknownScheme scheme => s!"<urlopen error unknown url type: {scheme}>"
  | .noHost => "<urlopen error no host given>"
  | .noTransferHost => "<urlopen error ftp error: no host given>"
  | .unreadable fault => s!"<urlopen error {fault.message}>"

/-- Where a report goes. -/
inductive Destination where
  | file
  /-- Nowhere, if there is a local file of this name. -/
  | localSource (name : String)
  | unreachable (fault : AddressFault)
deriving DecidableEq, Repr

/-- The destination of a report at a path. -/
def Destination.ofPath (path : Path) : Destination :=
  let text := (CodeText.shown path.text).toList
  if isAddress text then
    let address := Text.strip text
    match frontOfColon address with
    | "file" => .localSource (localName address)
    | "ftp" => .unreachable .noTransferHost
    | "http" => .unreachable .noHost
    | "https" => .unreachable .noHost
    | scheme => .unreachable (.unknownScheme scheme)
  else .file

/-- Read a local file for its address. -/
def readLocal (fs : FileSystem) (name : String) : Except FileSystem.Fault (List UInt8) :=
  if name.isEmpty then .error ⟨.missing, name⟩
  else (fs.read (Path.ofText name)).mapError fun fault => { fault with place := name }

end IconForge.Report
