import IconForge.Compression.Lzma.RangeCoder
import IconForge.Compression.Lzma.Route

set_option autoImplicit false

/-! # Chunks

A text is written in chunks. A chunk holds its bytes in symbols, or as they are if that takes no
more room. The chances go on from chunk to chunk, but not through bytes that are kept as they
are. -/

namespace IconForge.Compression.Lzma

/-! ## Symbols -/

/-- What writing symbols depends on. -/
structure Writer where
  position : Nat
  history : History := .initial
  tariff : Tariff := {}
  /-- The symbols that are chosen already. -/
  chosen : List Symbol := []
  finder : Finder
  /-- What is seen behind the chosen symbols, if the finder is there already. -/
  ahead : Option Sight := none

namespace Writer

/-- The writer at the beginning of a text, whose first byte is a literal. -/
def initial (content : Array UInt8) : Writer :=
  { position := 0, chosen := [.literal], finder := Finder.skip { content := content } 1 }

/-- The writer behind all the places that have been searched. -/
def restart (writer : Writer) : Writer :=
  { position := writer.finder.place, finder := writer.finder }

/-- Choose the next symbol. -/
def next (writer : Writer) : Symbol × Writer :=
  match writer with
  | { chosen := symbol :: rest, position, history, tariff, finder, ahead } =>
    (symbol, ⟨position, history, tariff, rest, finder, ahead⟩)
  | { chosen := [], position, history, tariff, finder, ahead } =>
    let tariff := if ahead.isNone then tariff.renew else tariff
    let chooser : Chooser := ⟨finder.content, tariff⟩
    let plan := chooser.plan position history finder ahead
    let symbol := plan.symbols.headD .literal
    (symbol, ⟨position, history, tariff, plan.symbols.drop 1, plan.finder, plan.ahead⟩)

/-- Write a symbol. -/
def write (writer : Writer) (coder : RangeCoder) (symbol : Symbol) : Writer × RangeCoder :=
  -- The models are taken out of the writer, so that they change in place.
  let ⟨position, history, tariff, chosen, finder, ahead⟩ := writer
  let decisions := Decision.ofSymbol finder.content position history symbol
  let ⟨latest, lengths, distances, lowest⟩ := tariff.use (position % 4) symbol
  let (latest, coder) := decisions.foldl RangeCoder.write (latest, coder)
  (⟨position + symbol.length, history.after symbol, ⟨latest, lengths, distances, lowest⟩, chosen,
    finder, ahead⟩, coder)

/-- The bytes of a text that a chunk can have before its last symbol. -/
def maxContent : Nat :=
  0x200000 - maxLength

/-- The bytes that a chunk can be written in before its last symbol. Five of them are still in the
range of the coder. -/
def maxCoded : Nat :=
  61439

/-- Write at most a number of symbols, up to the end of the text or to a position, and as long as
there is room. -/
def fill (limit : Nat) : Nat → Writer → RangeCoder → Writer × RangeCoder
  | 0, writer, coder => (writer, coder)
  | count + 1, writer, coder =>
    if min limit writer.finder.content.size ≤ writer.position ∨ maxCoded < coder.size + 5 then
      (writer, coder)
    else
      let (symbol, writer) := writer.next
      let (writer, coder) := writer.write coder symbol
      writer.fill limit count coder

end Writer

/-! ## Chunks -/

/-- What the chunks in front of one have told. -/
structure Preamble where
  /-- Whether there was a chunk. -/
  isBegun : Bool := false
  /-- Whether the parameters of the symbols are known. -/
  isInformed : Bool := false
  /-- Whether the last chunk had symbols in it. -/
  isGoingOn : Bool := false

/-- The parameters of the symbols. -/
def parameters : UInt8 :=
  0x5d

/-- A chunk of symbols. -/
def codedChunk (preamble : Preamble) (size : Nat) (coded : List UInt8) : List UInt8 :=
  let renewal :=
    if !preamble.isInformed then if preamble.isBegun then 2 else 3
    else if preamble.isGoingOn then 0 else 1
  let mark := 0x80 + 0x20 * renewal + (size - 1) / 0x10000
  mark.toUInt8 :: (highBytes 2 (size - 1) ++ highBytes 2 (coded.length - 1) ++
    (if preamble.isInformed then [] else [parameters]) ++ coded)

/-- A chunk of bytes as they are. -/
def plainChunk (preamble : Preamble) (bytes : List UInt8) : List UInt8 :=
  (if preamble.isBegun then 2 else 1) :: (highBytes 2 (bytes.length - 1) ++ bytes)

/-- At most a number of chunks, up to the end of the text. -/
def chunksFrom : Nat → Preamble → Writer → List UInt8
  | 0, _, _ => [0]
  | count + 1, preamble, writer =>
    let content := writer.finder.content
    let start := writer.position
    if content.size ≤ start then [0]
    else
      let (writer, coder) := writer.fill (start + Writer.maxContent) (content.size - start) {}
      let size := writer.position - start
      let coded := coder.finish
      if coded.length < size then
        codedChunk preamble size coded ++ chunksFrom count ⟨true, true, true⟩ writer
      else
        let writer := writer.restart
        plainChunk preamble (content.extract start writer.position).toList ++
          chunksFrom count { preamble with isBegun := true, isGoingOn := false } writer

/-- Bytes in chunks. -/
def chunksOf (bytes : List UInt8) : List UInt8 :=
  if bytes.isEmpty then [0] else chunksFrom bytes.length {} (.initial bytes.toArray)

end IconForge.Compression.Lzma
