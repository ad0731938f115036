/-!
The lines of a source. A line ends at a line feed, and one carriage return right before the line
feed goes with it; a source that ends in a line feed has no further, empty line after it.
-/

namespace LineGrammar

section

variable {α : Type} [BEq α]

def dropReturn (ret : α) (line : List α) : List α :=
  if line.getLast? == some ret then line.dropLast else line

def linesBy (feed ret : α) (source : List α) : List (List α) :=
  let pieces := source.splitOn feed
  pieces.dropLast.map (dropReturn ret) ++ pieces.getLast?.toList.filter (!·.isEmpty)

end

def textLines (text : List Char) : List (List Char) :=
  linesBy '\n' '\r' text

def byteLines (bytes : List UInt8) : List (List UInt8) :=
  linesBy 0x0A 0x0D bytes

def decode (bytes : List UInt8) : Option (List Char) :=
  (String.fromUTF8? ⟨bytes.toArray⟩).map String.toList

def encode (text : String) : List UInt8 :=
  text.toByteArray.data.toList

end LineGrammar
