import CrossAssembler.Rom.Image
import CrossAssembler.Text.Layout
import CrossAssembler.Text.Numeral

/-!
# ROM images as VHDL

An image is written as the VHDL constant that initializes the instruction memory
of the CPU: a header, a line for each word, and a footer that fills the rest of
the memory with zero words.

## Main definitions

* `wordLine` — the line of a word.
* `Image.vhdl` — the whole constant.
-/

namespace CrossAssembler
namespace Rom

/-- The first line of the constant. -/
def header : String := "constant ROM : memory := ("

/-- The last line of the constant.  Words past the end of the program are zero. -/
def footer : String := "others => (x\"00000000\"));"

/-- The line of a word: eight hexadecimal digits. -/
def wordLine (w : UInt32) : String :=
  "(x\"" ++ String.ofList (Numeral.hexDigits 8 w.toNat) ++ "\"),"

/-- The image as a VHDL constant. -/
def Image.vhdl (image : Image) : String :=
  Text.unlines (header :: image.words.map wordLine ++ [footer])

end Rom
end CrossAssembler
