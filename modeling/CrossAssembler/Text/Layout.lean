/-!
# Lines of output

## Main definitions

* `unlines` — a text from its lines, each closed by a line feed.
-/

namespace CrossAssembler
namespace Text

/-- A text from its lines: every line, the last one included, is closed by a line
feed. -/
def unlines (lines : List String) : String := String.join (lines.map (· ++ "\n"))

end Text
end CrossAssembler
