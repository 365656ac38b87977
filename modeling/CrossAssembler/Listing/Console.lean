import CrossAssembler.Lowering.Pass
import CrossAssembler.Text.Layout

/-!
# Console listings

A listing shows each lowered instruction next to the index of the source
instruction it comes from, and then every diagnostic of the pass.

## Main definitions

* `console` — the listing as lines of text.
-/

namespace CrossAssembler
namespace Listing

open Lowering

/-- The line of a lowered instruction. -/
def entryLine (entry : Entry) : String :=
  let origin := entry.origin
  let instruction := entry.instruction
  s!"[{origin}] : {instruction}"

/-- The listing of a lowering as text: one line for each instruction, then one for
each diagnostic. -/
def console (lowered : Lowered) : String :=
  Text.unlines
    (lowered.program.entries.map entryLine ++ lowered.diagnostics.map Diagnostic.message)

end Listing
end CrossAssembler
