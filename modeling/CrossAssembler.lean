import CrossAssembler.CommandLine.Arguments
import CrossAssembler.CommandLine.Assembler
import CrossAssembler.CommandLine.Files
import CrossAssembler.CommandLine.Options
import CrossAssembler.CommandLine.Parameter
import CrossAssembler.CommandLine.Runner
import CrossAssembler.CommandLine.Script
import CrossAssembler.CommandLine.SourceFile
import CrossAssembler.CommandLine.Usage
import CrossAssembler.Isa.Instruction
import CrossAssembler.Isa.Opcode
import CrossAssembler.Isa.RegisterFile
import CrossAssembler.Journal
import CrossAssembler.Listing.Console
import CrossAssembler.Listing.Json
import CrossAssembler.Listing.Pretty
import CrossAssembler.Lowering.Builder
import CrossAssembler.Lowering.Diagnostic
import CrossAssembler.Lowering.Pass
import CrossAssembler.Lowering.Program
import CrossAssembler.Lowering.Step
import CrossAssembler.Machine.Arithmetic
import CrossAssembler.Machine.Compare
import CrossAssembler.Machine.Run
import CrossAssembler.Machine.State
import CrossAssembler.Machine.Step
import CrossAssembler.Main
import CrossAssembler.Residency.Checked
import CrossAssembler.Residency.Table
import CrossAssembler.Rom.Image
import CrossAssembler.Rom.Vhdl
import CrossAssembler.Source.Reader
import CrossAssembler.Target.Config
import CrossAssembler.Target.File
import CrossAssembler.Text.Blank
import CrossAssembler.Text.Layout
import CrossAssembler.Text.Numeral
import CrossAssembler.Yaml.BlockScalar
import CrossAssembler.Yaml.Character
import CrossAssembler.Yaml.Folding
import CrossAssembler.Yaml.Format
import CrossAssembler.Yaml.Integer
import CrossAssembler.Yaml.Node
import CrossAssembler.Yaml.Scanner
import CrossAssembler.Yaml.Tag
import CrossAssembler.Yaml.Token
import CrossAssembler.Proofs.Lists
import CrossAssembler.Proofs.Lowering.Invariant
import CrossAssembler.Proofs.Machine.Cells
import CrossAssembler.Proofs.Machine.Sequence
import CrossAssembler.Proofs.Machine.Ledger
import CrossAssembler.Proofs.Lowering.Coherence
import CrossAssembler.Proofs.Machine.Outcome
import CrossAssembler.Proofs.Lowering.Simulation
import CrossAssembler.Proofs.Lowering.Faithful
import CrossAssembler.Proofs.Lowering.Emission
import CrossAssembler.Proofs.Lowering.Origins
import CrossAssembler.Proofs.Machine.Access
import CrossAssembler.Proofs.Machine.Limit
import CrossAssembler.Proofs.Lowering.RegisterUse
import CrossAssembler.Proofs.CommandLine.Verification
import CrossAssembler.Proofs.Rom.Packing
import CrossAssembler.Proofs.Rom.Provenance
import CrossAssembler.Proofs.Text.Numeral
import CrossAssembler.Proofs.Lowering.Transparency
import CrossAssembler.Proofs.Source.RoundTrip
import CrossAssembler.Proofs.Source.Grammar
import CrossAssembler.Proofs.Machine.Independence
import CrossAssembler.Proofs.Lowering.Independence
import CrossAssembler.Proofs.Machine.Atomicity
import CrossAssembler.Proofs.Machine.Bounds
import CrossAssembler.Proofs.Lowering.Separation
import CrossAssembler.Proofs.Residency.History
import CrossAssembler.Proofs.Residency.Ranking
import CrossAssembler.Proofs.Lowering.Availability
import CrossAssembler.Proofs.Lowering.Inclusion
import CrossAssembler.Proofs.Text.Lines
import CrossAssembler.Proofs.Source.Locality
import CrossAssembler.Proofs.CommandLine.SourceFile
import CrossAssembler.Proofs.Rom.Fill
import CrossAssembler.Proofs.Text.Hexadecimal
import CrossAssembler.Proofs.Rom.Vhdl
import CrossAssembler.Proofs.Listing.Console
import CrossAssembler.Proofs.CommandLine.Selection
import CrossAssembler.Proofs.CommandLine.Output
import CrossAssembler.Proofs.Yaml.Mapping
import CrossAssembler.Proofs.Yaml.Format
import CrossAssembler.Proofs.Target.RoundTrip
import CrossAssembler.Proofs.Machine.Division
