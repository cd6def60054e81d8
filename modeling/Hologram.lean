import Hologram.CommandLine.Disk
import Hologram.Main
import Hologram.Pack.Playback
import Hologram.Proofs.Number.Missing
import Hologram.Proofs.Outcome
import Hologram.Proofs.Script.Grammar
import Hologram.Proofs.Script.Steps
import Hologram.Proofs.Script.Unrolling
import Hologram.Proofs.Structure.Payloads
import Hologram.Proofs.Structure.Stability
import Hologram.Proofs.Structure.Strays
import Hologram.Proofs.Structure.VoxelMeaning
import Hologram.Script.Compilation
import Hologram.Proofs.Script.Parsing
import Hologram.Proofs.Script.Derivation
import Hologram.Proofs.Script.Spelling
import Hologram.Proofs.Script.Splicing
import Hologram.Proofs.Script.Settling
import Hologram.Proofs.Script.Emission
import Hologram.Proofs.Script.Instructions
import Hologram.Proofs.Script.CodeEmission
import Hologram.Proofs.Script.Naming
import Hologram.Proofs.Structure.Assembly
import Hologram.Proofs.Number.Whole
import Hologram.Proofs.Script.Decision
import Hologram.Proofs.Script.Comments
import Hologram.Proofs.Script.Lookup
import Hologram.Proofs.Pack.Controller
import Hologram.Proofs.Pack.Validation
import Hologram.Proofs.Pack.Placement
import Hologram.Proofs.Pack.Procedures
import Hologram.Proofs.Pack.Making
import Hologram.Proofs.Pack.Skeleton
import Hologram.Proofs.Number.Arithmetic
import Hologram.Proofs.Script.Counting
import Hologram.Proofs.Script.NumberTable
import Hologram.Proofs.Script.Running
import Hologram.Proofs.Config.Criteria
import Hologram.Proofs.Pack.Acting
import Hologram.Proofs.Pack.Reacting
import Hologram.Proofs.Pack.Refreshing
import Hologram.Proofs.Pack.Readability
import Hologram.Proofs.Pack.Frames
import Hologram.Proofs.Pack.BlockCounts
import Hologram.Proofs.Pack.Totals
import Hologram.Proofs.Pack.References
import Hologram.Proofs.Script.NumberCode
import Hologram.Proofs.Pack.Changes
import Hologram.Proofs.Pack.Edges
import Hologram.Proofs.Pack.Surroundings
import Hologram.Proofs.Pack.Cursor
import Hologram.Proofs.Pack.Layers
import Hologram.Proofs.Script.DirectEvaluation
import Hologram.Proofs.Config.Quoting
import Hologram.Proofs.Script.Targets
import Hologram.Proofs.Number.LiteralText
import Hologram.Proofs.Script.Gluing
import Hologram.Proofs.Script.Iterations
import Hologram.Proofs.Script.Allowance
import Hologram.Proofs.Script.Atoms
import Hologram.Proofs.Script.Substitution
import Hologram.Proofs.Structure.FirstSeen
import Hologram.Proofs.Structure.Renames
import Hologram.Proofs.Structure.Union
import Hologram.Proofs.Structure.Variants
import Hologram.Proofs.Structure.Faults
import Hologram.Proofs.Pack.Emptiness
import Hologram.Proofs.Structure.Names
import Hologram.Proofs.Pack.Grid
import Hologram.Proofs.Pack.Marking
import Hologram.Proofs.Pack.Cycle
import Hologram.Proofs.Pack.Outline
import Hologram.Proofs.Pack.BoundingBox
import Hologram.Proofs.Script.Nesting
import Hologram.Proofs.Script.Lines
import Hologram.Proofs.Script.Cuts
import Hologram.Proofs.Script.ElseBranches
import Hologram.Proofs.Script.Scoping
import Hologram.Proofs.Script.TokenOrder
import Hologram.Proofs.Script.Words
import Hologram.Proofs.Script.Tiling
import Hologram.Proofs.Structure.Usage
import Hologram.Proofs.Pack.Scale
import Hologram.Proofs.Structure.Positions
