import JsonShape.Proofs.Catalogue
import JsonShape.Main
import JsonShape.Proofs.Conversion
import JsonShape.Proofs.Shape.Describes
import JsonShape.Proofs.Shape.Congruence
import JsonShape.Proofs.Shape.TypedPaths
import JsonShape.Proofs.Inference.Sharding
import JsonShape.Proofs.Schema.Soundness
import JsonShape.Proofs.Inference.Reordering
import JsonShape.Proofs.Inference.FlatRecords
import JsonShape.Proofs.Inference.Repetition
import JsonShape.Proofs.TypeScript.Steps
import JsonShape.Proofs.Inference.Bench
import JsonShape.Proofs.Inference.Normal
import JsonShape.Proofs.Command.StandardInput
import JsonShape.Proofs.Shape.Built
import JsonShape.Proofs.Shape.Strip
import JsonShape.Proofs.Inference.Workers
import JsonShape.Proofs.Storage.Places
import JsonShape.Proofs.Command.Effects
import JsonShape.Proofs.Shape.Reordering
import JsonShape.Proofs.Shape.Construction
import JsonShape.Proofs.Shape.Idempotence
import JsonShape.Proofs.Shape.Grammar
import JsonShape.Proofs.Schema.Reordering
import JsonShape.Proofs.Json.LongNumbers
import JsonShape.Proofs.Samples.Completion
import JsonShape.Proofs.Samples.Positions
import JsonShape.Proofs.Samples.Encoding
import JsonShape.Proofs.TypeScript.PropertyName
import JsonShape.Proofs.Inference.Rounds
import JsonShape.Proofs.Inference.Data
