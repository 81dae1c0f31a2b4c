import PropertyGraph.Json.Event
import PropertyGraph.Main
import PropertyGraph.Narrow
import PropertyGraph.Shape
import PropertyGraph.Sink
import PropertyGraph.Proofs.Json.Completeness
import PropertyGraph.Proofs.Shape
import PropertyGraph.Proofs.Equality
import PropertyGraph.Proofs.PropertyMap
import PropertyGraph.Proofs.Json.Skipping
import PropertyGraph.Proofs.Json.Agreement
import PropertyGraph.Proofs.ElementDoc
import PropertyGraph.Proofs.Layout
import PropertyGraph.Proofs.Faults
import PropertyGraph.Proofs.PropertyKeys
import PropertyGraph.Proofs.DocumentForm
import PropertyGraph.Proofs.Precision
import PropertyGraph.Proofs.Json.Levels
import PropertyGraph.Proofs.LocalTime
import PropertyGraph.Proofs.Nesting
import PropertyGraph.Proofs.Overflow
import PropertyGraph.Proofs.Binary.Nearest
import PropertyGraph.Proofs.SafeInteger
import PropertyGraph.Proofs.Widening
import PropertyGraph.Proofs.Integral
import PropertyGraph.Proofs.Instant
import PropertyGraph.Proofs.NarrowingLaws
import PropertyGraph.Proofs.CheckedNarrowing
import PropertyGraph.Proofs.DoubleText
import PropertyGraph.Proofs.IdentifierText
import PropertyGraph.Proofs.RegistrySettings
import PropertyGraph.Proofs.Sink
import PropertyGraph.Proofs.DateTimeWords
import PropertyGraph.Proofs.Json.Refusals
