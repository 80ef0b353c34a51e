import PropStorage.CommandLine.Run
import PropStorage.Component.Source
import PropStorage.Expression.Builder
import PropStorage.Expression.Description
import PropStorage.Json.Reader
import PropStorage.Mapping.Override
import PropStorage.Mapping.Script
import PropStorage.Mapping.Widget
import PropStorage.Store.Backfill
import PropStorage.Store.Conformance
import PropStorage.Store.Deviation
import PropStorage.Store.Memory
import PropStorage.Main
import PropStorage.Proofs.Component.Content
import PropStorage.Proofs.Expression.RoundTrip
import PropStorage.Proofs.Shape.Identity
import PropStorage.Proofs.Shape.Renormal
import PropStorage.Proofs.Store.Duplicates
import PropStorage.Proofs.Store.Mirror
import PropStorage.Proofs.Component.Rebuilding
import PropStorage.Proofs.Store.History
import PropStorage.Proofs.Store.Contention
import PropStorage.Proofs.Decode.Record
import PropStorage.Proofs.Mapping.Snapshot
import PropStorage.Proofs.Mapping.WellFormed
import PropStorage.Proofs.Store.Immutability
import PropStorage.Proofs.Mapping.Fitting
import PropStorage.Proofs.Shape.RequiredNames
import PropStorage.Proofs.Mapping.RoundTrip
import PropStorage.Proofs.Mapping.Default
import PropStorage.Proofs.Shape.Overlay
import PropStorage.Proofs.Mapping.Fallback
import PropStorage.Proofs.Mapping.Presentation
import PropStorage.Proofs.Store.Fingerprint
import PropStorage.Proofs.Shape.Spelling
import PropStorage.Proofs.CommandLine.Agreement
import PropStorage.Proofs.Store.Completion
import PropStorage.Proofs.Mapping.Lists
import PropStorage.Proofs.Shape.Pending
import PropStorage.Proofs.Mapping.Transforms
import PropStorage.Proofs.Mapping.Transparency
import PropStorage.Proofs.Mapping.Extension
import PropStorage.Proofs.Shape.Layers
import PropStorage.Proofs.Shape.Retaining
import PropStorage.Proofs.Store.Backfill
import PropStorage.Proofs.Store.Repair
import PropStorage.Proofs.Mapping.Overriding
import PropStorage.Proofs.Component.Record
import PropStorage.Proofs.Expression.Tiling
import PropStorage.Proofs.Json.Permuting
import PropStorage.Proofs.Expression.Lookahead
import PropStorage.Proofs.Expression.Viability
import PropStorage.Proofs.Expression.Repetition
import PropStorage.Proofs.Expression.Location
import PropStorage.Proofs.Shape.Guarded
