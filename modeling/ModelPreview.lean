import ModelPreview.Main
import ModelPreview.Proofs.Induction
import ModelPreview.Proofs.Outcome
import ModelPreview.Proofs.TypeExpr.Wrapping
import ModelPreview.Proofs.TypeExpr.Core
import ModelPreview.Proofs.TypeExpr.Renaming
import ModelPreview.Proofs.TypeExpr.Unambiguous
import ModelPreview.Proofs.ModelClass.Properties
import ModelPreview.Proofs.Retargeting
import ModelPreview.Proofs.SkippedParameters
import ModelPreview.Proofs.TargetNames
import ModelPreview.Proofs.Expansion.Contents
import ModelPreview.Proofs.Expansion.Conformance
import ModelPreview.Proofs.Expansion.Batch
import ModelPreview.Proofs.Schema.Acceptance
import ModelPreview.Proofs.Schema.Decoding
import ModelPreview.Proofs.Schema.Standard
import ModelPreview.Proofs.Reading
import ModelPreview.Proofs.Encoding
import ModelPreview.Proofs.RoundTrip
import ModelPreview.Proofs.ModelClass.Faults
import ModelPreview.Proofs.Expansion.Failure
import ModelPreview.Proofs.Expansion.Supported
import ModelPreview.Proofs.Expansion.PropertyOrder
import ModelPreview.Proofs.Expansion.InitializerText
import ModelPreview.Proofs.Json.Pointer
import ModelPreview.Proofs.Expansion.Observables
import ModelPreview.Proofs.Expansion.Warnings
import ModelPreview.Proofs.Expansion.SharedTargets
import ModelPreview.Proofs.Expansion.AssociatedTypes
import ModelPreview.Proofs.Expansion.SeparateBindings
import ModelPreview.Proofs.Expansion.Attributes
import ModelPreview.Proofs.Expansion.GeneratedNames
import ModelPreview.Proofs.InverseRelationship
import ModelPreview.Proofs.Text.Brackets
import ModelPreview.Proofs.Text.Fragments
import ModelPreview.Proofs.Expansion.Balance
import ModelPreview.Proofs.Schema.Paths
import ModelPreview.Proofs.DocumentArrays
import ModelPreview.Proofs.Reports
import ModelPreview.Proofs.Commands.AtomicWrite
import ModelPreview.Proofs.Commands.Expand
import ModelPreview.Proofs.Files.Frame
import ModelPreview.Proofs.Commands.Sessions
import ModelPreview.Proofs.Schema.UnknownKeys
import ModelPreview.Proofs.UnknownKeys
import ModelPreview.Proofs.Expansion.Mutability
import ModelPreview.Proofs.Commands.TemporaryFile
import ModelPreview.Proofs.Expansion.QualifiedNames
import ModelPreview.Proofs.Generated.Layout
import ModelPreview.Proofs.NameRegister
import ModelPreview.Proofs.ModelClass.Log
import ModelPreview.Proofs.Expansion.Log
import ModelPreview.Proofs.Options.Overlay
import ModelPreview.Proofs.Toml.Lines
import ModelPreview.Proofs.Toml.Tables
import ModelPreview.Proofs.Options.ConfigFile
import ModelPreview.Proofs.Diagnostic.Assembly
