import ResourceClient.CommandLine.Run
import ResourceClient.Main
import ResourceClient.Resource
import ResourceClient.Proofs.Markup.Nesting
import ResourceClient.Proofs.Generation.Listing
import ResourceClient.Proofs.Text.ByteOrder
import ResourceClient.Proofs.Generation.Accounting
import ResourceClient.Proofs.Text.Blank
import ResourceClient.Proofs.Uri.Slots
import ResourceClient.Proofs.Uri.Clean
import ResourceClient.Proofs.TypeScript.Parameters
import ResourceClient.Proofs.Uri.Signature
import ResourceClient.Proofs.Markup.ReferenceText
import ResourceClient.Proofs.Source.Declarations
import ResourceClient.Proofs.Markup.TagText
import ResourceClient.Proofs.Source.ComponentText
import ResourceClient.Proofs.Generation.RoundTrip
import ResourceClient.Proofs.Uri.Placement
import ResourceClient.Proofs.Artifact.Layout
import ResourceClient.Proofs.Generation.Isolation
import ResourceClient.Proofs.Files.Edit
import ResourceClient.Proofs.Files.Location
import ResourceClient.Proofs.Files.Walk
import ResourceClient.Proofs.Files.Folders
import ResourceClient.Proofs.Artifact.Replace
import ResourceClient.Proofs.Artifact.Written
import ResourceClient.Proofs.Text.Case
import ResourceClient.Proofs.TypeScript.Lexemes
import ResourceClient.Proofs.TypeScript.Names
import ResourceClient.Proofs.TypeScript.Mentions
import ResourceClient.Proofs.Artifact.Names
import ResourceClient.Proofs.Markup.Reading
import ResourceClient.Proofs.Markup.TagForms
import ResourceClient.Proofs.Markup.Printing
import ResourceClient.Proofs.Markup.Pieces
import ResourceClient.Proofs.Markup.TextBetween
import ResourceClient.Proofs.TypeScript.DeclarationText
import ResourceClient.Proofs.TypeScript.Methods
import ResourceClient.Proofs.Text.Quoted
import ResourceClient.Proofs.Uri.Normal
import ResourceClient.Proofs.TypeScript.Lines
import ResourceClient.Proofs.TypeScript.Registration
import ResourceClient.Proofs.Artifact.Lines
import ResourceClient.Proofs.TypeScript.Marks
import ResourceClient.Proofs.Generation.Choices
import ResourceClient.Proofs.Source.LetterCase
import ResourceClient.Proofs.Markup.Places
import ResourceClient.Proofs.Markup.SideBySide
import ResourceClient.Proofs.Markup.SameEvents
import ResourceClient.Proofs.Endpoint.LetterCase
import ResourceClient.Proofs.Generation.LetterCase
import ResourceClient.Proofs.Endpoint.Declared
import ResourceClient.Proofs.CommandLine.DryRun
import ResourceClient.Proofs.TypeScript.Bindings
import ResourceClient.Proofs.Artifact.Bindings
import ResourceClient.Proofs.Files.Tidy
import ResourceClient.Proofs.Files.Steps
import ResourceClient.Proofs.Artifact.Again
import ResourceClient.Proofs.Generation.Again
import ResourceClient.Proofs.Uri.Filling
import ResourceClient.Proofs.Uri.Constraints
import ResourceClient.Proofs.TypeScript.Ordinals
import ResourceClient.Proofs.Uri.Query
import ResourceClient.Proofs.Artifact.Whole
import ResourceClient.Proofs.Source.Comments
import ResourceClient.Proofs.Source.LineEdits
import ResourceClient.Proofs.Markup.AttributeValues
import ResourceClient.Proofs.TypeScript.Literals
import ResourceClient.Proofs.TypeScript.Keys
import ResourceClient.Proofs.TypeScript.References
import ResourceClient.Proofs.Artifact.Captures
import ResourceClient.Proofs.Artifact.Imports
