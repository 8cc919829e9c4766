import LayeredShading.CommandLine.Command
import LayeredShading.CommandLine.Folder
import LayeredShading.CommandLine.Report
import LayeredShading.CommandLine.Run
import LayeredShading.Composition.Opinion
import LayeredShading.Composition.Prim
import LayeredShading.EditTarget
import LayeredShading.Json.Printer
import LayeredShading.Json.Reader
import LayeredShading.Layer.Basic
import LayeredShading.Main
import LayeredShading.Network.BaseMaterial
import LayeredShading.Network.EditScope
import LayeredShading.Network.MasterVariant
import LayeredShading.Network.Resolution
import LayeredShading.Network.Shader
import LayeredShading.Path.Property
import LayeredShading.Path.Reader
import LayeredShading.Proofs.CommandLine.Master
import LayeredShading.Proofs.Composition.ArcOverlay
import LayeredShading.Proofs.Composition.Branching
import LayeredShading.Proofs.Composition.Extension
import LayeredShading.Proofs.Composition.StrongestFirst
import LayeredShading.Proofs.Composition.Visits
import LayeredShading.Proofs.EditTarget
import LayeredShading.Proofs.Metadata.History
import LayeredShading.Proofs.Network.BaseAssignment
import LayeredShading.Proofs.Network.BaseChain
import LayeredShading.Proofs.Network.CompositeCalls
import LayeredShading.Proofs.Network.EditScope
import LayeredShading.Proofs.Network.MasterAtomicity
import LayeredShading.Proofs.Network.MasterVariant
import LayeredShading.Proofs.Network.ScopedEdits
import LayeredShading.Proofs.Network.Selection
import LayeredShading.Proofs.Network.Terminals
import LayeredShading.Proofs.Network.VariantEdits
import LayeredShading.Proofs.Path.Grammar
import LayeredShading.Proofs.SceneFile.BaseChains
import LayeredShading.Proofs.SceneFile.Codec
import LayeredShading.Proofs.SceneFile.Loading
import LayeredShading.Proofs.SceneFile.Reload
import LayeredShading.Proofs.Stage.Atomicity
import LayeredShading.Proofs.Stage.AttributeEdits
import LayeredShading.Proofs.Stage.AttributeTypes
import LayeredShading.Proofs.Stage.Authored
import LayeredShading.Proofs.Stage.Declarations
import LayeredShading.Proofs.Stage.Editing
import LayeredShading.Proofs.Stage.Listing
import LayeredShading.Proofs.Stage.ReadBack
import LayeredShading.Proofs.Stage.Traversal
import LayeredShading.Proofs.Stage.View
import LayeredShading.SceneFile.Decoding
import LayeredShading.SceneFile.Encoding
import LayeredShading.Stage.Authoring
