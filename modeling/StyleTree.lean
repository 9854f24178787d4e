import StyleTree.Main
import StyleTree.Workspace.Builtin
import StyleTree.Workspace.Tool
import StyleTree.Proofs.Compilation
import StyleTree.Proofs.Parts
import StyleTree.Proofs.Translation
import StyleTree.Proofs.FirstFault
import StyleTree.Proofs.Grammar
import StyleTree.Proofs.Printing
import StyleTree.Proofs.Rendering
import StyleTree.Proofs.GeneratedNames
import StyleTree.Proofs.Binding
import StyleTree.Proofs.FileTree
import StyleTree.Proofs.Documents
import StyleTree.Proofs.Operations
import StyleTree.Proofs.Calls
import StyleTree.Proofs.FileEffects
import StyleTree.Proofs.Coherence
import StyleTree.Proofs.Recovery
import StyleTree.Proofs.Layout
import StyleTree.Proofs.Concatenation
import StyleTree.Proofs.Reordering
import StyleTree.Proofs.Verdicts
import StyleTree.Proofs.History
import StyleTree.Proofs.StoredSources
import StyleTree.Proofs.Removal
import StyleTree.Proofs.Listing
import StyleTree.Proofs.ListedNames
import StyleTree.Proofs.Findings
import StyleTree.Proofs.RuleKeys
import StyleTree.Proofs.FaultPlaces
import StyleTree.Proofs.StoredPlaces
import StyleTree.Proofs.DynamicValues
import StyleTree.Proofs.SheetText
import StyleTree.Proofs.Records
import StyleTree.Proofs.DeclaredVariants
import StyleTree.Proofs.VariantAnswers
import StyleTree.Proofs.Copies
import StyleTree.Proofs.ListingOrder
import StyleTree.Proofs.ErrorRecords
import StyleTree.Proofs.SelfReferences
import StyleTree.Proofs.PropertyNames
import StyleTree.Proofs.NestedBlocks
import StyleTree.Proofs.StoredForms
