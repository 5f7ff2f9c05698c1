import SeededText.Command.Directory
import SeededText.Main
import SeededText.Session
import SeededText.Proofs.Template.Grammar
import SeededText.Proofs.Template.Lexing
import SeededText.Proofs.Template.Derivation
import SeededText.Proofs.Text.Trim
import SeededText.Proofs.Text.Words
import SeededText.Proofs.Template.Attributes
import SeededText.Proofs.Template.Spelling
import SeededText.Proofs.Template.Printing
import SeededText.Proofs.Draw.Weights
import SeededText.Proofs.Expansion.Meaning
import SeededText.Proofs.Expansion.Selection
import SeededText.Proofs.Expansion.Refinement
import SeededText.Proofs.Lint
import SeededText.Proofs.Expansion.Moves
import SeededText.Proofs.Expansion.Reach
import SeededText.Proofs.Expansion.Dependence
import SeededText.Proofs.Expansion.Bounds
import SeededText.Proofs.Draw.Keys
import SeededText.Proofs.Expansion.Occurrences
import SeededText.Proofs.Expansion.Inlining
import SeededText.Proofs.Expansion.Settling
import SeededText.Proofs.Expansion.Parts
import SeededText.Proofs.Condition.Items
import SeededText.Proofs.Condition.Grammar
import SeededText.Proofs.Condition.Writing
import SeededText.Proofs.Condition.Display
import SeededText.Proofs.Condition.Operators
import SeededText.Proofs.Catalog.History
import SeededText.Proofs.Template.Flat
import SeededText.Proofs.Expansion.Batches
import SeededText.Proofs.Expansion.Verbatim
import SeededText.Proofs.Expansion.Circles
import SeededText.Proofs.Expansion.Runaways
import SeededText.Proofs.Expansion.Stray
import SeededText.Proofs.Expansion.Endless
import SeededText.Proofs.Template.Names
import SeededText.Proofs.FirstFault
import SeededText.Proofs.Catalog.Listing
import SeededText.Proofs.Template.Numbering
import SeededText.Proofs.Template.Faults
import SeededText.Proofs.Template.Places
import SeededText.Proofs.Template.Proper
import SeededText.Proofs.Condition.Comparisons
import SeededText.Proofs.Draw.Spread
import SeededText.Proofs.Draw.Shares
import SeededText.Proofs.Template.AttributeGrammar
import SeededText.Proofs.Template.Rounds
