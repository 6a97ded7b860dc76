import BeanSynthesis.Log.Control
import BeanSynthesis.Main
import BeanSynthesis.Proofs.Growth.Basic
import BeanSynthesis.Proofs.Growth.Treatment
import BeanSynthesis.Proofs.Growth.Passes
import BeanSynthesis.Proofs.Growth.Runs
import BeanSynthesis.Proofs.Execution.Lookup
import BeanSynthesis.Proofs.Execution.Eval
import BeanSynthesis.Proofs.Execution.Rules
import BeanSynthesis.Proofs.Growth.Shape
import BeanSynthesis.Proofs.Inheritance
import BeanSynthesis.Proofs.Equality.Helpers
import BeanSynthesis.Proofs.Execution.Objects
import BeanSynthesis.Proofs.Equality.Fields
import BeanSynthesis.Proofs.Equality.Methods
import BeanSynthesis.Proofs.Execution.Added
import BeanSynthesis.Proofs.Equality.Made
import BeanSynthesis.Proofs.Equality.Contract
import BeanSynthesis.Proofs.Copying.Graphs
import BeanSynthesis.Proofs.Copying.Values
import BeanSynthesis.Proofs.Copying.Fields
import BeanSynthesis.Proofs.Copying.Methods
import BeanSynthesis.Proofs.Copying.Made
import BeanSynthesis.Proofs.Copying.Equal
import BeanSynthesis.Proofs.Carrying.Chains
import BeanSynthesis.Proofs.Carrying.Nearest
import BeanSynthesis.Proofs.Carrying.Members
import BeanSynthesis.Proofs.Carrying.Calls
import BeanSynthesis.Proofs.Copying.Beans
import BeanSynthesis.Proofs.Copying.Sharing
import BeanSynthesis.Proofs.TypeText.Grammar
import BeanSynthesis.Proofs.TypeText.Reading
import BeanSynthesis.Proofs.Spelling.Resolution
import BeanSynthesis.Proofs.Spelling.Pieces
import BeanSynthesis.Proofs.Spelling.Units
import BeanSynthesis.Proofs.Scoping.Reading
import BeanSynthesis.Proofs.Scoping.PassDrafts
import BeanSynthesis.Proofs.Scoping.Synthesized
import BeanSynthesis.Proofs.JavaText.Grammar
import BeanSynthesis.Proofs.JavaText.Descent
import BeanSynthesis.Proofs.JavaText.Meaning
import BeanSynthesis.Proofs.JavaText.Unambiguous
import BeanSynthesis.Proofs.JavaText.Lexing
import BeanSynthesis.Proofs.JavaText.Signs
import BeanSynthesis.Proofs.JavaText.ReadBack
import BeanSynthesis.Proofs.JavaText.Phrases
import BeanSynthesis.Proofs.JavaText.Operands
import BeanSynthesis.Proofs.JavaText.Escapes
import BeanSynthesis.Proofs.JavaText.Literals
import BeanSynthesis.Proofs.JavaText.Comments
import BeanSynthesis.Proofs.PackageText
import BeanSynthesis.Proofs.Spelling.Spelled
import BeanSynthesis.Proofs.Validation
import BeanSynthesis.Proofs.Problems
import BeanSynthesis.Proofs.Exchange.JsonTokens
import BeanSynthesis.Proofs.Exchange.JsonText
import BeanSynthesis.Proofs.Exchange.Nesting
import BeanSynthesis.Proofs.Exchange.Codec
import BeanSynthesis.Proofs.Exchange.Bodies
import BeanSynthesis.Proofs.Exchange.Members
import BeanSynthesis.Proofs.Exchange.Properties
import BeanSynthesis.Proofs.Exchange.Models
import BeanSynthesis.Proofs.Exchange.Fitting
import BeanSynthesis.Proofs.Exchange.Portable
import BeanSynthesis.Proofs.Exchange.WellNamed
import BeanSynthesis.Proofs.Exchange.ObjectMethods
import BeanSynthesis.Proofs.Exchange.Accessors
import BeanSynthesis.Proofs.Exchange.Treatment
import BeanSynthesis.Proofs.Exchange.Carried
import BeanSynthesis.Proofs.Exchange.Constraints
import BeanSynthesis.Proofs.Exchange.Passes
import BeanSynthesis.Proofs.Exchange.Synthesized
import BeanSynthesis.Proofs.Growth.Carriers
import BeanSynthesis.Proofs.Edits.Newcomers
import BeanSynthesis.Proofs.Edits.ClassEdit
import BeanSynthesis.Proofs.Edits.Fields
import BeanSynthesis.Proofs.Edits.Treatment
import BeanSynthesis.Proofs.Edits.Values
import BeanSynthesis.Proofs.Edits.Declarations
import BeanSynthesis.Proofs.Edits.Passes
import BeanSynthesis.Proofs.Edits.Offers
import BeanSynthesis.Proofs.Edits.Order
import BeanSynthesis.Proofs.Edits.Repetition
import BeanSynthesis.Proofs.Edits.Lists
import BeanSynthesis.Proofs.Edits.Chains
import BeanSynthesis.Proofs.Carrying.Companions
import BeanSynthesis.Proofs.Execution.Accessors
import BeanSynthesis.Proofs.Execution.Creation
import BeanSynthesis.Proofs.Carrying.Bodies
import BeanSynthesis.Proofs.Carrying.RoundTrip
import BeanSynthesis.Proofs.Carrying.Readings
import BeanSynthesis.Proofs.Classification
import BeanSynthesis.Proofs.ListAccessors
import BeanSynthesis.Proofs.Edits.Gains
import BeanSynthesis.Proofs.Copying.Nested
import BeanSynthesis.Proofs.Scoping.WellScoped
import BeanSynthesis.Proofs.Scoping.Runs
import BeanSynthesis.Proofs.Instantiation.Bodies
import BeanSynthesis.Proofs.Instantiation.Runs
import BeanSynthesis.Proofs.Edits.Counts
import BeanSynthesis.Proofs.Edits.Touches
import BeanSynthesis.Proofs.Reports
import BeanSynthesis.Proofs.Files.Places
import BeanSynthesis.Proofs.Files.Apart
import BeanSynthesis.Proofs.Files.Within
import BeanSynthesis.Proofs.Interfaces
import BeanSynthesis.Proofs.Constraining.Fields
import BeanSynthesis.Proofs.Constraining.Findings
import BeanSynthesis.Proofs.Constraining.Dialects
import BeanSynthesis.Proofs.Constraining.Bounds
import BeanSynthesis.Proofs.Constraining.Numbers
import BeanSynthesis.Proofs.Constraining.Numerals
import BeanSynthesis.Proofs.Constraining.Facets
import BeanSynthesis.Proofs.Remembering
import BeanSynthesis.Proofs.Descriptions
import BeanSynthesis.Proofs.Selection
import BeanSynthesis.Proofs.DebugMode
import BeanSynthesis.Proofs.Turns
import BeanSynthesis.Proofs.Carrying.Walks
import BeanSynthesis.Proofs.TypeText.Positions
import BeanSynthesis.Proofs.TypeText.Course
