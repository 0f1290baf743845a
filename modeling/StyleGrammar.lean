import StyleGrammar.Token.Basic
import StyleGrammar.Token.Numeral
import StyleGrammar.Number.Binary64
import StyleGrammar.Number.Shortest
import StyleGrammar.Text.Utf8
import StyleGrammar.Text.Unicode
import StyleGrammar.Cursor
import StyleGrammar.Value
import StyleGrammar.Shorthand
import StyleGrammar.Grammar.Parameters
import StyleGrammar.Grammar.Leaf
import StyleGrammar.Grammar.Reader
import StyleGrammar.Grammar.Basic
import StyleGrammar.Proofs.Shorthand
import StyleGrammar.Proofs.Discipline
import StyleGrammar.Proofs.Progress
import StyleGrammar.Proofs.Spacing
import StyleGrammar.Proofs.Keywords
import StyleGrammar.Proofs.PropertyValue
import StyleGrammar.Proofs.Runs
import StyleGrammar.Proofs.ValueText
import StyleGrammar.Proofs.LeafText
import StyleGrammar.Proofs.Rereadable
import StyleGrammar.Proofs.RoundTrip
import StyleGrammar.Proofs.Greedy
import StyleGrammar.Proofs.Padding
import StyleGrammar.Proofs.PaddingInvariance
import StyleGrammar.Proofs.Repetition
import StyleGrammar.Proofs.Utf8Text
import StyleGrammar.Proofs.Boundary
import StyleGrammar.Proofs.SeparatedList
import StyleGrammar.Proofs.KeywordLookup
import StyleGrammar.Proofs.ExactIntegers
import StyleGrammar.Proofs.LeafShapes
import StyleGrammar.Proofs.LongestMatch
import StyleGrammar.Proofs.Overflow
import StyleGrammar.Proofs.NumberGrammar
import StyleGrammar.Proofs.SpacingScan
