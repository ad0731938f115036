import LineGrammar.Agreement
import LineGrammar.Main
import LineGrammar.Proofs.Reading
import LineGrammar.Proofs.Derivation
import LineGrammar.Proofs.Productivity
import LineGrammar.Proofs.Reachability
import LineGrammar.Proofs.Reduced
import LineGrammar.Proofs.Ebnf
import LineGrammar.Proofs.Languages
import LineGrammar.Proofs.Expansion
import LineGrammar.Proofs.Faithfulness
import LineGrammar.Proofs.Writing
import LineGrammar.Proofs.Recogniser
import LineGrammar.Proofs.Census
import LineGrammar.Proofs.Flags
import LineGrammar.Proofs.Helpers
import LineGrammar.Proofs.Correspondence
import LineGrammar.Proofs.Reordering
import LineGrammar.Proofs.Blocks
import LineGrammar.Proofs.Encoding
import LineGrammar.Proofs.RuleOrder
import LineGrammar.Proofs.Lexemes
import LineGrammar.Proofs.RuleLine
import LineGrammar.Proofs.Gathering
import LineGrammar.Proofs.Display
import LineGrammar.Proofs.ReadBack
import LineGrammar.Proofs.Turns
import LineGrammar.Proofs.Editions
import LineGrammar.Proofs.Faults
import LineGrammar.Proofs.Freshness
import LineGrammar.Proofs.Endings
import LineGrammar.Proofs.FirstFault
import LineGrammar.Proofs.Bounds
import LineGrammar.Proofs.Derivability
import LineGrammar.Proofs.NameKinds
import LineGrammar.Proofs.OutOfReach
import LineGrammar.Proofs.Recasting
import LineGrammar.Proofs.FurtherAlternatives
import LineGrammar.Proofs.Decoding
import LineGrammar.Proofs.Layout
import LineGrammar.Proofs.ProductionNumbers
import LineGrammar.Proofs.TableCalls
import LineGrammar.Proofs.Growth
import LineGrammar.Proofs.Matching
import LineGrammar.Proofs.SharedNames
import LineGrammar.Proofs.EntrySites
import LineGrammar.Proofs.AlternativeLines
import LineGrammar.Proofs.Sites
import LineGrammar.Proofs.Spelling
import LineGrammar.Proofs.Failures
import LineGrammar.Proofs.Arrows
import LineGrammar.Proofs.Phases
import LineGrammar.Proofs.DisplayCounts
import LineGrammar.Proofs.Outcome
import LineGrammar.Proofs.Trees
import LineGrammar.Proofs.Sweeps
import LineGrammar.Proofs.Frontier
