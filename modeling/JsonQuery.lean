import JsonQuery.Main
import JsonQuery.Proofs.Builtin.Merging
import JsonQuery.Proofs.Builtin.Ordering
import JsonQuery.Proofs.Builtin.Total
import JsonQuery.Proofs.Equality.Laws
import JsonQuery.Proofs.Equality.Recovery
import JsonQuery.Proofs.Evaluation.Filter
import JsonQuery.Proofs.Evaluation.ListScope
import JsonQuery.Proofs.Evaluation.Lossless
import JsonQuery.Proofs.Evaluation.Nesting
import JsonQuery.Proofs.Grammar.Brackets
import JsonQuery.Proofs.Grammar.Commas
import JsonQuery.Proofs.Grammar.Completion
import JsonQuery.Proofs.Grammar.Constructs
import JsonQuery.Proofs.Grammar.Termination
import JsonQuery.Proofs.Json.RoundTrip
import JsonQuery.Proofs.Leniency.Evaluation
import JsonQuery.Proofs.Safety.Evaluation
import JsonQuery.Proofs.Session.Contents
import JsonQuery.Proofs.Token.Quotation
import JsonQuery.Proofs.Token.RawString
import JsonQuery.Proofs.Token.Spacing
import JsonQuery.Proofs.Tree.NormalForm
import JsonQuery.Proofs.Value.Slicing
