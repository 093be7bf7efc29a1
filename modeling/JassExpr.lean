import JassExpr.Main
import JassExpr.Document.Event
import JassExpr.Proofs.Token.Lossless
import JassExpr.Proofs.Token.Rendering
import JassExpr.Proofs.Phrase.Unambiguous
import JassExpr.Proofs.Phrase.RoundTrip
import JassExpr.Proofs.Phrase.Partition
import JassExpr.Proofs.Phrase.Numbering
import JassExpr.Proofs.Phrase.Refusal
import JassExpr.Proofs.Phrase.Adjacent
import JassExpr.Proofs.Phrase.Limits
import JassExpr.Proofs.Phrase.Substitution
import JassExpr.Proofs.Document.Formatting
import JassExpr.Proofs.Document.Comments
import JassExpr.Proofs.Document.Excerpts
import JassExpr.Proofs.Document.Parentheses
import JassExpr.Proofs.Document.Laminar
import JassExpr.Proofs.Document.ListForms
import JassExpr.Proofs.Document.StringLiterals
import JassExpr.Proofs.Document.IntegerLiterals
import JassExpr.Proofs.Document.QuotedIntegers
import JassExpr.Proofs.Document.Positions
import JassExpr.Proofs.Source.Counting
import JassExpr.Proofs.Command.Files
import JassExpr.Proofs.Command.Dumps
import JassExpr.Proofs.Token.Lines
import JassExpr.Proofs.Token.LineEnds
import JassExpr.Proofs.Phrase.Places
import JassExpr.Proofs.Cursor.Safety
import JassExpr.Proofs.Descent.Discipline
