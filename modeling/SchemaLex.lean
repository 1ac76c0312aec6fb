import SchemaLex.Config.File
import SchemaLex.Log.Hub
import SchemaLex.Log.Time
import SchemaLex.Proofs.Builder.Grammar
import SchemaLex.Proofs.Contextual.Coverage
import SchemaLex.Proofs.Contextual.Naming
import SchemaLex.Proofs.Significance
import SchemaLex.Scan
import SchemaLex.Token.Json
import SchemaLex.Proofs.Contextual.Enclosure
import SchemaLex.Proofs.Comments.Reading
import SchemaLex.Proofs.Comments.Agreement
import SchemaLex.Proofs.Builder.Lexemes
import SchemaLex.Proofs.Metrics
import SchemaLex.Proofs.Journal
import SchemaLex.Proofs.Builder.Boundary
import SchemaLex.Proofs.Metrics.Sum
import SchemaLex.Proofs.Stream
import SchemaLex.Proofs.Builder.Joining
import SchemaLex.Proofs.Contextual.Restart
import SchemaLex.Proofs.Builder.Numbers
import SchemaLex.Proofs.Token.Json
import SchemaLex.Proofs.Config.Layering
import SchemaLex.Proofs.Contextual.Blanks
import SchemaLex.Proofs.Comments.Closing
import SchemaLex.Proofs.Contextual.Comments
import SchemaLex.Proofs.Preferences
import SchemaLex.Proofs.Token.Stretches
import SchemaLex.Proofs.Log.Context
import SchemaLex.Proofs.Json.Line
import SchemaLex.Proofs.Log.Json
import SchemaLex.Proofs.Log.Hub
