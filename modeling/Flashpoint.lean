import Flashpoint.Library.Climb
import Flashpoint.Library.Loop
import Flashpoint.Library.SortedMap
import Flashpoint.Library.Occurrences
import Flashpoint.Library.Paths
import Flashpoint.Diagnostics
import Flashpoint.Scanner.Token
import Flashpoint.Scanner.Scan
import Flashpoint.Scanner.Progress
import Flashpoint.Scanner.Loops
import Flashpoint.Scanner.Lexeme
import Flashpoint.Scanner.Text
import Flashpoint.Scanner.Lossless
import Flashpoint.Scanner.Lines
import Flashpoint.Scanner.Located
import Flashpoint.Scanner.Locations
import Flashpoint.Syntaxes
import Flashpoint.Parser
import Flashpoint.Clean
import Flashpoint.Reports
import Flashpoint.Halting
import Flashpoint.Tokens
import Flashpoint.Arguments
import Flashpoint.Schema.Parse
import Flashpoint.Grammar
import Flashpoint.Schema.Check
import Flashpoint.Schema.Wellformed
import Flashpoint.Schema.Definitions
import Flashpoint.Schema.Constructed
import Flashpoint.Schema.Assignable
import Flashpoint.Schema.CheckedValues
import Flashpoint.Schema.Halting
import Flashpoint.Schema.Required
import Flashpoint.Schema.Operations
import Flashpoint.Schema.Phases
import Flashpoint.Schema.Directives
import Flashpoint.Schema.DuplicateTypes
import Flashpoint.Schema.Tables
import Flashpoint.Scanner.Keywords
import Flashpoint.Scanner.DirectiveLocations
import Flashpoint.Schema.Grammar
import Flashpoint.Schema.Reading
import Flashpoint.Schema.Interfaces
import Flashpoint.Schema.Recursion
import Flashpoint.Library.Passes
import Flashpoint.Schema.Acceptance
import Flashpoint.Executor.Execute
import Flashpoint.Executor.Grammar
import Flashpoint.Executor.Reading
import Flashpoint.Library.Coupled
import Flashpoint.Places
import Flashpoint.Layout
import Flashpoint.Executor.Frame
import Flashpoint.Executor.Running
import Flashpoint.Executor.SafeValues
import Flashpoint.Executor.Safety
import Flashpoint.Executor.Typed
import Flashpoint.Executor.Halting
import Flashpoint.Executor.Layout
import Flashpoint.Executor.Required
import Flashpoint.Executor.Operations
import Flashpoint.Executor.Duplicates
import Flashpoint.Memory.MemoryPool
import Flashpoint.Memory.Tickets
import Flashpoint.Server.HttpServer
import Flashpoint.Server.Callbacks
import Flashpoint.Server.Requests
import Flashpoint.Server.Connections
import Flashpoint.Server.Forwarding
import Flashpoint.Server.HttpScanner
import Flashpoint.Server.HttpReading
import Flashpoint.Server.HttpGrammar
import Flashpoint.Server.HttpWriter
import Flashpoint.Scanner.Numbers
import Flashpoint.Scanner.Strings
import Flashpoint.Scanner.Errors
import Flashpoint.Executor.Integers
import Flashpoint.Executor.Fragments
import Flashpoint.Executor.Stack
import Flashpoint.Library.Insertions
import Flashpoint.Library.Holes
import Flashpoint.Memory.Allocations
import Flashpoint.Server.HttpHeaders
import Flashpoint.Server.HttpRequest
import Flashpoint.Text.TextWriter
import Flashpoint.Text.Placeholders
import Flashpoint.Text.Messages
import Flashpoint.Library.Brackets
import Flashpoint.Library.Traced
import Flashpoint.Text.SplitString
import Flashpoint.Text.TextAnnotater
import Flashpoint.Scanner.Blocks
import Flashpoint.Scanner.Reads
import Flashpoint.Scanner.Trivia
import Flashpoint.Scanner.Delimited
import Flashpoint.Scanner.Reread
import Flashpoint.Schema.Decimals
import Flashpoint.Schema.ValueTexts
import Flashpoint.Library.Crossings
import Flashpoint.Scanner.Lookup
