import ConditionTable.Analysis.Json
import ConditionTable.Analysis.Lookup
import ConditionTable.Session
import ConditionTable.Tree.Json
import ConditionTable.Proofs.Table.Levels
import ConditionTable.Proofs.Table.Growth
import ConditionTable.Proofs.Table.Soundness
import ConditionTable.Proofs.Table.Exactness
import ConditionTable.Proofs.Table.Completeness
import ConditionTable.Proofs.Table.Counting
import ConditionTable.Proofs.Table.RowCounts
import ConditionTable.Proofs.Table.Expansion
import ConditionTable.Proofs.Analysis.Gates
import ConditionTable.Proofs.Json.RoundTrip
import ConditionTable.Proofs.Settings.RoundTrip
import ConditionTable.Proofs.Pattern.Spelling
import ConditionTable.Proofs.Writing.Grammar
import ConditionTable.Proofs.Writing.Tokens
import ConditionTable.Proofs.Source.Masking
import ConditionTable.Proofs.Writing.Scanning
import ConditionTable.Proofs.Writing.Calm
import ConditionTable.Proofs.Writing.Chunks
import ConditionTable.Proofs.Writing.Levels
import ConditionTable.Proofs.Writing.RoundTrip
import ConditionTable.Proofs.Source.Spans
import ConditionTable.Proofs.Reading.Recursion
import ConditionTable.Proofs.Reading.Pieces
import ConditionTable.Proofs.Reading.Accounts
import ConditionTable.Proofs.Reading.Sizes
import ConditionTable.Proofs.Reading.Limits
import ConditionTable.Proofs.Reading.Restoring
import ConditionTable.Proofs.Analysis.Sharing
import ConditionTable.Proofs.Analysis.RowGate
import ConditionTable.Proofs.Analysis.Sessions
import ConditionTable.Proofs.Source.Opening
import ConditionTable.Proofs.Source.Quoting
import ConditionTable.Proofs.Source.Literals
import ConditionTable.Proofs.Reading.Literals
import ConditionTable.Proofs.Reading.Calls
import ConditionTable.Proofs.Memo.Contents
import ConditionTable.Proofs.Analysis.Columns
import ConditionTable.Proofs.Pattern.Loops
import ConditionTable.Proofs.Pattern.Choices
import ConditionTable.Proofs.Source.Around
import ConditionTable.Proofs.Source.Statement
import ConditionTable.Proofs.Reading.Wrapping
import ConditionTable.Proofs.Pattern.Cutting
import ConditionTable.Proofs.Reading.Connectives
import ConditionTable.Proofs.Bytes.Reading
import ConditionTable.Proofs.Bytes.Matching
import ConditionTable.Proofs.Reading.Termination
import ConditionTable.Proofs.Bytes.Protection
import ConditionTable.Proofs.Table.ClosedForms
import ConditionTable.Proofs.Source.Normal
import ConditionTable.Proofs.Analysis.Lookup
import ConditionTable.Proofs.Analysis.Emptiness
import ConditionTable.Proofs.Pattern.Meaning
import ConditionTable.Proofs.Pattern.Thorough
import ConditionTable.Proofs.Text.Tables
import ConditionTable.Proofs.Pattern.Turns
import ConditionTable.Proofs.Pattern.Forms
import ConditionTable.Proofs.Pattern.Actions
import ConditionTable.Proofs.Pattern.SignTails
import ConditionTable.Proofs.Pattern.BracketTails
import ConditionTable.Proofs.Pattern.Tails
import ConditionTable.Proofs.Pattern.Proper
import ConditionTable.Proofs.Pattern.Inside
import ConditionTable.Proofs.Pattern.Joined
import ConditionTable.Proofs.Reading.Leading
import ConditionTable.Proofs.Table.Parity
import ConditionTable.Proofs.Tree.Headings
import ConditionTable.Proofs.Bytes.Escaping
