import TextExpander.Command
import TextExpander.Command.Arguments
import TextExpander.Definition
import TextExpander.Definition.Parser
import TextExpander.Directive
import TextExpander.Disk
import TextExpander.Disk.System
import TextExpander.Document
import TextExpander.Document.Termination
import TextExpander.Error
import TextExpander.Expansion
import TextExpander.Fragment
import TextExpander.Lexeme
import TextExpander.Listing
import TextExpander.Location
import TextExpander.Main
import TextExpander.OpenFiles
import TextExpander.Outline
import TextExpander.Parens
import TextExpander.Path
import TextExpander.Proofs.Agree
import TextExpander.Proofs.ArgumentRanges
import TextExpander.Proofs.Balance
import TextExpander.Proofs.Bodies
import TextExpander.Proofs.Boundaries
import TextExpander.Proofs.Bounds
import TextExpander.Proofs.CallArguments
import TextExpander.Proofs.Candidates
import TextExpander.Proofs.ClosedCalls
import TextExpander.Proofs.Compose
import TextExpander.Proofs.Cuts
import TextExpander.Proofs.Frames
import TextExpander.Proofs.Limits
import TextExpander.Proofs.Noninterference
import TextExpander.Proofs.Offsets
import TextExpander.Proofs.OpenCall
import TextExpander.Proofs.Parens
import TextExpander.Proofs.Shown
import TextExpander.Proofs.Splicing
import TextExpander.Proofs.Streaming
import TextExpander.Proofs.Waiting
import TextExpander.Proofs.Whole
import TextExpander.Reader
import TextExpander.Request
import TextExpander.Run
import TextExpander.Sink
import TextExpander.Symbol
import TextExpander.Table
import TextExpander.Text.Basic
import TextExpander.Text.CharTable
import TextExpander.Text.Lines
import TextExpander.Text.Quoted
import TextExpander.Text.Space
import TextExpander.Text.Unprintable
import TextExpander.Text.Utf8
import TextExpander.Text.WordChar
import TextExpander.Trail
import TextExpander.Proofs.WellFormed
import TextExpander.Proofs.Origins
import TextExpander.Proofs.Registry
import TextExpander.Proofs.Blame
import TextExpander.Proofs.Directories
import TextExpander.Proofs.Interchange
import TextExpander.Proofs.Replay
import TextExpander.Proofs.SelfContained
import TextExpander.Proofs.Pasting
import TextExpander.Proofs.Relocation
import TextExpander.Proofs.Sequel
import TextExpander.Proofs.Truncation
import TextExpander.Proofs.Listed
import TextExpander.Proofs.Accounts
import TextExpander.Proofs.Decoding
import TextExpander.Proofs.Borders
import TextExpander.Proofs.LineEnds
import TextExpander.Proofs.Directives
import TextExpander.Proofs.Literal
import TextExpander.Proofs.Reread
import TextExpander.Proofs.Printing
import TextExpander.Proofs.WrittenArguments
import TextExpander.Proofs.Glue
import TextExpander.Proofs.Forwarding
import TextExpander.Proofs.MaximalWords
import TextExpander.Proofs.Parameters
import TextExpander.Proofs.IncludeLines
import TextExpander.Proofs.DefineLines
import TextExpander.Proofs.Matching
import TextExpander.Proofs.LineTerminators
import TextExpander.Proofs.SelfDelimiting
import TextExpander.Proofs.LexemeListing
import TextExpander.Proofs.Spelling
import TextExpander.Proofs.Correspondence
import TextExpander.Proofs.Respelling
import TextExpander.Proofs.Masking
import TextExpander.Proofs.Alignment
