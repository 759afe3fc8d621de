import AgentClient.Conversation.Session
import AgentClient.Main
import AgentClient.Proofs.Child.Cleanup
import AgentClient.Proofs.Child.Lines
import AgentClient.Proofs.Child.Outcome
import AgentClient.Proofs.Child.Printed
import AgentClient.Proofs.CommandLine.ConfigExit
import AgentClient.Proofs.CommandLine.ExitCode
import AgentClient.Proofs.CommandLine.StreamOutput
import AgentClient.Proofs.CommandLine.WholeOutput
import AgentClient.Proofs.Config.Literals
import AgentClient.Proofs.Config.OverrideRoundTrip
import AgentClient.Proofs.Config.TomlReader
import AgentClient.Proofs.Config.TomlRoundTrip
import AgentClient.Proofs.Conversation.Acceptance
import AgentClient.Proofs.Conversation.CheckedAnswers
import AgentClient.Proofs.Conversation.ConfigFailures
import AgentClient.Proofs.Conversation.Exclusive
import AgentClient.Proofs.Conversation.Identity
import AgentClient.Proofs.Conversation.Independence
import AgentClient.Proofs.Conversation.Insertion
import AgentClient.Proofs.Conversation.Interchange
import AgentClient.Proofs.Conversation.Rejected
import AgentClient.Proofs.Conversation.SameKind
import AgentClient.Proofs.Conversation.SchemaFiles
import AgentClient.Proofs.Conversation.Shown
import AgentClient.Proofs.Conversation.TurnResult
import AgentClient.Proofs.Conversation.UnreadLog
import AgentClient.Proofs.Executor.CommandParts
import AgentClient.Proofs.Json.Documents
import AgentClient.Proofs.Json.Limits
import AgentClient.Proofs.Json.RoundTrip
import AgentClient.Proofs.Json.Scalars
import AgentClient.Proofs.Json.TrailingReturn
import AgentClient.Proofs.Json.Writing
import AgentClient.Proofs.Number.Magnitude
import AgentClient.Proofs.Number.Numerals
import AgentClient.Proofs.Text.Joined
import AgentClient.Proofs.Text.Surrogates
import AgentClient.Proofs.Wire.EventLines
import AgentClient.Proofs.Wire.LetThrough
import AgentClient.Proofs.Wire.WrongPayloads
import AgentClient.Proofs.Config.Obstacles
import AgentClient.Proofs.Config.Bindings
import AgentClient.Proofs.Executor.CommandReading
import AgentClient.Proofs.Config.Arrangement
import AgentClient.Proofs.CommandLine.ConfigWords
import AgentClient.Proofs.Conversation.Started
import AgentClient.Proofs.Conversation.Prompt
import AgentClient.Proofs.Executor.Isolation
import AgentClient.Proofs.Wire.DeclaredTypes
import AgentClient.Proofs.Json.Spelling
import AgentClient.Proofs.Json.EverySpelling
import AgentClient.Proofs.Wire.Unread
import AgentClient.Proofs.Text.Widths
import AgentClient.Proofs.Number.Widths
import AgentClient.Proofs.Json.TextSizes
import AgentClient.Proofs.Wire.BriefFaults
import AgentClient.Proofs.Wire.MessageLengths
