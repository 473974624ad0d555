import MemberRelay.Main
import MemberRelay.Proofs.Wire.RoundTrip
import MemberRelay.Proofs.Wire.Records
import MemberRelay.Proofs.Wire.Shortest
import MemberRelay.Proofs.Wire.Joined
import MemberRelay.Proofs.Actions
import MemberRelay.Proofs.Failures
import MemberRelay.Proofs.Service.Traffic
import MemberRelay.Proofs.Net.Target
import MemberRelay.Proofs.Toml.Address
import MemberRelay.Proofs.Toml.Reach
import MemberRelay.Proofs.Toml.Written
import MemberRelay.Proofs.Toml.Contents
import MemberRelay.Proofs.Toml.Outline
import MemberRelay.Proofs.Toml.Recorded
import MemberRelay.Proofs.Toml.Spelling
import MemberRelay.Proofs.Toml.Pairs
import MemberRelay.Proofs.Toml.Lines
import MemberRelay.Proofs.Toml.Sectioned
import MemberRelay.Proofs.Settings.Fields
import MemberRelay.Proofs.Settings.Sections
import MemberRelay.Proofs.Settings.Overlay
import MemberRelay.Proofs.Settings.Statements
import MemberRelay.Proofs.Settings.OneValue
import MemberRelay.Proofs.Settings.Rendering
import MemberRelay.Proofs.FileSystem.Walk
import MemberRelay.Proofs.FileSystem.Changes
import MemberRelay.Proofs.Settings.Prepared
import MemberRelay.Proofs.Settings.Loaded
import MemberRelay.Proofs.Settings.Settled
import MemberRelay.Proofs.Arguments.Grammar
import MemberRelay.Proofs.Arguments.Parsing
import MemberRelay.Proofs.Arguments.Answers
import MemberRelay.Proofs.Arguments.PortOption
import MemberRelay.Proofs.Run.Stages
import MemberRelay.Proofs.Settings.Edited
import MemberRelay.Proofs.Net.Literals
import MemberRelay.Proofs.Net.Displayed
import MemberRelay.Proofs.Net.Listening
import MemberRelay.Proofs.Net.Refused
import MemberRelay.Proofs.Toml.Report
import MemberRelay.Proofs.Settings.Misfits
import MemberRelay.Proofs.Toml.Places
import MemberRelay.Proofs.Toml.Charted
import MemberRelay.Proofs.Toml.Kept
import MemberRelay.Proofs.Settings.Reported
import MemberRelay.Proofs.Net.Timeouts
import MemberRelay.Proofs.Settings.IntegerLiterals
