import MemberRelay.Arguments.Command
import MemberRelay.Text.Terminal

/-!
The texts that explain the command line.
-/

namespace MemberRelay.Arguments

/-- What a page explains: a level, or the command that explains commands. -/
inductive Page where
  | scope (s : Scope)
  | help
  deriving DecidableEq, Repr

/-- The name of the program in texts that do not depend on how it was called. -/
def programName : String := "member-rpc"

def programVersion : String := "1.0.0"

/-- Rows of two columns, where the second starts two places after the widest entry of the first. -/
def columns (rows : List (String × String)) : List String :=
  let width := (rows.map (·.1.length)).foldl max 0
  rows.map fun (left, right) => "  " ++ left ++ "".pushn ' ' (width - left.length + 2) ++ right

/-- The words that call a command, shown as one text: a control sequence that the name of the
program leaves open goes on in the name of the command. -/
def callOf (program? : Option String) (name : String) : String :=
  match program? with
  | some program => Terminal.shown s!"{program} {name}"
  | none => name

def usageLine (program? : Option String) : Scope → String
  | .top => "Usage: " ++ Terminal.shown (program?.getD programName) ++ " [OPTIONS] <COMMAND>"
  | .serve => "Usage: " ++ callOf program? "serve" ++ " [OPTIONS]"
  | .send => "Usage: " ++ callOf program? "send" ++ " [OPTIONS] --address <ADDRESS> <PAYLOAD>"
  | .version => "Usage: " ++ callOf program? "version" ++ " [OPTIONS] --address <ADDRESS>"

def optionLines (scope : Scope) : List String :=
  "Options:" :: columns (scope.switches.map fun s => (s!"-{s.short}, {s.usage}", s.about))

def commandLines : List String :=
  "Commands:" :: columns
    (Scope.commands.map (fun s => (s.name?.getD "", s.about)) ++ [(helpName, helpAbout)])

namespace Page

def lines (program? : Option String) : Page → List String
  | scope .top =>
    [programName, "", Scope.top.about, "", "", usageLine program? .top, ""] ++ commandLines ++
      [""] ++ optionLines .top
  | scope .send =>
    [Scope.send.about, "", usageLine program? .send, "", "Arguments:"] ++
      columns [(Slot.payload.usage, "Payload sent as is")] ++ [""] ++ optionLines .send
  | scope s => [s.about, "", usageLine program? s, ""] ++ optionLines s
  | help =>
    [helpAbout, "", s!"Usage: {callOf program? helpName} [COMMAND]...", "", "Arguments:"] ++
      columns [("[COMMAND]...", "Print help for the subcommand(s)")]

def text (program? : Option String) (page : Page) : String :=
  String.join ((page.lines program?).map (· ++ "\n"))

end Page

/-- The version of the program, as a level tells it. -/
def versionText (scope : Scope) : String :=
  match scope.name? with
  | none => s!"{programName} {programVersion}\n"
  | some name => s!"{programName}-{name} {programVersion}\n"

end MemberRelay.Arguments
