import MemberRelay.Arguments.Page
import MemberRelay.Arguments.Port

/-!
Why a command line holds no invocation: it asks for a text, or something is wrong with it.
-/

namespace MemberRelay.Arguments

/-- The end of reading a command line without an invocation. -/
inductive Rejection where
  | helpRequested (page : Page)
  | versionRequested (scope : Scope)
  | nothingGiven
  | unknownArgument (text : String)
  | unknownCommand (text : String)
  | missingCommand
  | missingSlots (slots : List Slot)
  | missingValue (o : ValueOption)
  | repeated (slot : Slot)
  /-- A value for an option that takes none. -/
  | unexpectedValue (f : Flag) (value : String)
  | invalidPort (text : String) (error : PortError)
  | notText
  deriving DecidableEq, Repr

namespace Rejection

def isRequest : Rejection → Bool
  | helpRequested _ => true
  | versionRequested _ => true
  | _ => false

/-- Is the message a whole page? All others are errors, and advice follows their message. -/
def isPage : Rejection → Bool
  | nothingGiven => true
  | r => r.isRequest

def exitCode (r : Rejection) : Nat := if r.isRequest then 0 else 2

/-- The words for a rejection. Each text from the command line is shown on its own, so a control
sequence that it leaves open takes out nothing of what follows. -/
def words (program? : Option String) : Rejection → String
  | helpRequested page => page.text program?
  | versionRequested scope => versionText scope
  | nothingGiven => (Page.scope .top).text program?
  | unknownArgument text => s!"error: unexpected argument '{Terminal.shown text}' found"
  | unknownCommand text => s!"error: unrecognized subcommand '{Terminal.shown text}'"
  | missingCommand =>
    "error: '" ++ Terminal.shown (program?.getD programName) ++
      "' requires a subcommand but one was not provided\n" ++
      "  [subcommands: serve, send, version, help]"
  | missingSlots slots =>
    String.join ("error: the following required arguments were not provided:" ::
      slots.map fun s => s!"\n  {s.usage}")
  | missingValue o => s!"error: a value is required for '{o.usage}' but none was supplied"
  | repeated slot => s!"error: the argument '{slot.usage}' cannot be used multiple times"
  | unexpectedValue f value =>
    s!"error: unexpected value '{Terminal.shown value}' for '{f.usage}' found; " ++
      "no more were expected"
  | invalidPort text e =>
    s!"error: invalid value '{Terminal.shown text}' for '{ValueOption.port.usage}': {e.message}"
  | notText => "error: invalid UTF-8 was detected in one or more arguments"

end Rejection

/-- The characters up to the first empty line. -/
def firstParagraph : List Char → List Char
  | '\n' :: '\n' :: _ => []
  | c :: cs => c :: firstParagraph cs
  | [] => []

/-- A whole page, or the first paragraph of the account of an error. -/
def Rejection.message (program? : Option String) (r : Rejection) : String :=
  let text := r.words program?
  if r.isPage then text else String.ofList (firstParagraph text.toList)

/-- What the account of an error says behind its first paragraph, for a command line: tips on what
may have been meant, and the usage. All words of the line may count for it, those after the mistake
too. It is not made here but left open. -/
abbrev Advice := List (List UInt8) → Rejection → String

end MemberRelay.Arguments
