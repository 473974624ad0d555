/-!
What the command line can ask for, and the names of it all.
-/

namespace MemberRelay.Arguments

inductive Command where
  | serve
  | send (address : String) (port? : Option UInt16) (payload : String)
  | version (address : String) (port? : Option UInt16)
  deriving DecidableEq, Repr

/-- A command, and the settings directory that was asked for. -/
structure Invocation where
  directory? : Option String
  command : Command
  deriving DecidableEq, Repr

/-- The levels of the command line: before and after the name of a command. -/
inductive Scope where
  | top
  | serve
  | send
  | version
  deriving DecidableEq, Repr

/-- The options with a value. -/
inductive ValueOption where
  | directory
  | address
  | port
  deriving DecidableEq, Repr

/-- The options without a value. They ask for a text and end the reading. -/
inductive Flag where
  | help
  | version
  deriving DecidableEq, Repr

inductive Switch where
  | value (o : ValueOption)
  | flag (f : Flag)
  deriving DecidableEq, Repr

namespace ValueOption

def long : ValueOption → String
  | directory => "dirsettings"
  | address => "address"
  | port => "port"

def short : ValueOption → Char
  | directory => 'd'
  | address => 'a'
  | port => 'p'

def valueName : ValueOption → String
  | directory => "DIRSETTINGS"
  | address => "ADDRESS"
  | port => "PORT"

def about : ValueOption → String
  | directory => "Set folder for the settings file - default is HOME/.member-rpc"
  | address => "Remote host, without port"
  | port => "Override the port from the [client] section"

/-- The option with its value as messages name it. -/
def usage (o : ValueOption) : String := s!"--{o.long} <{o.valueName}>"

end ValueOption

namespace Flag

def long : Flag → String
  | help => "help"
  | version => "version"

def short : Flag → Char
  | help => 'h'
  | version => 'V'

def about : Flag → String
  | help => "Print help"
  | version => "Print version"

def usage (f : Flag) : String := s!"--{f.long}"

end Flag

namespace Switch

def long : Switch → String
  | value o => o.long
  | flag f => f.long

def short : Switch → Char
  | value o => o.short
  | flag f => f.short

def usage : Switch → String
  | value o => o.usage
  | flag f => f.usage

def about : Switch → String
  | value o => o.about
  | flag f => f.about

end Switch

/-- The places that take a value: the options, and the payload, which has no name. -/
inductive Slot where
  | option (o : ValueOption)
  | payload
  deriving DecidableEq, Repr

def Slot.usage : Slot → String
  | option o => o.usage
  | payload => "<PAYLOAD>"

namespace Scope

def name? : Scope → Option String
  | top => none
  | serve => some "serve"
  | send => some "send"
  | version => some "version"

def about : Scope → String
  | top => "gRPC member service and json relay client"
  | serve => "Start the RPC server configured in the [rpc] section"
  | send => "Send a json payload to a remote host and print the reply"
  | version => "Print the version reported by a remote host"

/-- The levels of the commands. -/
def commands : List Scope := [serve, send, version]

def ofName? (name : String) : Option Scope := commands.find? (·.name? = some name)

def valueOptions : Scope → List ValueOption
  | top => [.directory]
  | serve => [.directory]
  | send => [.address, .directory, .port]
  | version => [.address, .directory, .port]

def switches (scope : Scope) : List Switch :=
  scope.valueOptions.map .value ++ [.flag .help, .flag .version]

def takesPayload (scope : Scope) : Bool := scope = send

end Scope

/-- The command that explains commands. -/
def helpName : String := "help"

def helpAbout : String := "Print this message or the help of the given subcommand(s)"

end MemberRelay.Arguments
