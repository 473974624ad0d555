/-!
The settings file that a new directory gets: every setting with its default.
-/

namespace MemberRelay.Settings

def templateLines : List String := [
    "[rpc]",
    "# Start the gRPC server with `member-rpc serve`",
    "enabled = true",
    "# Address the server binds to",
    "listen_address = \"127.0.0.1\"",
    "port = 50051",
    "",
    "[client]",
    "# Port appended to the host given on the command line",
    "port = 50051",
    "# Seconds to wait for the connection to be established",
    "connect_timeout_secs = 10"]

def template : String := String.join (templateLines.map (· ++ "\n"))

end MemberRelay.Settings
