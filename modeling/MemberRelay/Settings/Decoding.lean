import MemberRelay.Settings.Basic
import MemberRelay.Text.Quoted
import MemberRelay.Toml.Document

/-!
Settings from a TOML document. What the document leaves out keeps its default, names it does not
know are passed over, and the first value of a wrong type or range ends the reading.
-/

namespace MemberRelay

open Toml (Key Scalar Span Table Value)

inductive Expected where
  | boolean
  | string
  | u16
  | u64
  | rpcSection
  | clientSection
  deriving DecidableEq

def Expected.text : Expected → String
  | boolean => "a boolean"
  | string => "a string"
  | u16 => "u16"
  | u64 => "u64"
  | rpcSection => "struct RpcSettings"
  | clientSection => "struct ClientSettings"

def Expected.isInteger : Expected → Bool
  | u16 => true
  | u64 => true
  | _ => false

/-- A value that does not fit its place. -/
structure Mismatch where
  found : Value
  expected : Expected
  span : Span

namespace Mismatch

def describe : Value → String
  | .scalar (.boolean b) _ => s!"boolean `{b}`"
  | .scalar (.integer n) _ => s!"integer `{n}`"
  | .scalar (.float x) _ => s!"floating point `{x.text}`"
  | .scalar (.string s) _ => s!"string {Quoted.text s}"
  | .scalar (.moment _) _ => "map"
  | .array _ _ => "sequence"
  | .table _ => "map"
  | .tables _ => "sequence"

/-- An integer where an integer goes is out of range; all else has the wrong type. -/
def isOutOfRange (m : Mismatch) : Bool :=
  match m.found with
  | .scalar (.integer _) _ => m.expected.isInteger
  | _ => false

def reason (m : Mismatch) : String :=
  let what := if m.isOutOfRange then "value" else "type"
  s!"invalid {what}: {describe m.found}, expected {m.expected.text}"

end Mismatch

inductive SettingsError where
  | malformed
  | mismatch (m : Mismatch)

/-- Stands for what is said of a text that is no document. The reader of documents words that, and its
words are left out: this is not a text of the program. -/
def SettingsError.malformedText : String := "the settings are not a TOML document"

/-- The account of an error in a source text. -/
def SettingsError.message (source : List Char) : SettingsError → String
  | malformed => malformedText
  | mismatch m => Toml.report source m.span m.reason

namespace Settings

def boolean? : Value → Option Bool
  | .scalar (.boolean b) _ => some b
  | _ => none

def string? : Value → Option String
  | .scalar (.string s) _ => some s
  | _ => none

def u16? : Value → Option UInt16
  | .scalar (.integer n) _ => if 0 ≤ n ∧ n < UInt16.size then some n.toNat.toUInt16 else none
  | _ => none

def u64? : Value → Option UInt64
  | .scalar (.integer n) _ => if 0 ≤ n ∧ n < UInt64.size then some n.toNat.toUInt64 else none
  | _ => none

/-- A value that fits its place. One without a span is reported at its name. -/
def fit {α : Type} (expected : Expected) (read? : Value → Option α) (name : Span) (v : Value) :
    Except Mismatch α :=
  match read? v with
  | some a => .ok a
  | none => .error ⟨v, expected, v.span?.getD name⟩

def assignRpc (s : RpcSettings) (name : String) (span : Span) (v : Value) :
    Except Mismatch RpcSettings :=
  if name = "enabled" then return { s with enabled := ← fit .boolean boolean? span v }
  else if name = "listen_address" then return { s with listenAddress := ← fit .string string? span v }
  else if name = "port" then return { s with port := ← fit .u16 u16? span v }
  else return s

def assignClient (s : ClientSettings) (name : String) (span : Span) (v : Value) :
    Except Mismatch ClientSettings :=
  if name = "port" then return { s with port := ← fit .u16 u16? span v }
  else if name = "connect_timeout_secs" then
    return { s with connectTimeoutSecs := ← fit .u64 u64? span v }
  else return s

/-- The named values of a section: the entries of a table, or the items of an array under the names
of the fields in their order. A date or time counts as a table of unknown names. -/
def fields? (names : List String) (name : Span) : Value → Option (List (String × Span × Value))
  | .table t => some (t.entries.map fun (key, v) => (key.name, key.span, v))
  | .array items span => some ((names.zip items).map fun (n, v) => (n, span, v))
  | .tables ts => some ((names.zip ts).map fun (n, t) => (n, name, .table t))
  | .scalar (.moment _) _ => some []
  | .scalar _ _ => none

def readSection {σ : Type} (expected : Expected) (names : List String)
    (assign : σ → String → Span → Value → Except Mismatch σ) (s : σ) (name : Span) (v : Value) :
    Except Mismatch σ := do
  let fields ← fit expected (fields? names name) name v
  fields.foldlM (fun s (n, span, v) => assign s n span v) s

def rpcFields : List String := ["enabled", "listen_address", "port"]

def clientFields : List String := ["port", "connect_timeout_secs"]

def assignSection (s : Settings) (name : String) (span : Span) (v : Value) :
    Except Mismatch Settings :=
  if name = "rpc" then
    return { s with rpc := ← readSection .rpcSection rpcFields assignRpc s.rpc span v }
  else if name = "client" then
    return { s with client := ← readSection .clientSection clientFields assignClient s.client span v }
  else return s

def ofTable (t : Table Value) : Except Mismatch Settings :=
  t.entries.foldlM (fun s (key, v) => assignSection s key.name key.span v) {}

def ofToml (source : List Char) : Except SettingsError Settings :=
  match Toml.document? source with
  | none => .error .malformed
  | some t => (ofTable t).mapError .mismatch

end Settings

end MemberRelay
