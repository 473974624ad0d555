import MemberRelay.Text.Digits

/-!
Places in a source text, and the report that points at one. A span is kept as two ends of the
source, so reading needs no counter: all counting is done when a report is written.
-/

namespace MemberRelay.Toml

/-- A piece of a source text: the source from its first character on, and the source after it. -/
structure Span where
  start : List Char
  stop : List Char

namespace Span

def text (s : Span) : List Char := s.start.take (s.start.length - s.stop.length)

end Span

/-- Where a piece starts: the lines before it, the characters before it on its line, and that
line without its line feed. -/
structure Place where
  line : Nat
  column : Nat
  content : List Char

/-- The place in `source` of a piece that starts at `start`. -/
def Place.of (source start : List Char) : Place :=
  let before := source.take (source.length - start.length)
  let lead := (before.reverse.takeWhile (· ≠ '\n')).reverse
  ⟨before.count '\n', lead.length, lead ++ start.takeWhile (· ≠ '\n')⟩

def byteCount (cs : List Char) : Nat := cs.foldl (fun n c => n + c.utf8Size) 0

/-- How many marks stand under a piece: its bytes, at most those left on its line, at least one. -/
def Place.marks (p : Place) (s : Span) : Nat :=
  max 1 (min (byteCount s.text) (byteCount p.content - p.column))

/-- A report that quotes the line of a piece, marks the piece and gives a reason. -/
def report (source : List Char) (s : Span) (reason : String) : String :=
  let p := Place.of source s.start
  let number := toString (p.line + 1)
  let gutter := String.ofList (List.replicate (number.length + 1) ' ')
  let marks := String.ofList (List.replicate (p.column + 1) ' ' ++ List.replicate (p.marks s) '^')
  let content := String.ofList p.content
  s!"TOML parse error at line {number}, column {p.column + 1}\n" ++
    s!"{gutter}|\n{number} | {content}\n{gutter}|{marks}\n{reason}\n"

end MemberRelay.Toml
