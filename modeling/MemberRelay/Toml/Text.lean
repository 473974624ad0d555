import MemberRelay.Text.Digits
import MemberRelay.Toml.Trivia

/-!
The four spellings of a string: basic and literal, on one line and on several.
-/

namespace MemberRelay.Toml

/-- The character that four or eight hexadecimal digits name. -/
def codePoint? (digits : List Char) : Option Char :=
  if digits.all (Digits.isDigit 16) then
    let n := Digits.number 16 digits
    if n.isValidChar then some (Char.ofNat n) else none
  else none

/-- The character that one letter after a backslash stands for. -/
def shortEscape? : Char → Option Char
  | 'b' => some '\x08'
  | 't' => some '\t'
  | 'n' => some '\n'
  | 'f' => some '\x0c'
  | 'r' => some '\r'
  | '"' => some '"'
  | '\\' => some '\\'
  | _ => none

def escaped? : Reader Char
  | 'u' :: a :: b :: c :: d :: cs => (codePoint? [a, b, c, d]).map (·, cs)
  | 'U' :: a :: b :: c :: d :: e :: f :: g :: h :: cs =>
    (codePoint? [a, b, c, d, e, f, g, h]).map (·, cs)
  | c :: cs => (shortEscape? c).map (·, cs)
  | [] => none

theorem length_escaped?_lt {cs rest : List Char} {c : Char} (h : escaped? cs = some (c, rest)) :
    rest.length < cs.length := by
  unfold escaped? at h
  split at h <;> simp only [Option.map_eq_some_iff, Prod.mk.injEq, reduceCtorEq] at h
  all_goals
    obtain ⟨_, _, _, rfl⟩ := h
    simp only [List.length_cons]
    omega

/-- A basic string after its opening quote; `done` holds the characters read, the last one first. -/
def basicFrom (done : List Char) (cs : List Char) : Option (List Char × List Char) :=
  match cs with
  | [] => none
  | '"' :: cs => some (done.reverse, cs)
  | '\\' :: cs =>
    match _h : escaped? cs with
    | none => none
    | some (c, rest) => basicFrom (c :: done) rest
  | c :: cs => if isText c then basicFrom (c :: done) cs else none
termination_by cs.length
decreasing_by
  · have := length_escaped?_lt ‹_›
    simp only [List.length_cons]
    omega
  · simp

/-- The rest after blanks and line ends in any number. -/
def skipBreaks : List Char → List Char
  | [] => []
  | '\n' :: cs => skipBreaks cs
  | '\r' :: '\n' :: cs => skipBreaks cs
  | c :: cs => if isBlank c then skipBreaks cs else c :: cs

/-- The rest after a line end written behind a backslash, and the blanks and line ends after it. -/
def foldedLine? (cs : List Char) : Option (List Char) := (newline? (skipBlanks cs)).map skipBreaks

theorem length_skipBreaks_le (cs : List Char) : (skipBreaks cs).length ≤ cs.length := by
  fun_induction skipBreaks cs <;> grind

theorem length_newline?_lt {cs rest : List Char} (h : newline? cs = some rest) :
    rest.length < cs.length := by
  unfold newline? at h
  split at h <;> simp only [Option.some.injEq, reduceCtorEq] at h
  all_goals
    subst h
    simp only [List.length_cons]
    omega

theorem length_foldedLine?_lt {cs rest : List Char} (h : foldedLine? cs = some rest) :
    rest.length < cs.length := by
  obtain ⟨r, hr, rfl⟩ := Option.map_eq_some_iff.1 h
  have h₁ := length_newline?_lt hr
  have h₂ : (skipBlanks cs).length ≤ cs.length := (List.dropWhile_sublist _).length_le
  have h₃ := length_skipBreaks_le r
  omega

/-- A basic string on several lines, after its opening quotes and the line end next to them. One or
two quotes may stand right before the closing three. -/
def multilineBasicFrom (done : List Char) (cs : List Char) : Option (List Char × List Char) :=
  match cs with
  | [] => none
  | '"' :: '"' :: '"' :: '"' :: '"' :: cs => some (('"' :: '"' :: done).reverse, cs)
  | '"' :: '"' :: '"' :: '"' :: cs => some (('"' :: done).reverse, cs)
  | '"' :: '"' :: '"' :: cs => some (done.reverse, cs)
  | '\\' :: cs =>
    match _h : foldedLine? cs with
    | some rest => multilineBasicFrom done rest
    | none =>
      match _h : escaped? cs with
      | none => none
      | some (c, rest) => multilineBasicFrom (c :: done) rest
  | '\n' :: cs => multilineBasicFrom ('\n' :: done) cs
  | '\r' :: '\n' :: cs => multilineBasicFrom ('\n' :: done) cs
  | c :: cs => if isText c then multilineBasicFrom (c :: done) cs else none
termination_by cs.length
decreasing_by
  · have := length_foldedLine?_lt ‹_›
    simp only [List.length_cons]
    omega
  · have := length_escaped?_lt ‹_›
    simp only [List.length_cons]
    omega
  all_goals
    simp only [List.length_cons]
    omega

/-- A literal string after its opening quote. -/
def literalFrom (cs : List Char) : Option (List Char × List Char) :=
  let content := cs.takeWhile fun c => isText c && c ≠ '\''
  match cs.dropWhile fun c => isText c && c ≠ '\'' with
  | '\'' :: rest => some (content, rest)
  | _ => none

/-- A literal string on several lines, after its opening quotes and the line end next to them. -/
def multilineLiteralFrom (done : List Char) : List Char → Option (List Char × List Char)
  | [] => none
  | '\'' :: '\'' :: '\'' :: '\'' :: '\'' :: cs => some (('\'' :: '\'' :: done).reverse, cs)
  | '\'' :: '\'' :: '\'' :: '\'' :: cs => some (('\'' :: done).reverse, cs)
  | '\'' :: '\'' :: '\'' :: cs => some (done.reverse, cs)
  | '\n' :: cs => multilineLiteralFrom ('\n' :: done) cs
  | '\r' :: '\n' :: cs => multilineLiteralFrom ('\n' :: done) cs
  | c :: cs => if isText c then multilineLiteralFrom (c :: done) cs else none

/-- A string on one line, as in a key. -/
def lineString? : Reader (List Char)
  | '"' :: cs => basicFrom [] cs
  | '\'' :: cs => literalFrom cs
  | _ => none

/-- A string in any of its spellings. A line end right after three opening quotes is dropped. -/
def string? : Reader (List Char)
  | '"' :: '"' :: '"' :: cs => multilineBasicFrom [] ((newline? cs).getD cs)
  | '\'' :: '\'' :: '\'' :: cs => multilineLiteralFrom [] ((newline? cs).getD cs)
  | cs => lineString? cs

end MemberRelay.Toml
