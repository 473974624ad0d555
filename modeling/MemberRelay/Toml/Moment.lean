import MemberRelay.Text.Digits
import MemberRelay.Text.Reader

/-!
Dates and times: a day, a time of day, or both with or without an offset from universal time.
-/

namespace MemberRelay.Toml

def field? (width least greatest : Nat) (cs : List Char) : Option (Nat × List Char) :=
  let ds := cs.take width
  let n := Digits.number 10 ds
  if ds.length = width && ds.all (Digits.isDigit 10) && least ≤ n && n ≤ greatest then
    some (n, cs.drop width)
  else none

def isLeapYear (year : Nat) : Bool := year % 4 = 0 && (year % 100 ≠ 0 || year % 400 = 0)

def daysIn (year month : Nat) : Nat :=
  if month = 2 then if isLeapYear year then 29 else 28
  else if month = 4 || month = 6 || month = 9 || month = 11 then 30
  else 31

/-- The rest after a day of the calendar. -/
def date? (cs : List Char) : Option (List Char) := do
  let (year, cs) ← field? 4 0 9999 cs
  let (month, cs) ← field? 2 1 12 (← Reader.literal? ['-'] cs)
  let (_, cs) ← field? 2 1 (daysIn year month) (← Reader.literal? ['-'] cs)
  some cs

/-- The rest after a time of day; a second may be a leap second, and may have a fraction. -/
def time? (cs : List Char) : Option (List Char) := do
  let (_, cs) ← field? 2 0 23 cs
  let (_, cs) ← field? 2 0 59 (← Reader.literal? [':'] cs)
  let (_, cs) ← field? 2 0 60 (← Reader.literal? [':'] cs)
  match cs with
  | '.' :: fraction =>
    match Digits.run 10 fraction with
    | ([], _) => some cs
    | (_, rest) => some rest
  | _ => some cs

/-- The rest after an offset from universal time. -/
def offset? : List Char → Option (List Char)
  | 'Z' :: cs => some cs
  | 'z' :: cs => some cs
  | c :: cs =>
    if c = '+' || c = '-' then do
      let (_, cs) ← field? 2 0 23 cs
      let (_, cs) ← field? 2 0 59 (← Reader.literal? [':'] cs)
      some cs
    else none
  | [] => none

/-- The rest after a date or time. What cannot be a time after a day is left to the caller. -/
def moment? (cs : List Char) : Option (List Char) :=
  match date? cs with
  | none => time? cs
  | some [] => some []
  | some (c :: cs) =>
    if c = 'T' || c = 't' || c = ' ' then
      match time? cs with
      | some rest => some ((offset? rest).getD rest)
      | none => some (c :: cs)
    else some (c :: cs)

end MemberRelay.Toml
