import MemberRelay.Text.Digits
import MemberRelay.Text.Reader

/-!
Internet addresses of both kinds, their one text each, and the texts that are read as them.
-/

namespace MemberRelay

structure Ipv4 where
  a : UInt8
  b : UInt8
  c : UInt8
  d : UInt8
  deriving DecidableEq, Repr

namespace Ipv4

def unspecified : Ipv4 := ⟨0, 0, 0, 0⟩

def text (ip : Ipv4) : List Char :=
  Digits.decimal ip.a.toNat ++ '.' :: Digits.decimal ip.b.toNat ++
    '.' :: Digits.decimal ip.c.toNat ++ '.' :: Digits.decimal ip.d.toNat

/-- The two groups that the octets make up. -/
def groups (ip : Ipv4) : List UInt16 :=
  [ip.a.toUInt16 * 256 + ip.b.toUInt16, ip.c.toUInt16 * 256 + ip.d.toUInt16]

/-- The octets that two groups make up. -/
def ofGroups (high low : UInt16) : Ipv4 :=
  ⟨(high / 256).toUInt8, high.toUInt8, (low / 256).toUInt8, low.toUInt8⟩

/-- An octet: decimal digits without a zero in front of others. -/
def octet? : Reader UInt8 := fun cs =>
  match Digits.run 10 cs with
  | ([], _) => none
  | ('0' :: _ :: _, _) => none
  | (ds, rest) => (Digits.below? 10 256 ds).map fun n => (n.toUInt8, rest)

def read? : Reader Ipv4 := fun cs => do
  let (a, cs) ← octet? cs
  let cs ← Reader.literal? ['.'] cs
  let (b, cs) ← octet? cs
  let cs ← Reader.literal? ['.'] cs
  let (c, cs) ← octet? cs
  let cs ← Reader.literal? ['.'] cs
  let (d, cs) ← octet? cs
  some (⟨a, b, c, d⟩, cs)

end Ipv4

structure Ipv6 where
  groups : List UInt16
  length_groups : groups.length = 8 := by decide
  deriving DecidableEq, Repr

namespace Ipv6

def unspecified : Ipv6 := ⟨[0, 0, 0, 0, 0, 0, 0, 0], by decide⟩

/-- The address of the other kind that an address stands for, behind five groups of zero and one
of ones. -/
def mapped? (ip : Ipv6) : Option Ipv4 :=
  match ip.groups with
  | [0, 0, 0, 0, 0, 0xFFFF, high, low] => some (Ipv4.ofGroups high low)
  | _ => none

/-- Groups in hexadecimal with colons between them. -/
def groupsText : List UInt16 → List Char
  | [] => []
  | [g] => Digits.hexadecimal g.toNat
  | g :: gs => Digits.hexadecimal g.toNat ++ ':' :: groupsText gs

/-- At each place, how many zeros start there. -/
def zeroRuns : List UInt16 → List Nat
  | [] => []
  | g :: gs => (if g = 0 then (zeroRuns gs).headD 0 + 1 else 0) :: zeroRuns gs

/-- The shortest text of eight groups: the first of the longest runs of two zeros or more is left
out. -/
def compressed (gs : List UInt16) : List Char :=
  let runs := zeroRuns gs
  let longest := runs.foldl max 0
  if longest < 2 then groupsText gs
  else
    let start := runs.idxOf longest
    groupsText (gs.take start) ++ [':', ':'] ++ groupsText (gs.drop (start + longest))

def text (ip : Ipv6) : List Char :=
  match ip.mapped? with
  | some quad => [':', ':', 'f', 'f', 'f', 'f', ':'] ++ quad.text
  | none => compressed ip.groups

/-- One to four hexadecimal digits. -/
def group? : Reader UInt16 := fun cs =>
  match Digits.run 16 cs with
  | (ds, rest) =>
    if 1 ≤ ds.length ∧ ds.length ≤ 4 then some ((Digits.number 16 ds).toUInt16, rest) else none

/-- The colon in front of every group but the first. -/
def separator? (first : Bool) (cs : List Char) : Option (List Char) :=
  if first then some cs else Reader.literal? [':'] cs

/-- Groups that were read, whether four octets ended them, and the rest. -/
structure Run where
  groups : List UInt16
  quad : Bool
  rest : List Char

/-- As many groups as there are, `room` at most. Four octets take the room of two and end the
run. -/
def readGroups : Nat → Bool → List Char → Run
  | 0, _, cs => ⟨[], false, cs⟩
  | room + 1, first, cs =>
    match separator? first cs with
    | none => ⟨[], false, cs⟩
    | some cs' =>
      match if 1 ≤ room then Ipv4.read? cs' else none with
      | some (quad, rest) => ⟨quad.groups, true, rest⟩
      | none =>
        match group? cs' with
        | none => ⟨[], false, cs⟩
        | some (g, rest) =>
          let run := readGroups room false rest
          ⟨g :: run.groups, run.quad, run.rest⟩

theorem length_readGroups_le (room : Nat) (first : Bool) (cs : List Char) :
    (readGroups room first cs).groups.length ≤ room := by
  induction room generalizing first cs with
  | zero => simp [readGroups]
  | succ room ih =>
    rw [readGroups]
    split
    · simp
    · split
      · rename_i h
        split at h
        · simp [Ipv4.groups]; omega
        · simp at h
      · split
        · simp
        · simp [ih]

/-- Eight groups, or fewer around one `::`, which stands for one group at least. -/
def read? : Reader Ipv6 := fun cs =>
  let head := readGroups 8 true cs
  if h : head.groups.length = 8 then some (⟨head.groups, h⟩, head.rest)
  else if head.quad then none
  else do
    let cs ← Reader.literal? [':', ':'] head.rest
    let tail := readGroups (7 - head.groups.length) true cs
    let zeros := List.replicate (8 - head.groups.length - tail.groups.length) 0
    some (⟨head.groups ++ zeros ++ tail.groups, by
      have := length_readGroups_le 8 true cs
      have : tail.groups.length ≤ 7 - head.groups.length := length_readGroups_le _ _ _
      have : head.groups.length ≤ 8 := length_readGroups_le _ _ _
      simp [zeros]; omega⟩, tail.rest)

end Ipv6

inductive IpAddress where
  | v4 (ip : Ipv4)
  | v6 (ip : Ipv6)
  deriving DecidableEq, Repr

/-- The address that a text is, as a whole. -/
def IpAddress.parse? (cs : List Char) : Option IpAddress :=
  match Ipv4.read? cs with
  | some (ip, []) => some (.v4 ip)
  | _ =>
    match Ipv6.read? cs with
    | some (ip, []) => some (.v6 ip)
    | _ => none

end MemberRelay
