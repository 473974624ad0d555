import Mathlib.Algebra.Group.Nat.Defs
import Mathlib.Data.List.TakeWhile
import Mathlib.Data.Option.Basic
import Mathlib.Tactic.Common
import Mathlib.Tactic.SplitIfs
import MemberRelay.Net.SocketAddress

/-!
# Literal addresses

How an address of either kind is written, and that the readers take just what is written so. A reader
takes as many digits and groups as there are; where an address ends is seen at what follows it.
-/

namespace MemberRelay.Proofs

/-- One digit or more of a base that spell `n`. -/
structure SpellsNumber (base n : Nat) (ds : List Char) : Prop where
  ne_nil : ds ≠ []
  digits : ∀ c ∈ ds, Digits.isDigit base c = true
  value : Digits.number base ds = n

/-- A decimal number below 256 without a zero in front of others. -/
structure SpellsOctet (b : UInt8) (ds : List Char) : Prop extends SpellsNumber 10 b.toNat ds where
  no_zero : ∀ es, ds = '0' :: es → es = []

/-- Four octets with dots between them. -/
inductive SpellsQuad : Ipv4 → List Char → Prop where
  | octets {a b c d : UInt8} {as bs cs ds : List Char} (ha : SpellsOctet a as)
      (hb : SpellsOctet b bs) (hc : SpellsOctet c cs) (hd : SpellsOctet d ds) :
      SpellsQuad ⟨a, b, c, d⟩ (as ++ '.' :: (bs ++ '.' :: (cs ++ '.' :: ds)))

/-- One to four hexadecimal digits. -/
structure SpellsGroup (g : UInt16) (ds : List Char) : Prop extends SpellsNumber 16 g.toNat ds where
  short : ds.length ≤ 4

/-- What stands in front of a group. -/
def colonBefore (first : Bool) : List Char := if first then [] else [':']

/-- Groups with a colon in front of each but the first. Four octets may stand for the last two, which
the flag after the groups says. -/
inductive SpellsGroups : Bool → List UInt16 → Bool → List Char → Prop where
  | nil {first : Bool} : SpellsGroups first [] false []
  | quad {first : Bool} {ip : Ipv4} {cs : List Char} (h : SpellsQuad ip cs) :
      SpellsGroups first ip.groups true (colonBefore first ++ cs)
  | cons {first quad : Bool} {g : UInt16} {gs : List UInt16} {cs ds : List Char}
      (h : SpellsGroup g cs) (hs : SpellsGroups false gs quad ds) :
      SpellsGroups first (g :: gs) quad (colonBefore first ++ (cs ++ ds))

/-- Eight groups, or fewer around one `::`, which stands for zeros in the places that are left. -/
inductive SpellsIpv6 (ip : Ipv6) : List Char → Prop where
  | full {quad : Bool} {cs : List Char} (h : SpellsGroups true ip.groups quad cs) : SpellsIpv6 ip cs
  | around {quad : Bool} {gs hs : List UInt16} {cs ds : List Char}
      (hfront : SpellsGroups true gs false cs) (hback : SpellsGroups true hs quad ds)
      (hroom : gs.length + hs.length ≤ 7)
      (hgroups : ip.groups = gs ++ List.replicate (8 - gs.length - hs.length) 0 ++ hs) :
      SpellsIpv6 ip (cs ++ ':' :: ':' :: ds)

/-- Nothing, or the number of a link after a percent sign. -/
inductive SpellsScope : UInt32 → List Char → Prop where
  | absent : SpellsScope 0 []
  | percent {scope : UInt32} {ds : List Char} (h : SpellsNumber 10 scope.toNat ds) :
      SpellsScope scope ('%' :: ds)

/-- A text is the literal of an address, whatever the port: four octets, or an address of the other
kind in brackets, the link it is meant on before the closing one. -/
inductive SpellsHost : SocketAddress → List Char → Prop where
  | quad {ip : Ipv4} {port : UInt16} {cs : List Char} (h : SpellsQuad ip cs) :
      SpellsHost (.v4 ip port) cs
  | bracketed {ip : Ipv6} {scope : UInt32} {port : UInt16} {cs ds : List Char}
      (h : SpellsIpv6 ip cs) (hscope : SpellsScope scope ds) :
      SpellsHost (.v6 ip scope port) ('[' :: cs ++ ds ++ [']'])

/-! ### Digits -/

section Digits

variable {base n bound : Nat} {cs ds rest : List Char}

/-- No digit of a base comes next. -/
def EndsDigits (base : Nat) (rest : List Char) : Prop :=
  ∀ c ∈ rest.head?, Digits.isDigit base c = false

lemma run_append_of_ends (hds : ∀ c ∈ ds, Digits.isDigit base c = true) (h : EndsDigits base rest) :
    Digits.run base (ds ++ rest) = (ds, rest) := by
  rw [Digits.run, List.takeWhile_append_of_pos hds, List.dropWhile_append_of_pos hds]
  cases rest with
  | nil => simp
  | cons c rest =>
    have hc : Digits.isDigit base c = false := h c (by simp)
    rw [List.takeWhile_cons_of_neg (by simp [hc]), List.dropWhile_cons_of_neg (by simp [hc]),
      List.append_nil]

/-- A run takes all digits in front. -/
lemma run_eq_iff : Digits.run base cs = (ds, rest) ↔
    cs = ds ++ rest ∧ (∀ c ∈ ds, Digits.isDigit base c = true) ∧ EndsDigits base rest := by
  constructor
  · intro h
    obtain ⟨rfl, rfl⟩ := Prod.ext_iff.1 h
    refine ⟨(Digits.run_append base cs).symm, fun c hc => List.mem_takeWhile_imp hc, ?_⟩
    intro c hc
    have hstop := List.head?_dropWhile_not (Digits.isDigit base) cs
    rw [show (cs.dropWhile (Digits.isDigit base)).head? = some c from hc] at hstop
    simpa using hstop
  · rintro ⟨rfl, hds, hends⟩
    exact run_append_of_ends hds hends

lemma below?_eq_some_iff (hbase : 1 ≤ base) (hbound : 0 < bound) :
    Digits.below? base bound ds = some n ↔ Digits.number base ds = n ∧ n < bound := by
  rw [Digits.below?_eq hbase hbound]
  split_ifs with h
  · rw [Option.some_inj]
    exact ⟨fun hn => ⟨hn, hn ▸ h⟩, And.left⟩
  · refine iff_of_false (by simp) ?_
    rintro ⟨rfl, hn⟩
    exact h hn

lemma endsDigits_cons {c : Char} (h : Digits.isDigit base c = false) :
    EndsDigits base (c :: rest) := by
  intro d hd
  cases hd
  exact h

lemma isDigit_mono {small large : Nat} {c : Char} (hle : small ≤ large)
    (h : Digits.isDigit small c = true) : Digits.isDigit large c = true := by
  unfold Digits.isDigit at h ⊢
  split at h
  · simp only [decide_eq_true_eq] at h ⊢
    omega
  · cases h

lemma EndsDigits.mono {small large : Nat} (hle : small ≤ large) (h : EndsDigits large rest) :
    EndsDigits small rest := by
  intro c hc
  refine Bool.eq_false_iff.2 fun hdigit => ?_
  exact Bool.eq_false_iff.1 (h c hc) (isDigit_mono hle hdigit)

lemma push_lt {c : Char} (hc : Digits.isDigit base c = true) (n : Nat) :
    Digits.push base n c < (n + 1) * base := by
  unfold Digits.isDigit at hc
  split at hc
  · next d hvalue =>
    rw [decide_eq_true_eq] at hc
    rw [Digits.push, hvalue, Nat.add_mul, Option.getD_some]
    omega
  · cases hc

lemma foldl_push_lt (hds : ∀ c ∈ ds, Digits.isDigit base c = true) (n : Nat) :
    ds.foldl (Digits.push base) n < (n + 1) * base ^ ds.length := by
  induction ds generalizing n with
  | nil => simp
  | cons c ds ih =>
    rw [List.forall_mem_cons] at hds
    calc ds.foldl (Digits.push base) (Digits.push base n c)
        < (Digits.push base n c + 1) * base ^ ds.length := ih hds.2 _
      _ ≤ (n + 1) * base * base ^ ds.length := Nat.mul_le_mul_right _ (push_lt hds.1 n)
      _ = (n + 1) * base ^ (ds.length + 1) := by rw [Nat.mul_assoc, Nat.pow_succ']

/-- So many digits spell a number below so high a power. -/
lemma number_lt (hds : ∀ c ∈ ds, Digits.isDigit base c = true) :
    Digits.number base ds < base ^ ds.length := by
  have h := foldl_push_lt hds 0
  rwa [Nat.zero_add, Nat.one_mul] at h

lemma SpellsNumber.not_endsDigits (h : SpellsNumber base n ds) (rest : List Char) :
    ¬EndsDigits base (ds ++ rest) := by
  obtain ⟨c, cs, rfl⟩ := List.exists_cons_of_ne_nil h.ne_nil
  intro hends
  have hc := h.digits c List.mem_cons_self
  rw [hends c rfl] at hc
  cases hc

end Digits

/-! ### Addresses of four octets -/

section Quads

variable {b : UInt8} {ip : Ipv4} {cs rest : List Char}

/-- An octet is taken with all digits that come next, or refused. -/
lemma octet?_eq_some_iff : Ipv4.octet? cs = some (b, rest) ↔
    ∃ ds, cs = ds ++ rest ∧ SpellsOctet b ds ∧ EndsDigits 10 rest := by
  constructor
  · intro h
    rw [Ipv4.octet?] at h
    split at h
    · cases h
    · cases h
    · next ds rest' hnil hzero hrun =>
      obtain ⟨hcs, hdigits, hends⟩ := run_eq_iff.1 hrun
      obtain ⟨n, hn, heq⟩ := Option.map_eq_some_iff.1 h
      obtain ⟨hvalue, hbound⟩ := (below?_eq_some_iff (by decide) (by decide)).1 hn
      cases heq
      refine ⟨ds, hcs, ⟨⟨hnil, hdigits, ?_⟩, ?_⟩, hends⟩
      · exact hvalue.trans (UInt8.toNat_ofNat_of_lt' hbound).symm
      · rintro es rfl
        cases es with
        | nil => rfl
        | cons e es => exact (hzero e es rfl).elim
  · rintro ⟨ds, rfl, hspells, hends⟩
    have hrun := run_append_of_ends hspells.digits hends
    rw [Ipv4.octet?, hrun]
    split
    · next heq => exact absurd (congrArg Prod.fst heq) hspells.ne_nil
    · next heq => cases hspells.no_zero _ (congrArg Prod.fst heq)
    · next heq =>
      cases heq
      have hvalue : Digits.below? 10 256 ds = some b.toNat :=
        (below?_eq_some_iff (by decide) (by decide)).2 ⟨hspells.value, b.toNat_lt⟩
      simp [hvalue]

/-- Four octets are taken with all digits of the last, or refused. -/
lemma quad?_eq_some_iff : Ipv4.read? cs = some (ip, rest) ↔
    ∃ ds, cs = ds ++ rest ∧ SpellsQuad ip ds ∧ EndsDigits 10 rest := by
  constructor
  · intro h
    simp only [Ipv4.read?, Option.bind_eq_bind, Option.bind_eq_some_iff, Prod.exists,
      octet?_eq_some_iff, Reader.literal?_eq_some_iff] at h
    obtain ⟨a, _, ⟨as, rfl, ha, -⟩, _, rfl, b, _, ⟨bs, rfl, hb, -⟩, _, rfl, c, _, ⟨cs, rfl, hc, -⟩,
      _, rfl, d, _, ⟨ds, rfl, hd, hends⟩, heq⟩ := h
    cases heq
    exact ⟨_, by simp, .octets ha hb hc hd, hends⟩
  · rintro ⟨_, rfl, ⟨ha, hb, hc, hd⟩, hends⟩
    have hoctet : ∀ {b : UInt8} {ds rest : List Char}, SpellsOctet b ds → EndsDigits 10 rest →
        Ipv4.octet? (ds ++ rest) = some (b, rest) :=
      fun h hrest => octet?_eq_some_iff.2 ⟨_, rfl, h, hrest⟩
    have hdot : ∀ cs, EndsDigits 10 ('.' :: cs) := fun _ => endsDigits_cons rfl
    simp only [Ipv4.read?, List.append_assoc, List.cons_append, hoctet ha (hdot _),
      hoctet hb (hdot _), hoctet hc (hdot _), hoctet hd hends, Option.bind_eq_bind, Option.bind_some,
      Reader.literal?, if_true]

lemma SpellsQuad.not_endsDigits (h : SpellsQuad ip cs) (rest : List Char) :
    ¬EndsDigits 10 (cs ++ rest) := by
  obtain ⟨ha, -, -, -⟩ := h
  rw [List.append_assoc]
  exact ha.not_endsDigits _

end Quads

/-! ### Addresses of eight groups -/

section Groups

variable {first quad : Bool} {g : UInt16} {gs : List UInt16} {ip : Ipv6} {room : Nat}
  {cs ds rest : List Char}

/-- A group is taken with all digits that come next, or refused. -/
lemma group?_eq_some_iff : Ipv6.group? cs = some (g, rest) ↔
    ∃ ds, cs = ds ++ rest ∧ SpellsGroup g ds ∧ EndsDigits 16 rest := by
  constructor
  · intro h
    rw [Ipv6.group?] at h
    split at h
    next ds rest' hrun =>
    obtain ⟨hcs, hdigits, hends⟩ := run_eq_iff.1 hrun
    split_ifs at h with hlength
    cases h
    have hlt : Digits.number 16 ds < UInt16.size := by
      calc Digits.number 16 ds < 16 ^ ds.length := number_lt hdigits
        _ ≤ 16 ^ 4 := Nat.pow_le_pow_right (by decide) hlength.2
    exact ⟨ds, hcs, ⟨⟨List.ne_nil_of_length_pos hlength.1, hdigits,
      (UInt16.toNat_ofNat_of_lt' hlt).symm⟩, hlength.2⟩, hends⟩
  · rintro ⟨ds, rfl, hspells, hends⟩
    rw [Ipv6.group?, run_append_of_ends hspells.digits hends]
    dsimp only
    rw [if_pos ⟨List.length_pos_iff.2 hspells.ne_nil, hspells.short⟩, hspells.value]
    simp

lemma separator?_eq_some_iff : Ipv6.separator? first cs = some rest ↔
    cs = colonBefore first ++ rest := by
  cases first with
  | true => simp [Ipv6.separator?, colonBefore]
  | false => exact Reader.literal?_eq_some_iff

/-- Neither a digit nor a dot comes next, nor a colon with a digit behind it: no group goes on, and
none begins. -/
structure EndsGroups (rest : List Char) : Prop where
  digits : EndsDigits 16 rest
  dot : ∀ cs, rest ≠ '.' :: cs
  colon : ∀ cs, rest = ':' :: cs → EndsDigits 16 cs

/-- The octets of an address end at a dot, where a group does not. -/
lemma quad?_eq_none_of_group (h : SpellsGroup g cs) (hends : EndsDigits 16 rest)
    (hdot : ∀ cs, rest ≠ '.' :: cs) : Ipv4.read? (cs ++ rest) = none := by
  rw [Option.eq_none_iff_forall_ne_some]
  rintro ⟨ip, rest'⟩ hquad
  obtain ⟨_, hcs, ⟨ha, -, -, -⟩, -⟩ := quad?_eq_some_iff.1 hquad
  rw [List.append_assoc, List.cons_append] at hcs
  have hrun := run_append_of_ends h.digits hends
  rw [hcs, run_append_of_ends (fun c hc => isDigit_mono (by decide) (ha.digits c hc))
    (endsDigits_cons rfl)] at hrun
  exact hdot _ (Prod.ext_iff.1 hrun).2.symm

lemma readers_of_endsDigits (h : EndsDigits 16 rest) :
    Ipv4.read? rest = none ∧ Ipv6.group? rest = none := by
  constructor
  · rw [Option.eq_none_iff_forall_ne_some]
    rintro ⟨ip, rest'⟩ hquad
    obtain ⟨ds, rfl, hspells, -⟩ := quad?_eq_some_iff.1 hquad
    exact hspells.not_endsDigits rest' (h.mono (by decide))
  · rw [Option.eq_none_iff_forall_ne_some]
    rintro ⟨g, rest'⟩ hgroup
    obtain ⟨ds, rfl, hspells, -⟩ := group?_eq_some_iff.1 hgroup
    exact hspells.not_endsDigits rest' h

/-- Whatever groups are taken are spelled by the text in front of the rest. -/
lemma readGroups_spelled (room : Nat) (first : Bool) (cs : List Char) :
    let run := Ipv6.readGroups room first cs
    ∃ ds, cs = ds ++ run.rest ∧ SpellsGroups first run.groups run.quad ds := by
  induction room generalizing first cs with
  | zero => exact ⟨[], rfl, .nil⟩
  | succ room ih =>
    rw [Ipv6.readGroups]
    split
    · exact ⟨[], rfl, .nil⟩
    · next cs' hseparator =>
      rw [separator?_eq_some_iff] at hseparator
      split
      · next quad rest hquad =>
        split at hquad
        · obtain ⟨ds, hcs', hspells, -⟩ := quad?_eq_some_iff.1 hquad
          refine ⟨_, ?_, .quad hspells⟩
          rw [hseparator, hcs', List.append_assoc]
        · cases hquad
      · split
        · exact ⟨[], rfl, .nil⟩
        · next g rest hgroup =>
          obtain ⟨ds, hcs', hspells, -⟩ := group?_eq_some_iff.1 hgroup
          obtain ⟨es, hrest, hmore⟩ := ih false rest
          refine ⟨_, ?_, .cons hspells hmore⟩
          rw [List.append_assoc, List.append_assoc, ← hrest, ← hcs', hseparator]

/-- Groups that are spelled are taken, as far as there is room for them. -/
lemma readGroups_of_spells (h : SpellsGroups first gs quad ds) (hroom : gs.length ≤ room)
    (hends : EndsGroups rest) : Ipv6.readGroups room first (ds ++ rest) = ⟨gs, quad, rest⟩ := by
  induction h generalizing room with
  | @nil first =>
    cases room with
    | zero => rfl
    | succ room =>
      rw [List.nil_append, Ipv6.readGroups]
      cases hseparator : Ipv6.separator? first rest with
      | none => rfl
      | some cs =>
        have hnext : EndsDigits 16 cs := by
          rw [separator?_eq_some_iff] at hseparator
          cases first with
          | true =>
            have hrest : rest = cs := hseparator
            exact hrest ▸ hends.digits
          | false => exact hends.colon cs hseparator
        obtain ⟨hquad, hgroup⟩ := readers_of_endsDigits hnext
        simp [hquad, hgroup]
  | @quad first ip cs h =>
    cases room with
    | zero => simp [Ipv4.groups] at hroom
    | succ room =>
      have hmore : 1 ≤ room := by simpa [Ipv4.groups] using hroom
      have hseparator : Ipv6.separator? first (colonBefore first ++ cs ++ rest) =
          some (cs ++ rest) := by
        rw [separator?_eq_some_iff, List.append_assoc]
      have hquad : Ipv4.read? (cs ++ rest) = some (ip, rest) :=
        quad?_eq_some_iff.2 ⟨cs, rfl, h, hends.digits.mono (by decide)⟩
      rw [Ipv6.readGroups, hseparator]
      dsimp only
      rw [if_pos hmore, hquad]
  | @cons first quad g gs cs ds h hs ih =>
    cases room with
    | zero => simp at hroom
    | succ room =>
      have hseparator : Ipv6.separator? first (colonBefore first ++ (cs ++ ds) ++ rest) =
          some (cs ++ (ds ++ rest)) := by
        rw [separator?_eq_some_iff, List.append_assoc, List.append_assoc]
      -- What follows the group is the colon of the next one or the rest.
      have hnext : EndsDigits 16 (ds ++ rest) ∧ ∀ cs, ds ++ rest ≠ '.' :: cs := by
        cases hs with
        | nil => exact ⟨hends.digits, hends.dot⟩
        | quad h => exact ⟨endsDigits_cons rfl, by simp [colonBefore]⟩
        | cons h hs => exact ⟨endsDigits_cons rfl, by simp [colonBefore]⟩
      have hgroup : Ipv6.group? (cs ++ (ds ++ rest)) = some (g, ds ++ rest) :=
        group?_eq_some_iff.2 ⟨cs, rfl, h, hnext.1⟩
      rw [Ipv6.readGroups, hseparator]
      dsimp only
      -- Octets are tried first wherever there is room for them, and end at the lack of a dot.
      rw [quad?_eq_none_of_group h hnext.1 hnext.2, ite_self, hgroup]
      dsimp only
      rw [ih (by simpa using hroom)]

/-- Whatever address is taken is spelled by the text in front of the rest. -/
lemma v6?_spelled (h : Ipv6.read? cs = some (ip, rest)) : ∃ ds, cs = ds ++ rest ∧ SpellsIpv6 ip ds := by
  obtain ⟨front, hfront, hspells⟩ := readGroups_spelled 8 true cs
  rw [Ipv6.read?] at h
  split at h
  · next hlength =>
    cases h
    exact ⟨front, hfront, .full hspells⟩
  · next hlength =>
    split at h
    · cases h
    · next hquad =>
      obtain ⟨back, hcolons, heq⟩ := Option.bind_eq_some_iff.1 h
      rw [Reader.literal?_eq_some_iff] at hcolons
      have hroom := Ipv6.length_readGroups_le 8 true cs
      have hroom' :=
        Ipv6.length_readGroups_le (7 - (Ipv6.readGroups 8 true cs).groups.length) true back
      obtain ⟨tail, htail, hspells'⟩ :=
        readGroups_spelled (7 - (Ipv6.readGroups 8 true cs).groups.length) true back
      rw [Bool.not_eq_true] at hquad
      rw [hquad] at hspells
      cases heq
      refine ⟨_, ?_, .around hspells hspells' (by omega) rfl⟩
      rw [List.append_assoc, List.cons_append, List.cons_append, ← htail]
      exact hfront.trans (congrArg _ hcolons)

/-- An address that is spelled is taken. -/
lemma v6?_of_spells (h : SpellsIpv6 ip ds) (hends : EndsGroups rest) :
    Ipv6.read? (ds ++ rest) = some (ip, rest) := by
  cases h with
  | full h =>
    have hlength := ip.length_groups
    have hhead := readGroups_of_spells h (Nat.le_of_eq hlength) hends
    rw [Ipv6.read?]
    simp only [hhead]
    rw [dif_pos hlength]
  | @around quad gs hs cs ds hfront hback hroom hgroups =>
    have hcolons : EndsGroups (':' :: ':' :: (ds ++ rest)) := by
      refine ⟨endsDigits_cons rfl, by simp, ?_⟩
      intro es hes
      cases hes
      exact endsDigits_cons rfl
    have hhead : Ipv6.readGroups 8 true (cs ++ ':' :: ':' :: (ds ++ rest)) =
        ⟨gs, false, ':' :: ':' :: (ds ++ rest)⟩ :=
      readGroups_of_spells hfront (by omega) hcolons
    have htail : Ipv6.readGroups (7 - gs.length) true (ds ++ rest) = ⟨hs, quad, rest⟩ :=
      readGroups_of_spells hback (by omega) hends
    have hshort : gs.length ≠ 8 := by omega
    have hdouble : Reader.literal? [':', ':'] (':' :: ':' :: (ds ++ rest)) = some (ds ++ rest) := rfl
    rw [List.append_assoc, List.cons_append, List.cons_append, Ipv6.read?]
    simp only [hhead]
    rw [dif_neg hshort, if_neg Bool.false_ne_true, hdouble]
    cases ip
    simp only at hgroups
    simp [htail, hgroups]

end Groups

/-! ### Characters of a literal -/

section Characters

variable {first quad : Bool} {gs : List UInt16} {cs : List Char}

lemma SpellsQuad.chars {ip : Ipv4} (h : SpellsQuad ip cs) :
    ∀ c ∈ cs, Digits.isDigit 10 c = true ∨ c = '.' := by
  obtain ⟨ha, hb, hc, hd⟩ := h
  intro c hmem
  simp only [List.mem_append, List.mem_cons] at hmem
  rcases hmem with h | h | h | h | h | h | h
  · exact .inl (ha.digits c h)
  · exact .inr h
  · exact .inl (hb.digits c h)
  · exact .inr h
  · exact .inl (hc.digits c h)
  · exact .inr h
  · exact .inl (hd.digits c h)

lemma SpellsGroups.chars (h : SpellsGroups first gs quad cs) :
    ∀ c ∈ cs, Digits.isDigit 16 c = true ∨ c ∈ [':', '.'] := by
  have hcolon : ∀ first, ∀ c ∈ colonBefore first, c ∈ [':', '.'] := by simp [colonBefore]
  induction h with
  | nil => simp
  | @quad first ip cs h =>
    intro c hc
    rcases List.mem_append.1 hc with hc | hc
    · exact .inr (hcolon first c hc)
    · rcases h.chars c hc with hdigit | rfl
      · exact .inl (isDigit_mono (by decide) hdigit)
      · exact .inr (by decide)
  | @cons first quad g gs cs ds h hs ih =>
    intro c hc
    rcases List.mem_append.1 hc with hc | hc
    · exact .inr (hcolon first c hc)
    · rcases List.mem_append.1 hc with hc | hc
      · exact .inl (h.digits c hc)
      · exact ih c hc

lemma SpellsIpv6.chars {ip : Ipv6} (h : SpellsIpv6 ip cs) :
    ∀ c ∈ cs, Digits.isDigit 16 c = true ∨ c ∈ [':', '.'] := by
  cases h with
  | full h => exact h.chars
  | around hfront hback hroom hgroups =>
    intro c hc
    simp only [List.mem_append, List.mem_cons] at hc
    rcases hc with hc | rfl | rfl | hc
    · exact hfront.chars c hc
    · exact .inr (by decide)
    · exact .inr (by decide)
    · exact hback.chars c hc

/-- The groups of a text without a colon are two at most. -/
lemma SpellsGroups.colon_mem (h : SpellsGroups first gs quad cs) (hlong : 2 < gs.length) :
    ':' ∈ cs := by
  cases h with
  | nil => simp at hlong
  | quad h => simp [Ipv4.groups] at hlong
  | cons h hs =>
    cases hs with
    | nil => simp at hlong
    | quad h => simp [colonBefore]
    | cons h hs => simp [colonBefore]

lemma SpellsIpv6.colon_mem {ip : Ipv6} (h : SpellsIpv6 ip cs) : ':' ∈ cs := by
  cases h with
  | full h =>
    have hlength := ip.length_groups
    exact h.colon_mem (by omega)
  | around hfront hback hroom hgroups => simp

end Characters

/-! ### Addresses with a port -/

section Sockets

variable {bound n : Nat} {cs rest : List Char}

/-- A number is taken with all digits that come next, or refused. -/
lemma number?_eq_some_iff (hbound : 0 < bound) : SocketAddress.number? bound cs = some (n, rest) ↔
    ∃ ds, cs = ds ++ rest ∧ SpellsNumber 10 n ds ∧ n < bound ∧ EndsDigits 10 rest := by
  constructor
  · intro h
    rw [SocketAddress.number?] at h
    split at h
    · cases h
    · next ds rest' hnil hrun =>
      obtain ⟨hcs, hdigits, hends⟩ := run_eq_iff.1 hrun
      obtain ⟨m, hm, heq⟩ := Option.map_eq_some_iff.1 h
      obtain ⟨hvalue, hlt⟩ := (below?_eq_some_iff (by decide) hbound).1 hm
      cases heq
      exact ⟨ds, hcs, ⟨hnil, hdigits, hvalue⟩, hlt, hends⟩
  · rintro ⟨ds, rfl, hspells, hlt, hends⟩
    rw [SocketAddress.number?, run_append_of_ends hspells.digits hends]
    split
    · next heq => exact absurd (congrArg Prod.fst heq) hspells.ne_nil
    · next heq =>
      cases heq
      rw [(below?_eq_some_iff (by decide) hbound).2 ⟨hspells.value, hlt⟩]
      rfl

/-- What is taken as a link is spelled by the text in front of the rest. -/
lemma scope_spelled (cs : List Char) :
    ∃ ds, cs = ds ++ (SocketAddress.scope cs).2 ∧ SpellsScope (SocketAddress.scope cs).1 ds := by
  rw [SocketAddress.scope]
  split
  · next n rest h =>
    obtain ⟨cs', hpercent, hnumber⟩ := Option.bind_eq_some_iff.1 h
    rw [Reader.literal?_eq_some_iff] at hpercent
    obtain ⟨ds, hds, hspells, hlt, -⟩ := (number?_eq_some_iff (by decide)).1 hnumber
    have hsame : n.toUInt32.toNat = n := UInt32.toNat_ofNat_of_lt' hlt
    refine ⟨'%' :: ds, ?_, .percent ?_⟩
    · rw [hpercent, hds]
      rfl
    · rwa [hsame]
  · exact ⟨[], rfl, .absent⟩

/-- A link that is spelled is taken, if a bracket follows. -/
lemma scope_of_spells {scope : UInt32} {ds : List Char} (h : SpellsScope scope ds) (rest : List Char) :
    SocketAddress.scope (ds ++ ']' :: rest) = (scope, ']' :: rest) := by
  cases h with
  | absent => rfl
  | @percent scope ds h =>
    have hclose : EndsDigits 10 (']' :: rest) := endsDigits_cons rfl
    have hnumber : SocketAddress.number? UInt32.size (ds ++ ']' :: rest) =
        some (scope.toNat, ']' :: rest) :=
      (number?_eq_some_iff (by decide)).2 ⟨ds, rfl, h, scope.toNat_lt, hclose⟩
    have hpercent : Reader.literal? ['%'] ('%' :: (ds ++ ']' :: rest)) = some (ds ++ ']' :: rest) := rfl
    rw [List.cons_append, SocketAddress.scope, hpercent, Option.bind_eq_bind, Option.bind_some, hnumber]
    simp

/-- A port ends the text. -/
lemma port?_eq_some_iff {port : UInt16} : SocketAddress.port? cs = some port ↔
    ∃ ds, cs = ':' :: ds ∧ SpellsNumber 10 port.toNat ds := by
  have hnil : EndsDigits 10 [] := by simp [EndsDigits]
  simp only [SocketAddress.port?, Option.bind_eq_bind, Option.bind_eq_some_iff,
    Reader.literal?_eq_some_iff, Prod.exists, number?_eq_some_iff (show 0 < UInt16.size by decide)]
  constructor
  · rintro ⟨_, rfl, n, rest, ⟨ds, rfl, hspells, hlt, -⟩, h⟩
    split_ifs at h with hrest
    cases h
    have hsame : n.toUInt16.toNat = n := UInt16.toNat_ofNat_of_lt' hlt
    refine ⟨ds, by simp [hrest], ?_⟩
    rwa [hsame]
  · rintro ⟨ds, rfl, hspells⟩
    refine ⟨ds, rfl, port.toNat, [], ⟨ds, by simp, hspells, port.toNat_lt, hnil⟩, ?_⟩
    simp

lemma parseV4?_eq_some_iff {a : SocketAddress} : SocketAddress.parseV4? cs = some a ↔
    ∃ ip port front back, a = .v4 ip port ∧ cs = front ++ ':' :: back ∧ SpellsQuad ip front ∧
      SpellsNumber 10 port.toNat back := by
  simp only [SocketAddress.parseV4?, Option.bind_eq_bind, Option.bind_eq_some_iff, Prod.exists,
    quad?_eq_some_iff, port?_eq_some_iff]
  constructor
  · rintro ⟨ip, _, ⟨front, rfl, hip, -⟩, port, ⟨back, rfl, hport⟩, heq⟩
    cases heq
    exact ⟨ip, port, front, back, rfl, rfl, hip, hport⟩
  · rintro ⟨ip, port, front, back, rfl, rfl, hip, hport⟩
    exact ⟨ip, _, ⟨front, rfl, hip, endsDigits_cons rfl⟩, port, ⟨back, rfl, hport⟩, rfl⟩

lemma parseV6?_eq_some_iff {a : SocketAddress} : SocketAddress.parseV6? cs = some a ↔
    ∃ ip scope port front link back, a = .v6 ip scope port ∧
      cs = '[' :: front ++ link ++ [']'] ++ ':' :: back ∧ SpellsIpv6 ip front ∧
      SpellsScope scope link ∧ SpellsNumber 10 port.toNat back := by
  simp only [SocketAddress.parseV6?, Option.bind_eq_bind, Option.bind_eq_some_iff, Prod.exists,
    Reader.literal?_eq_some_iff, port?_eq_some_iff]
  constructor
  · rintro ⟨_, rfl, ip, rest, hip, _, hclose, port, ⟨back, rfl, hport⟩, heq⟩
    obtain ⟨front, rfl, hspells⟩ := v6?_spelled hip
    obtain ⟨link, hlink, hscope⟩ := scope_spelled rest
    cases heq
    refine ⟨ip, _, port, front, link, back, rfl, ?_, hspells, hscope, hport⟩
    rw [hlink, hclose]
    simp
  · rintro ⟨ip, scope, port, front, link, back, rfl, rfl, hspells, hscope, hport⟩
    have hends : EndsGroups (link ++ ']' :: ':' :: back) := by
      cases hscope with
      | absent => exact ⟨endsDigits_cons rfl, by simp, by simp⟩
      | percent h => exact ⟨endsDigits_cons rfl, by simp, by simp⟩
    refine ⟨front ++ (link ++ ']' :: ':' :: back), by simp, ip, _, v6?_of_spells hspells hends,
      ':' :: back, ?_, port, ⟨back, rfl, hport⟩, ?_⟩
    · rw [scope_of_spells hscope]
      rfl
    · rw [scope_of_spells hscope]

/-- A text is read as an address with a port exactly if it is the literal of that address and, behind
the last colon, the number of that port. -/
theorem parse?_eq_some_iff {a : SocketAddress} : SocketAddress.parse? cs = some a ↔
    ∃ front back, cs = front ++ ':' :: back ∧ SpellsHost a front ∧
      SpellsNumber 10 a.port.toNat back := by
  rw [SocketAddress.parse?, Option.orElse_eq_some]
  constructor
  · rintro (h | ⟨-, h⟩)
    · obtain ⟨ip, port, front, back, rfl, hcs, hip, hport⟩ := parseV4?_eq_some_iff.1 h
      exact ⟨front, back, hcs, .quad hip, hport⟩
    · obtain ⟨ip, scope, port, front, link, back, rfl, hcs, hip, hscope, hport⟩ :=
        parseV6?_eq_some_iff.1 h
      exact ⟨_, back, hcs, .bracketed hip hscope, hport⟩
  · rintro ⟨_, back, rfl, hip | ⟨hip, hscope⟩, hport⟩
    · exact .inl (parseV4?_eq_some_iff.2 ⟨_, _, _, back, rfl, rfl, hip, hport⟩)
    · refine .inr ⟨?_, parseV6?_eq_some_iff.2 ⟨_, _, _, _, _, back, rfl, rfl, hip, hscope, hport⟩⟩
      -- No octet begins with a bracket.
      rw [Option.eq_none_iff_forall_ne_some]
      intro a h
      obtain ⟨ip, port, front, back', -, hcs, hquad, -⟩ := parseV4?_eq_some_iff.1 h
      refine hquad.not_endsDigits (':' :: back') ?_
      rw [← hcs]
      exact endsDigits_cons rfl

end Sockets

end MemberRelay.Proofs
