import Mathlib.Data.List.Basic
import MemberRelay.Proofs.Net.Literals
import MemberRelay.Proofs.Text.Decimal

/-!
# Displayed addresses

The one text that an address is shown as is a literal of that address: what the text leaves out, the
first of the longest runs of zeros, is what a reader puts back.
-/

namespace MemberRelay.Proofs

/-! ### Numbers and octets -/

section Numbers

variable {base : Nat}

lemma spellsNumber_toDigits (hbase : 1 < base) (hle : base ≤ 16) (n : Nat) :
    SpellsNumber base n (Nat.toDigits base n) :=
  ⟨Nat.toDigits_ne_nil, isDigit_of_mem_toDigits hbase hle n, number_toDigits hbase hle n⟩

lemma spellsNumber_decimal (n : Nat) : SpellsNumber 10 n (Digits.decimal n) :=
  spellsNumber_toDigits (by decide) (by decide) n

lemma spellsOctet_decimal (b : UInt8) : SpellsOctet b (Digits.decimal b.toNat) := by
  refine ⟨spellsNumber_decimal b.toNat, ?_⟩
  intro es hes
  have hzero : b.toNat = 0 := eq_zero_of_decimal (by rw [hes, List.head?_cons])
  rw [hzero] at hes
  exact (List.cons.inj hes).2.symm

lemma spellsQuad_text (ip : Ipv4) : SpellsQuad ip ip.text := by
  have h := SpellsQuad.octets (spellsOctet_decimal ip.a) (spellsOctet_decimal ip.b)
    (spellsOctet_decimal ip.c) (spellsOctet_decimal ip.d)
  rw [Ipv4.text]
  simpa using h

lemma spellsGroup_hexadecimal (g : UInt16) : SpellsGroup g (Digits.hexadecimal g.toNat) := by
  refine ⟨spellsNumber_toDigits (by decide) (by decide) g.toNat, ?_⟩
  exact (Nat.length_toDigits_le_iff (by decide) (by decide)).2 g.toNat_lt

end Numbers

/-! ### Groups -/

section Groups

variable {quad : Bool} {gs : List UInt16} {cs : List Char} {ip : Ipv6}

lemma SpellsGroups.behind (h : SpellsGroups true gs quad cs) (hne : gs ≠ []) :
    SpellsGroups false gs quad (':' :: cs) := by
  cases h with
  | nil => exact absurd rfl hne
  | quad h => exact .quad h
  | cons h hs => exact .cons h hs

lemma spellsGroups_text (gs : List UInt16) : SpellsGroups true gs false (Ipv6.groupsText gs) := by
  induction gs with
  | nil => exact .nil
  | cons g gs ih =>
    have hg := spellsGroup_hexadecimal g
    cases gs with
    | nil =>
      have h : SpellsGroups true [g] false (Digits.hexadecimal g.toNat ++ []) := .cons hg .nil
      rwa [List.append_nil] at h
    | cons g' gs => exact .cons hg (ih.behind (List.cons_ne_nil g' gs))

lemma groups_ofGroups (high low : UInt16) : (Ipv4.ofGroups high low).groups = [high, low] := by
  have hsplit : ∀ g : UInt16, (g / 256).toUInt8.toUInt16 * 256 + g.toUInt8.toUInt16 = g := by
    intro g
    have hlt := g.toNat_lt
    have hhigh : g.toNat / 256 % 256 = g.toNat / 256 := Nat.mod_eq_of_lt (by omega)
    have hsum : g.toNat / 256 * 256 + g.toNat % 256 = g.toNat := Nat.div_add_mod' g.toNat 256
    apply UInt16.toNat_inj.1
    simp only [UInt16.toNat_add, UInt16.toNat_mul, UInt8.toNat_toUInt16, UInt16.toNat_toUInt8,
      UInt16.toNat_div, UInt16.reduceToNat]
    omega
  rw [Ipv4.ofGroups, Ipv4.groups, hsplit, hsplit]

lemma groups_of_mapped? {four : Ipv4} (h : ip.mapped? = some four) :
    ip.groups = [0, 0, 0, 0, 0, 0xFFFF] ++ four.groups := by
  rw [Ipv6.mapped?] at h
  split at h
  · next high low hgroups =>
    cases h
    rw [hgroups, groups_ofGroups]
    rfl
  · cases h

/-! ### Runs of zeros -/

lemma zeroRuns_drop (gs : List UInt16) (i : Nat) :
    (Ipv6.zeroRuns gs).drop i = Ipv6.zeroRuns (gs.drop i) := by
  induction gs generalizing i with
  | nil => simp [Ipv6.zeroRuns]
  | cons g gs ih =>
    cases i with
    | zero => rfl
    | succ i => exact ih i

lemma exists_zeros_append (gs : List UInt16) :
    ∃ rest, gs = List.replicate ((Ipv6.zeroRuns gs).headD 0) 0 ++ rest := by
  induction gs with
  | nil => exact ⟨[], rfl⟩
  | cons g gs ih =>
    obtain ⟨rest, hrest⟩ := ih
    by_cases hg : g = 0
    · refine ⟨rest, ?_⟩
      rw [Ipv6.zeroRuns, if_pos hg, List.headD_cons, List.replicate_succ, List.cons_append, ← hrest, hg]
    · refine ⟨g :: gs, ?_⟩
      rw [Ipv6.zeroRuns, if_neg hg]
      rfl

/-- As many zeros as a run counts stand at its place. -/
lemma zeros_of_getElem? {i k : Nat} (h : (Ipv6.zeroRuns gs)[i]? = some k) :
    gs = gs.take i ++ List.replicate k 0 ++ gs.drop (i + k) := by
  obtain ⟨rest, hrest⟩ := exists_zeros_append (gs.drop i)
  have hhead : (Ipv6.zeroRuns (gs.drop i)).headD 0 = k := by
    rw [← zeroRuns_drop, List.headD_eq_head?_getD, List.head?_drop, h, Option.getD_some]
  rw [hhead] at hrest
  have hback : gs.drop (i + k) = rest := by
    rw [← List.drop_drop, hrest]
    simp
  rw [hback, List.append_assoc, ← hrest, List.take_append_drop]

lemma foldl_max_mem {runs : List Nat} (h : runs.foldl max 0 ≠ 0) : runs.foldl max 0 ∈ runs := by
  cases runs with
  | nil => exact absurd rfl h
  | cons n runs =>
    have hmax : (n :: runs).max? = some ((n :: runs).foldl max 0) := by
      rw [List.max?_cons', List.foldl_cons, Nat.zero_max]
    exact List.max?_mem hmax

lemma spellsIpv6_compressed (ip : Ipv6) : SpellsIpv6 ip (Ipv6.compressed ip.groups) := by
  rw [Ipv6.compressed]
  dsimp only
  split
  · exact .full (spellsGroups_text ip.groups)
  · next hlong =>
    -- All that matters of the longest run is that it stands where it is found.
    have hmem : (Ipv6.zeroRuns ip.groups).foldl max 0 ∈ Ipv6.zeroRuns ip.groups :=
      foldl_max_mem (by omega)
    generalize (Ipv6.zeroRuns ip.groups).foldl max 0 = longest at hlong hmem ⊢
    have hgroups := zeros_of_getElem? (List.getElem?_idxOf hmem)
    generalize (Ipv6.zeroRuns ip.groups).idxOf longest = start at hgroups ⊢
    have hcount := congrArg List.length hgroups
    rw [List.length_append, List.length_append, List.length_replicate, ip.length_groups] at hcount
    have hleft : 8 - (ip.groups.take start).length - (ip.groups.drop (start + longest)).length =
        longest := by omega
    have hspells : SpellsIpv6 ip (Ipv6.groupsText (ip.groups.take start) ++
        ':' :: ':' :: Ipv6.groupsText (ip.groups.drop (start + longest))) := by
      refine .around (spellsGroups_text _) (spellsGroups_text _) (by omega) ?_
      rw [hleft]
      exact hgroups
    simpa using hspells

theorem spellsIpv6_text (ip : Ipv6) : SpellsIpv6 ip ip.text := by
  rw [Ipv6.text]
  split
  · next four hmapped =>
    have hffff : SpellsGroup 0xFFFF ['f', 'f', 'f', 'f'] := spellsGroup_hexadecimal 0xFFFF
    have hback : SpellsGroups true (0xFFFF :: four.groups) true
        (['f', 'f', 'f', 'f'] ++ ':' :: four.text) := .cons hffff (.quad (spellsQuad_text four))
    exact .around .nil hback (by simp [Ipv4.groups]) (groups_of_mapped? hmapped)
  · exact spellsIpv6_compressed ip

end Groups

/-! ### Hosts -/

lemma spellsScope_text (scope : UInt32) : SpellsScope scope (SocketAddress.scopeText scope) := by
  rw [SocketAddress.scopeText]
  split
  · next hzero =>
    rw [hzero]
    exact .absent
  · exact .percent (spellsNumber_decimal scope.toNat)

/-- An address as it is shown, without its port. -/
def shownHost : SocketAddress → List Char
  | .v4 ip _ => ip.text
  | .v6 ip scope _ => '[' :: ip.text ++ SocketAddress.scopeText scope ++ [']']

lemma spellsHost_shown (a : SocketAddress) : SpellsHost a (shownHost a) := by
  cases a with
  | v4 ip port => exact .quad (spellsQuad_text ip)
  | v6 ip scope port => exact .bracketed (spellsIpv6_text ip) (spellsScope_text scope)

lemma text_eq (a : SocketAddress) : a.text = shownHost a ++ ':' :: Digits.decimal a.port.toNat := by
  cases a with
  | v4 ip port => rfl
  | v6 ip scope port => simp [SocketAddress.text, shownHost, SocketAddress.port]

/-- The text of an address is read as that address. -/
theorem parse?_text (a : SocketAddress) : SocketAddress.parse? a.text = some a :=
  parse?_eq_some_iff.2 ⟨_, _, text_eq a, spellsHost_shown a, spellsNumber_decimal _⟩

end MemberRelay.Proofs
