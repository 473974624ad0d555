import Mathlib.Data.List.DropRight
import MemberRelay.Proofs.Net.Literals
import MemberRelay.Proofs.Net.Target

/-!
# Addresses that are refused

Which addresses no client dials. The scan of an authority counts colons and percent signs anew after
each `@` and each `]`; what it refuses can be said of the address as a whole, without a scan.
-/

namespace MemberRelay.Proofs

/-- A mark after which a scan counts anew. -/
def isReset (c : Char) : Bool := c = '@' || c = ']'

def IsAddressChar (c : Char) : Prop := c.isAlphanum ∨ c ∈ "!$&'()*+,-.:;=@[]_~%".toList

/-- No brackets, or one that opens and one that closes after it. -/
def BracketsMatch (cs : List Char) : Prop :=
  ('[' ∉ cs ∧ ']' ∉ cs) ∨ ∃ xs ys zs, cs = xs ++ '[' :: ys ++ ']' :: zs ∧
    ∀ c ∈ xs ++ ys ++ zs, c ≠ '[' ∧ c ≠ ']'

/-- What can be wrong with the characters of an address. -/
inductive Faulty (cs : List Char) : Prop where
  | character {c : Char} (h : c ∈ cs) (hc : ¬IsAddressChar c)
  | brackets (h : ¬BracketsMatch cs)
  | lastPercent {xs ys : List Char} (h : cs = xs ++ '%' :: ys) (hys : ∀ c ∈ ys, isReset c = false)
  | percentBefore {xs ys zs : List Char} (h : cs = xs ++ '%' :: ys ++ '[' :: zs) (hys : '@' ∉ ys)
  | lastColon {xs ys : List Char} (h : cs = xs ++ ':' :: ys) (hys : ∀ c ∈ ys, isReset c = false)
  | colons {xs ys zs : List Char} (h : cs = xs ++ ys ++ zs) (hys : ∀ c ∈ ys, isReset c = false)
      (hcount : 8 < ys.count ':')

/-- An address that no client dials on a port. -/
inductive Refused (address : String) (port : UInt16) : Prop where
  | long (h : 65534 < ("http://" ++ s!"{address}:{port}").utf8ByteSize)
  | faulty (h : Faulty address.toList)

/-! ### The scan -/

/-- The characters after the last mark. -/
def stretch (cs : List Char) : List Char := cs.rtakeWhile fun c => !isReset c

/-- What a scan has seen after some characters. -/
def seen (cs : List Char) : Authority.Scan where
  colons := (stretch cs).count ':'
  percent := '%' ∈ stretch cs
  opened := '[' ∈ cs
  closed := ']' ∈ cs

section Scan

variable {cs xs ys : List Char} {c : Char} {s : Authority.Scan}

lemma stretch_append (h : ∀ c ∈ ys, isReset c = false) : stretch (xs ++ ys) = stretch xs ++ ys := by
  induction ys using List.reverseRecOn with
  | nil => simp
  | append_singleton ys c ih =>
    have hc : isReset c = false := h c (by simp)
    rw [← List.append_assoc, stretch, List.rtakeWhile_concat_pos _ _ _ (by simp [hc])]
    have hys := ih fun d hd => h d (List.mem_append_left _ hd)
    rw [stretch] at hys
    rw [hys, List.append_assoc]

lemma exists_eq_append_stretch (cs : List Char) :
    (∃ xs, cs = xs ++ stretch cs) ∧ ∀ c ∈ stretch cs, isReset c = false := by
  refine ⟨⟨_, (List.rdropWhile_append_rtakeWhile).symm⟩, ?_⟩
  intro c hc
  simpa using List.mem_rtakeWhile_imp hc

/-- A character of the last stretch is one with no mark after it. -/
lemma mem_stretch_iff (hc : isReset c = false) :
    c ∈ stretch cs ↔ ∃ xs ys, cs = xs ++ c :: ys ∧ ∀ d ∈ ys, isReset d = false := by
  constructor
  · intro hmem
    obtain ⟨⟨xs, hxs⟩, hall⟩ := exists_eq_append_stretch cs
    obtain ⟨ys, zs, hys⟩ := List.append_of_mem hmem
    refine ⟨xs ++ ys, zs, ?_, ?_⟩
    · rw [hxs, hys, List.append_assoc]
    · intro d hd
      exact hall d (by simp [hys, hd])
  · rintro ⟨xs, ys, rfl, hys⟩
    rw [stretch_append]
    · simp
    · intro d hd
      rcases List.mem_cons.1 hd with rfl | hd
      · exact hc
      · exact hys d hd

lemma isChar_or_percent_iff : (Authority.isChar c = true ∨ c = '%') ↔ IsAddressChar c := by
  simp [Authority.isChar, IsAddressChar]
  tauto

lemma stretch_concat (cs : List Char) (c : Char) :
    stretch (cs ++ [c]) = if isReset c then [] else stretch cs ++ [c] := by
  rw [stretch, List.rtakeWhile_concat]
  cases hc : isReset c <;> simp [stretch]

lemma seen_concat (cs : List Char) (c : Char) : seen (cs ++ [c]) =
    { colons := if isReset c then 0 else (seen cs).colons + if c = ':' then 1 else 0
      percent := !isReset c && ((seen cs).percent || c = '%')
      opened := (seen cs).opened || c = '['
      closed := (seen cs).closed || c = ']' } := by
  rw [seen, stretch_concat]
  cases hc : isReset c <;>
    simp [seen, List.count_append, List.count_cons, eq_comm (b := c)]

/-- A scan that goes on has seen one character more. -/
lemma step_seen (h : (seen cs).step c = some s) : s = seen (cs ++ [c]) := by
  rw [seen_concat]
  rw [Authority.Scan.step] at h
  split_ifs at h with hcolon _ hopen _ hclose _ hat hpercent hchar
  all_goals
    cases h
    simp_all [isReset]

lemma step_seen_eq_none_iff : (seen cs).step c = none ↔
    (c = ':' ∧ 8 ≤ (stretch cs).count ':') ∨
    (c = '[' ∧ ('%' ∈ stretch cs ∨ '[' ∈ cs)) ∨
    (c = ']' ∧ ('[' ∉ cs ∨ ']' ∈ cs)) ∨ ¬IsAddressChar c := by
  rw [← isChar_or_percent_iff, Authority.Scan.step]
  by_cases hcolon : c = ':'
  · subst hcolon
    rw [if_pos rfl, ite_eq_left_iff]
    simp [seen, show Authority.isChar ':' = true by decide]
  by_cases hopen : c = '['
  · subst hopen
    simp [seen, show Authority.isChar '[' = true by decide, Decidable.or_iff_not_imp_left]
  by_cases hclose : c = ']'
  · subst hclose
    simp [seen, show Authority.isChar ']' = true by decide, Decidable.or_iff_not_imp_left]
  by_cases hat : c = '@'
  · subst hat
    simp [show Authority.isChar '@' = true by decide]
  by_cases hpercent : c = '%'
  · simp [hpercent]
  · cases hchar : Authority.isChar c <;> simp [hcolon, hopen, hclose, hat, hpercent]

/-- A scan gets to the end where no character on the way is refused. -/
lemma scan_eq_some_iff : cs.foldlM Authority.Scan.step {} = some s ↔
    s = seen cs ∧ ∀ xs c ys, cs = xs ++ c :: ys → (seen xs).step c ≠ none := by
  induction cs using List.reverseRecOn generalizing s with
  | nil => simp [seen, stretch, eq_comm]
  | append_singleton cs d ih =>
    rw [List.foldlM_append]
    constructor
    · intro h
      obtain ⟨s', hs', hstep⟩ := Option.bind_eq_some_iff.1 h
      obtain ⟨rfl, hway⟩ := ih.1 hs'
      have hd : (seen cs).step d = some s := by simpa using hstep
      refine ⟨step_seen hd, ?_⟩
      intro xs c ys hsplit
      cases ys using List.reverseRecOn with
      | nil =>
        obtain ⟨rfl, hc⟩ := List.append_inj' hsplit rfl
        obtain rfl : d = c := by simpa using hc
        simp [hd]
      | append_singleton ys e _ =>
        rw [← List.cons_append, ← List.append_assoc] at hsplit
        exact hway xs c ys (List.append_inj' hsplit rfl).1
    · rintro ⟨rfl, hway⟩
      have hcs : cs.foldlM Authority.Scan.step {} = some (seen cs) := by
        refine ih.2 ⟨rfl, fun xs c ys hsplit => hway xs c (ys ++ [d]) ?_⟩
        rw [hsplit, List.append_assoc, List.cons_append]
      obtain ⟨s', hs'⟩ := Option.ne_none_iff_exists'.1 (hway cs d [] rfl)
      rw [hcs, ← step_seen hs']
      simpa using hs'

lemma foldlM_step_digits (h : ∀ c ∈ cs, c.isDigit) : cs.foldlM Authority.Scan.step s = some s := by
  induction cs with
  | nil => rfl
  | cons c cs ih =>
    have hne : ∀ d : Char, d.isDigit = false → c ≠ d := by
      rintro d hd rfl
      simp [h c List.mem_cons_self] at hd
    have hchar : Authority.isChar c = true := by
      simp [Authority.isChar, Char.isAlphanum, h c List.mem_cons_self]
    have hstep : s.step c = some s := by
      rw [Authority.Scan.step, if_neg (hne ':' rfl), if_neg (hne '[' rfl), if_neg (hne ']' rfl),
        if_neg (hne '@' rfl), if_neg (hne '%' rfl), if_pos hchar]
    rw [List.foldlM_cons, hstep]
    exact ih fun d hd => h d (List.mem_cons_of_mem c hd)

lemma scan_with_port (n : Nat) : (cs ++ ':' :: Digits.decimal n).foldlM Authority.Scan.step {} =
    (cs.foldlM Authority.Scan.step {}).bind fun s => s.step ':' := by
  rw [List.foldlM_append]
  refine congrArg _ (funext fun s => ?_)
  rw [List.foldlM_cons]
  cases hs : s.step ':' with
  | none => rfl
  | some s' => exact foldlM_step_digits fun c hc => isDigit_of_mem_decimal hc

/-- With a port behind it, an address is scanned to the end where no character on the way is refused,
its brackets are closed, and neither a colon nor a percent sign stands in its last stretch. -/
lemma isValid_with_port_iff (n : Nat) :
    Authority.isValid (cs ++ ':' :: Digits.decimal n) = true ↔
      (∀ xs c ys, cs = xs ++ c :: ys → (seen xs).step c ≠ none) ∧ ('[' ∈ cs ↔ ']' ∈ cs) ∧
        ':' ∉ stretch cs ∧ '%' ∉ stretch cs := by
  rw [Authority.isValid, scan_with_port]
  cases hscan : cs.foldlM Authority.Scan.step {} with
  | none =>
    refine iff_of_false (by simp) ?_
    rintro ⟨hway, -⟩
    simp [scan_eq_some_iff.2 ⟨rfl, hway⟩] at hscan
  | some s =>
    obtain ⟨rfl, hway⟩ := scan_eq_some_iff.1 hscan
    rw [Option.bind_some, Authority.Scan.step, if_pos rfl]
    by_cases hcolons : 8 ≤ (seen cs).colons
    · rw [if_pos hcolons]
      refine iff_of_false (by simp) ?_
      rintro ⟨-, -, hcolon, -⟩
      have hzero : (seen cs).colons = 0 := List.count_eq_zero.2 hcolon
      omega
    · have hlast := decide_eq_true (getLast?_with_port cs n (d := '@') rfl)
      have hcount : (seen cs).colons + 1 ≤ 1 ↔ ':' ∉ stretch cs := by
        rw [← List.count_eq_zero, seen]
        exact Nat.succ_le_succ_iff.trans Nat.le_zero
      have hbrackets : (seen cs).opened = (seen cs).closed ↔ ('[' ∈ cs ↔ ']' ∈ cs) := decide_eq_decide
      have hpercent : (seen cs).percent = false ↔ '%' ∉ stretch cs := decide_eq_false_iff_not
      rw [if_neg hcolons, and_iff_right hway]
      simp only [hlast, Authority.Scan.isComplete, Bool.and_true, Bool.and_eq_true,
        decide_eq_true_eq, Bool.not_eq_true', hcount, hbrackets, hpercent]
      simp [and_assoc]

end Scan

/-! ### Faults -/

section Faults

variable {cs xs ys zs : List Char} {c : Char}

lemma not_mem_of_first (h : ∀ as bs, cs = as ++ c :: bs → c ∉ as) (hcs : cs = xs ++ c :: ys) :
    c ∉ xs ∧ c ∉ ys := by
  refine ⟨h xs ys hcs, ?_⟩
  intro hmem
  obtain ⟨as, bs, rfl⟩ := List.append_of_mem hmem
  exact h (xs ++ c :: as) bs (by simp [hcs]) (by simp)

/-- Brackets match if each kind comes once or not at all, the closing one after the opening one. -/
lemma bracketsMatch_iff : BracketsMatch cs ↔ ('[' ∈ cs ↔ ']' ∈ cs) ∧
    (∀ xs ys, cs = xs ++ '[' :: ys → '[' ∉ xs) ∧
    ∀ xs ys, cs = xs ++ ']' :: ys → '[' ∈ xs ∧ ']' ∉ xs := by
  constructor
  · rintro (⟨hopen, hclose⟩ | ⟨as, bs, zs, hcs, hfree⟩)
    · refine ⟨iff_of_false hopen hclose, ?_, ?_⟩
      · rintro xs ys rfl
        simp at hopen
      · rintro xs ys rfl
        simp at hclose
    · have hcs' : cs = as ++ '[' :: (bs ++ ']' :: zs) := by simp [hcs]
      have hopen : '[' ∉ as ++ bs ++ zs := fun h => (hfree _ h).1 rfl
      have hclose : ']' ∉ as ++ bs ++ zs := fun h => (hfree _ h).2 rfl
      simp only [List.mem_append, not_or] at hopen hclose
      refine ⟨iff_of_true (by simp [hcs]) (by simp [hcs]), ?_, ?_⟩
      · intro xs ys hxs
        have hrest : '[' ∉ bs ++ ']' :: zs := by simp [hopen]
        obtain ⟨rfl, -⟩ :=
          (List.append_cons_inj_of_notMem hopen.1.1 hrest).1 (hcs'.symm.trans hxs)
        exact hopen.1.1
      · intro xs ys hxs
        have hfront : ']' ∉ as ++ '[' :: bs := by simp [hclose]
        obtain ⟨rfl, -⟩ :=
          (List.append_cons_inj_of_notMem hfront hclose.2).1 (hcs.symm.trans hxs)
        exact ⟨by simp, hfront⟩
  · rintro ⟨hboth, hopenOnce, hcloseOnce⟩
    by_cases hclose : ']' ∈ cs
    · obtain ⟨front, zs, hzs⟩ := List.append_of_mem hclose
      obtain ⟨hopen, hfront⟩ := hcloseOnce front zs hzs
      obtain ⟨xs, ys, rfl⟩ := List.append_of_mem hopen
      have hback := not_mem_of_first (fun as bs h => (hcloseOnce as bs h).2) hzs
      have hopen' : '[' ∉ xs ∧ '[' ∉ ys ++ ']' :: zs := not_mem_of_first hopenOnce (by simp [hzs])
      have hnoOpen : '[' ∉ xs ++ ys ++ zs := by simpa [and_assoc] using hopen'
      have hnoClose : ']' ∉ xs ++ ys ++ zs := by simpa [and_assoc] using hback
      refine .inr ⟨xs, ys, zs, hzs, fun c hc => ⟨?_, ?_⟩⟩
      · rintro rfl
        exact hnoOpen hc
      · rintro rfl
        exact hnoClose hc
    · exact .inl ⟨fun h => hclose (hboth.1 h), hclose⟩

/-- A scan that stops has met a fault. -/
lemma faulty_of_step (hcs : cs = xs ++ c :: ys) (hstep : (seen xs).step c = none) : Faulty cs := by
  rcases step_seen_eq_none_iff.1 hstep with ⟨rfl, hcolons⟩ | ⟨rfl, hopen⟩ | ⟨rfl, hclose⟩ | hchar
  · obtain ⟨⟨front, hxs⟩, hall⟩ := exists_eq_append_stretch xs
    refine @Faulty.colons cs front (stretch xs ++ [':']) ys ?_ ?_ ?_
    · rw [hcs]
      nth_rewrite 1 [hxs]
      simp
    · intro d hd
      rcases List.mem_append.1 hd with hd | hd
      · exact hall d hd
      · rw [List.mem_singleton.1 hd]
        rfl
    · rw [List.count_append, List.count_singleton_self]
      omega
  · rcases hopen with hpercent | hopen
    · obtain ⟨as, bs, rfl, hbs⟩ := (mem_stretch_iff rfl).1 hpercent
      refine .percentBefore hcs ?_
      intro hat
      cases hbs '@' hat
    · refine .brackets fun hmatch => ?_
      exact (bracketsMatch_iff.1 hmatch).2.1 xs ys hcs hopen
  · refine .brackets fun hmatch => ?_
    obtain ⟨hopen, hclosed⟩ := (bracketsMatch_iff.1 hmatch).2.2 xs ys hcs
    tauto
  · exact .character (by simp [hcs]) hchar

/-- A scan that goes on never has more than eight colons in a stretch. -/
lemma count_stretch_le (hway : ∀ xs c ys, cs = xs ++ c :: ys → (seen xs).step c ≠ none) :
    (stretch cs).count ':' ≤ 8 := by
  induction cs using List.reverseRecOn with
  | nil => simp [stretch]
  | append_singleton cs c ih =>
    have hcs : (stretch cs).count ':' ≤ 8 := by
      refine ih fun xs d ys h => hway xs d (ys ++ [c]) ?_
      simp [h]
    rw [stretch_concat]
    split
    · simp
    · by_cases hc : c = ':'
      · subst hc
        have hstep := hway cs ':' [] rfl
        have hroom : ¬8 ≤ (stretch cs).count ':' :=
          fun h => hstep (step_seen_eq_none_iff.2 (.inl ⟨rfl, h⟩))
        rw [List.count_append, List.count_singleton_self]
        omega
      · have hnone : [c].count ':' = 0 := List.count_eq_zero.2 (by simpa [eq_comm] using hc)
        rw [List.count_append, hnone]
        exact hcs

lemma bracketsMatch_of_scan (hway : ∀ xs c ys, cs = xs ++ c :: ys → (seen xs).step c ≠ none)
    (hboth : '[' ∈ cs ↔ ']' ∈ cs) : BracketsMatch cs := by
  refine bracketsMatch_iff.2 ⟨hboth, ?_, ?_⟩
  · intro xs ys hcs hopen
    exact hway xs '[' ys hcs (step_seen_eq_none_iff.2 (.inr (.inl ⟨rfl, .inr hopen⟩)))
  · intro xs ys hcs
    by_contra hno
    refine hway xs ']' ys hcs (step_seen_eq_none_iff.2 (.inr (.inr (.inl ⟨rfl, ?_⟩))))
    tauto

/-- With a port behind it, an address is valid exactly if it has no fault. -/
theorem isValid_with_port_iff_not_faulty (cs : List Char) (n : Nat) :
    Authority.isValid (cs ++ ':' :: Digits.decimal n) = true ↔ ¬Faulty cs := by
  rw [isValid_with_port_iff]
  constructor
  · rintro ⟨hway, hboth, hcolon, hpercent⟩ hfaulty
    cases hfaulty with
    | @character c h hc =>
      obtain ⟨xs, ys, hcs⟩ := List.append_of_mem h
      exact hway xs c ys hcs (step_seen_eq_none_iff.2 (.inr (.inr (.inr hc))))
    | brackets h => exact h (bracketsMatch_of_scan hway hboth)
    | lastPercent h hys => exact hpercent ((mem_stretch_iff rfl).2 ⟨_, _, h, hys⟩)
    | @percentBefore xs ys zs h hys =>
      obtain ⟨-, hopenOnce, hcloseOnce⟩ := bracketsMatch_iff.1 (bracketsMatch_of_scan hway hboth)
      by_cases hclose : ']' ∈ ys
      · obtain ⟨as, bs, rfl⟩ := List.append_of_mem hclose
        have hopen := (hcloseOnce (xs ++ '%' :: as) (bs ++ '[' :: zs) (by simp [h])).1
        refine hopenOnce _ zs h ?_
        simp only [List.mem_append, List.mem_cons] at hopen ⊢
        tauto
      · have hseen : '%' ∈ stretch (xs ++ '%' :: ys) := by
          refine (mem_stretch_iff rfl).2 ⟨xs, ys, rfl, fun d hd => ?_⟩
          have hat : d ≠ '@' := fun h => hys (h ▸ hd)
          have hne : d ≠ ']' := fun h => hclose (h ▸ hd)
          simp [isReset, hat, hne]
        exact hway _ '[' zs h (step_seen_eq_none_iff.2 (.inr (.inl ⟨rfl, .inl hseen⟩)))
    | lastColon h hys => exact hcolon ((mem_stretch_iff rfl).2 ⟨_, _, h, hys⟩)
    | @colons xs ys zs h hys hcount =>
      have hprefix : (stretch (xs ++ ys)).count ':' ≤ 8 := by
        refine count_stretch_le fun as c bs has => hway as c (bs ++ zs) ?_
        simp [h, has]
      rw [stretch_append hys, List.count_append] at hprefix
      omega
  · intro hfaulty
    refine ⟨?_, ?_, ?_, ?_⟩
    · intro xs c ys hcs hstep
      exact hfaulty (faulty_of_step hcs hstep)
    · by_contra hboth
      exact hfaulty (.brackets fun hmatch => hboth (bracketsMatch_iff.1 hmatch).1)
    · intro hcolon
      obtain ⟨xs, ys, hcs, hys⟩ := (mem_stretch_iff rfl).1 hcolon
      exact hfaulty (.lastColon hcs hys)
    · intro hpercent
      obtain ⟨xs, ys, hcs, hys⟩ := (mem_stretch_iff rfl).1 hpercent
      exact hfaulty (.lastPercent hcs hys)

end Faults

/-! ### Literals -/

lemma isReset_of_isDigit {base : Nat} {c : Char} (h : Digits.isDigit base c = true) :
    isReset c = false := by
  have hat : c ≠ '@' := by
    rintro rfl
    cases h
  have hclose : c ≠ ']' := by
    rintro rfl
    cases h
  simp [isReset, hat, hclose]

/-- An address of eight groups has a colon and no mark. -/
lemma colon_of_v6 {cs : List Char} {ip : Ipv6} (h : IpAddress.parse? cs = some (.v6 ip)) :
    ':' ∈ cs ∧ ∀ c ∈ cs, isReset c = false := by
  have hread : Ipv6.read? cs = some (ip, []) := by
    rw [IpAddress.parse?] at h
    split at h
    · cases h
    · split at h
      · next heq =>
        cases h
        exact heq
      · cases h
  obtain ⟨ds, hcs, hspells⟩ := v6?_spelled hread
  rw [List.append_nil] at hcs
  rw [hcs]
  refine ⟨hspells.colon_mem, ?_⟩
  intro c hc
  rcases hspells.chars c hc with hdigit | hmark
  · exact isReset_of_isDigit hdigit
  · have hmarks : ∀ c ∈ [':', '.'], isReset c = false := by simp [isReset]
    exact hmarks c hmark

/-! ### Dialing -/

section Dialing

variable {address : String} {port : UInt16}

lemma parse?_eq_none_iff (hend : ∀ c ∈ address.toList, Authority.isEnd c = false) :
    Uri.parse? ("http://" ++ s!"{address}:{port}").toList = none ↔ Refused address port := by
  have hlit : Reader.literal? "http://".toList ("http://" ++ s!"{address}:{port}").toList =
      some (s!"{address}:{port}").toList := by
    rw [String.toList_append]
    exact Reader.literal?_eq_some_iff.2 rfl
  have hnoEnd : ∀ c ∈ (s!"{address}:{port}").toList, (!Authority.isEnd c) = true := by
    intro c hc
    rw [toList_address] at hc
    rw [isEnd_of_mem_with_port hend hc]
    rfl
  have hvalid := isValid_with_port_iff_not_faulty address.toList port.toNat
  rw [← toList_address] at hvalid
  rw [Uri.parse?, hlit]
  simp only [Option.bind_eq_bind, Option.bind_some, List.takeWhile_eq_self_iff.2 hnoEnd,
    List.dropWhile_eq_nil_iff.2 hnoEnd, String.ofList_toList]
  constructor
  · intro hnone
    by_cases hfaulty : Faulty address.toList
    · exact .faulty hfaulty
    · by_cases hlong : 65534 < ("http://" ++ s!"{address}:{port}").utf8ByteSize
      · exact .long hlong
      · rw [dif_pos (hvalid.2 hfaulty), if_pos ⟨Nat.le_of_not_lt hlong, rfl⟩] at hnone
        cases hnone
  · rintro (hlong | hfaulty)
    · split
      · exact if_neg fun h => absurd h.1 (Nat.not_le.2 hlong)
      · rfl
    · exact dif_neg fun h => hvalid.1 h hfaulty

/-- Colons in the last stretch of an address are not for a port of its own. -/
lemma refused_of_colon {cs ys : List Char} (h : address.toList = cs ++ ':' :: ys)
    (hys : ∀ c ∈ ys, isReset c = false) : Refused address port :=
  .faulty (.lastColon h hys)

end Dialing

/-- Where an address does not end early, a dial is refused exactly for a text that is too long, for a
character that stands in no address, for brackets that do not match, and for a percent sign or colons
where none can stand. Nothing is dialed then, and neither the time for dialing nor anything else has a
part in it. An address with a port of its own is refused, and so is one of eight groups without
brackets. -/
theorem connect_refuses_iff (address : String) (port : UInt16)
    (hend : ∀ c ∈ ['/', '?', '#'], c ∉ address.toList) :
    (∀ (net : Network) (timeout : Duration) (m : Machine),
      let run := (Client.connect net address port timeout).runOn m
      ((∃ text, run.1 = .error (.invalidAddress text)) ↔ Refused address port) ∧
        (Refused address port →
          run = (.error (.invalidAddress s!"{address}:{port}: invalid URI"), m))) ∧
    (∀ (host : String) (other : UInt16), address = s!"{host}:{other}" → Refused address port) ∧
    ∀ ip, IpAddress.parse? address.toList = some (.v6 ip) → Refused address port := by
  have hnoEnd : ∀ c ∈ address.toList, Authority.isEnd c = false := by
    intro c hc
    have hne : ∀ d ∈ ['/', '?', '#'], c ≠ d := by
      rintro d hd rfl
      exact hend c hd hc
    simp [Authority.isEnd, hne '/', hne '?', hne '#']
  refine ⟨?_, ?_, ?_⟩
  · intro net timeout m run
    cases hparse : Uri.parse? ("http://" ++ s!"{address}:{port}").toList with
    | none =>
      have htarget : Client.target? s!"{address}:{port}" =
          .error (.invalidAddress s!"{address}:{port}: invalid URI") := by
        rw [Client.target?, hparse]
        rfl
      have hrun := connect_runOn_of_error net address port timeout m htarget
      have hrefused := (parse?_eq_none_iff hnoEnd).1 hparse
      exact ⟨iff_of_true ⟨_, congrArg Prod.fst hrun⟩ hrefused, fun _ => hrun⟩
    | some uri =>
      have htarget : Client.target? s!"{address}:{port}" = .ok uri := by
        rw [Client.target?, hparse]
      have hnot : ¬Refused address port := by
        intro h
        rw [(parse?_eq_none_iff hnoEnd).2 h] at hparse
        cases hparse
      refine ⟨iff_of_false ?_ hnot, fun h => absurd h hnot⟩
      rintro ⟨text, htext⟩
      exact connect_ne_invalidAddress net address port timeout m htarget text htext
  · rintro host other rfl
    refine refused_of_colon (toList_address host other) ?_
    intro c hc
    have hat : c ≠ '@' := ne_of_mem_decimal hc rfl
    have hclose : c ≠ ']' := ne_of_mem_decimal hc rfl
    simp [isReset, hat, hclose]
  · intro ip hip
    obtain ⟨hcolon, hfree⟩ := colon_of_v6 hip
    obtain ⟨xs, ys, hsplit⟩ := List.append_of_mem hcolon
    refine refused_of_colon hsplit ?_
    intro c hc
    exact hfree c (by simp [hsplit, hc])

/-- An address of eight groups is dialed in brackets only. -/
theorem connect_refuses_bare_literal :
    (Client.connect .empty "::1" 50051 (.ofSecs 10)).runOn {} =
        (.error (.invalidAddress "::1:50051: invalid URI"), {}) ∧
      Refused "::1" 50051 ∧ ¬Refused "[::1]" 50051 := by
  have hliteral : IpAddress.parse? "::1".toList =
      some (.v6 ⟨[0, 0, 0, 0, 0, 0, 0, 1], rfl⟩) := by decide
  have hdialed : ((Client.connect .empty "[::1]" 50051 (.ofSecs 10)).runOn {}).1 =
      .error (.connect "[::1]:50051: transport error") := by rfl
  obtain ⟨hbare, -, hv6⟩ := connect_refuses_iff "::1" 50051 (by simp)
  obtain ⟨hbracketed, -, -⟩ := connect_refuses_iff "[::1]" 50051 (by simp)
  have hrefused := hv6 _ hliteral
  refine ⟨(hbare .empty (.ofSecs 10) {}).2 hrefused, hrefused, ?_⟩
  intro h
  obtain ⟨text, htext⟩ := (hbracketed .empty (.ofSecs 10) {}).1.2 h
  rw [hdialed] at htext
  cases htext

end MemberRelay.Proofs
