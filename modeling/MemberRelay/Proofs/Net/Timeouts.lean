import MemberRelay.Proofs.Net.Displayed
import MemberRelay.Proofs.Net.Target

/-!
# Timeouts as they are told

A dial that gets no answer tells the address and the time it waited. The text of a time is the exact
number in the largest unit in which it is at least one, so it tells one time only.
-/

namespace MemberRelay.Proofs

/-- The units that a time is told in. -/
inductive TimeUnit where
  | second
  | millisecond
  | microsecond
  | nanosecond
  deriving DecidableEq

namespace TimeUnit

def nanos : TimeUnit → Nat
  | second => 1000000000
  | millisecond => 1000000
  | microsecond => 1000
  | nanosecond => 1

def symbol : TimeUnit → List Char
  | second => ['s']
  | millisecond => ['m', 's']
  | microsecond => ['µ', 's']
  | nanosecond => ['n', 's']

/-- How many places of a fraction in this unit are told apart. -/
def places : TimeUnit → Nat
  | second => 9
  | millisecond => 6
  | microsecond => 3
  | nanosecond => 0

end TimeUnit

def totalNanos (d : Duration) : Nat := d.secs * 1000000000 + d.nanos

/-- The largest unit in which a time is at least one, or the smallest one for no time. -/
structure LargestUnit (u : TimeUnit) (d : Duration) : Prop where
  at_least_one : u.nanos ≤ totalNanos d ∨ totalNanos d = 0 ∧ u = .nanosecond
  below_larger : ∀ v : TimeUnit, u.nanos < v.nanos → totalNanos d < v.nanos

/-- A point and the digits after it, or nothing where there are none. -/
def afterPoint : List Char → List Char
  | [] => []
  | c :: cs => '.' :: c :: cs

/-- A text tells a time exactly: a whole number and the digits of a fraction, the last one not zero,
in the largest unit. The whole number, with the digits after it, is the time in that unit shifted by
as many places. -/
inductive TellsTime (d : Duration) : List Char → Prop where
  | intro {u : TimeUnit} {whole : Nat} {fraction : List Char}
      (hdigits : ∀ c ∈ fraction, Digits.isDigit 10 c = true) (hlast : fraction.getLast? ≠ some '0')
      (hvalue : (whole * 10 ^ fraction.length + Digits.number 10 fraction) * u.nanos =
        totalNanos d * 10 ^ fraction.length)
      (hunit : LargestUnit u d) :
      TellsTime d (Digits.decimal whole ++ afterPoint fraction ++ u.symbol)

/-! ### The text of a time -/

section Texts

variable {d : Duration} {u : TimeUnit} {whole rest width : Nat}

/-- The digits of a fraction that are shown. -/
lemma amount_eq (whole : Nat) (hwidth : 0 < width) (h : rest < 10 ^ width) : ∃ fraction,
    Duration.amount whole rest width = Digits.decimal whole ++ afterPoint fraction ∧
      (∀ c ∈ fraction, Digits.isDigit 10 c = true) ∧ fraction.getLast? ≠ some '0' ∧
      Digits.number 10 fraction * 10 ^ width = rest * 10 ^ fraction.length := by
  by_cases hzero : rest = 0
  · subst hzero
    refine ⟨[], by simp [Duration.amount, afterPoint], by simp, by simp, ?_⟩
    rw [Digits.number, List.foldl_nil, Nat.zero_mul, Nat.zero_mul]
  · obtain ⟨k, hk⟩ := exists_trimmed_append (Digits.padded width rest)
    have hlength := length_padded hwidth h
    have hnumber : Digits.number 10 (Digits.padded width rest) = rest := number_padded
    have hdigits : ∀ c ∈ Digits.padded width rest, Digits.isDigit 10 c = true :=
      fun c => isDigit_of_mem_padded
    have hlast := getLast?_trimmed (Digits.padded width rest)
    have hamount : Duration.amount whole rest width =
        Digits.decimal whole ++ '.' :: Digits.trimmed (Digits.padded width rest) := by
      rw [Duration.amount, if_neg hzero]
    generalize Digits.trimmed (Digits.padded width rest) = fraction at hk hlast hamount
    rw [hk, number_append, number_zeros, List.length_replicate, Nat.add_zero] at hnumber
    rw [hk, List.length_append, List.length_replicate] at hlength
    have hne : fraction ≠ [] := by
      rintro rfl
      exact hzero (by simpa [Digits.number] using hnumber.symm)
    obtain ⟨c, cs, rfl⟩ := List.exists_cons_of_ne_nil hne
    refine ⟨c :: cs, hamount, fun e he => hdigits e ?_, hlast, ?_⟩
    · rw [hk]
      exact List.mem_append_left _ he
    · rw [← hnumber, ← hlength, Nat.pow_add]
      ring

lemma nanos_eq (u : TimeUnit) : u.nanos = 10 ^ u.places := by
  cases u <;> rfl

/-- A time in the largest unit is told by its whole part and the rest. -/
lemma tellsTime_amount (hplaces : 0 < u.places) (hrest : rest < u.nanos)
    (htotal : totalNanos d = whole * u.nanos + rest) (hunit : LargestUnit u d) :
    TellsTime d (Duration.amount whole rest u.places ++ u.symbol) := by
  rw [nanos_eq] at hrest
  obtain ⟨fraction, hamount, hdigits, hlast, hvalue⟩ := amount_eq whole hplaces hrest
  rw [hamount]
  refine .intro hdigits hlast ?_ hunit
  rw [htotal, Nat.add_mul, Nat.add_mul, nanos_eq, hvalue]
  ring

lemma largestUnit_of_le (hle : u.nanos ≤ totalNanos d)
    (hlarger : ∀ v : TimeUnit, u.nanos < v.nanos → totalNanos d < v.nanos) : LargestUnit u d :=
  ⟨.inl hle, hlarger⟩

theorem tellsTime_text (d : Duration) : TellsTime d d.text.toList := by
  have hrest := d.nanos_lt
  rw [Duration.text, String.toList_ofList]
  split_ifs with hsecs hmillis hmicros
  · refine tellsTime_amount (u := .second) (by decide) hrest rfl (largestUnit_of_le ?_ ?_)
    · simp only [TimeUnit.nanos, totalNanos]
      omega
    · intro v hv
      cases v <;> simp [TimeUnit.nanos] at hv
  · refine tellsTime_amount (u := .millisecond) (by decide) (Nat.mod_lt _ (by decide)) ?_
      (largestUnit_of_le ?_ ?_)
    · simp only [TimeUnit.nanos, totalNanos]
      omega
    · simp only [TimeUnit.nanos, totalNanos]
      omega
    · intro v hv
      cases v <;> simp only [TimeUnit.nanos, totalNanos] at hv ⊢ <;> omega
  · refine tellsTime_amount (u := .microsecond) (by decide) (Nat.mod_lt _ (by decide)) ?_
      (largestUnit_of_le ?_ ?_)
    · simp only [TimeUnit.nanos, totalNanos]
      omega
    · simp only [TimeUnit.nanos, totalNanos]
      omega
    · intro v hv
      cases v <;> simp only [TimeUnit.nanos, totalNanos] at hv ⊢ <;> omega
  · have hunit : LargestUnit .nanosecond d := by
      refine ⟨?_, fun v hv => ?_⟩
      · by_cases hzero : d.nanos = 0
        · refine .inr ⟨?_, rfl⟩
          simp only [totalNanos]
          omega
        · refine .inl ?_
          simp only [TimeUnit.nanos, totalNanos]
          omega
      · cases v <;> simp only [TimeUnit.nanos, totalNanos] at hv ⊢ <;> omega
    have hvalue : (d.nanos * 10 ^ ([] : List Char).length + Digits.number 10 []) *
        TimeUnit.nanosecond.nanos = totalNanos d * 10 ^ ([] : List Char).length := by
      simp only [TimeUnit.nanos, totalNanos, Digits.number, List.length_nil, List.foldl_nil]
      omega
    have htold : TellsTime d _ := .intro (by simp) (by simp) hvalue hunit
    simpa [Duration.amount, afterPoint, TimeUnit.symbol] using htold

end Texts

/-! ### One time a text -/

section Unique

variable {d e : Duration} {u v : TimeUnit} {fraction fraction' cs : List Char}

lemma symbol_starts (u : TimeUnit) : ∃ c cs, u.symbol = c :: cs ∧ c ≠ '.' ∧
    Digits.isDigit 10 c = false := by
  cases u <;> exact ⟨_, _, rfl, by decide, by decide⟩

lemma symbol_injective (h : u.symbol = v.symbol) : u = v := by
  revert h
  cases u <;> cases v <;> decide

lemma endsDigits_symbol : EndsDigits 10 u.symbol := by
  obtain ⟨c, cs, hsymbol, -, hdigit⟩ := symbol_starts u
  rw [hsymbol]
  exact endsDigits_cons hdigit

lemma endsDigits_afterPoint (fraction : List Char) :
    EndsDigits 10 (afterPoint fraction ++ u.symbol) := by
  cases fraction with
  | nil => exact endsDigits_symbol
  | cons c cs => exact endsDigits_cons (by decide)

/-- The digits behind the point end where the unit begins. -/
lemma afterPoint_inj (hdigits : ∀ c ∈ fraction, Digits.isDigit 10 c = true)
    (hdigits' : ∀ c ∈ fraction', Digits.isDigit 10 c = true)
    (h : afterPoint fraction ++ u.symbol = afterPoint fraction' ++ v.symbol) :
    fraction = fraction' ∧ u = v := by
  obtain ⟨c, cs, hu, hpoint, -⟩ := symbol_starts u
  obtain ⟨c', cs', hv, hpoint', -⟩ := symbol_starts v
  cases fraction with
  | nil =>
    cases fraction' with
    | nil => exact ⟨rfl, symbol_injective h⟩
    | cons f' fs' =>
      rw [afterPoint, List.nil_append, hu] at h
      exact absurd (List.cons.inj h).1 hpoint
  | cons f fs =>
    cases fraction' with
    | nil =>
      rw [afterPoint, afterPoint, List.nil_append, hv] at h
      exact absurd (List.cons.inj h).1.symm hpoint'
    | cons f' fs' =>
      have htail := (List.cons.inj h).2
      have hrun := run_append_of_ends hdigits (endsDigits_symbol (u := u))
      have hrun' := run_append_of_ends hdigits' (endsDigits_symbol (u := v))
      have hsame : (f :: fs, u.symbol) = (f' :: fs', v.symbol) := by
        rw [← hrun, ← hrun']
        exact congrArg _ htail
      exact ⟨congrArg Prod.fst hsame, symbol_injective (congrArg Prod.snd hsame)⟩

lemma eq_of_totalNanos (h : totalNanos d = totalNanos e) : d = e := by
  obtain ⟨secs, nanos, hnanos⟩ := d
  obtain ⟨secs', nanos', hnanos'⟩ := e
  simp only [totalNanos] at h
  obtain rfl : secs = secs' := by omega
  obtain rfl : nanos = nanos' := by omega
  rfl

/-- A text tells one time. -/
theorem TellsTime.unique (h : TellsTime d cs) (h' : TellsTime e cs) : d = e := by
  cases h with
  | @intro u whole fraction hdigits hlast hvalue hunit =>
    generalize htext : Digits.decimal whole ++ afterPoint fraction ++ u.symbol = text at h'
    cases h' with
    | @intro v whole' fraction' hdigits' hlast' hvalue' hunit' =>
      rw [List.append_assoc, List.append_assoc] at htext
      have hdecimals (n : Nat) : ∀ c ∈ Digits.decimal n, Digits.isDigit 10 c = true := fun c hc =>
        isDigit_ten_of_isDigit (isDigit_of_mem_decimal hc)
      have hrun := run_append_of_ends (hdecimals whole)
        (endsDigits_afterPoint (u := u) fraction)
      have hrun' := run_append_of_ends (hdecimals whole')
        (endsDigits_afterPoint (u := v) fraction')
      obtain ⟨hdecimal, hback⟩ :=
        Prod.mk.inj (hrun.symm.trans ((congrArg (Digits.run 10) htext).trans hrun'))
      obtain ⟨rfl, rfl⟩ := afterPoint_inj hdigits hdigits' hback
      have hnumber : whole = whole' := by
        rw [← number_decimal whole, ← number_decimal whole', hdecimal]
      subst hnumber
      apply eq_of_totalNanos
      exact Nat.eq_of_mul_eq_mul_right (Nat.pow_pos (by decide)) (hvalue.symm.trans hvalue')

end Unique

/-! ### A dial without an answer -/

section Silence

variable {net : Network} {address : String} {port : UInt16} {m : Machine} {uri : Uri}

lemma connect_silent {timeout : Duration} (htarget : Client.target? s!"{address}:{port}" = .ok uri)
    (hsilent : net.dial uri timeout = .silent) :
    ((Client.connect net address port timeout).runOn m).1 =
      .error (.connect (s!"{address}:{port}" ++ (": timed out after " ++ timeout.text))) := by
  simp only [connect_runOn, htarget, hsilent]
  rw [← String.append_assoc]
  rfl

/-- A client without settings gives up after ten seconds. -/
theorem connectDefault_silent (htarget : Client.target? s!"{address}:{port}" = .ok uri)
    (hsilent : net.dial uri Client.defaultTimeout = .silent) :
    ((Client.connectDefault net address port).runOn m).1 =
      .error (.connect (s!"{address}:{port}" ++ ": timed out after 10s")) := by
  have hdefault : Client.defaultTimeout.text = "10s" := by rfl
  rw [Client.connectDefault, connect_silent htarget hsilent, hdefault]
  rfl

end Silence

/-- A dial that gets no answer fails with the address that was dialed and the time it waited, which
the text tells exactly and tells of no other time. -/
theorem silent_dial_tells_timeout (net : Network) (address : String) (port : UInt16)
    (timeout : Duration) (m : Machine) (uri : Uri)
    (htarget : Client.target? s!"{address}:{port}" = .ok uri)
    (hsilent : net.dial uri timeout = .silent) :
    ((Client.connect net address port timeout).runOn m).1 =
        .error (.connect (s!"{address}:{port}" ++ (": timed out after " ++ timeout.text))) ∧
      TellsTime timeout timeout.text.toList ∧
      ∀ other : Duration, other.text = timeout.text → other = timeout := by
  refine ⟨connect_silent htarget hsilent, tellsTime_text timeout, ?_⟩
  intro other hother
  have htold := tellsTime_text other
  rw [hother] at htold
  exact htold.unique (tellsTime_text timeout)

/-- A dial to a silent host that waited a second and a nanosecond. -/
theorem silent_dial_tells_short_fraction :
    ∃ uri : Uri, Client.target? "10.255.255.1:50051" = .ok uri ∧
      ({ Network.empty with dial := fun _ _ => .silent } : Network).dial uri ⟨1, 1, by decide⟩ =
        .silent ∧
      ((Client.connect { Network.empty with dial := fun _ _ => .silent } "10.255.255.1" 50051
        ⟨1, 1, by decide⟩).runOn {}).1 =
          .error (.connect "10.255.255.1:50051: timed out after 1.000000001s") ∧
      TellsTime ⟨1, 1, by decide⟩ "1.000000001s".toList ∧
      ∀ other : Duration, other.text = "1.000000001s" → other = ⟨1, 1, by decide⟩ := by
  refine ⟨⟨"10.255.255.1:50051".toList, by decide⟩, rfl, rfl, ?_⟩
  exact silent_dial_tells_timeout { Network.empty with dial := fun _ _ => .silent } "10.255.255.1"
    50051 ⟨1, 1, by decide⟩ {} ⟨"10.255.255.1:50051".toList, by decide⟩ rfl rfl

end MemberRelay.Proofs
