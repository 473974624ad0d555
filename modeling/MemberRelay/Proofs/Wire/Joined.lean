import MemberRelay.Proofs.Wire.Records

/-!
# Joined messages

Decoding goes record by record and carries nothing from one to the next but the last text. So bytes
after a message are decoded as if they stood alone, and the first of them that are no record decide
the fault.
-/

namespace MemberRelay.Proofs
open Wire

/-- A record with a text stands among the records of a message, not inside a group. -/
def HasText (m : Message) (bs : List UInt8) : Prop :=
  ∃ records : List (List UInt8 × Option String), bs = (records.map Prod.fst).flatten ∧
    (∀ r ∈ records, Record m r.1 r.2) ∧ ∃ r ∈ records, r.2.isSome

section Joined

variable {m : Message} {bs rest : List UInt8} {s t : String} {e : DecodeError} {fuel : Nat}
  {records records' : List (List UInt8 × Option String)}

/-- The records before a fault leave no trace in it: neither the text so far nor the fuel counts. -/
lemma decodeFrom_eq_error_iff (hfuel : bs.length ≤ fuel) :
    m.decodeFrom s fuel bs = .error e ↔
      ∃ (records : List (List UInt8 × Option String)) (rest : List UInt8),
        bs = (records.map Prod.fst).flatten ++ rest ∧ (∀ r ∈ records, Record m r.1 r.2) ∧
          rest ≠ [] ∧ m.readField rest = .error e := by
  constructor
  · intro h
    induction fuel generalizing s bs with
    | zero =>
      rw [List.length_eq_zero_iff.1 (Nat.le_zero.1 hfuel)] at h
      cases h
    | succ fuel ih =>
      cases bs with
      | nil => cases h
      | cons b bs =>
        cases hfield : m.readField (b :: bs) with
        | error e' =>
          rw [Message.decodeFrom, hfield] at h
          · cases h
            exact ⟨[], b :: bs, rfl, List.forall_mem_nil _, List.cons_ne_nil b bs, hfield⟩
          · simp
        | ok r =>
          obtain ⟨text?, next⟩ := r
          obtain ⟨rs, hbs, hrecord⟩ := readField_eq_ok_iff.1 hfield
          have hpos := List.length_pos_iff.2 hrecord.ne_nil
          have hlen : (b :: bs).length = rs.length + next.length := by rw [hbs, List.length_append]
          rw [Message.decodeFrom, hfield] at h
          · obtain ⟨records, rest, rfl, hrecords, hrest, herror⟩ := ih (by omega) h
            refine ⟨(rs, text?) :: records, rest, ?_, ?_, hrest, herror⟩
            · rw [hbs, List.map_cons, List.flatten_cons, List.append_assoc]
            · exact List.forall_mem_cons.2 ⟨hrecord, hrecords⟩
          · simp
  · rintro ⟨records, rest, rfl, hrecords, hrest, herror⟩
    obtain ⟨left, hleft, hdecode⟩ := decodeFrom_records s rest hrecords hfuel
    have hpos := List.length_pos_iff.2 hrest
    obtain ⟨left, rfl⟩ : ∃ k, left = k + 1 := ⟨left - 1, by omega⟩
    rw [hdecode, Message.decodeFrom, herror]
    · rfl
    · exact hrest

lemma decode_eq_error_iff : m.decode bs = .error e ↔
    ∃ (records : List (List UInt8 × Option String)) (rest : List UInt8),
      bs = (records.map Prod.fst).flatten ++ rest ∧ (∀ r ∈ records, Record m r.1 r.2) ∧
        rest ≠ [] ∧ m.readField rest = .error e :=
  decodeFrom_eq_error_iff (Nat.le_refl _)

lemma records_append (hrecords : ∀ r ∈ records, Record m r.1 r.2)
    (hrecords' : ∀ r ∈ records', Record m r.1 r.2) :
    ∀ r ∈ records ++ records', Record m r.1 r.2 :=
  List.forall_mem_append.2 ⟨hrecords, hrecords'⟩

lemma flatten_records_append :
    ((records ++ records').map Prod.fst).flatten =
      (records.map Prod.fst).flatten ++ (records'.map Prod.fst).flatten := by
  rw [List.map_append, List.flatten_append]

/-- A text in the second part is the last one of both. -/
lemma lastText_append_of_text (h : ∃ r ∈ records', r.2.isSome) :
    lastText s (records ++ records') = lastText t records' := by
  obtain ⟨⟨rs, text?⟩, hmem, hsome⟩ := h
  obtain ⟨u, rfl⟩ := Option.isSome_iff_exists.1 hsome
  have hne : records'.filterMap Prod.snd ≠ [] :=
    List.ne_nil_of_mem (List.mem_filterMap.2 ⟨_, hmem, rfl⟩)
  obtain ⟨v, hv⟩ := Option.isSome_iff_exists.1 (List.getLast?_isSome.2 hne)
  rw [lastText, lastText, List.filterMap_append, List.getLast?_append, hv]
  rfl

lemma lastText_append_of_no_text (h : ¬∃ r ∈ records', r.2.isSome) :
    lastText s (records ++ records') = lastText s records := by
  have hnil : records'.filterMap Prod.snd = [] := by
    apply List.filterMap_eq_nil_iff.2
    intro r hr
    by_contra hne
    exact h ⟨r, hr, Option.isSome_iff_ne_none.2 hne⟩
  rw [lastText, lastText, List.filterMap_append, hnil, List.append_nil]

/-- Bytes after a decoded message are decoded as if nothing stood before them: their fault is the fault
of both, their last text the text of both, and without one the text before them stays. A fault is
always that of the first bytes that are no record, after bytes that decode. -/
theorem decode_append (m : Message) {as : List UInt8} {s : String} (h : m.decode as = .ok s)
    (bs : List UInt8) :
    (∀ e, m.decode bs = .error e → m.decode (as ++ bs) = .error e) ∧
      (∀ t, m.decode bs = .ok t →
        (HasText m bs → m.decode (as ++ bs) = .ok t) ∧
          (¬HasText m bs → m.decode (as ++ bs) = .ok s)) ∧
      ∀ e, m.decode bs = .error e ↔ ∃ front rest u, bs = front ++ rest ∧
        m.decode front = .ok u ∧ rest ≠ [] ∧ m.readField rest = .error e := by
  obtain ⟨records, rfl, hrecords, hs⟩ := decode_eq_ok_iff.1 h
  refine ⟨?_, ?_, ?_⟩
  · intro e he
    obtain ⟨records', rest, rfl, hrecords', hrest, herror⟩ := decode_eq_error_iff.1 he
    refine decode_eq_error_iff.2 ⟨_, rest, ?_, records_append hrecords hrecords', hrest, herror⟩
    rw [flatten_records_append, List.append_assoc]
  · intro t ht
    constructor
    · rintro ⟨records', rfl, hrecords', htext⟩
      have hlast := decode_eq_ok_iff.2 ⟨records', rfl, hrecords', rfl⟩
      rw [ht] at hlast
      cases hlast
      refine decode_eq_ok_iff.2 ⟨_, flatten_records_append.symm, records_append hrecords hrecords', ?_⟩
      exact (lastText_append_of_text htext).symm
    · intro hnone
      obtain ⟨records', rfl, hrecords', -⟩ := decode_eq_ok_iff.1 ht
      have htext : ¬∃ r ∈ records', r.2.isSome := fun htext => hnone ⟨records', rfl, hrecords', htext⟩
      refine decode_eq_ok_iff.2 ⟨_, flatten_records_append.symm, records_append hrecords hrecords', ?_⟩
      rw [lastText_append_of_no_text htext, hs]
  · intro e
    rw [decode_eq_error_iff]
    constructor
    · rintro ⟨records', rest, rfl, hrecords', hrest, herror⟩
      exact ⟨_, rest, _, rfl, decode_eq_ok_iff.2 ⟨records', rfl, hrecords', rfl⟩, hrest, herror⟩
    · rintro ⟨front, rest, u, rfl, hfront, hrest, herror⟩
      obtain ⟨records', rfl, hrecords', -⟩ := decode_eq_ok_iff.1 hfront
      exact ⟨records', rest, rfl, hrecords', hrest, herror⟩

/-- An empty text overrides the one before it, a text in a group does not, and a text that is cut off
fails as it does alone. -/
theorem decode_append_letter :
    Message.jsonRequest.decode [0x0A, 1, 0x41] = .ok "A" ∧
      HasText .jsonRequest [0x0A, 0] ∧ ¬HasText .jsonRequest [0x13, 0x0A, 1, 0x42, 0x14] ∧
      Message.jsonRequest.decode ([0x0A, 1, 0x41] ++ [0x0A, 0]) = .ok "" ∧
      Message.jsonRequest.decode ([0x0A, 1, 0x41] ++ [0x13, 0x0A, 1, 0x42, 0x14]) = .ok "A" ∧
      Message.jsonRequest.decode ([0x0A, 1, 0x41] ++ [0x0A, 2, 0x42]) =
        .error ⟨some "JsonRequest.json", .underflow⟩ := by
  have hfirst : Message.jsonRequest.decode [0x0A, 1, 0x41] = .ok "A" := by rfl
  have hboth : Message.jsonRequest.decode ([0x0A, 1, 0x41] ++ [0x13, 0x0A, 1, 0x42, 0x14]) =
      .ok "A" := by rfl
  have hempty : HasText .jsonRequest [0x0A, 0] := by
    obtain ⟨rs, hrs, hrecord⟩ := readField_eq_ok_iff.1
      (show Message.jsonRequest.readField [0x0A, 0] = .ok (some "", []) by rfl)
    exact ⟨[(rs, some "")], by simpa using hrs, by simpa using hrecord, by simp⟩
  have hlaw := decode_append .jsonRequest hfirst
  have hgroup : ¬HasText .jsonRequest [0x13, 0x0A, 1, 0x42, 0x14] := by
    intro h
    have hover := ((hlaw _).2.1 "" rfl).1 h
    rw [hboth] at hover
    exact absurd (Except.ok.inj hover) (by decide)
  exact ⟨hfirst, hempty, hgroup, ((hlaw _).2.1 "" rfl).1 hempty, ((hlaw _).2.1 "" rfl).2 hgroup,
    (hlaw _).1 _ rfl⟩

end Joined

end MemberRelay.Proofs
