import MemberRelay.Proofs.Actions
import MemberRelay.Proofs.Arguments.Values

/-!
# Reading a level

A level is read word by word. A value that stands apart is looked at late, but a reading that ends
well is one that looks at it at once, and so the words of a level are read item by item.
-/

namespace MemberRelay.Proofs
open Arguments Utf8

/-! ### One step -/

section Steps

variable {p p' : Progress} {scope : Scope} {o : ValueOption} {s w : String} {u v : Values}

/-- The reading once the last value is looked at. -/
def settled (p : Progress) (u : Values) : Progress := { p with values := u, pending? := none }

lemma settle_settled : (settled p u).settle = .ok u := rfl

lemma attach_eq_ok_iff {bs : List UInt8} : p.attach o bs = .ok p' ↔
    ∃ u, p.settle = .ok u ∧ ∃ v, u.put (.option o) bs = .ok v ∧ settled p v = p' := by
  unfold Progress.attach
  rw [bind_eq_ok_iff]
  refine exists_congr fun u => and_congr_right fun _ => ?_
  rw [bind_eq_ok_iff]
  refine exists_congr fun v => and_congr_right fun _ => ?_
  exact ⟨Except.ok.inj, congrArg _⟩

lemma await_eq_ok_iff {pending : Pending} : p.await pending = .ok p' ↔
    ∃ u, p.settle = .ok u ∧ { settled p u with pending? := some pending } = p' := by
  unfold Progress.await
  rw [bind_eq_ok_iff]
  refine exists_congr fun u => and_congr_right fun _ => ?_
  exact ⟨Except.ok.inj, congrArg _⟩

/-- A word that no option waits for is the payload. -/
lemma word_eq_ok_iff (hwait : p.waiting? = none) {bs : List UInt8} : p.word scope bs = .ok p' ↔
    scope.takesPayload = true ∧ p.payloadSeen = false ∧ ∃ u, p.settle = .ok u ∧
      { settled p u with pending? := some (.given .payload bs), payloadSeen := true } = p' := by
  unfold Progress.word
  rw [hwait]
  dsimp only
  by_cases htakes : scope.takesPayload = true ∧ p.payloadSeen = false
  · rw [if_pos (by simp [htakes.1, htakes.2])]
    unfold Progress.await
    cases p.settle with
    | error e => simp [Bind.bind, Except.bind, Except.map]
    | ok u => simp [Bind.bind, Except.bind, Except.map, pure, Except.pure, settled, htakes]
  · rw [if_neg (by simpa using htakes)]
    constructor
    · intro h
      cases h
    · rintro ⟨h₁, h₂, -⟩
      exact absurd ⟨h₁, h₂⟩ htakes

/-- The word after an option that waits is its value. -/
lemma word_waiting (hopen : p.escaped = false) (hwait : p.pending? = some (.waiting o))
    {bs : List UInt8} :
    p.word scope bs = .ok { p with pending? := some (.given (.option o) bs) } := by
  unfold Progress.word Progress.waiting?
  rw [hopen, hwait]

lemma waiting?_of_settle (h : p.settle = .ok u) : p.waiting? = none := by
  unfold Progress.waiting?
  unfold Progress.settle at h
  split
  · next hpending =>
    rw [hpending] at h
    cases h
  · rfl

/-- Two states that do the same with options and words read on in the same way. -/
lemma argument_congr {q : Progress} (hp : p.escaped = false) (hq : q.escaped = false)
    (hattach : ∀ o bs, p.attach o bs = q.attach o bs)
    (hawait : ∀ pending, p.await pending = q.await pending)
    (hword : ∀ bs, p.word scope bs = q.word scope bs) (hw : w ≠ "--")
    (h : p.argument scope (bytes w) = .ok p') : q.argument scope (bytes w) = .ok p' := by
  rcases argument_ok hp h with hdash | ⟨o, ho, hnamed | ⟨s, hattached⟩⟩ | hapart
  · exact absurd hdash hw
  · rw [argument_named hq ho hnamed, ← hawait, ← argument_named hp ho hnamed, h]
  · rw [argument_attached hq ho hattached, ← hattach, ← argument_attached hp ho hattached, h]
  · rw [argument_apart hq hapart, ← hword, ← argument_apart hp hapart, h]

lemma attach_settled (hs : p.settle = .ok u) {bs : List UInt8} :
    (settled p u).attach o bs = p.attach o bs := by
  unfold Progress.attach
  rw [hs]
  rfl

lemma await_settled (hs : p.settle = .ok u) {pending : Pending} :
    (settled p u).await pending = p.await pending := by
  unfold Progress.await
  rw [hs]
  rfl

lemma word_settled (hs : p.settle = .ok u) {bs : List UInt8} :
    (settled p u).word scope bs = p.word scope bs := by
  unfold Progress.word
  rw [waiting?_of_settle hs, waiting?_of_settle settle_settled, await_settled hs]
  rfl

/-- It makes no difference whether the last value is looked at late or at once. -/
lemma argument_settled (hs : p.settle = .ok u) (hw : p.escaped = true ∨ w ≠ "--") :
    (settled p u).argument scope (bytes w) = .ok p' ↔ p.argument scope (bytes w) = .ok p' := by
  cases hescaped : p.escaped with
  | true =>
    rw [argument_escaped hescaped, argument_escaped (p := settled p u) hescaped, word_settled hs]
  | false =>
    have hne : w ≠ "--" := by simpa [hescaped] using hw
    constructor
    · exact argument_congr hescaped hescaped (fun _ _ => attach_settled hs)
        (fun _ => await_settled hs) (fun _ => word_settled hs) hne
    · exact argument_congr hescaped hescaped (fun _ _ => (attach_settled hs).symm)
        (fun _ => (await_settled hs).symm) (fun _ => (word_settled hs).symm) hne

/-- All that is read but two dashes looks at the last value first. -/
lemma settle_of_argument (hwait : p.waiting? = none) (hw : p.escaped = true ∨ w ≠ "--")
    (h : p.argument scope (bytes w) = .ok p') : ∃ u, p.settle = .ok u := by
  have hword : p.word scope (bytes w) = .ok p' → ∃ u, p.settle = .ok u := by
    intro h
    obtain ⟨-, -, u, hu, -⟩ := (word_eq_ok_iff hwait).1 h
    exact ⟨u, hu⟩
  cases hescaped : p.escaped with
  | true =>
    rw [argument_escaped hescaped] at h
    exact hword h
  | false =>
    rcases argument_ok hescaped h with hdash | ⟨o, ho, hnamed | ⟨s, hattached⟩⟩ | hapart
    · simp [hescaped, hdash] at hw
    · rw [argument_named hescaped ho hnamed] at h
      obtain ⟨u, hu, -⟩ := await_eq_ok_iff.1 h
      exact ⟨u, hu⟩
    · rw [argument_attached hescaped ho hattached] at h
      obtain ⟨u, hu, -⟩ := attach_eq_ok_iff.1 h
      exact ⟨u, hu⟩
    · rw [argument_apart hescaped hapart] at h
      exact hword h

/-- One word read early or late, for what is said of the states after it. -/
lemma argument_step {K : Progress → Prop} (hwait : p.waiting? = none)
    (hdash : K { p with escaped := true } ↔
      ∃ u, p.settle = .ok u ∧ K { settled p u with escaped := true }) :
    (∃ p', p.argument scope (bytes w) = .ok p' ∧ K p') ↔
      ∃ u, p.settle = .ok u ∧ ∃ p', (settled p u).argument scope (bytes w) = .ok p' ∧ K p' := by
  by_cases hw : p.escaped = true ∨ w ≠ "--"
  · constructor
    · rintro ⟨p', hp', hK⟩
      obtain ⟨u, hu⟩ := settle_of_argument hwait hw hp'
      exact ⟨u, hu, p', (argument_settled hu hw).2 hp', hK⟩
    · rintro ⟨u, hu, p', hp', hK⟩
      exact ⟨p', (argument_settled hu hw).1 hp', hK⟩
  · have hopen : p.escaped = false := by
      simpa using fun h => hw (.inl h)
    have hw : w = "--" := by
      by_contra h
      exact hw (.inr h)
    rw [hw, argument_dashes hopen]
    simp only [Except.ok.injEq, exists_eq_left']
    rw [hdash]
    refine exists_congr fun u => and_congr_right fun _ => ?_
    rw [argument_dashes (p := settled p u) hopen]
    simp

/-- After an option that waits, only its value is read, or two dashes. -/
lemma apart_of_waiting (hopen : p.escaped = false) (hwait : p.pending? = some (.waiting o))
    (h : p.argument scope (bytes s) = .ok p') : s = "--" ∨ StandsApart s := by
  have hsettle : ∀ u, p.settle ≠ .ok u := by
    intro u hu
    unfold Progress.settle at hu
    rw [hwait] at hu
    cases hu
  rcases argument_ok hopen h with hdash | ⟨o', ho, hnamed | ⟨t, hattached⟩⟩ | hapart
  · exact .inl hdash
  · rw [argument_named hopen ho hnamed] at h
    obtain ⟨u, hu, -⟩ := await_eq_ok_iff.1 h
    exact absurd hu (hsettle u)
  · rw [argument_attached hopen ho hattached] at h
    obtain ⟨u, hu, -⟩ := attach_eq_ok_iff.1 h
    exact absurd hu (hsettle u)
  · exact .inr hapart

end Steps

/-! ### A level -/

section Level

variable {p p' : Progress} {scope : Scope} {o : ValueOption} {s w : String} {u v : Values}
  {ws : List String} {seen : Bool} {items done : List Item}

/-- The values of a level when all its words are read. -/
def finish (scope : Scope) (p : Progress) (ws : List String) : Except Rejection Values :=
  (ws.map bytes).foldlM (fun p bs => p.argument scope bs) p >>= Progress.settle

lemma finish_nil : finish scope p [] = p.settle := rfl

lemma finish_cons : finish scope p (w :: ws) = .ok v ↔
    ∃ p', p.argument scope (bytes w) = .ok p' ∧ finish scope p' ws = .ok v := by
  unfold finish
  rw [List.map_cons, List.foldlM_cons, bind_assoc, bind_eq_ok_iff]

/-- A level ends well exactly if it does with the last value looked at first. -/
lemma finish_settled (hwait : p.waiting? = none) : finish scope p ws = .ok v ↔
    ∃ u, p.settle = .ok u ∧ finish scope (settled p u) ws = .ok v := by
  induction ws generalizing p with
  | nil =>
    rw [finish_nil]
    constructor
    · exact fun h => ⟨v, h, rfl⟩
    · rintro ⟨u, hu, hv⟩
      rwa [finish_nil, settle_settled, ← hu] at hv
  | cons w ws ih =>
    rw [finish_cons, argument_step (K := fun p => finish scope p ws = .ok v) hwait]
    · exact exists_congr fun u => and_congr_right fun _ => finish_cons.symm
    · exact ih (p := { p with escaped := true }) rfl

/-- A state with nothing left to look at. -/
def fresh (u : Values) (escaped seen : Bool) : Progress := ⟨u, none, escaped, seen⟩

lemma finish_attached (ho : o ∈ scope.valueOptions) (h : Attached o s w) :
    finish scope (fresh u false seen) (w :: ws) = .ok v ↔
      ∃ u', u.put (.option o) (bytes s) = .ok u' ∧ finish scope (fresh u' false seen) ws = .ok v := by
  rw [finish_cons, argument_attached rfl ho h]
  constructor
  · rintro ⟨p', hp', hv⟩
    obtain ⟨_, hu, u', hu', rfl⟩ := attach_eq_ok_iff.1 hp'
    cases hu
    exact ⟨u', hu', hv⟩
  · rintro ⟨u', hu', hv⟩
    exact ⟨_, attach_eq_ok_iff.2 ⟨u, rfl, u', hu', rfl⟩, hv⟩

lemma finish_apart (ho : o ∈ scope.valueOptions) (h : Named o w) (hs : StandsApart s) :
    finish scope (fresh u false seen) (w :: s :: ws) = .ok v ↔
      ∃ u', u.put (.option o) (bytes s) = .ok u' ∧ finish scope (fresh u' false seen) ws = .ok v := by
  have hawait : (fresh u false seen).argument scope (bytes w) =
      .ok { fresh u false seen with pending? := some (.waiting o) } :=
    argument_named rfl ho h
  have hgiven : ({ fresh u false seen with pending? := some (.waiting o) } : Progress).argument scope
      (bytes s) = .ok { fresh u false seen with pending? := some (.given (.option o) (bytes s)) } := by
    rw [argument_apart rfl hs, word_waiting rfl rfl]
  rw [finish_cons, hawait]
  simp only [Except.ok.injEq, exists_eq_left']
  rw [finish_cons, hgiven]
  simp only [Except.ok.injEq, exists_eq_left']
  exact finish_settled rfl

lemma finish_positional {escaped : Bool} (hs : escaped = true ∨ StandsApart s) :
    finish scope (fresh u escaped seen) (s :: ws) = .ok v ↔
      scope.takesPayload = true ∧ seen = false ∧
        ∃ u', u.put .payload (bytes s) = .ok u' ∧ finish scope (fresh u' escaped true) ws = .ok v := by
  have hword : (fresh u escaped seen).argument scope (bytes s) =
      (fresh u escaped seen).word scope (bytes s) := by
    cases hescaped : escaped with
    | true => exact argument_escaped rfl
    | false => exact argument_apart rfl (by simpa [hescaped] using hs)
  have hwait : (fresh u escaped seen).waiting? = none := waiting?_of_settle rfl
  rw [finish_cons, hword]
  constructor
  · rintro ⟨p', hp', hv⟩
    obtain ⟨htakes, hseen, _, hu, rfl⟩ := (word_eq_ok_iff hwait).1 hp'
    cases hu
    rw [finish_settled (by cases escaped <;> rfl)] at hv
    exact ⟨htakes, hseen, hv⟩
  · rintro ⟨htakes, hseen, hv⟩
    refine ⟨_, (word_eq_ok_iff hwait).2 ⟨htakes, hseen, u, rfl, rfl⟩, ?_⟩
    rw [finish_settled (by cases escaped <;> rfl)]
    exact hv

lemma finish_dashes : finish scope (fresh u false seen) ("--" :: ws) = .ok v ↔
    finish scope (fresh u true seen) ws = .ok v := by
  rw [finish_cons, argument_dashes rfl]
  simp [fresh]

/-- An option that waits gets a value that can stand apart, or the level does not end well. -/
lemma exists_of_waiting (hopen : p.escaped = false) (hwait : p.pending? = some (.waiting o))
    (h : finish scope p ws = .ok v) : ∃ s ws', ws = s :: ws' ∧ StandsApart s := by
  have hsettle : ∀ u, p.settle ≠ .ok u := by
    intro u hu
    unfold Progress.settle at hu
    rw [hwait] at hu
    cases hu
  cases ws with
  | nil => exact absurd h (hsettle v)
  | cons s ws' =>
    refine ⟨s, ws', rfl, ?_⟩
    obtain ⟨p', hp', hv⟩ := finish_cons.1 h
    rcases apart_of_waiting hopen hwait hp' with rfl | hapart
    · rw [argument_dashes hopen] at hp'
      cases hp'
      obtain ⟨u, hu, -⟩ := (finish_settled rfl).1 hv
      exact absurd hu (hsettle u)
    · exact hapart

/-- A level has seen a payload exactly if one of the items read is positional. -/
def Seen (seen : Bool) (done : List Item) : Prop := seen = true ↔ positionals done ≠ []

lemma Seen.option (h : Seen seen done) : Seen seen (done ++ [.option o s]) := by
  have hnone : positionals [.option o s] = [] := rfl
  unfold Seen
  rwa [positionals_append, hnone, List.append_nil]

lemma seen_positional : Seen true (done ++ [.positional s]) := by
  unfold Seen
  rw [positionals_append]
  simp [positionals]

/-- A positional word fits only if there was none before it. -/
lemma Seen.eq_false (h : Seen seen done) (hv : Agrees (done ++ [.positional s]) v) : seen = false := by
  have hpayload := hv.payload
  rw [positionals_append] at hpayload
  by_contra hseen
  have hdone := h.1 (by simpa using hseen)
  rcases eq_nil_or_eq_toList hpayload with hnil | hall
  · exact hdone hnil
  · rw [hall] at hpayload
    simp [positionals] at hpayload

/-- The next item fits if all that follow do. -/
lemma exists_put {item : Item} (h : Agrees done u) (hv : Agrees (done ++ item :: items) v) :
    ∃ u', u.put item.slot (bytes item.text) = .ok u' ∧ Agrees (done ++ [item]) u' ∧
      Agrees ((done ++ [item]) ++ items) v := by
  rw [List.append_cons] at hv
  obtain ⟨u', hu'⟩ := hv.of_append
  exact ⟨u', (put_eq_ok_iff item h).2 hu', hu', hv⟩

/-- After two dashes every word is positional. -/
lemma finish_escaped (h : Agrees done u) (hseen : Seen seen done) :
    finish scope (fresh u true seen) ws = .ok v ↔
      Belongs scope (ws.map .positional) ∧ Agrees (done ++ ws.map .positional) v := by
  induction ws generalizing u seen done with
  | nil =>
    rw [finish_nil, List.map_nil, List.append_nil]
    constructor
    · intro hv
      cases hv
      exact ⟨⟨by simp, by simp⟩, h⟩
    · rintro ⟨-, hv⟩
      rw [h.unique hv]
      rfl
  | cons s ws ih =>
    rw [finish_positional (.inl rfl), List.map_cons]
    constructor
    · rintro ⟨htakes, -, u', hput, hv⟩
      have hu' := (put_eq_ok_iff (.positional s) h).1 hput
      obtain ⟨hbelongs, hagrees⟩ := (ih hu' seen_positional).1 hv
      rw [← List.append_cons] at hagrees
      exact ⟨(belongs_positional htakes).cons hbelongs, hagrees⟩
    · rintro ⟨hbelongs, hv⟩
      obtain ⟨u', hput, hu', hv'⟩ := exists_put h hv
      have htakes := hbelongs.positional s List.mem_cons_self
      refine ⟨htakes, hseen.eq_false hu', u', hput, ?_⟩
      exact (ih hu' seen_positional).2 ⟨hbelongs.tail, hv'⟩

/-- A level ends well exactly if its words are written from items that belong to it, each in a place
of its own. -/
theorem finish_eq_ok_iff (h : Agrees done u) (hseen : Seen seen done) :
    finish scope (fresh u false seen) ws = .ok v ↔
      ∃ items, Written items ws ∧ Belongs scope items ∧ Agrees (done ++ items) v := by
  constructor
  · intro hv
    induction hn : ws.length using Nat.strongRecOn generalizing ws u seen done with
    | ind n ih =>
      cases ws with
      | nil =>
        cases hv
        refine ⟨[], .nil, ⟨by simp, by simp⟩, ?_⟩
        rwa [List.append_nil]
      | cons w ws =>
        -- an option with its value takes one word or two; both go on in the same way
        have hoption : ∀ o s rest, o ∈ scope.valueOptions → rest.length < n →
            (∃ u', u.put (.option o) (bytes s) = .ok u' ∧
              finish scope (fresh u' false seen) rest = .ok v) →
            ∃ items, Written items rest ∧ Belongs scope (.option o s :: items) ∧
              Agrees (done ++ .option o s :: items) v := by
          rintro o s rest ho hlt ⟨u', hput, hv⟩
          have hu' := (put_eq_ok_iff (.option o s) h).1 hput
          obtain ⟨items, hwritten, hbelongs, hagrees⟩ := ih rest.length hlt hu' hseen.option hv rfl
          rw [← List.append_cons] at hagrees
          exact ⟨items, hwritten, (belongs_option ho).cons hbelongs, hagrees⟩
        rw [List.length_cons] at hn
        obtain ⟨p', hp', hrest⟩ := finish_cons.1 hv
        rcases argument_ok rfl hp' with rfl | ⟨o, ho, hnamed | ⟨s, hattached⟩⟩ | hapart
        · rw [finish_dashes, finish_escaped h hseen] at hv
          exact ⟨_, .dashes ws, hv⟩
        · rw [argument_named rfl ho hnamed] at hp'
          obtain ⟨_, -, rfl⟩ := await_eq_ok_iff.1 hp'
          obtain ⟨s, ws', rfl, hs⟩ := exists_of_waiting rfl rfl hrest
          rw [List.length_cons] at hn
          rw [finish_apart ho hnamed hs] at hv
          obtain ⟨items, hwritten, hbelongs, hagrees⟩ := hoption o s ws' ho (by omega) hv
          exact ⟨_, .apart hnamed hs hwritten, hbelongs, hagrees⟩
        · rw [finish_attached ho hattached] at hv
          obtain ⟨items, hwritten, hbelongs, hagrees⟩ := hoption o s ws ho (by omega) hv
          exact ⟨_, .attached hattached hwritten, hbelongs, hagrees⟩
        · rw [finish_positional (.inr hapart)] at hv
          obtain ⟨htakes, -, u', hput, hv⟩ := hv
          have hu' := (put_eq_ok_iff (.positional w) h).1 hput
          obtain ⟨items, hwritten, hbelongs, hagrees⟩ :=
            ih ws.length (by omega) hu' seen_positional hv rfl
          rw [← List.append_cons] at hagrees
          exact ⟨_, .positional hapart hwritten, (belongs_positional htakes).cons hbelongs, hagrees⟩
  · rintro ⟨items, hwritten, hbelongs, hv⟩
    induction hwritten generalizing u seen done with
    | nil =>
      rw [List.append_nil] at hv
      rw [h.unique hv]
      rfl
    | dashes vs =>
      rw [finish_dashes, finish_escaped h hseen]
      exact ⟨hbelongs, hv⟩
    | attached hattached _ ih =>
      obtain ⟨u', hput, hu', hv'⟩ := exists_put h hv
      rw [finish_attached (hbelongs.option _ _ List.mem_cons_self) hattached]
      exact ⟨u', hput, ih hu' hseen.option hbelongs.tail hv'⟩
    | apart hnamed hs _ ih =>
      obtain ⟨u', hput, hu', hv'⟩ := exists_put h hv
      rw [finish_apart (hbelongs.option _ _ List.mem_cons_self) hnamed hs]
      exact ⟨u', hput, ih hu' hseen.option hbelongs.tail hv'⟩
    | positional hs _ ih =>
      obtain ⟨u', hput, hu', hv'⟩ := exists_put h hv
      rw [finish_positional (.inr hs)]
      have htakes := hbelongs.positional _ List.mem_cons_self
      exact ⟨htakes, hseen.eq_false hu', u', hput, ih hu' seen_positional hbelongs.tail hv'⟩

end Level

end MemberRelay.Proofs
