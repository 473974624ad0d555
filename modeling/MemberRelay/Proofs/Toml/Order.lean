import MemberRelay.Proofs.Toml.Located

/-!
# One place and one order

A value is found in one place only and its name is known by one key, since a chart tells of what no
other chart tells of. So the order of addresses never goes both ways.
-/

namespace MemberRelay.Proofs
open Toml

section Places

variable {ss : List Statement} {l c k k' : Chart} {es : List Entry} {a a' x : Address} {s s' : Span}
  {key key' : Key} {text text' cs : List Char} {i : Nat}

/-- Two addresses part at one place. -/
lemma parts_once {b b' d d' : Address} {r r' t t' : Selector} (hr : r ≠ r') (ht : t ≠ t')
    (h : a ++ r :: b = a' ++ t :: d) (h' : a ++ r' :: b' = a' ++ t' :: d') :
    a = a' ∧ r = t ∧ r' = t' := by
  induction a generalizing a' with
  | nil =>
    cases a' with
    | nil =>
      cases h
      cases h'
      exact ⟨rfl, rfl, rfl⟩
    | cons q a' =>
      cases h
      cases h'
      exact absurd rfl hr
  | cons p a ih =>
    cases a' with
    | nil =>
      cases h
      cases h'
      exact absurd rfl ht
    | cons q a' =>
      obtain ⟨rfl, htail⟩ := List.cons.inj h
      obtain ⟨rfl, hparts⟩ := ih htail (List.cons.inj h').2
      exact ⟨rfl, hparts⟩

/-- Nothing is said of the whole of a document. -/
structure Rootless (l : Chart) : Prop where
  unmarked : l.mark? [] = none
  unopened : l.opened.count [] = 0

lemma ne_nil_of_mem_along {opened : List Address} {base : Address} {path : List Key}
    {p : Address × Key} (h : p ∈ along opened base path) : p.1 ≠ [] := by
  obtain ⟨n, hn⟩ := prefix_of_mem_along h
  intro hnil
  rw [hnil, List.prefix_nil] at hn
  simp at hn

lemma Rootless.head {o : Outline} {path : List Key} {key : Key} (h : Rootless l)
    (hcurrent : [] ≠ o.current) (hopened : o.opened.count [] = 0) :
    Rootless (l.head o path key s) where
  unmarked := by
    rw [head_of_ne hcurrent, note_of_not_mem fun p hp => ne_nil_of_mem_along hp]
    exact h.unmarked
  unopened := hopened

lemma Rootless.add (h : Rootless l) (s : Statement) : Rootless (l.add s) := by
  cases s with
  | assign a =>
    refine ⟨?_, h.unopened⟩
    rw [Chart.add, note_of_not_mem fun p hp => ne_nil_of_mem_along hp]
    by_cases hcurrent : [] = l.current
    · rw [hcurrent, extend_current, ← hcurrent, h.unmarked]
      rfl
    · rw [extend_of_ne hcurrent]
      exact h.unmarked
  | openTable path key span =>
    exact h.head (by simp [Outline.openTable, Outline.header]) h.unopened
  | openElement path key span =>
    have hne : l.header path key ≠ [] := by simp [Outline.header]
    refine h.head (by simp [Outline.openElement]) ?_
    exact (List.count_cons_of_ne hne).trans h.unopened

theorem chart_rootless (ss : List Statement) : Rootless (chart ss) := by
  have hfold : ∀ l, Rootless l → Rootless (ss.foldl Chart.add l) := by
    induction ss with
    | nil => exact fun l h => h
    | cons s ss ih => exact fun l h => ih _ (h.add s)
  exact hfold .start ⟨rfl, rfl⟩

lemma ItemText.unique (h : ItemText cs i text) (h' : ItemText cs i text') : text = text' := by
  induction h generalizing text' with
  | here =>
    cases h'
    rfl
  | next hv hcomma _ ih =>
    cases h' with
    | next hv' hcomma' hnext' =>
      rw [hv] at hv'
      cases hv'
      rw [hcomma] at hcomma'
      cases hcomma'
      exact ih hnext'

lemma ChartAt.rootless (h : ChartAt c es a k) (hc : Rootless c) : Rootless k := by
  cases h with
  | document => exact hc
  | braces => exact chart_rootless _

lemma Rootless.source? (h : Rootless l) : l.source? [] = none := by
  unfold Chart.source?
  rw [h.unopened]
  dsimp only
  rw [h.unmarked, Option.map_none]

lemma Rootless.ne_nil_of_mark {b : Address} {m : Mark} (h : Rootless l) (hm : l.mark? b = some m) :
    b ≠ [] := by
  rintro rfl
  rw [h.unmarked] at hm
  cases hm

lemma Rootless.ne_nil_of_source {b : Address} (h : Rootless l) (hs : l.source? b = some s) : b ≠ [] := by
  rintro rfl
  rw [h.source?] at hs
  cases hs

/-- What a chart is of stands above what it tells of. -/
lemma ChartAt.above (h : ChartAt c es a k) (hx : a <+: x) (hne : a ≠ x)
    (hopen : ∀ e ∈ es, e.1 <+: x → e.1 <+: a' ∨ e.1 = x) : a <+: a' := by
  cases h with
  | document => exact List.nil_prefix
  | braces h => exact (hopen _ h hx).resolve_right hne

section Entries

variable (hnamed : ∀ e ∈ es, ∃ a n, e.1 = a ++ [.name n]) (honce : (es.map Prod.fst).Nodup)

include honce in
lemma text_unique (h : (a, text) ∈ es) (h' : (a, text') ∈ es) : text = text' :=
  congrArg Prod.snd (List.inj_on_of_nodup_map honce h h' rfl)

include hnamed in
lemma ne_of_entry (h : (a, text) ∈ es) : a ≠ x ++ [.index i] ∧ a ≠ [] := by
  obtain ⟨b, n, hb⟩ := hnamed _ h
  change a = b ++ [.name n] at hb
  rw [hb]
  refine ⟨fun heq => ?_, by simp⟩
  have hlast := (List.append_inj' heq rfl).2
  cases hlast

include hnamed honce

lemma ChartAt.unique (h : ChartAt c es a k) (h' : ChartAt c es a k') : k = k' := by
  cases h with
  | document =>
    cases h' with
    | document => rfl
    | braces h' => exact absurd rfl (ne_of_entry (x := []) (i := 0) hnamed h').2
  | braces h has =>
    cases h' with
    | document => exact absurd rfl (ne_of_entry (x := []) (i := 0) hnamed h).2
    | braces h' has' =>
      cases text_unique honce h h'
      rw [has] at has'
      cases has'
      rfl

lemma ChartAt.same {b b' : Address} (h : ChartAt c es a k) (h' : ChartAt c es a' k')
    (hx : a ++ b = a' ++ b') (hb : b ≠ []) (hb' : b' ≠ [])
    (hopen : ∀ e ∈ es, e.1 <+: a ++ b → e.1 <+: a ∨ e.1 = a ++ b)
    (hopen' : ∀ e ∈ es, e.1 <+: a' ++ b' → e.1 <+: a' ∨ e.1 = a' ++ b') : b = b' ∧ k = k' := by
  have hle : a <+: a' := by
    refine h.above (List.prefix_append a b) ?_ (hx ▸ hopen')
    simpa using hb
  have hge : a' <+: a := by
    refine h'.above (List.prefix_append a' b') ?_ (hx ▸ hopen)
    simpa using hb'
  obtain rfl := hle.eq_of_length (Nat.le_antisymm hle.length_le hge.length_le)
  exact ⟨List.append_cancel_left hx, h.unique hnamed honce h'⟩

variable (hc : Rootless c)
include hc

/-- An address is known by one key. -/
theorem KnownBy.unique (h : KnownBy c es x key) (h' : KnownBy c es x key') : key = key' := by
  generalize hx : x = x' at h'
  cases h with
  | intro h hopen hm =>
    cases h' with
    | intro h' hopen' hm' =>
      obtain ⟨rfl, rfl⟩ := h.same hnamed honce h' hx ((h.rootless hc).ne_nil_of_mark hm)
        ((h'.rootless hc).ne_nil_of_mark hm') hopen hopen'
      rw [hm] at hm'
      cases hm'
      rfl

omit hnamed honce in
/-- What a chart tells of is not written anywhere. -/
lemma not_written {b : Address} (h : ChartAt c es a k) (hopen : ∀ e ∈ es, e.1 <+: a ++ b → e.1 <+: a)
    (hs : k.source? b = some s) : (a ++ b, text) ∉ es := by
  intro hmem
  have hle := (hopen _ hmem List.prefix_rfl).length_le
  rw [List.length_append] at hle
  exact (h.rootless hc).ne_nil_of_source hs (List.length_eq_zero_iff.1 (by omega))

lemma not_item {b : Address} (h : ChartAt c es a k) (hopen : ∀ e ∈ es, e.1 <+: a ++ b → e.1 <+: a)
    (hs : k.source? b = some s) (hx : a ++ b = x ++ [.index i]) : (x, '[' :: text) ∉ es := by
  intro hmem
  have hle : x <+: a := hopen _ hmem (hx ▸ List.prefix_append _ _)
  have hprefix : a <+: x ++ [.index i] := hx ▸ List.prefix_append a b
  rcases List.prefix_concat_iff.1 hprefix with heq | hge
  · rw [← heq] at hx
    exact (h.rootless hc).ne_nil_of_source hs (List.append_right_eq_self.1 hx)
  · obtain rfl := hle.eq_of_length (Nat.le_antisymm hle.length_le hge.length_le)
    cases h with
    | document => exact (ne_of_entry (x := []) (i := 0) hnamed hmem).2 rfl
    | braces h => cases text_unique honce h hmem

/-- A value is found in one place. -/
theorem Located.unique (h : Located c es x s) (h' : Located c es x s') : s = s' := by
  generalize hx : x = x' at h'
  cases h with
  | value h hv =>
    cases h' with
    | value h' hv' =>
      subst hx
      cases text_unique honce h h'
      rw [hv] at hv'
      cases hv'
      rfl
    | item => exact absurd hx (ne_of_entry hnamed h).1
    | table h' hopen' hs' => exact absurd (hx ▸ h) (not_written hc h' hopen' hs')
  | item h hi hv =>
    cases h' with
    | value h' => exact absurd hx.symm (ne_of_entry hnamed h').1
    | item h' hi' hv' =>
      obtain ⟨rfl, hindex⟩ := List.append_inj' hx rfl
      cases hindex
      cases text_unique honce h h'
      cases hi.unique hi'
      rw [hv] at hv'
      cases hv'
      rfl
    | table h' hopen' hs' => exact absurd h (not_item hnamed honce hc h' hopen' hs' hx.symm)
  | table h hopen hs =>
    cases h' with
    | value h' => exact absurd (hx ▸ h') (not_written hc h hopen hs)
    | item h' => exact absurd h' (not_item hnamed honce hc h hopen hs hx)
    | table h' hopen' hs' =>
      obtain ⟨rfl, rfl⟩ := h.same hnamed honce h' hx ((h.rootless hc).ne_nil_of_source hs)
        ((h'.rootless hc).ne_nil_of_source hs') (fun e he hle => .inl (hopen e he hle))
        fun e he hle => .inl (hopen' e he hle)
      rw [hs] at hs'
      cases hs'
      rfl

lemma KnownBy.ne {n n' : String} (h : KnownBy c es (a ++ [.name n]) key)
    (h' : KnownBy c es (a ++ [.name n']) key') (hbefore : Before key key') :
    Selector.name n ≠ .name n' := by
  intro heq
  rw [heq] at h
  rw [h.unique hnamed honce hc h'] at hbefore
  exact Nat.lt_irrefl _ hbefore

/-- No address both precedes another one and comes after it. -/
theorem Precedes.asymm {y : Address} (h : Precedes c es x y) : ¬Precedes c es y x := by
  intro hback
  generalize hx : x = x', hy : y = y' at hback
  cases h with
  | above =>
    subst hx
    cases hback with
    | above => simp at hy
    | named hk hk' hbefore =>
      have hne := (hk.ne hnamed honce hc hk' hbefore).symm
      simp [hne] at hy
    | indexed hlt => simp [Nat.ne_of_gt hlt] at hy
  | named h h' hbefore =>
    have hne := h.ne hnamed honce hc h' hbefore
    cases hback with
    | above =>
      subst hy
      simp [hne] at hx
    | named hk hk' hbefore' =>
      have hne' := (hk.ne hnamed honce hc hk' hbefore').symm
      obtain ⟨rfl, hn, hn'⟩ := parts_once hne hne' hx hy
      rw [hn] at h
      rw [hn'] at h'
      rw [h.unique hnamed honce hc hk', h'.unique hnamed honce hc hk] at hbefore
      exact Nat.lt_asymm hbefore hbefore'
    | indexed hlt =>
      have hne' : Selector.index _ ≠ .index _ := fun heq => Nat.ne_of_gt hlt (Selector.index.inj heq)
      obtain ⟨-, hn, -⟩ := parts_once hne hne' hx hy
      cases hn
  | indexed hlt =>
    have hne : Selector.index _ ≠ .index _ := fun heq => Nat.ne_of_lt hlt (Selector.index.inj heq)
    cases hback with
    | above =>
      subst hy
      simp [Nat.ne_of_lt hlt] at hx
    | named hk hk' hbefore' =>
      have hne' := (hk.ne hnamed honce hc hk' hbefore').symm
      obtain ⟨-, hn, -⟩ := parts_once hne hne' hx hy
      cases hn
    | indexed hlt' =>
      have hne' : Selector.index _ ≠ .index _ := fun heq => Nat.ne_of_gt hlt' (Selector.index.inj heq)
      obtain ⟨-, hn, hn'⟩ := parts_once hne hne' hx hy
      cases hn
      cases hn'
      exact Nat.lt_asymm hlt hlt'

end Entries

end Places

end MemberRelay.Proofs
