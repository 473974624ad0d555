import MemberRelay.Proofs.Arguments.Grammar

/-!
# Values of items

The values of a level keep what a list of items denotes: a place takes a value exactly if the list may
be longer by that item, and the command of the values is the one that the items mean.
-/

namespace MemberRelay.Proofs
open Arguments Utf8

/-! ### Agreement -/

/-- The values of a level are those of the items. -/
structure Agrees (items : List Item) (v : Values) : Prop where
  directory : valuesOf .directory items = v.directory?.toList
  address : valuesOf .address items = v.address?.toList
  port : (valuesOf .port items).map port = (v.port?.map .ok).toList
  payload : positionals items = v.payload?.toList

def Item.slot : Item → Slot
  | .option o _ => .option o
  | .positional _ => .payload

def Item.text : Item → String
  | .option _ v => v
  | .positional v => v

section Agreement

variable {items items' : List Item} {u v v' : Values}

lemma valuesOf_append (o : ValueOption) :
    valuesOf o (items ++ items') = valuesOf o items ++ valuesOf o items' :=
  List.filterMap_append

lemma positionals_append : positionals (items ++ items') = positionals items ++ positionals items' :=
  List.filterMap_append

lemma Agrees.nil : Agrees [] {} := ⟨rfl, rfl, rfl, rfl⟩

lemma toList_inj {α : Type} {a b : Option α} : a.toList = b.toList ↔ a = b := by
  cases a <;> cases b <;> simp

lemma map_ok_inj {ε α : Type} {a b : Option α} :
    (a.map .ok : Option (Except ε α)) = b.map .ok ↔ a = b :=
  ⟨fun h => Option.map_injective (fun _ _ => Except.ok.inj) h, fun h => h ▸ rfl⟩

lemma Agrees.unique (h : Agrees items v) (h' : Agrees items v') : v = v' := by
  have hdirectory := toList_inj.1 (h.directory.symm.trans h'.directory)
  have haddress := toList_inj.1 (h.address.symm.trans h'.address)
  have hport := map_ok_inj.1 (toList_inj.1 (h.port.symm.trans h'.port))
  have hpayload := toList_inj.1 (h.payload.symm.trans h'.payload)
  cases v
  cases v'
  simp_all

/-- The first part of one is empty or all of it. -/
lemma eq_nil_or_eq_toList {α : Type} {xs ys : List α} {a : Option α} (h : xs ++ ys = a.toList) :
    xs = [] ∨ xs = a.toList := by
  cases xs with
  | nil => exact .inl rfl
  | cons x xs =>
    cases a with
    | none => cases h
    | some a =>
      right
      have hxs : x = a ∧ xs = [] := by simp_all
      rw [hxs.1, hxs.2]
      rfl

lemma exists_toList {α : Type} {xs ys : List α} {a : Option α} (h : xs ++ ys = a.toList) :
    ∃ b : Option α, xs = b.toList := by
  rcases eq_nil_or_eq_toList h with hxs | hxs
  · exact ⟨none, hxs⟩
  · exact ⟨a, hxs⟩

lemma Agrees.of_append (h : Agrees (items ++ items') v) : ∃ u, Agrees items u := by
  have hdirectory := h.directory
  have haddress := h.address
  have hport := h.port
  have hpayload := h.payload
  rw [valuesOf_append] at hdirectory haddress hport
  rw [List.map_append] at hport
  rw [positionals_append] at hpayload
  obtain ⟨d, hd⟩ := exists_toList hdirectory
  obtain ⟨a, ha⟩ := exists_toList haddress
  obtain ⟨y, hy⟩ := exists_toList hpayload
  have hports : ∃ n : Option UInt16,
      (valuesOf .port items).map Arguments.port = (n.map .ok).toList := by
    rcases eq_nil_or_eq_toList hport with hnone | hall
    · exact ⟨none, hnone⟩
    · exact ⟨v.port?, hall⟩
  obtain ⟨n, hn⟩ := hports
  exact ⟨⟨d, a, n, y⟩, hd, ha, hn, hy⟩

lemma append_singleton_eq_toList {α : Type} {a b : Option α} {x : α} :
    a.toList ++ [x] = b.toList ↔ a = none ∧ b = some x := by
  cases a <;> cases b <;> simp
  exact eq_comm

lemma put_bytes {slot : Slot} {s : String} : v.put slot (bytes s) =
    if v.has slot then .error (.repeated slot) else v.assign s slot := by
  rw [Values.put, text?_bytes]

lemma agrees_append_iff (h : Agrees items v) : Agrees (items ++ items') v' ↔
    v.directory?.toList ++ valuesOf .directory items' = v'.directory?.toList ∧
      v.address?.toList ++ valuesOf .address items' = v'.address?.toList ∧
      (v.port?.map .ok).toList ++ (valuesOf .port items').map port = (v'.port?.map .ok).toList ∧
      v.payload?.toList ++ positionals items' = v'.payload?.toList := by
  rw [← h.directory, ← h.address, ← h.port, ← h.payload, ← valuesOf_append, ← valuesOf_append,
    ← List.map_append, ← valuesOf_append, ← positionals_append]
  exact ⟨fun h => ⟨h.directory, h.address, h.port, h.payload⟩, fun ⟨h₁, h₂, h₃, h₄⟩ => ⟨h₁, h₂, h₃, h₄⟩⟩

/-- A value is put in its place exactly if the place is free and the value fits it. -/
lemma put_eq_ok_iff (item : Item) (h : Agrees items v) :
    v.put item.slot (bytes item.text) = .ok v' ↔ Agrees (items ++ [item]) v' := by
  rw [put_bytes, agrees_append_iff h]
  rcases v with ⟨d, a, n, y⟩
  rcases v' with ⟨d', a', n', y'⟩
  cases item with
  | positional s =>
    simp only [Item.slot, Item.text, Values.has, Values.assign, valuesOf, positionals,
      List.filterMap_cons, List.filterMap_nil, List.append_nil, List.map_nil, toList_inj,
      append_singleton_eq_toList, map_ok_inj]
    cases y with
    | none => simp [@eq_comm _ y' (some s)]
    | some y => simp
  | option o s =>
    cases o
    all_goals
      simp only [Item.slot, Item.text, Values.has, Values.assign, valuesOf, positionals,
        List.filterMap_cons, List.filterMap_nil, List.append_nil, List.map_cons, List.map_nil,
        toList_inj, append_singleton_eq_toList, map_ok_inj, if_true, if_false, reduceCtorEq]
    · cases d with
      | none => simp [@eq_comm _ d' (some s)]
      | some d => simp
    · cases a with
      | none => simp [@eq_comm _ a' (some s)]
      | some a => simp
    · cases n with
      | none =>
        cases hs : Arguments.port s with
        | error e => simp
        | ok m => simp [@eq_comm _ n' (some m)]
      | some n => simp

end Agreement

/-! ### Items of a level -/

section Belonging

variable {scope : Scope} {o : ValueOption} {s : String} {items : List Item}

/-- The items belong to a level. -/
structure Belongs (scope : Scope) (items : List Item) : Prop where
  option : ∀ o s, .option o s ∈ items → o ∈ scope.valueOptions
  positional : ∀ s, .positional s ∈ items → scope.takesPayload = true

lemma Belongs.cons {item : Item} (hitem : Belongs scope [item]) (h : Belongs scope items) :
    Belongs scope (item :: items) := by
  refine ⟨?_, ?_⟩
  · intro o s hmem
    rcases List.mem_cons.1 hmem with rfl | hmem
    · exact hitem.option o s List.mem_cons_self
    · exact h.option o s hmem
  · intro s hmem
    rcases List.mem_cons.1 hmem with rfl | hmem
    · exact hitem.positional s List.mem_cons_self
    · exact h.positional s hmem

lemma Belongs.tail {item : Item} (h : Belongs scope (item :: items)) : Belongs scope items :=
  ⟨fun o s hmem => h.option o s (List.mem_cons_of_mem _ hmem),
    fun s hmem => h.positional s (List.mem_cons_of_mem _ hmem)⟩

lemma belongs_option (ho : o ∈ scope.valueOptions) : Belongs scope [.option o s] := by
  refine ⟨?_, ?_⟩
  · intro o' s' hmem
    cases List.mem_singleton.1 hmem
    exact ho
  · intro s' hmem
    cases List.mem_singleton.1 hmem

lemma belongs_positional (h : scope.takesPayload = true) : Belongs scope [.positional s] := by
  refine ⟨?_, fun _ _ => h⟩
  intro o' s' hmem
  cases List.mem_singleton.1 hmem

end Belonging

/-! ### The command -/

section Commands

variable {scope : Scope} {items : List Item} {v : Values} {c : Command}

lemma eq_singleton_iff {α : Type} {xs : List α} {a : Option α} {x : α} (h : xs = a.toList) :
    xs = [x] ↔ a = some x := by
  rw [h]
  cases a <;> simp

lemma eq_head?_toList {α : Type} {xs : List α} (h : xs.length ≤ 1) : xs = xs.head?.toList := by
  cases xs with
  | nil => rfl
  | cons x xs =>
    have hxs : xs = [] := by simpa using h
    rw [hxs]
    rfl

lemma length_toList_le {α : Type} (a : Option α) : a.toList.length ≤ 1 := by
  cases a <;> simp

lemma not_mem_of_positionals_eq_nil (h : positionals items = []) (s : String) :
    .positional s ∉ items := by
  intro hmem
  have hnone := List.filterMap_eq_nil_iff.1 h _ hmem
  cases hnone

lemma Belongs.positionals_eq_nil (h : Belongs scope items) (hscope : scope.takesPayload = false) :
    positionals items = [] := by
  apply List.filterMap_eq_nil_iff.2
  intro item hitem
  cases item with
  | option o s => rfl
  | positional s =>
    have htakes := h.positional s hitem
    rw [hscope] at htakes
    cases htakes

lemma Permitted.valuesOf_eq_nil {o : ValueOption} (h : Permitted scope items)
    (ho : o ∉ scope.valueOptions) : valuesOf o items = [] := by
  apply List.filterMap_eq_nil_iff.2
  intro item hitem
  cases item with
  | positional s => rfl
  | option o' s =>
    have hne : o' ≠ o := by
      rintro rfl
      exact ho (h.belongs o' s hitem)
    exact if_neg hne

lemma Agrees.portOf_iff (h : Agrees items v) {port? : Option UInt16} :
    PortOf items port? ↔ v.port? = port? := by
  have hport := h.port
  constructor
  · intro hof
    cases hof with
    | none hnone =>
      rw [hnone] at hport
      cases hv : v.port? with
      | none => rfl
      | some n => simp [hv] at hport
    | some hsome hn =>
      rw [hsome, List.map_singleton, hn] at hport
      have hsingle := (eq_singleton_iff rfl).1 hport.symm
      cases hv : v.port? with
      | none => simp [hv] at hsingle
      | some n => simpa [hv] using hsingle
  · rintro rfl
    cases hv : v.port? with
    | none =>
      rw [hv] at hport
      exact .none (List.map_eq_nil_iff.1 hport)
    | some n =>
      rw [hv] at hport
      obtain ⟨s, hs, hn⟩ := List.map_eq_singleton_iff.1 hport
      exact .some hs hn

/-- The values of a level make the command that its items mean. -/
lemma command_eq_ok_iff (hscope : scope ≠ .top) (h : Agrees items v) (hbelongs : Belongs scope items) :
    v.command scope = .ok c ↔ Means items scope c := by
  have haddress := fun a => eq_singleton_iff (x := a) h.address
  have hpayload := fun y => eq_singleton_iff (x := y) h.payload
  constructor
  · intro hc
    cases scope with
    | top => exact absurd rfl hscope
    | serve =>
      cases hc
      exact .serve (hbelongs.positionals_eq_nil rfl)
    | send =>
      unfold Values.command at hc
      dsimp only at hc
      split at hc
      · next a y ha hy =>
        cases hc
        exact .send ((haddress a).2 ha) (h.portOf_iff.2 rfl) ((hpayload y).2 hy)
      all_goals cases hc
    | version =>
      unfold Values.command at hc
      dsimp only at hc
      split at hc
      · next a ha =>
        cases hc
        exact .version ((haddress a).2 ha) (h.portOf_iff.2 rfl) (hbelongs.positionals_eq_nil rfl)
      · cases hc
  · intro hmeans
    cases hmeans with
    | serve => rfl
    | send ha hport hy =>
      unfold Values.command
      rw [(haddress _).1 ha, (hpayload _).1 hy, h.portOf_iff.1 hport]
    | version ha hport _ =>
      unfold Values.command
      rw [(haddress _).1 ha, h.portOf_iff.1 hport]

lemma Agrees.permitted (h : Agrees items v) (hbelongs : Belongs scope items) :
    Permitted scope items := by
  refine ⟨hbelongs.option, ?_⟩
  intro o
  cases o with
  | directory =>
    rw [h.directory]
    exact length_toList_le _
  | address =>
    rw [h.address]
    exact length_toList_le _
  | port =>
    rw [← List.length_map (f := Arguments.port), h.port]
    exact length_toList_le _

lemma Means.belongs (h : Means items scope c) (hpermitted : Permitted scope items) :
    Belongs scope items := by
  refine ⟨hpermitted.belongs, ?_⟩
  intro s hmem
  cases h with
  | serve hnone => exact absurd hmem (not_mem_of_positionals_eq_nil hnone s)
  | send _ _ _ => rfl
  | version _ _ hnone => exact absurd hmem (not_mem_of_positionals_eq_nil hnone s)

/-- Items that are permitted and mean a command have values. -/
lemma Means.exists_agrees (h : Means items scope c) (hpermitted : Permitted scope items) :
    ∃ v, Agrees items v := by
  have hpositionals : (positionals items).length ≤ 1 := by
    cases h with
    | serve hnone => simp [hnone]
    | send _ _ hone => simp [hone]
    | version _ _ hnone => simp [hnone]
  have hport : ∃ port? : Option UInt16, (valuesOf .port items).map port = (port?.map .ok).toList := by
    have hof : ∃ port?, PortOf items port? := by
      cases h with
      | serve _ => exact ⟨none, .none (hpermitted.valuesOf_eq_nil (by decide))⟩
      | send _ hport _ => exact ⟨_, hport⟩
      | version _ hport _ => exact ⟨_, hport⟩
    obtain ⟨port?, hof⟩ := hof
    cases hof with
    | none hnone => exact ⟨none, by rw [hnone]; rfl⟩
    | some hsome hn => exact ⟨some _, by rw [hsome, List.map_singleton, hn]; rfl⟩
  obtain ⟨port?, hport⟩ := hport
  exact ⟨⟨(valuesOf .directory items).head?, (valuesOf .address items).head?, port?,
    (positionals items).head?⟩, eq_head?_toList (hpermitted.once _),
    eq_head?_toList (hpermitted.once _), hport, eq_head?_toList hpositionals⟩

lemma Agrees.head?_directory (h : Agrees items v) :
    (valuesOf .directory items).head? = v.directory? := by
  rw [h.directory]
  cases v.directory? <;> rfl

end Commands

end MemberRelay.Proofs
