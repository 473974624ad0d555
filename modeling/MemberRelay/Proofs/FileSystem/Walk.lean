import Mathlib.Tactic.Common
import MemberRelay.FileSystem.Basic

/-!
# Ways through a tree

The ways that names can take from a place in a tree, step by step. A way that leads somewhere still
leads there after the tree has grown, and the names of a path can be walked in two parts.
-/

namespace MemberRelay.Proofs
open FileSystem

/-- A name that leads to an entry of its own. -/
structure IsName (name : String) : Prop where
  leads : Path.isStay name = false
  down : name ≠ ".."
  short : name.utf8ByteSize ≤ maxName

def linkStart (loc : Location) (target : String) : Location :=
  if (Path.ofText target).absolute then [] else loc

/-- The ways that names can take, following at most so many links. -/
inductive Walks (fs : FileSystem) (follow : Bool) :
    Nat → Location → List String → Target → Prop where
  | arrive {links : Nat} {loc : Location} {e : MemberRelay.Entry} (h : fs.get? loc = some e) :
      Walks fs follow links loc [] (.present loc e)
  | stay {links : Nat} {loc : Location} {name : String} {rest : List String} {t : Target}
      (hdir : fs.get? loc = some .directory) (hname : Path.isStay name)
      (h : Walks fs follow links loc rest t) : Walks fs follow links loc (name :: rest) t
  | up {links : Nat} {loc : Location} {rest : List String} {t : Target}
      (hdir : fs.get? loc = some .directory) (h : Walks fs follow links loc.dropLast rest t) :
      Walks fs follow links loc (".." :: rest) t
  | free {links : Nat} {loc : Location} {name : String} (hdir : fs.get? loc = some .directory)
      (hname : IsName name) (h : fs.get? (loc ++ [name]) = none) :
      Walks fs follow links loc [name] (.absent (loc ++ [name]))
  | atLink {links : Nat} {loc : Location} {name target : String}
      (hdir : fs.get? loc = some .directory) (hname : IsName name)
      (h : fs.get? (loc ++ [name]) = some (.link target)) (hfollow : follow = false) :
      Walks fs follow links loc [name] (.present (loc ++ [name]) (.link target))
  | link {links : Nat} {loc : Location} {name target : String} {rest : List String} {t : Target}
      (hdir : fs.get? loc = some .directory) (hname : IsName name)
      (hlink : fs.get? (loc ++ [name]) = some (.link target)) (hfollow : rest = [] → follow = true)
      (h : Walks fs follow links (linkStart loc target) ((Path.ofText target).names ++ rest) t) :
      Walks fs follow (links + 1) loc (name :: rest) t
  | down {links : Nat} {loc : Location} {name : String} {rest : List String}
      {e : MemberRelay.Entry} {t : Target}
      (hdir : fs.get? loc = some .directory) (hname : IsName name)
      (he : fs.get? (loc ++ [name]) = some e) (hlink : ∀ target, e ≠ .link target)
      (h : Walks fs follow links (loc ++ [name]) rest t) : Walks fs follow links loc (name :: rest) t

section Walks

variable {fs fs' : FileSystem} {follow : Bool} {links : Nat} {loc l : Location}
  {names xs ys : List String} {t : Target} {e : MemberRelay.Entry}

lemma IsName.of_not {name : String} (hstay : ¬Path.isStay name = true) (hup : ¬name = "..")
    (hlong : ¬maxName < name.utf8ByteSize) : IsName name :=
  ⟨Bool.eq_false_iff.2 hstay, hup, Nat.le_of_not_lt hlong⟩

lemma walks_of_walk (h : fs.walk follow links loc names = .ok t) :
    Walks fs follow links loc names t := by
  fun_induction FileSystem.walk fs follow links loc names with
  | case1 links loc e he =>
    cases h
    exact .arrive he
  | case4 links loc name rest hdir hstay ih => exact .stay (not_ne_iff.1 hdir) hstay (ih h)
  | case5 links loc rest hdir hstay ih => exact .up (not_ne_iff.1 hdir) (ih h)
  | case7 links loc name hdir hstay hup hlong hnone =>
    cases h
    exact .free (not_ne_iff.1 hdir) (.of_not hstay hup hlong) hnone
  | case9 links loc name rest hdir hstay hup hlong target hlink hend =>
    cases h
    obtain ⟨rfl, hfollow⟩ := hend
    exact .atLink (not_ne_iff.1 hdir) (.of_not hstay hup hlong) hlink (by simpa using hfollow)
  | case11 loc name rest hdir hstay hup hlong target hlink hend links path ih =>
    refine .link (not_ne_iff.1 hdir) (.of_not hstay hup hlong) hlink ?_ (ih h)
    intro hrest
    simpa [hrest] using hend
  | case12 links loc name rest hdir hstay hup hlong e hlink he ih =>
    exact .down (not_ne_iff.1 hdir) (.of_not hstay hup hlong) he hlink (ih h)
  | _ => cases h

lemma walk_of_walks (h : Walks fs follow links loc names t) :
    fs.walk follow links loc names = .ok t := by
  induction h with
  | arrive h => simp [FileSystem.walk, h]
  | stay hdir hname _ ih => simp [FileSystem.walk, hdir, hname, ih]
  | up hdir _ ih => simp [FileSystem.walk, hdir, show Path.isStay ".." = false by decide, ih]
  | free hdir hname h =>
    simp [FileSystem.walk, hdir, hname.leads, hname.down, Nat.not_lt.2 hname.short, h]
  | atLink hdir hname h hfollow =>
    simp [FileSystem.walk, hdir, hname.leads, hname.down, Nat.not_lt.2 hname.short, h, hfollow]
  | @link links loc name target rest t hdir hname hlink hfollow _ ih =>
    have hgo : ¬(rest = [] ∧ (!follow) = true) := by
      rintro ⟨hrest, hstop⟩
      simp [hfollow hrest] at hstop
    rw [FileSystem.walk]
    simp only [hdir, hname.leads, hname.down, Nat.not_lt.2 hname.short, hlink, hgo, ne_eq,
      not_true_eq_false, Bool.false_eq_true, if_false]
    exact ih
  | @down links loc name rest e t hdir hname he hlink _ ih =>
    cases e with
    | link target => exact absurd rfl (hlink target)
    | _ => simp [FileSystem.walk, hdir, hname.leads, hname.down, Nat.not_lt.2 hname.short, he, ih]

/-- Nothing leads on through a name that is missing. -/
lemma walk_missing {name : String} (hdir : fs.get? loc = some .directory) (hname : IsName name)
    (hnone : fs.get? (loc ++ [name]) = none) (hnames : names ≠ []) :
    fs.walk follow links loc (name :: names) = .error .notFound := by
  simp [FileSystem.walk, hdir, hname.leads, hname.down, Nat.not_lt.2 hname.short, hnone, hnames]

theorem walk_eq_ok_iff : fs.walk follow links loc names = .ok t ↔ Walks fs follow links loc names t :=
  ⟨walks_of_walk, walk_of_walks⟩

end Walks

/-! ### Two parts of a path -/

section Parts

variable {fs : FileSystem} {follow : Bool} {links : Nat} {loc l : Location}
  {xs ys : List String} {t : Target} {e : MemberRelay.Entry}

lemma Walks.directory (h : Walks fs follow links loc ys t) (hys : ys ≠ []) :
    fs.get? loc = some .directory := by
  cases h with
  | arrive => exact absurd rfl hys
  | stay hdir | up hdir | free hdir | atLink hdir | link hdir | down hdir => exact hdir

/-- What names lead to after others starts at the directory that the others lead to. -/
lemma Walks.split (h : Walks fs follow links loc (xs ++ ys) t) (hys : ys ≠ []) :
    ∃ d links', Walks fs true links loc xs (.present d .directory) ∧
      Walks fs follow links' d ys t := by
  generalize hnames : xs ++ ys = names at h
  induction h generalizing xs with
  | arrive =>
    rw [List.append_eq_nil_iff] at hnames
    exact absurd hnames.2 hys
  | stay hdir hname h ih =>
    rcases List.append_eq_cons_iff.1 hnames with ⟨rfl, rfl⟩ | ⟨xs, rfl, rfl⟩
    · exact ⟨_, _, .arrive hdir, .stay hdir hname h⟩
    · obtain ⟨d, links', hxs, hrest⟩ := ih rfl
      exact ⟨d, links', .stay hdir hname hxs, hrest⟩
  | up hdir h ih =>
    rcases List.append_eq_cons_iff.1 hnames with ⟨rfl, rfl⟩ | ⟨xs, rfl, rfl⟩
    · exact ⟨_, _, .arrive hdir, .up hdir h⟩
    · obtain ⟨d, links', hxs, hrest⟩ := ih rfl
      exact ⟨d, links', .up hdir hxs, hrest⟩
  | @free links loc name hdir hname h =>
    rcases List.append_eq_cons_iff.1 hnames with ⟨rfl, rfl⟩ | ⟨xs, rfl, hend⟩
    · exact ⟨loc, links, .arrive hdir, .free hdir hname h⟩
    · exact absurd (List.append_eq_nil_iff.1 hend.symm).2 hys
  | @atLink links loc name target hdir hname h hfollow =>
    rcases List.append_eq_cons_iff.1 hnames with ⟨rfl, rfl⟩ | ⟨xs, rfl, hend⟩
    · exact ⟨loc, links, .arrive hdir, .atLink hdir hname h hfollow⟩
    · exact absurd (List.append_eq_nil_iff.1 hend.symm).2 hys
  | link hdir hname hlink hfollow h ih =>
    rcases List.append_eq_cons_iff.1 hnames with ⟨rfl, rfl⟩ | ⟨xs, rfl, rfl⟩
    · exact ⟨_, _, .arrive hdir, .link hdir hname hlink hfollow h⟩
    · obtain ⟨d, links', hxs, hrest⟩ := ih (List.append_assoc _ xs ys)
      exact ⟨d, links', .link hdir hname hlink (fun _ => rfl) hxs, hrest⟩
  | down hdir hname he hlink h ih =>
    rcases List.append_eq_cons_iff.1 hnames with ⟨rfl, rfl⟩ | ⟨xs, rfl, rfl⟩
    · exact ⟨_, _, .arrive hdir, .down hdir hname he hlink h⟩
    · obtain ⟨d, links', hxs, hrest⟩ := ih rfl
      exact ⟨d, links', .down hdir hname he hlink hxs, hrest⟩

lemma walks_stays (hdir : fs.get? loc = some .directory) (hys : ∀ n ∈ ys, Path.isStay n) :
    Walks fs follow links loc ys (.present loc .directory) := by
  induction ys with
  | nil => exact .arrive hdir
  | cons n ys ih =>
    rw [List.forall_mem_cons] at hys
    exact .stay hdir hys.1 (ih hys.2)

/-- Slashes and dots after a directory change nothing. -/
lemma Walks.append_stays (h : Walks fs true links loc xs (.present l .directory))
    (hys : ∀ n ∈ ys, Path.isStay n) : Walks fs true links loc (xs ++ ys) (.present l .directory) := by
  generalize ht : Target.present l .directory = t at h
  induction h with
  | arrive h =>
    cases ht
    exact walks_stays h hys
  | stay hdir hname _ ih => exact .stay hdir hname (ih ht)
  | up hdir _ ih => exact .up hdir (ih ht)
  | free => cases ht
  | atLink => cases ht
  | link hdir hname hlink _ _ ih =>
    refine .link hdir hname hlink (fun _ => rfl) ?_
    have hnames := ih ht
    rwa [List.append_assoc] at hnames
  | down hdir hname he hlink _ ih => exact .down hdir hname he hlink (ih ht)

lemma Walks.get?_present (h : Walks fs follow links loc xs (.present l e)) : fs.get? l = some e := by
  generalize ht : Target.present l e = t at h
  induction h with
  | arrive h =>
    cases ht
    exact h
  | free => cases ht
  | atLink _ _ h =>
    cases ht
    exact h
  | stay _ _ _ ih | up _ _ ih | link _ _ _ _ _ ih | down _ _ _ _ _ ih => exact ih ht

/-- A free place is a new name in a directory. -/
lemma Walks.get?_absent (h : Walks fs follow links loc xs (.absent l)) :
    fs.get? l = none ∧ ∃ parent name, l = parent ++ [name] ∧ fs.get? parent = some .directory := by
  generalize ht : Target.absent l = t at h
  induction h with
  | arrive => cases ht
  | free hdir _ h =>
    cases ht
    exact ⟨h, _, _, rfl, hdir⟩
  | atLink => cases ht
  | stay _ _ _ ih | up _ _ ih | link _ _ _ _ _ ih | down _ _ _ _ _ ih => exact ih ht

end Parts

/-! ### Trees that have grown -/

/-- A tree with all that another one has, where files may have other content. -/
structure Preserves (fs fs' : FileSystem) : Prop where
  current : fs'.current = fs.current
  keeps : ∀ l e, fs.get? l = some e → (∀ content, e ≠ .file content) → fs'.get? l = some e
  files : ∀ l content, fs.get? l = some (.file content) →
    ∃ content', fs'.get? l = some (.file content')

/-- A tree with new directories. -/
structure Extends (fs fs' : FileSystem) : Prop where
  current : fs'.current = fs.current
  keeps : ∀ l e, fs.get? l = some e → fs'.get? l = some e
  new : ∀ l e, fs.get? l = none → fs'.get? l = some e → e = .directory

section Growth

variable {fs fs' fs'' : FileSystem} {follow : Bool} {links : Nat} {loc l : Location}
  {names : List String} {t : Target} {e : MemberRelay.Entry}

lemma Extends.refl : Extends fs fs := ⟨rfl, fun _ _ h => h, fun l e hnone h => by simp [hnone] at h⟩

lemma Extends.trans (h : Extends fs fs') (h' : Extends fs' fs'') : Extends fs fs'' where
  current := h'.current.trans h.current
  keeps l e he := h'.keeps l e (h.keeps l e he)
  new l e hnone he := by
    cases hl : fs'.get? l with
    | none => exact h'.new l e hl he
    | some e' =>
      rw [h'.keeps l e' hl] at he
      cases he
      exact h.new l _ hnone hl

lemma Extends.preserves (h : Extends fs fs') : Preserves fs fs' :=
  ⟨h.current, fun l e he _ => h.keeps l e he, fun l content he => ⟨content, h.keeps l _ he⟩⟩

lemma Extends.link {target : String} (h : Extends fs fs') (hl : fs'.get? l = some (.link target)) :
    fs.get? l = some (.link target) := by
  cases hold : fs.get? l with
  | none => cases h.new l _ hold hl
  | some e => rw [← hl, h.keeps l e hold]

lemma Preserves.directory (h : Preserves fs fs') (hl : fs.get? l = some .directory) :
    fs'.get? l = some .directory :=
  h.keeps l _ hl nofun

lemma Preserves.link {target : String} (h : Preserves fs fs') (hl : fs.get? l = some (.link target)) :
    fs'.get? l = some (.link target) :=
  h.keeps l _ hl nofun

lemma Preserves.entry (h : Preserves fs fs') (hl : fs.get? l = some e)
    (hlink : ∀ target, e ≠ .link target) :
    ∃ e', fs'.get? l = some e' ∧ ∀ target, e' ≠ .link target := by
  cases e with
  | file content =>
    obtain ⟨content', h'⟩ := h.files l content hl
    exact ⟨_, h', nofun⟩
  | directory => exact ⟨_, h.directory hl, nofun⟩
  | link target => exact absurd rfl (hlink target)

/-- The way to an entry stays. -/
lemma Walks.preserves (h : Walks fs follow links loc names (.present l e))
    (hpreserves : Preserves fs fs') {e' : MemberRelay.Entry} (he' : fs'.get? l = some e') :
    Walks fs' follow links loc names (.present l e') := by
  generalize ht : Target.present l e = t at h
  induction h with
  | arrive =>
    cases ht
    exact .arrive he'
  | stay hdir hname _ ih => exact .stay (hpreserves.directory hdir) hname (ih ht)
  | up hdir _ ih => exact .up (hpreserves.directory hdir) (ih ht)
  | free => cases ht
  | atLink hdir hname h hfollow =>
    cases ht
    rw [hpreserves.link h] at he'
    cases he'
    exact .atLink (hpreserves.directory hdir) hname (hpreserves.link h) hfollow
  | link hdir hname hlink hfollow _ ih =>
    exact .link (hpreserves.directory hdir) hname (hpreserves.link hlink) hfollow (ih ht)
  | down hdir hname he hlink _ ih =>
    obtain ⟨e₁, he₁, hlink₁⟩ := hpreserves.entry he hlink
    exact .down (hpreserves.directory hdir) hname he₁ hlink₁ (ih ht)

/-- The way to a free place leads to what is put there. -/
lemma Walks.fill (h : Walks fs follow links loc names (.absent l)) (hpreserves : Preserves fs fs')
    {e' : MemberRelay.Entry} (he' : fs'.get? l = some e') (hlink : ∀ target, e' ≠ .link target) :
    Walks fs' true links loc names (.present l e') := by
  generalize ht : Target.absent l = t at h
  induction h with
  | arrive => cases ht
  | stay hdir hname _ ih => exact .stay (hpreserves.directory hdir) hname (ih ht)
  | up hdir _ ih => exact .up (hpreserves.directory hdir) (ih ht)
  | free hdir hname h =>
    cases ht
    exact .down (hpreserves.directory hdir) hname he' hlink (.arrive he')
  | atLink => cases ht
  | link hdir hname hlink' _ _ ih =>
    exact .link (hpreserves.directory hdir) hname (hpreserves.link hlink') (fun _ => rfl) (ih ht)
  | down hdir hname he hlink' _ ih =>
    obtain ⟨e₁, he₁, hlink₁⟩ := hpreserves.entry he hlink'
    exact .down (hpreserves.directory hdir) hname he₁ hlink₁ (ih ht)

end Growth

/-! ### Ways that never lead up -/

/-- Every entry stands in a directory. -/
def Rooted (fs : FileSystem) : Prop :=
  ∀ loc name e, fs.get? (loc ++ [name]) = some e → fs.get? loc = some .directory

/-- No link leads up. -/
def LinksDescend (fs : FileSystem) : Prop :=
  ∀ loc target, fs.get? loc = some (.link target) → ".." ∉ (Path.ofText target).names

section Listed

variable {fs : FileSystem} {loc : Location} {e : MemberRelay.Entry}

lemma mem_entries (h : fs.get? loc = some e) (hloc : loc ≠ []) : (loc, e) ∈ fs.entries := by
  rw [FileSystem.get?, if_neg hloc, List.lookup_eq_some_iff] at h
  obtain ⟨before, after, hentries, -⟩ := h
  simp [hentries]

lemma rooted_of_entries (h : ∀ entry ∈ fs.entries, fs.get? entry.1.dropLast = some .directory) :
    Rooted fs := by
  intro loc name e he
  have hparent := h _ (mem_entries he (by simp))
  rwa [List.dropLast_concat] at hparent

lemma linksDescend_of_entries (h : ∀ entry ∈ fs.entries, ∀ target, entry.2 ≠ .link target) :
    LinksDescend fs := by
  intro loc target he
  have hloc : loc ≠ [] := by
    rintro rfl
    simp [FileSystem.get?] at he
  exact absurd rfl (h _ (mem_entries he hloc) target)

end Listed

section Descent

variable {fs fs' : FileSystem} {follow : Bool} {links : Nat} {loc l : Location}
  {names : List String} {e : MemberRelay.Entry}

lemma Rooted.get?_append (h : Rooted fs) (hloc : fs.get? loc = none) (name : String) :
    fs.get? (loc ++ [name]) = none := by
  cases hname : fs.get? (loc ++ [name]) with
  | none => rfl
  | some e => simp [h loc name e hname] at hloc

/-- Out of a new directory, only a way up leads. -/
lemma Walks.stays_new (h : Walks fs' follow links loc names (.present l e)) (hext : Extends fs fs')
    (hroot : Rooted fs) (hloc : fs.get? loc = none) (hnames : ".." ∉ names) : fs.get? l = none := by
  generalize ht : Target.present l e = t at h
  induction h with
  | arrive =>
    cases ht
    exact hloc
  | stay _ _ _ ih => exact ih hloc (fun h => hnames (List.mem_cons_of_mem _ h)) ht
  | up => exact absurd List.mem_cons_self hnames
  | free => cases ht
  | atLink _ _ h =>
    cases ht
    exact hroot.get?_append hloc _
  | link _ _ hlink => cases hext.new _ _ (hroot.get?_append hloc _) hlink -- a new link
  | down _ _ _ _ _ ih =>
    exact ih (hroot.get?_append hloc _) (fun h => hnames (List.mem_cons_of_mem _ h)) ht

lemma Walks.start_old (h : Walks fs' follow links loc names (.present l e)) (hext : Extends fs fs')
    (hroot : Rooted fs) (hnames : ".." ∉ names) (hl : fs.get? l ≠ none) {e' : MemberRelay.Entry}
    (he' : fs'.get? loc = some e') : fs.get? loc = some e' := by
  cases hloc : fs.get? loc with
  | none => exact absurd (h.stays_new hext hroot hloc hnames) hl
  | some e₀ => rwa [hext.keeps loc e₀ hloc] at he'

/-- A way that never leads up and ends at an old entry passes old entries only. -/
lemma Walks.stays_old (h : Walks fs' follow links loc names (.present l e)) (hext : Extends fs fs')
    (hroot : Rooted fs) (hlinks : LinksDescend fs) (hnames : ".." ∉ names)
    (hl : fs.get? l ≠ none) : Walks fs follow links loc names (.present l e) := by
  generalize ht : Target.present l e = t at h
  induction h with
  | @arrive links loc e' h =>
    cases ht
    have hwalk : Walks fs' follow links l [] _ := .arrive h
    exact .arrive (hwalk.start_old hext hroot hnames hl h)
  | stay hdir hname h ih =>
    subst ht
    have hrest := fun h => hnames (List.mem_cons_of_mem _ h)
    exact .stay (h.start_old hext hroot hrest hl hdir) hname (ih hrest rfl)
  | up => exact absurd List.mem_cons_self hnames
  | free => cases ht
  | @atLink links loc name target hdir hname h hfollow =>
    cases ht
    have hwalk : Walks fs' follow links loc [name] _ := .atLink hdir hname h hfollow
    exact .atLink (hwalk.start_old hext hroot hnames hl hdir) hname (hext.link h) hfollow
  | link hdir hname hlink hfollow h ih =>
    subst ht
    have hrest := fun h => hnames (List.mem_cons_of_mem _ h)
    have hwalk := Walks.link hdir hname hlink hfollow h
    refine .link (hwalk.start_old hext hroot hnames hl hdir) hname (hext.link hlink) hfollow
      (ih ?_ rfl)
    rw [List.mem_append, not_or]
    exact ⟨hlinks _ _ (hext.link hlink), hrest⟩
  | down hdir hname he hlink h ih =>
    subst ht
    have hrest := fun h => hnames (List.mem_cons_of_mem _ h)
    have hwalk := Walks.down hdir hname he hlink h
    exact .down (hwalk.start_old hext hroot hnames hl hdir) hname
      (h.start_old hext hroot hrest hl he) hlink (ih hrest rfl)

end Descent

end MemberRelay.Proofs
