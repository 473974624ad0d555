import Mathlib.Data.List.TakeWhile
import MemberRelay.Proofs.FileSystem.Walk
import MemberRelay.Proofs.Text.Pieces

/-!
# Changes of a tree

What making directories and writing a file do to a tree. Directories are only made where nothing was,
and a file that was written is read back as it was written.
-/

namespace MemberRelay.Proofs
open FileSystem

/-! ### Entries -/

section Entries

variable {fs : FileSystem} {loc l : Location} {e : MemberRelay.Entry}

lemma lookup_filter_ne {entries : List (Location × MemberRelay.Entry)} (h : l ≠ loc) :
    (entries.filter (·.1 ≠ loc)).lookup l = entries.lookup l := by
  induction entries with
  | nil => rfl
  | cons entry entries ih =>
    obtain ⟨l', e⟩ := entry
    by_cases hentry : l' = loc
    · have hl : (l == l') = false := by simp [hentry, h]
      rw [List.filter_cons_of_neg (by simp [hentry]), ih, List.lookup_cons, hl]
    · rw [List.filter_cons_of_pos (by simp [hentry]), List.lookup_cons, List.lookup_cons, ih]

lemma get?_insert (hloc : loc ≠ []) :
    (fs.insert loc e).get? l = if l = loc then some e else fs.get? l := by
  by_cases hl : l = loc
  · subst hl
    simp [FileSystem.get?, FileSystem.insert, hloc]
  · rw [if_neg hl, FileSystem.get?, FileSystem.get?, FileSystem.insert]
    have hbeq : (l == loc) = false := by simp [hl]
    rw [List.lookup_cons, hbeq]
    dsimp only
    rw [lookup_filter_ne hl]

/-- A new directory where nothing was. -/
lemma extends_insert (hloc : loc ≠ []) (hnone : fs.get? loc = none) :
    Extends fs (fs.insert loc .directory) where
  current := rfl
  keeps l e he := by
    have hl : l ≠ loc := by
      rintro rfl
      simp [hnone] at he
    rw [get?_insert hloc, if_neg hl, he]
  new l e hl he := by
    rw [get?_insert hloc] at he
    split at he
    · exact (Option.some.inj he).symm
    · simp [hl] at he

/-- A file in place of a file or of nothing. -/
lemma preserves_insert {content : List UInt8} (hloc : loc ≠ [])
    (hold : ∀ e, fs.get? loc = some e → ∃ old, e = .file old) :
    Preserves fs (fs.insert loc (.file content)) where
  current := rfl
  keeps l e he hfile := by
    have hl : l ≠ loc := by
      rintro rfl
      obtain ⟨old, rfl⟩ := hold e he
      exact hfile old rfl
    rw [get?_insert hloc, if_neg hl, he]
  files l old he := by
    rw [get?_insert hloc]
    split
    · exact ⟨content, rfl⟩
    · exact ⟨old, he⟩

end Entries

/-! ### Paths -/

section Paths

def walkStart (fs : FileSystem) (p : Path) : Location := if p.absolute then [] else fs.current

variable {fs fs' : FileSystem} {p : Path} {follow : Bool} {s : String} {t : Target}
  {e : MemberRelay.Entry}

lemma walkPath_eq_ok_iff :
    fs.walkPath follow p = .ok t ↔ Walks fs follow maxLinks (walkStart fs p) p.names t :=
  walk_eq_ok_iff

lemma target_eq_ok_iff : fs.target follow s = .ok t ↔
    ∃ p, path? s = .ok p ∧ Walks fs follow maxLinks (walkStart fs p) p.names t := by
  rw [FileSystem.target]
  cases path? s with
  | error err => simp [bind, Except.bind]
  | ok p =>
    simp only [Except.ok.injEq, exists_eq_left', ← walkPath_eq_ok_iff]
    change (fs.walkPath follow p).mapError FileError.system = .ok t ↔ _
    cases fs.walkPath follow p <;> simp [Except.mapError]

lemma stat?_eq_some_iff : fs.stat? s = some e ↔ ∃ loc, fs.target true s = .ok (.present loc e) := by
  rw [FileSystem.stat?]
  split
  · next loc e' h => simp [h]
  · next h =>
    refine iff_of_false nofun ?_
    rintro ⟨loc, hloc⟩
    exact h loc e hloc

lemma not_contains {err : SystemError} (hp : path? s = .ok p) (h : fs.walkPath true p = .error err) :
    fs.contains s = false := by
  rw [FileSystem.contains, FileSystem.stat?, FileSystem.target, hp]
  simp [bind, Except.bind, h, Except.mapError]

lemma read_eq_ok_iff {content : List UInt8} :
    fs.read s = .ok content ↔ fs.stat? s = some (.file content) := by
  rw [stat?_eq_some_iff, FileSystem.read]
  cases h : fs.target true s with
  | error err => simp [bind, Except.bind]
  | ok t =>
    cases t with
    | absent loc => simp [bind, Except.bind]
    | present loc e => cases e <;> simp [bind, Except.bind]

lemma isDirectory_iff : fs.isDirectory p ↔
    ∃ loc, Walks fs true maxLinks (walkStart fs p) p.names (.present loc .directory) := by
  simp only [← walkPath_eq_ok_iff]
  rw [FileSystem.isDirectory]
  split
  · next loc h => simp [h]
  · next h =>
    refine iff_of_false nofun ?_
    rintro ⟨loc, hloc⟩
    exact h loc hloc

lemma Preserves.stat? (h : Preserves fs fs') (hs : fs.stat? s = some .directory) :
    fs'.stat? s = some .directory := by
  obtain ⟨loc, ht⟩ := stat?_eq_some_iff.1 hs
  obtain ⟨p, hp, hwalk⟩ := target_eq_ok_iff.1 ht
  have hstart : walkStart fs' p = walkStart fs p := by rw [walkStart, walkStart, h.current]
  refine stat?_eq_some_iff.2 ⟨loc, target_eq_ok_iff.2 ⟨p, hp, ?_⟩⟩
  rw [hstart]
  exact hwalk.preserves h (h.directory hwalk.get?_present)

lemma names_trimmed : ∃ stays, p.names = p.trimmed.names ++ stays ∧ ∀ n ∈ stays, Path.isStay n := by
  refine ⟨(p.names.reverse.takeWhile (· = "")).reverse, ?_, ?_⟩
  · rw [Path.trimmed, ← List.reverse_append, List.takeWhile_append_dropWhile, List.reverse_reverse]
  · intro n hn
    have hempty := List.mem_takeWhile_imp (List.mem_reverse.1 hn)
    simp_all [Path.isStay]

end Paths

/-! ### Paths of files in a directory -/

section Join

variable {dir name : String}

/-- A file in a directory is found at the end of the names of the directory, where slashes at their
end do not count. -/
lemma ofText_join (hdir : dir ≠ "") (hname : '/' ∉ name.toList) : ∃ front stays,
    (Path.ofText dir).names = front ++ stays ∧ (∀ n ∈ stays, Path.isStay n) ∧
      Path.ofText (Path.join dir name) = ⟨(Path.ofText dir).absolute, front ++ [name]⟩ := by
  have hne : dir.toList ≠ [] := by simpa using hdir
  have hlast : Path.pieces '/' name.toList = [name.toList] := pieces_of_not_mem hname
  by_cases hend : dir.toList.getLast? = some '/'
  · obtain ⟨ds, hds⟩ := List.getLast?_eq_some_iff.1 hend
    refine ⟨(Path.pieces '/' ds).map String.ofList, [""], ?_, by simp [Path.isStay], ?_⟩
    · rw [Path.ofText, hds, pieces_append_cons, List.map_append]
      rfl
    · have hjoin : (Path.join dir name).toList = ds ++ '/' :: name.toList := by
        rw [Path.join, if_pos (.inr hend), String.toList_append, hds, List.append_assoc]
        rfl
      rw [Path.ofText, Path.ofText, hjoin, hds, pieces_append_cons, hlast]
      cases ds <;> simp
  · refine ⟨(Path.ofText dir).names, [], (List.append_nil _).symm, by simp, ?_⟩
    have hjoin : (Path.join dir name).toList = dir.toList ++ '/' :: name.toList := by
      rw [Path.join, if_neg (by simp [hdir, hend]), String.toList_append, String.toList_append,
        List.append_assoc]
      rfl
    rw [Path.ofText, Path.ofText, hjoin, pieces_append_cons, hlast]
    obtain ⟨d, ds, hds⟩ := List.exists_cons_of_ne_nil hne
    simp [hds]

lemma path?_eq_ok_iff {s : String} {p : Path} : path? s = .ok p ↔
    '\x00' ∉ s.toList ∧ s ≠ "" ∧ s.utf8ByteSize < pathLimit ∧ p = Path.ofText s := by
  rw [path?, ← Nat.not_le]
  split_ifs <;> simp_all [eq_comm]

/-- The directory on the way to a path is a path. -/
lemma path?_of_join {p : Path} (hdir : dir ≠ "") (h : path? (Path.join dir name) = .ok p) :
    path? dir = .ok (Path.ofText dir) := by
  obtain ⟨hnul, -, hshort, -⟩ := path?_eq_ok_iff.1 h
  obtain ⟨more, hmore⟩ : ∃ more, Path.join dir name = dir ++ more := by
    rw [Path.join]
    split
    · exact ⟨name, rfl⟩
    · exact ⟨"/" ++ name, String.append_assoc⟩
  rw [hmore, String.toList_append, List.mem_append, not_or] at hnul
  rw [hmore, String.utf8ByteSize_append] at hshort
  exact path?_eq_ok_iff.2 ⟨hnul.1, hdir, by omega, rfl⟩

end Join

/-! ### Directories -/

/-- One of the paths leads to a directory at a place. -/
def LeadsTo (fs : FileSystem) (ps : List Path) (loc : Location) : Prop :=
  ∃ p ∈ ps, Walks fs true maxLinks (walkStart fs p) p.names (.present loc .directory)

/-- A tree with new directories, each of them where one of the paths leads. -/
structure Gains (ps : List Path) (fs fs' : FileSystem) : Prop extends Extends fs fs' where
  led : ∀ l, fs.get? l = none → fs'.get? l = some .directory → LeadsTo fs' ps l

section Growing

variable {fs fs' fs'' : FileSystem} {ps qs : List Path} {loc : Location}

lemma Preserves.walkStart (h : Preserves fs fs') (p : Path) : walkStart fs' p = walkStart fs p := by
  rw [Proofs.walkStart, Proofs.walkStart, h.current]

lemma LeadsTo.preserves (h : LeadsTo fs ps loc) (hpreserves : Preserves fs fs') :
    LeadsTo fs' ps loc := by
  obtain ⟨p, hp, hwalk⟩ := h
  refine ⟨p, hp, ?_⟩
  rw [hpreserves.walkStart]
  exact hwalk.preserves hpreserves (hpreserves.directory hwalk.get?_present)

lemma LeadsTo.mono (h : LeadsTo fs ps loc) (hps : ∀ p ∈ ps, p ∈ qs) : LeadsTo fs qs loc := by
  obtain ⟨p, hp, hwalk⟩ := h
  exact ⟨p, hps p hp, hwalk⟩

lemma Gains.refl : Gains ps fs fs :=
  ⟨.refl, fun l hnone h => by simp [hnone] at h⟩

lemma Gains.trans (h : Gains ps fs fs') (h' : Gains ps fs' fs'') : Gains ps fs fs'' where
  toExtends := h.toExtends.trans h'.toExtends
  led l hnone hl := by
    cases hmid : fs'.get? l with
    | none => exact h'.led l hmid hl
    | some e =>
      have he := h.new l e hnone hmid
      subst he
      exact (h.led l hnone hmid).preserves h'.preserves

lemma Gains.mono (h : Gains ps fs fs') (hps : ∀ p ∈ ps, p ∈ qs) : Gains qs fs fs' :=
  ⟨h.toExtends, fun l hnone hl => (h.led l hnone hl).mono hps⟩

end Growing

section Directories

variable {fs fs' : FileSystem} {p : Path} {ps todo : List Path} {s : String} {e : MemberRelay.Entry}

lemma make_eq_ok_iff : fs.make p e = .ok fs' ↔
    ∃ loc, fs.walkPath false p.trimmed = .ok (.absent loc) ∧ fs.insert loc e = fs' := by
  rw [FileSystem.make]
  cases fs.walkPath false p.trimmed with
  | error err => simp [bind, Except.bind]
  | ok t => cases t <;> simp [bind, Except.bind]

lemma make_missing (h : fs.walkPath false p.trimmed = .error .notFound) :
    fs.make p e = .error .notFound := by
  rw [FileSystem.make, h]
  rfl

lemma make_present {loc : Location} {e' : MemberRelay.Entry}
    (h : fs.walkPath false p.trimmed = .ok (.present loc e')) : fs.make p e = .error .alreadyExists := by
  rw [FileSystem.make, h]
  rfl

/-- A directory is made where nothing was, and its path leads there. -/
lemma make_directory (h : fs.make p .directory = .ok fs') : Gains [p] fs fs' ∧ fs'.isDirectory p := by
  obtain ⟨loc, habsent, rfl⟩ := make_eq_ok_iff.1 h
  have hwalk := walkPath_eq_ok_iff.1 habsent
  obtain ⟨hnone, parent, name, hloc, -⟩ := hwalk.get?_absent
  have hne : loc ≠ [] := by simp [hloc]
  have hext := extends_insert hne hnone
  have hnew : (fs.insert loc .directory).get? loc = some .directory := by
    rw [get?_insert hne, if_pos rfl]
  have hleads : Walks (fs.insert loc .directory) true maxLinks (walkStart fs p) p.names
      (.present loc .directory) := by
    obtain ⟨stays, hnames, hstays⟩ := names_trimmed (p := p)
    rw [hnames]
    exact (hwalk.fill hext.preserves hnew nofun).append_stays hstays
  refine ⟨⟨hext, ?_⟩, isDirectory_iff.2 ⟨loc, hleads⟩⟩
  intro l hl hdir
  rw [get?_insert hne] at hdir
  split at hdir
  · next heq =>
    subst heq
    exact ⟨p, List.mem_singleton_self p, hleads⟩
  · simp [hl] at hdir

/-- A path whose parent is missing waits for the paths that lead there. -/
lemma makeFirst_cons (h : fs.makeFirst (p :: ps) = .ok (fs', todo)) :
    (todo = [] ∧ Gains [p] fs fs' ∧ fs'.isDirectory p) ∨
      ∃ todo', todo = p :: todo' ∧ fs.makeFirst ps = .ok (fs', todo') := by
  rw [FileSystem.makeFirst] at h
  split at h
  · next hmake =>
    cases h
    exact .inl ⟨rfl, make_directory hmake⟩
  · split at h
    · cases hrest : fs.makeFirst ps with
      | error err =>
        rw [hrest] at h
        cases h
      | ok r =>
        rw [hrest] at h
        cases h
        exact .inr ⟨r.2, rfl, rfl⟩
    · split at h
      · next hthere =>
        cases h
        exact .inl ⟨rfl, .refl, hthere.2⟩
      · cases h

lemma makeFirst_gains (h : fs.makeFirst ps = .ok (fs', todo)) :
    Gains ps fs fs' ∧ ∀ q ∈ todo, q ∈ ps := by
  induction ps generalizing todo with
  | nil =>
    cases h
    exact ⟨.refl, fun q hq => hq⟩
  | cons p ps ih =>
    rcases makeFirst_cons h with ⟨rfl, hgains, -⟩ | ⟨todo', rfl, hrest⟩
    · exact ⟨hgains.mono (by simp), by simp⟩
    · obtain ⟨hgains, htodo⟩ := ih hrest
      refine ⟨hgains.mono fun q hq => List.mem_cons_of_mem p hq, ?_⟩
      intro q hq
      rcases List.mem_cons.1 hq with rfl | hq
      · exact List.mem_cons_self
      · exact List.mem_cons_of_mem p (htodo q hq)

/-- Each directory is made or found before the next one. -/
lemma makeEach_cons (fs : FileSystem) (p : Path) (ps : List Path) :
    (∃ fs', Gains [p] fs fs' ∧ fs'.isDirectory p ∧ fs.makeEach (p :: ps) = fs'.makeEach ps) ∨
      ∃ err, fs.makeEach (p :: ps) = (fs, .error err) := by
  rw [FileSystem.makeEach]
  split
  · next fs' hmake => exact .inl ⟨fs', (make_directory hmake).1, (make_directory hmake).2, rfl⟩
  · next err _ =>
    split
    · next hthere => exact .inl ⟨fs, .refl, hthere.2, rfl⟩
    · exact .inr ⟨err, rfl⟩

lemma makeEach_gains (fs : FileSystem) (ps : List Path) : Gains ps fs (fs.makeEach ps).1 := by
  induction ps generalizing fs with
  | nil => exact .refl
  | cons p ps ih =>
    rcases makeEach_cons fs p ps with ⟨fs', hgains, -, heq⟩ | ⟨err, heq⟩
    · rw [heq]
      exact (hgains.mono (by simp)).trans ((ih fs').mono fun q hq => List.mem_cons_of_mem p hq)
    · rw [heq]
      exact .refl

lemma makeEach_last (h : (fs.makeEach (ps ++ [p])).2 = .ok ()) :
    (fs.makeEach (ps ++ [p])).1.isDirectory p := by
  induction ps generalizing fs with
  | nil =>
    rw [List.nil_append] at h ⊢
    rcases makeEach_cons fs p [] with ⟨fs', -, hdir, heq⟩ | ⟨err, heq⟩
    · rw [heq]
      exact hdir
    · rw [heq] at h
      cases h
  | cons q ps ih =>
    rw [List.cons_append] at h ⊢
    rcases makeEach_cons fs q (ps ++ [p]) with ⟨fs', -, -, heq⟩ | ⟨err, heq⟩
    · rw [heq] at h ⊢
      exact ih h
    · rw [heq] at h
      cases h

/-- Making directories only adds directories on the way of the path, whether or not it gets to the
end. -/
theorem makeDirectories_gains (fs : FileSystem) (s : String) :
    Gains (Path.ofText s :: (Path.ofText s).ancestors) fs (fs.makeDirectories s).1 := by
  rw [FileSystem.makeDirectories]
  split
  · exact .refl
  · split
    · exact .refl
    · next p hp =>
      obtain ⟨-, -, -, rfl⟩ := path?_eq_ok_iff.1 hp
      split
      · exact .refl
      · next fs' todo hfirst =>
        obtain ⟨hgains, htodo⟩ := makeFirst_gains hfirst
        have heach := makeEach_gains fs' todo.reverse
        exact hgains.trans (heach.mono fun q hq => htodo q (List.mem_reverse.1 hq))

/-- A missing parent is made first. Then the directory is made too, unless its path leads to one now. -/
lemma makeDirectories_with_parent {fs'' : FileSystem} {parent : Path} (hs : s ≠ "")
    (hp : path? s = .ok p) (hancestors : p.ancestors = [parent])
    (hmissing : fs.make p .directory = .error .notFound)
    (hparent : fs.make parent .directory = .ok fs')
    (hthen : fs'.make p .directory = .ok fs'' ∨
      fs'.make p .directory = .error .alreadyExists ∧ fs'.isDirectory p ∧ fs'' = fs') :
    fs.makeDirectories s = (fs'', .ok ()) := by
  have hfirst : fs.makeFirst (p :: p.ancestors) = .ok (fs', [p]) := by
    simp [hancestors, FileSystem.makeFirst, hmissing, hparent, Except.map]
  have heach : fs'.makeEach [p] = (fs'', .ok ()) := by
    rcases hthen with hmake | ⟨hmake, hdir, rfl⟩
    · simp [FileSystem.makeEach, hmake]
    · simp [FileSystem.makeEach, hmake, hdir]
  rw [FileSystem.makeDirectories, if_neg hs, hp]
  dsimp only
  rw [hfirst]
  dsimp only
  rw [List.reverse_singleton, heach]
  rfl

theorem makeDirectories_directory (hs : s ≠ "") (h : (fs.makeDirectories s).2 = .ok ()) :
    (fs.makeDirectories s).1.stat? s = some .directory := by
  rw [FileSystem.makeDirectories, if_neg hs] at h ⊢
  split at h
  · cases h
  · next p hp =>
    have hstat : ∀ {fs' : FileSystem}, fs'.isDirectory p → fs'.stat? s = some .directory := by
      intro fs' hdir
      obtain ⟨loc, hwalk⟩ := isDirectory_iff.1 hdir
      exact stat?_eq_some_iff.2 ⟨loc, target_eq_ok_iff.2 ⟨p, hp, hwalk⟩⟩
    split at h
    · cases h
    · next fs' todo hfirst =>
      apply hstat
      rcases makeFirst_cons hfirst with ⟨rfl, -, hdir⟩ | ⟨todo', rfl, -⟩
      · exact hdir
      · rw [List.reverse_cons] at h ⊢
        apply makeEach_last
        cases hlast : (fs'.makeEach (todo'.reverse ++ [p])).2 with
        | ok u => rfl
        | error err =>
          dsimp only at h
          rw [hlast] at h
          cases h

end Directories

/-! ### Files -/

section Files

variable {fs fs' : FileSystem} {s : String} {content : List UInt8} {loc l : Location}

/-- A file is written where the path leads: to a file, or to a free place. -/
lemma write_eq_ok_iff : fs.write s content = .ok fs' ↔
    ∃ loc, ((∃ old, fs.target true s = .ok (.present loc (.file old))) ∨
      fs.target true s = .ok (.absent loc)) ∧ fs.insert loc (.file content) = fs' := by
  rw [FileSystem.write]
  cases fs.target true s with
  | error err => simp [bind, Except.bind]
  | ok t =>
    cases t with
    | absent loc => simp [bind, Except.bind]
    | present loc e => cases e <;> simp [bind, Except.bind]

lemma write_present {old : List UInt8} (h : fs.target true s = .ok (.present loc (.file old))) :
    fs.write s content = .ok (fs.insert loc (.file content)) :=
  write_eq_ok_iff.2 ⟨loc, .inl ⟨old, h⟩, rfl⟩

/-- The place of a file that is written. -/
structure WrittenAt (fs : FileSystem) (s : String) (content : List UInt8) (fs' : FileSystem)
    (loc : Location) : Prop where
  leads : (∃ old, fs.target true s = .ok (.present loc (.file old))) ∨
    fs.target true s = .ok (.absent loc)
  get? : ∀ l, fs'.get? l = if l = loc then some (.file content) else fs.get? l
  preserves : Preserves fs fs'

lemma write_spec (h : fs.write s content = .ok fs') : ∃ loc, WrittenAt fs s content fs' loc := by
  obtain ⟨loc, hleads, rfl⟩ := write_eq_ok_iff.1 h
  have hfree : loc ≠ [] ∧ ∀ e, fs.get? loc = some e → ∃ old, e = .file old := by
    rcases hleads with ⟨old, ht⟩ | ht
    · obtain ⟨p, -, hwalk⟩ := target_eq_ok_iff.1 ht
      have hold := hwalk.get?_present
      refine ⟨?_, fun e he => ⟨old, ?_⟩⟩
      · rintro rfl
        simp [FileSystem.get?] at hold
      · rw [hold] at he
        exact (Option.some.inj he).symm
    · obtain ⟨p, -, hwalk⟩ := target_eq_ok_iff.1 ht
      obtain ⟨hnone, parent, name, hloc, -⟩ := hwalk.get?_absent
      exact ⟨by simp [hloc], fun e he => by simp [hnone] at he⟩
  exact ⟨loc, hleads, fun l => get?_insert hfree.1, preserves_insert hfree.1 hfree.2⟩

/-- The path leads to what was written. -/
lemma WrittenAt.target (hw : WrittenAt fs s content fs' loc) :
    fs'.target true s = .ok (.present loc (.file content)) := by
  have hnew : fs'.get? loc = some (.file content) := by rw [hw.get?, if_pos rfl]
  refine target_eq_ok_iff.2 ?_
  rcases hw.leads with ⟨old, ht⟩ | ht
  · obtain ⟨p, hp, hwalk⟩ := target_eq_ok_iff.1 ht
    refine ⟨p, hp, ?_⟩
    rw [hw.preserves.walkStart]
    exact hwalk.preserves hw.preserves hnew
  · obtain ⟨p, hp, hwalk⟩ := target_eq_ok_iff.1 ht
    refine ⟨p, hp, ?_⟩
    rw [hw.preserves.walkStart]
    exact hwalk.fill hw.preserves hnew nofun

theorem read_write (h : fs.write s content = .ok fs') : fs'.read s = .ok content := by
  obtain ⟨loc, hw⟩ := write_spec h
  exact read_eq_ok_iff.2 (stat?_eq_some_iff.2 ⟨loc, hw.target⟩)

end Files

end MemberRelay.Proofs
