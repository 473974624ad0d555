import MemberRelay.Proofs.Settings.Loaded

/-!
# A new settings directory and its edits

What a settings directory is good for once it was made: it can be prepared and loaded as often as one
likes, and the text in its file replaced in between. Only such edits change anything then.
-/

namespace MemberRelay.Proofs
open Settings FileSystem

/-- The directories of a path that were missing are there, with the template as the settings file,
and all else is as it was. -/
structure Makes (dir : String) (place : Location) (fs fs' : FileSystem) : Prop where
  current : fs'.current = fs.current
  directory : fs'.stat? dir = some .directory
  leads : fs'.target true (settingsPath dir) = .ok (.present place (.file (Utf8.bytes template)))
  changes : ∀ l, fs'.get? l ≠ fs.get? l → l = place ∨ fs.get? l = none ∧
    LeadsTo fs' (Path.ofText dir :: (Path.ofText dir).ancestors) l

/-- Replaces the text of the settings file. -/
def edit (dir text : String) : Action Unit := do
  let files ← Action.ofFileResult ((← get).files.write (settingsPath dir) (Utf8.bytes text))
  modify fun m => { m with files := files }

inductive DirectoryUse where
  | prepare
  | load
  | edit (text : String)

namespace DirectoryUse

/-- The machine after a use. -/
def after (dir : String) (m : Machine) : DirectoryUse → Machine
  | prepare => ((prepareDirectory (some dir)).runOn m).2
  | load => ((Settings.load dir).runOn m).2
  | edit text => ((Proofs.edit dir text).runOn m).2

/-- The text in the file after a use. -/
def textAfter (text : String) : DirectoryUse → String
  | edit newText => newText
  | _ => text

end DirectoryUse

/-- A settings directory with a text in its file, on a machine that is otherwise as it was. -/
structure Serves (dir : String) (place : Location) (m₀ : Machine) (text : String) (m : Machine) :
    Prop where
  frame : m = { m₀ with files := m.files }
  current : m.files.current = m₀.files.current
  directory : m.files.stat? dir = some .directory
  leads : m.files.target true (settingsPath dir) = .ok (.present place (.file (Utf8.bytes text)))
  others : ∀ l, l ≠ place → m.files.get? l = m₀.files.get? l

section Uses

variable {dir text : String} {place : Location} {m m₀ : Machine} {files : FileSystem}

lemma edit_runOn (h : m.files.write (settingsPath dir) (Utf8.bytes text) = .ok files) :
    (edit dir text).runOn m = (.ok (), { m with files := files }) := by
  simp only [edit, bind_runOn, get_runOn, modify_runOn, ofFileResult_runOn, h]
  rfl

lemma Serves.prepare (h : Serves dir place m₀ text m) :
    (prepareDirectory (some dir)).runOn m = (.ok dir, m) := by
  have hthere : m.files.contains dir := by simp [FileSystem.contains, h.directory]
  exact Prod.ext_iff.2 ((prepareDirectory_prepares (some dir) m).of_contains rfl hthere)

lemma Serves.load (h : Serves dir place m₀ text m) : (load dir).runOn m = (parse text, m) := by
  have hread : m.files.read (settingsPath dir) = .ok (Utf8.bytes text) :=
    read_eq_ok_iff.2 (stat?_eq_some_iff.2 ⟨place, h.leads⟩)
  have htext := fileText_eq_ok_iff.2 ⟨_, hread, Utf8.text?_bytes text⟩
  rw [load_runOn, htext]
  rfl

lemma Serves.edit (h : Serves dir place m₀ text m) (newText : String) :
    Serves dir place m₀ newText ((edit dir newText).runOn m).2 := by
  have hwrite : m.files.write (settingsPath dir) (Utf8.bytes newText) = .ok _ :=
    write_present h.leads
  obtain ⟨loc, hw⟩ := write_spec hwrite
  have hloc : loc = place := by
    rcases hw.leads with ⟨old, ht⟩ | ht
    · cases h.leads.symm.trans ht
      rfl
    · cases h.leads.symm.trans ht
  subst hloc
  rw [edit_runOn hwrite]
  refine ⟨?_, hw.preserves.current.trans h.current, hw.preserves.stat? h.directory, hw.target, ?_⟩
  · rw [h.frame]
  · intro l hl
    rw [hw.get?, if_neg hl, h.others l hl]

/-- Whatever a settings directory is used for, its file holds the text of the last edit. -/
lemma Serves.after (h : Serves dir place m₀ text m) (u : DirectoryUse) :
    Serves dir place m₀ (u.textAfter text) (u.after dir m) := by
  cases u with
  | prepare =>
    rw [DirectoryUse.after, h.prepare]
    exact h
  | load =>
    rw [DirectoryUse.after, h.load]
    exact h
  | edit newText => exact h.edit newText

lemma Serves.uses (h : Serves dir place m₀ text m) (uses : List DirectoryUse) :
    Serves dir place m₀ (uses.foldl DirectoryUse.textAfter text)
      (uses.foldl (DirectoryUse.after dir) m) := by
  induction uses generalizing text m with
  | nil => exact h
  | cons u uses ih => exact ih (h.after u)

lemma Prepares.made_of_write {r : Except Failure String} {m' : Machine}
    (h : Prepares (some dir) m r m') (hmissing : m.files.contains dir = false)
    (hmake : (m.files.makeDirectories dir).2 = .ok ())
    (hwrite : (m.files.makeDirectories dir).1.write (settingsPath dir) (Utf8.bytes template) =
      .ok files) :
    r = .ok dir ∧ m' = { m with
      files := files, journal := m.journal ++ [.templateWritten (settingsPath dir)] } := by
  cases h with
  | homeless h => cases h
  | found h hfound =>
    cases h
    simp [hmissing] at hfound
  | unmade h _ herror =>
    cases h
    simp [hmake] at herror
  | unwritten h _ _ herror =>
    cases h
    simp [hwrite] at herror
  | made h _ _ hok =>
    cases h
    cases hwrite.symm.trans hok
    exact ⟨rfl, rfl⟩

lemma makes_of_write (hdir : dir ≠ "") (hmake : (m.files.makeDirectories dir).2 = .ok ())
    (hwrite : (m.files.makeDirectories dir).1.write (settingsPath dir) (Utf8.bytes template) =
      .ok files) : ∃ place, Makes dir place m.files files := by
  have hgains := makeDirectories_gains m.files dir
  obtain ⟨place, hw⟩ := write_spec hwrite
  refine ⟨place, hw.preserves.current.trans hgains.current,
    hw.preserves.stat? (makeDirectories_directory hdir hmake), hw.target, ?_⟩
  intro l hchange
  by_cases hl : l = place
  · exact .inl hl
  · rw [hw.get?, if_neg hl] at hchange
    cases hold : m.files.get? l with
    | some e => exact absurd ((hgains.keeps l e hold).trans hold.symm) hchange
    | none =>
      obtain ⟨e, he⟩ := Option.ne_none_iff_exists'.1 (hold ▸ hchange)
      have hnew := hgains.new l e hold he
      subst hnew
      exact .inr ⟨rfl, (hgains.led l hold he).preserves hw.preserves⟩

end Uses

/-- Where nothing was, preparing a settings directory makes the missing directories of its path and
the file with the template, and nothing else. The settings are the defaults then. However often the
directory is prepared and loaded afterwards, and its text replaced, preparing it again changes
nothing, and loading gives the settings of the last text, which stays in its place. -/
theorem new_directory_follows_edits (dir : String) (m : Machine) (hdir : dir ≠ "")
    (hmissing : m.files.contains dir = false) (hmake : (m.files.makeDirectories dir).2 = .ok ())
    (hwrite : ∃ files, (m.files.makeDirectories dir).1.write (settingsPath dir)
      (Utf8.bytes template) = .ok files) :
    let run := (prepareDirectory (some dir)).runOn m
    run.1 = .ok dir ∧
    run.2 = { m with
      files := run.2.files, journal := m.journal ++ [.templateWritten (settingsPath dir)] } ∧
    (load dir).runOn run.2 = (.ok {}, run.2) ∧
    ∃ place, Makes dir place m.files run.2.files ∧ ∀ uses : List DirectoryUse,
      let text := uses.foldl DirectoryUse.textAfter template
      let m' := uses.foldl (DirectoryUse.after dir) run.2
      Serves dir place run.2 text m' ∧ (prepareDirectory (some dir)).runOn m' = (.ok dir, m') ∧
        (load dir).runOn m' = (parse text, m') := by
  intro run
  obtain ⟨files, hwrite⟩ := hwrite
  obtain ⟨hok, hafter⟩ :=
    (prepareDirectory_prepares (some dir) m).made_of_write hmissing hmake hwrite
  obtain ⟨place, hmakes⟩ := makes_of_write hdir hmake hwrite
  have hfiles : run.2.files = files := congrArg Machine.files hafter
  rw [← hfiles] at hafter hmakes
  have hserves : Serves dir place run.2 template run.2 :=
    ⟨rfl, rfl, hmakes.directory, hmakes.leads, fun l _ => rfl⟩
  refine ⟨hok, hafter, ?_, place, hmakes, ?_⟩
  · rw [hserves.load, parse_template]
  · intro uses text m'
    have h := hserves.uses uses
    exact ⟨h, h.prepare, h.load⟩

/-- In a tree without entries, a directory in a missing one is made, and serves an edit. -/
theorem nested_directory_follows_edit :
    let m : Machine := {}
    let run := (prepareDirectory (some "a/b")).runOn m
    let edited := ((edit "a/b" "client.port = 7").runOn run.2).2
    run.1 = .ok "a/b" ∧ (load "a/b").runOn run.2 = (.ok {}, run.2) ∧
      (prepareDirectory (some "a/b")).runOn edited = (.ok "a/b", edited) ∧
        (load "a/b").runOn edited = (.ok { client := { port := 7 } }, edited) := by
  intro m run edited
  have hdir : path? "a/b" = .ok ⟨false, ["a", "b"]⟩ := by decide
  have hfile : path? (settingsPath "a/b") = .ok ⟨false, ["a", "b", "settings.toml"]⟩ := by decide
  have ha : IsName "a" := ⟨by decide, by decide, by decide⟩
  have hb : IsName "b" := ⟨by decide, by decide, by decide⟩
  have hwalk : ∀ follow, m.files.walkPath follow ⟨false, ["a", "b"]⟩ = .error .notFound :=
    fun _ => walk_missing rfl ha rfl nofun
  have hmissing : m.files.contains "a/b" = false := not_contains hdir (hwalk true)
  have hmake : m.files.makeDirectories "a/b" =
      ((m.files.insert ["a"] .directory).insert ["a", "b"] .directory, .ok ()) := by
    have hparent : m.files.make ⟨false, ["a"]⟩ .directory = .ok (m.files.insert ["a"] .directory) :=
      make_eq_ok_iff.2 ⟨_, walkPath_eq_ok_iff.2 (.free rfl ha rfl), rfl⟩
    have hthen : (m.files.insert ["a"] .directory).make ⟨false, ["a", "b"]⟩ .directory =
        .ok ((m.files.insert ["a"] .directory).insert ["a", "b"] .directory) :=
      make_eq_ok_iff.2 ⟨_, walkPath_eq_ok_iff.2 (.down rfl ha rfl nofun (.free rfl hb rfl)), rfl⟩
    exact makeDirectories_with_parent (by decide) hdir (by decide) (make_missing (hwalk false)) hparent
      (.inl hthen)
  have hwrite : ∃ files, (m.files.makeDirectories "a/b").1.write (settingsPath "a/b")
      (Utf8.bytes template) = .ok files := by
    have hfree : (m.files.makeDirectories "a/b").1.target true (settingsPath "a/b") =
        .ok (.absent ["a", "b", "settings.toml"]) := by
      rw [hmake]
      exact target_eq_ok_iff.2
        ⟨_, hfile, .down rfl ha rfl nofun (.down rfl hb rfl nofun (.free rfl isName_fileName rfl))⟩
    exact ⟨_, write_eq_ok_iff.2 ⟨_, .inr hfree, rfl⟩⟩
  have hparse : parse "client.port = 7" = .ok { client := { port := 7 } } := by rfl
  obtain ⟨hok, -, hloads, place, -, huses⟩ :=
    new_directory_follows_edits "a/b" m (by decide) hmissing (by rw [hmake]) hwrite
  obtain ⟨-, hprepare, hload⟩ := huses [.edit "client.port = 7"]
  refine ⟨hok, hloads, hprepare, ?_⟩
  rw [← hparse]
  exact hload

end MemberRelay.Proofs
