import MemberRelay.Proofs.Settings.Prepared
import MemberRelay.Proofs.Settings.Rendering

/-!
# Loading the settings

What a run can make of its settings file. The file is there if its directory was made for it, or if
it was there before; a directory that was found without it stays without it.
-/

namespace MemberRelay.Proofs
open Settings FileSystem

/-- What loading the settings comes to, and the machine after it. -/
inductive Loads (asked? : Option String) (m : Machine) : Except Failure Unit → Machine → Prop where
  | unprepared {f : Failure} {m' : Machine} (h : (prepareDirectory asked?).runOn m = (.error f, m')) :
      Loads asked? m (.error f) m'
  | unread {dir : String} {err : FileError} {m' : Machine}
      (h : (prepareDirectory asked?).runOn m = (.ok dir, m'))
      (hread : m'.files.readText (settingsPath dir) = .error err) :
      Loads asked? m (.error (.io err.message)) m'
  | unparsed {dir text : String} {f : Failure} {m' : Machine}
      (h : (prepareDirectory asked?).runOn m = (.ok dir, m'))
      (hread : m'.files.readText (settingsPath dir) = .ok text) (hparse : parse text = .error f) :
      Loads asked? m (.error f) m'
  | late {dir text : String} {s : Settings} {f : Failure} {m' : Machine}
      (h : (prepareDirectory asked?).runOn m = (.ok dir, m'))
      (hread : m'.files.readText (settingsPath dir) = .ok text) (hparse : parse text = .ok s)
      (hset : m'.cell.set s = .error f) :
      Loads asked? m (.error f) { m' with journal := m'.journal ++ [.settingsLoaded dir] }
  | loaded {dir text : String} {s : Settings} {cell : Cell} {m' : Machine}
      (h : (prepareDirectory asked?).runOn m = (.ok dir, m'))
      (hread : m'.files.readText (settingsPath dir) = .ok text) (hparse : parse text = .ok s)
      (hset : m'.cell.set s = .ok cell) :
      Loads asked? m (.ok ())
        { m' with cell := cell, journal := m'.journal ++ [.settingsLoaded dir] }

/-- What the content of the settings file comes to. -/
def settledBy (cell : Cell) (content : List UInt8) : Except Failure Unit := do
  let text ← (Utf8.text? content).elim (.error (.io FileError.notText.message)) .ok
  let s ← parse text
  let _ ← cell.set s
  return ()

section Load

variable {asked? : Option String} {m m' : Machine} {dir : String} {fs fs' : FileSystem} {s : String}
  {content : List UInt8} {err : FileError}

lemma load_runOn (dir : String) (m : Machine) : (load dir).runOn m =
    (((m.files.readText (settingsPath dir)).mapError fun e => .io e.message) >>= parse, m) := by
  simp only [load, bind_runOn, get_runOn, ofFileResult_runOn, settingsPath]
  cases m.files.readText (Path.join dir fileName) with
  | error err => rfl
  | ok text => exact ofExcept_runOn _ _

lemma fix_runOn (s : Settings) (m : Machine) : (fix s).runOn m =
    match m.cell.set s with
    | .error f => (.error f, m)
    | .ok cell => (.ok (), { m with cell := cell }) := by
  simp only [fix, bind_runOn, get_runOn, ofExcept_runOn]
  cases m.cell.set s <;> rfl

theorem loadGlobal_loads (asked? : Option String) (m : Machine) :
    Loads asked? m ((loadGlobal asked?).runOn m).1 ((loadGlobal asked?).runOn m).2 := by
  rw [loadGlobal, bind_runOn]
  rcases hrun : (prepareDirectory asked?).runOn m with ⟨f | dir, m'⟩
  · exact .unprepared hrun
  · simp only [bind_runOn, load_runOn, report_runOn, fix_runOn]
    cases hread : m'.files.readText (settingsPath dir) with
    | error err => exact .unread hrun hread
    | ok text =>
      cases hparse : parse text with
      | error f =>
        simp only [Except.mapError, bind, Except.bind, hparse]
        exact .unparsed hrun hread hparse
      | ok s =>
        simp only [Except.mapError, bind, Except.bind, hparse]
        cases hset : m'.cell.set s with
        | error f => exact .late hrun hread hparse hset
        | ok cell => exact .loaded hrun hread hparse hset

lemma fileText_eq_ok_iff {text : String} :
    fs.readText s = .ok text ↔
      ∃ content, fs.read s = .ok content ∧ Utf8.text? content = some text := by
  rw [FileSystem.readText, bind_eq_ok_iff]
  apply exists_congr
  intro content
  cases Utf8.text? content <;> simp

lemma fileText_eq_error_iff : fs.readText s = .error err ↔ fs.read s = .error err ∨
    ∃ content, fs.read s = .ok content ∧ Utf8.text? content = none ∧ err = .notText := by
  rw [FileSystem.readText]
  cases fs.read s with
  | error err' => simp [bind, Except.bind]
  | ok content => cases htext : Utf8.text? content <;> simp [bind, Except.bind, htext, eq_comm]

lemma settledBy_of_parse {text : String} {settings : Settings} {cell : Cell}
    (htext : Utf8.text? content = some text) (hparse : parse text = .ok settings) :
    settledBy cell content = (cell.set settings).map fun _ => () := by
  rw [settledBy, htext]
  simp only [Option.elim, bind, Except.bind, hparse]
  cases cell.set settings <;> rfl

/-- Loading is told by the content of the file and by the cell. -/
lemma Loads.result {r : Except Failure Unit} {m'' : Machine} (h : Loads asked? m r m'')
    (hrun : (prepareDirectory asked?).runOn m = (.ok dir, m')) :
    (∀ content, m'.files.read (settingsPath dir) = .ok content → r = settledBy m.cell content) ∧
      ∀ err, m'.files.read (settingsPath dir) = .error err → r = .error (.io err.message) := by
  have hcell : m'.cell = m.cell := by rw [(prepares_of_runOn hrun).frame]
  have hsame : ∀ {dir' m₁}, (prepareDirectory asked?).runOn m = (.ok dir', m₁) →
      dir = dir' ∧ m' = m₁ := by
    intro dir' m₁ h'
    simpa using hrun.symm.trans h'
  cases h with
  | unprepared h => simp [hrun] at h
  | unread h hread =>
    obtain ⟨rfl, rfl⟩ := hsame h
    rcases fileText_eq_error_iff.1 hread with hread | ⟨content, hcontent, htext, rfl⟩
    · simp +contextual [hread]
    · simp [hcontent, settledBy, htext, bind, Except.bind]
  | unparsed h hread hparse | late h hread hparse hset | loaded h hread hparse hset =>
    obtain ⟨rfl, rfl⟩ := hsame h
    obtain ⟨content, hread, htext⟩ := fileText_eq_ok_iff.1 hread
    simp_all [settledBy, bind, Except.bind, pure, Except.pure]

/-- Loading contacts nobody, and only the directory of the settings changes files. -/
lemma Loads.frame {r : Except Failure Unit} (h : Loads asked? m r m') :
    m'.contacts = m.contacts ∧ m'.files = ((prepareDirectory asked?).runOn m).2.files := by
  cases h with
  | unprepared h | unread h | unparsed h | late h | loaded h =>
    have hframe := (prepares_of_runOn h).frame
    rw [h, hframe]
    exact ⟨rfl, rfl⟩

lemma Loads.cell_of_error {f : Failure} (h : Loads asked? m (.error f) m') :
    m'.cell = m.cell := by
  cases h with
  | unprepared h | unread h | unparsed h | late h => rw [(prepares_of_runOn h).frame]

/-- Settings that were loaded are those of the file, and the cell holds them. -/
lemma Loads.holds (h : Loads asked? m (.ok ()) m') :
    ∃ dir text s, ((prepareDirectory asked?).runOn m).1 = .ok dir ∧
      m'.files.readText (settingsPath dir) = .ok text ∧ parse text = .ok s ∧ m'.cell = ⟨some s⟩ := by
  generalize hr : Except.ok () = r at h
  cases h with
  | unprepared | unread | unparsed | late => cases hr
  | @loaded dir text s cell m₁ h hread hparse hset =>
    refine ⟨dir, text, s, by rw [h], hread, hparse, ?_⟩
    rw [Cell.set] at hset
    split at hset
    · exact (Except.ok.inj hset).symm
    · cases hset

lemma read_of_not_write (h : fs.write s content = .error err) : ∃ err', fs.read s = .error err' := by
  cases hread : fs.read s with
  | error err' => exact ⟨err', rfl⟩
  | ok old =>
    obtain ⟨loc, htarget⟩ := stat?_eq_some_iff.1 (read_eq_ok_iff.1 hread)
    rw [write_present htarget] at h
    cases h

lemma Prepares.reads_template (h : Prepares asked? m (.ok dir) m')
    (hmissing : m.files.contains dir = false) :
    m'.files.read (settingsPath dir) = .ok (Utf8.bytes template) := by
  cases h with
  | found _ hfound => simp [hmissing] at hfound
  | made _ _ _ hwrite => exact read_write hwrite

/-- A directory that was made stays, also where the settings file was not written. -/
lemma Prepares.unwritten_of_made {f : Failure} (h : Prepares asked? m (.error f) m')
    (hdir : chosen? asked? m.home? = some dir) (hname : dir ≠ "")
    (hmake : (m.files.makeDirectories dir).2 = .ok ()) :
    m'.files.contains dir ∧ ∃ err, m'.files.read (settingsPath dir) = .error err := by
  generalize hr : Except.error f = r at h
  cases h with
  | homeless h => simp [h] at hdir
  | found | made => cases hr
  | unmade h _ herror =>
    obtain rfl := Option.some.inj (hdir.symm.trans h)
    simp [hmake] at herror
  | unwritten h _ _ hwrite =>
    obtain rfl := Option.some.inj (hdir.symm.trans h)
    have hthere := makeDirectories_directory hname hmake
    exact ⟨by simp [FileSystem.contains, hthere], read_of_not_write hwrite⟩

lemma Prepares.fails_unwritten {r : Except Failure String} (h : Prepares asked? m r m')
    (hdir : chosen? asked? m.home? = some dir) (hmissing : m.files.contains dir = false)
    (hmake : (m.files.makeDirectories dir).2 = .ok ())
    (hwrite : (m.files.makeDirectories dir).1.write (settingsPath dir) (Utf8.bytes template) =
      .error err) : r = .error (.io err.message) := by
  cases h with
  | homeless h => simp [h] at hdir
  | found h hfound =>
    obtain rfl := Option.some.inj (hdir.symm.trans h)
    simp [hmissing] at hfound
  | unmade h _ herror =>
    obtain rfl := Option.some.inj (hdir.symm.trans h)
    simp [hmake] at herror
  | unwritten h _ _ herror =>
    obtain rfl := Option.some.inj (hdir.symm.trans h)
    rw [hwrite] at herror
    cases herror
    rfl
  | made h _ _ hok =>
    obtain rfl := Option.some.inj (hdir.symm.trans h)
    simp [hwrite] at hok

lemma parse_template : parse template = .ok {} := parse_of_renders renders_template (by decide)

lemma settledBy_template : settledBy {} (Utf8.bytes template) = .ok () :=
  settledBy_of_parse (Utf8.text?_bytes template) parse_template

end Load

/-- A settings directory that is there has a settings file exactly if it was missing before, and then
the file is the template, or if it had the file. Loading then hangs on the content of the file and on
the cell only. Without the file it fails, as it does after a run that made the directory and could not
write the file. -/
theorem prepareDirectory_has_settings_iff (asked? : Option String) (m : Machine) :
    let run := (prepareDirectory asked?).runOn m
    let loaded := ((loadGlobal asked?).runOn m).1
    (∀ dir, run.1 = .ok dir →
      ((∃ content, run.2.files.read (settingsPath dir) = .ok content) ↔
        m.files.contains dir = false ∨ ∃ content, m.files.read (settingsPath dir) = .ok content) ∧
      (m.files.contains dir = false →
        run.2.files.read (settingsPath dir) = .ok (Utf8.bytes template) ∧
          (m.cell = {} → loaded = .ok ())) ∧
      (m.files.contains dir → run.2 = m) ∧
      (∀ content, run.2.files.read (settingsPath dir) = .ok content →
        loaded = settledBy m.cell content) ∧
      ∀ err, run.2.files.read (settingsPath dir) = .error err →
        loaded = .error (.io err.message)) ∧
    ∀ dir f, chosen? asked? m.home? = some dir → dir ≠ "" →
      (m.files.makeDirectories dir).2 = .ok () → run.1 = .error f →
      (prepareDirectory asked?).runOn run.2 = (.ok dir, run.2) ∧
        ∃ err, run.2.files.read (settingsPath dir) = .error err := by
  intro run loaded
  have hrun : Prepares asked? m run.1 run.2 := prepareDirectory_prepares asked? m
  constructor
  · intro dir hok
    have hloads : Loads asked? m loaded _ := loadGlobal_loads asked? m
    obtain ⟨hread, hfail⟩ := hloads.result (Prod.ext hok rfl)
    rw [hok] at hrun
    have hmade := fun h => hrun.reads_template h
    have hsame := fun h => (hrun.of_contains hrun.chosen h).2
    refine ⟨?_, ?_, hsame, hread, hfail⟩
    · cases hdir : m.files.contains dir with
      | false => simp [hmade hdir]
      | true => simp [hsame hdir]
    · intro hdir
      refine ⟨hmade hdir, ?_⟩
      intro hcell
      rw [hread _ (hmade hdir), hcell]
      exact settledBy_template
  · intro dir f hdir hname hmake herror
    rw [herror] at hrun
    obtain ⟨hthere, hunread⟩ := hrun.unwritten_of_made hdir hname hmake
    have hagain := prepareDirectory_prepares asked? run.2
    have hdir' : chosen? asked? run.2.home? = some dir := by
      rw [hrun.frame]
      exact hdir
    exact ⟨Prod.ext_iff.2 (hagain.of_contains hdir' hthere), hunread⟩

section Listed

variable {m : Machine} {rest : List (Location × MemberRelay.Entry)} {content : List UInt8}
  {text : String} {s : Settings} (hfiles : m.files = { entries := (["d"], .directory) :: rest })
include hfiles

lemma prepareDirectory_listed : (prepareDirectory (some "d")).runOn m = (.ok "d", m) := by
  have hpath : path? "d" = .ok ⟨false, ["d"]⟩ := by decide
  have hname : IsName "d" := ⟨by decide, by decide, by decide⟩
  have htarget : m.files.target true "d" = .ok (.present ["d"] .directory) := by
    rw [hfiles]
    exact target_eq_ok_iff.2 ⟨_, hpath, .down rfl hname rfl nofun (.arrive rfl)⟩
  have hthere : m.files.contains "d" := by
    rw [FileSystem.contains, stat?_eq_some_iff.2 ⟨_, htarget⟩]
    rfl
  exact Prod.ext_iff.2 ((prepareDirectory_prepares (some "d") m).of_contains rfl hthere)

lemma read_listed (hfile : rest.lookup ["d", fileName] = some (.file content)) :
    m.files.read (settingsPath "d") = .ok content := by
  have hpath : path? (settingsPath "d") = .ok ⟨false, ["d", fileName]⟩ := by decide
  have hname : IsName "d" := ⟨by decide, by decide, by decide⟩
  rw [hfiles]
  exact read_eq_ok_iff.2 (stat?_eq_some_iff.2 ⟨_, target_eq_ok_iff.2
    ⟨_, hpath, .down rfl hname rfl nofun (.down rfl isName_fileName hfile nofun (.arrive hfile))⟩⟩)

lemma read_unlisted (hnone : rest.lookup ["d", fileName] = none) :
    m.files.read (settingsPath "d") = .error (.system .notFound) := by
  have hpath : path? (settingsPath "d") = .ok ⟨false, ["d", fileName]⟩ := by decide
  have hname : IsName "d" := ⟨by decide, by decide, by decide⟩
  have htarget : m.files.target true (settingsPath "d") = .ok (.absent ["d", fileName]) := by
    rw [hfiles]
    exact target_eq_ok_iff.2
      ⟨_, hpath, .down rfl hname rfl nofun (.free rfl isName_fileName hnone)⟩
  rw [FileSystem.read, htarget]
  rfl

/-- A settings file in the directory `d` is what a run goes by, and there is no other. -/
lemma loadGlobal_listed (hcell : m.cell = {})
    (hfile : rest.lookup ["d", fileName] = some (.file content))
    (htext : Utf8.text? content = some text) (hparse : parse text = .ok s) :
    ∃ m', (loadGlobal (some "d")).runOn m = (.ok (), m') ∧ m'.cell = ⟨some s⟩ ∧
      m'.contacts = m.contacts ∧
      ∀ dir' text' s', ((prepareDirectory (some "d")).runOn m).1 = .ok dir' →
        m'.files.readText (settingsPath dir') = .ok text' → parse text' = .ok s' → s' = s := by
  have hprepare := prepareDirectory_listed hfiles
  have hread := read_listed hfiles hfile
  have hloads := loadGlobal_loads (some "d") m
  have hresult : ((loadGlobal (some "d")).runOn m).1 = .ok () := by
    rw [(hloads.result hprepare).1 content hread, settledBy_of_parse htext hparse, hcell]
    rfl
  obtain ⟨hcontacts, hsame⟩ := hloads.frame
  rw [hprepare] at hsame
  rcases hrun : (loadGlobal (some "d")).runOn m with ⟨r, m'⟩
  rw [hrun] at hloads hresult hcontacts hsame
  have hfound : m'.files.readText (settingsPath "d") = .ok text := by
    rw [hsame]
    exact fileText_eq_ok_iff.2 ⟨content, hread, htext⟩
  have hunique : ∀ dir' text' s', ((prepareDirectory (some "d")).runOn m).1 = .ok dir' →
      m'.files.readText (settingsPath dir') = .ok text' → parse text' = .ok s' → s' = s := by
    intro dir' text' s' hdir' hread' hparse'
    rw [hprepare] at hdir'
    cases hdir'
    cases hfound.symm.trans hread'
    cases hparse.symm.trans hparse'
    rfl
  obtain rfl : r = .ok () := hresult
  obtain ⟨dir', text', s', hdir', hread', hparse', hheld⟩ := hloads.holds
  obtain rfl := hunique dir' text' s' hdir' hread' hparse'
  exact ⟨m', rfl, hheld, hcontacts, hunique⟩

end Listed

/-- A settings file that is there is found. Where the file cannot be written, the directory stays
without it. -/
theorem prepareDirectory_finds_settings :
    let m : Machine :=
      { files := { entries := [(["d"], .directory), (["d", "settings.toml"], .file [])] } }
    let run := (prepareDirectory (some "d")).runOn m
    let m' : Machine := { files := { entries := [(["settings.toml"], .directory)] } }
    let run' := (prepareDirectory (some "n/..")).runOn m'
    (run.1 = .ok "d" ∧ ∃ content, run.2.files.read (settingsPath "d") = .ok content) ∧
      (∃ f, run'.1 = .error f) ∧
        ∃ err, run'.2.files.read (settingsPath "n/..") = .error err := by
  intro m run m' run'
  have hok : run.1 = .ok "d" := congrArg Prod.fst (prepareDirectory_listed rfl)
  have hread : m.files.read (settingsPath "d") = .ok [] := read_listed rfl rfl
  have hpath : path? "n/.." = .ok ⟨false, ["n", ".."]⟩ := by decide
  have hpath' : path? (settingsPath "n/..") = .ok ⟨false, ["n", "..", fileName]⟩ := by decide
  have hn : IsName "n" := ⟨by decide, by decide, by decide⟩
  have hwalk : ∀ follow, m'.files.walkPath follow ⟨false, ["n", ".."]⟩ = .error .notFound :=
    fun _ => walk_missing rfl hn rfl nofun
  have hback : ∀ follow, (m'.files.insert ["n"] .directory).walkPath follow ⟨false, ["n", ".."]⟩ =
      .ok (.present [] .directory) :=
    fun _ => walkPath_eq_ok_iff.2 (.down rfl hn rfl nofun (.up rfl (.arrive rfl)))
  have hmake : m'.files.makeDirectories "n/.." = (m'.files.insert ["n"] .directory, .ok ()) := by
    have hparent : m'.files.make ⟨false, ["n"]⟩ .directory = .ok (m'.files.insert ["n"] .directory) :=
      make_eq_ok_iff.2 ⟨_, walkPath_eq_ok_iff.2 (.free rfl hn rfl), rfl⟩
    exact makeDirectories_with_parent (by decide) hpath (by decide) (make_missing (hwalk false)) hparent
      (.inr ⟨make_present (hback false), isDirectory_iff.2 ⟨_, walkPath_eq_ok_iff.1 (hback true)⟩, rfl⟩)
  have hmissing : m'.files.contains "n/.." = false := not_contains hpath (hwalk true)
  have hwrite : (m'.files.makeDirectories "n/..").1.write (settingsPath "n/..")
      (Utf8.bytes template) = .error (.system .isDirectory) := by
    have htarget : (m'.files.insert ["n"] .directory).target true (settingsPath "n/..") =
        .ok (.present [fileName] .directory) := target_eq_ok_iff.2
      ⟨_, hpath', .down rfl hn rfl nofun (.up rfl (.down rfl isName_fileName rfl nofun (.arrive rfl)))⟩
    rw [hmake, FileSystem.write, htarget]
    rfl
  have herror : ∃ f, run'.1 = .error f :=
    ⟨_, (prepareDirectory_prepares (some "n/..") m').fails_unwritten rfl hmissing (by rw [hmake])
      hwrite⟩
  obtain ⟨f, hf⟩ := herror
  refine ⟨⟨hok, ?_⟩, ⟨f, hf⟩, ?_⟩
  · exact ((prepareDirectory_has_settings_iff (some "d") m).1 "d" hok).1.2 (.inr ⟨[], hread⟩)
  · exact ((prepareDirectory_has_settings_iff (some "n/..") m').2 "n/.." f rfl (by decide)
      (by rw [hmake]) hf).2

/-- A directory that is found without a settings file stays without it, and loading fails. -/
theorem found_directory_lacks_settings :
    let m : Machine := { files := { entries := [(["d"], .directory)] } }
    let run := (prepareDirectory (some "d")).runOn m
    run = (.ok "d", m) ∧ m.files.read (settingsPath "d") = .error (.system .notFound) ∧
      ((loadGlobal (some "d")).runOn m).1 =
        .error (.io "No such file or directory (os error 2)") := by
  intro m run
  have hrun : run = (.ok "d", m) := prepareDirectory_listed rfl
  have hread : m.files.read (settingsPath "d") = .error (.system .notFound) := read_unlisted rfl rfl
  have hmessage : (FileError.system .notFound).message = "No such file or directory (os error 2)" := by
    decide
  refine ⟨hrun, hread, ?_⟩
  rw [← hmessage]
  exact ((loadGlobal_loads (some "d") m).result hrun).2 _ hread

end MemberRelay.Proofs
