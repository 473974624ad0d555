import Mathlib.Tactic.Common
import MemberRelay.Proofs.Actions
import MemberRelay.Proofs.FileSystem.Changes
import MemberRelay.Proofs.Text.Bytes
import MemberRelay.Settings.Directory

/-!
# The settings directory

What preparing the settings directory does in every case. A directory that is there stays as it is. A
file that was there before is replaced only where the path of a missing directory leads back to it.
-/

namespace MemberRelay.Proofs
open Settings FileSystem

/-- The directory that was asked for, or else the one in the home. -/
def chosen? (asked? home? : Option String) : Option String :=
  asked? <|> home?.map fun home => Path.join home defaultName

def settingsPath (dir : String) : String := Path.join dir fileName

lemma isName_fileName : IsName fileName := ⟨by decide, by decide, by decide⟩

/-- What preparing the settings directory comes to, and the machine after it. -/
inductive Prepares (asked? : Option String) (m : Machine) :
    Except Failure String → Machine → Prop where
  | homeless (h : chosen? asked? m.home? = none) :
      Prepares asked? m (.error (.io "home directory not found")) m
  | found {dir : String} (h : chosen? asked? m.home? = some dir) (hfound : m.files.contains dir) :
      Prepares asked? m (.ok dir) m
  | unmade {dir : String} {err : FileError} (h : chosen? asked? m.home? = some dir)
      (hmissing : m.files.contains dir = false)
      (hmake : (m.files.makeDirectories dir).2 = .error err) :
      Prepares asked? m (.error (.io err.message))
        { m with files := (m.files.makeDirectories dir).1 }
  | unwritten {dir : String} {err : FileError} (h : chosen? asked? m.home? = some dir)
      (hmissing : m.files.contains dir = false) (hmake : (m.files.makeDirectories dir).2 = .ok ())
      (hwrite : (m.files.makeDirectories dir).1.write (settingsPath dir) (Utf8.bytes template) =
        .error err) :
      Prepares asked? m (.error (.io err.message))
        { m with files := (m.files.makeDirectories dir).1 }
  | made {dir : String} {files : FileSystem} (h : chosen? asked? m.home? = some dir)
      (hmissing : m.files.contains dir = false) (hmake : (m.files.makeDirectories dir).2 = .ok ())
      (hwrite : (m.files.makeDirectories dir).1.write (settingsPath dir) (Utf8.bytes template) =
        .ok files) :
      Prepares asked? m (.ok dir)
        { m with files := files, journal := m.journal ++ [.templateWritten (settingsPath dir)] }

section Prepare

variable {asked? : Option String} {m m' : Machine} {dir : String} {r : Except Failure String}

lemma chooseDirectory_runOn (asked? : Option String) (m : Machine) :
    (chooseDirectory asked?).runOn m =
      ((chosen? asked? m.home?).elim (.error (.io "home directory not found")) .ok, m) := by
  obtain ⟨files, home?, cell, journal, contacts⟩ := m
  cases asked? <;> cases home? <;> rfl

lemma makeDirectory_runOn (dir : String) (m : Machine) :
    (makeDirectory dir).runOn m =
      match m.files.makeDirectories dir with
      | (files, .error err) => (.error (.io err.message), { m with files := files })
      | (files, .ok ()) =>
        match files.write (settingsPath dir) (Utf8.bytes template) with
        | .error err => (.error (.io err.message), { m with files := files })
        | .ok files' => (.ok (), { m with
            files := files', journal := m.journal ++ [.templateWritten (settingsPath dir)] }) := by
  simp only [makeDirectory, bind_runOn, get_runOn, modify_runOn, ofFileResult_runOn, report_runOn]
  rcases m.files.makeDirectories dir with ⟨files, err | u⟩
  · rfl
  · simp only [settingsPath, Except.mapError]
    cases files.write (Path.join dir fileName) (Utf8.bytes template) <;> rfl

theorem prepareDirectory_prepares (asked? : Option String) (m : Machine) :
    Prepares asked? m ((prepareDirectory asked?).runOn m).1 ((prepareDirectory asked?).runOn m).2 := by
  rw [prepareDirectory, bind_runOn, chooseDirectory_runOn]
  cases hdir : chosen? asked? m.home? with
  | none => exact .homeless hdir
  | some dir =>
    simp only [Option.elim_some, bind_runOn, get_runOn]
    by_cases hfound : m.files.contains dir
    · simp only [hfound]
      exact .found hdir hfound
    · rw [Bool.not_eq_true] at hfound
      simp only [hfound, Bool.not_false, if_true, bind_runOn, makeDirectory_runOn]
      rcases hmake : m.files.makeDirectories dir with ⟨files, err | u⟩
      · have h := Prepares.unmade hdir hfound (congrArg Prod.snd hmake)
        rwa [hmake] at h
      · dsimp only
        cases hwrite : files.write (settingsPath dir) (Utf8.bytes template) with
        | error err =>
          have h := @Prepares.unwritten asked? m dir err hdir hfound (congrArg Prod.snd hmake)
          rw [hmake] at h
          exact h hwrite
        | ok files' =>
          have h := @Prepares.made asked? m dir files' hdir hfound (congrArg Prod.snd hmake)
          rw [hmake] at h
          exact h hwrite

lemma prepares_of_runOn (h : (prepareDirectory asked?).runOn m = (r, m')) :
    Prepares asked? m r m' := by
  have hprepares := prepareDirectory_prepares asked? m
  rwa [h] at hprepares

lemma Prepares.frame (h : Prepares asked? m r m') :
    m' = { m with files := m'.files, journal := m'.journal } := by
  cases h <;> rfl

lemma Prepares.chosen (h : Prepares asked? m (.ok dir) m') : chosen? asked? m.home? = some dir := by
  cases h with
  | found h | made h => exact h

end Prepare

/-! ### What stays -/

/-- The settings file of a missing directory goes to a file that was there before: made as its path
says, the directory is one that was there. -/
structure FallsOn (fs : FileSystem) (dir : String) (loc : Location) (content : List UInt8) :
    Prop where
  missing : fs.contains dir = false
  made : (fs.makeDirectories dir).2 = .ok ()
  leads : ∃ e, (fs.makeDirectories dir).1.target true (settingsPath dir) = .ok (.present loc e)
  old : fs.get? loc = some (.file content)

/-- A path, and every link, only leads down. -/
structure Descends (fs : FileSystem) (dir : String) : Prop where
  named : dir ≠ ""
  path : ".." ∉ (Path.ofText dir).names
  links : LinksDescend fs

section Kept

variable {asked? : Option String} {m m' : Machine} {dir : String} {r : Except Failure String}
  {fs : FileSystem} {loc : Location} {content : List UInt8}

lemma contains_eq_false (h : fs.contains dir = false) (e : MemberRelay.Entry) :
    fs.stat? dir ≠ some e := by
  intro he
  simp [FileSystem.contains, he] at h

/-- Where everything leads down, the place for the settings file of a missing directory is free. -/
lemma FallsOn.not_descends (h : FallsOn fs dir loc content) (hroot : Rooted fs) :
    ¬Descends fs dir := by
  intro hdesc
  have hext := (makeDirectories_gains fs dir).toExtends
  obtain ⟨e, htarget⟩ := h.leads
  obtain ⟨p, hp, hwalk⟩ := target_eq_ok_iff.1 htarget
  obtain ⟨-, -, -, rfl⟩ := path?_eq_ok_iff.1 hp
  have hslash : '/' ∉ fileName.toList := by decide
  obtain ⟨front, stays, hnames, hstays, hjoin⟩ := ofText_join hdesc.named hslash
  have hstart : walkStart (fs.makeDirectories dir).1 (Path.ofText (settingsPath dir)) =
      walkStart fs (Path.ofText dir) := by
    rw [settingsPath, hjoin, walkStart, walkStart, hext.current]
  rw [hstart, settingsPath, hjoin] at hwalk
  have hdown : ".." ∉ front ++ [fileName] := by
    have hpath := hdesc.path
    rw [hnames, List.mem_append, not_or] at hpath
    simpa [hpath.1] using by decide
  have hold : fs.get? loc ≠ none := by simp [h.old]
  have hwas := hwalk.stays_old hext hroot hdesc.links hdown hold
  obtain ⟨d, links, hdir, -⟩ := hwas.split (List.cons_ne_nil _ _)
  have hthere := hdir.append_stays hstays
  rw [← hnames] at hthere
  apply contains_eq_false h.missing .directory
  exact stat?_eq_some_iff.2 ⟨d, target_eq_ok_iff.2 ⟨_, path?_of_join hdesc.named hp, hthere⟩⟩

/-- Only a file that the settings file falls on does not stay. -/
lemma Prepares.keeps (h : Prepares asked? m r m') (hold : m.files.get? loc = some (.file content)) :
    m'.files.get? loc = some (.file content) ∨
      (∃ dir, chosen? asked? m.home? = some dir ∧ FallsOn m.files dir loc content) ∧
        m'.files.get? loc = some (.file (Utf8.bytes template)) := by
  cases h with
  | homeless | found => exact .inl hold
  | @unmade dir => exact .inl ((makeDirectories_gains m.files dir).keeps loc _ hold)
  | @unwritten dir => exact .inl ((makeDirectories_gains m.files dir).keeps loc _ hold)
  | @made dir files h hmissing hmake hwrite =>
    have hmade := (makeDirectories_gains m.files dir).keeps loc _ hold
    obtain ⟨place, hw⟩ := write_spec hwrite
    dsimp only
    rw [hw.get?]
    by_cases hloc : loc = place
    · subst hloc
      rw [if_pos rfl]
      refine .inr ⟨⟨dir, h, hmissing, hmake, ?_, hold⟩, rfl⟩
      rcases hw.leads with ⟨old, htarget⟩ | htarget
      · exact ⟨_, htarget⟩
      · obtain ⟨p, -, hwalk⟩ := target_eq_ok_iff.1 htarget
        simp [hwalk.get?_absent.1] at hmade
    · rw [if_neg hloc]
      exact .inl hmade

/-- A file that the settings file falls on is replaced, and nothing fails. -/
lemma Prepares.replaces (h : Prepares asked? m r m') (hdir : chosen? asked? m.home? = some dir)
    (hfalls : FallsOn m.files dir loc content) :
    r = .ok dir ∧ m'.files.get? loc = some (.file (Utf8.bytes template)) := by
  have hmade := (makeDirectories_gains m.files dir).keeps loc _ hfalls.old
  obtain ⟨e, htarget⟩ := hfalls.leads
  obtain ⟨p, -, hwalk⟩ := target_eq_ok_iff.1 htarget
  have he := hwalk.get?_present
  rw [hmade] at he
  cases he
  have hwritten : (m.files.makeDirectories dir).1.write (settingsPath dir) (Utf8.bytes template) =
    .ok _ := write_present htarget
  have hloc : loc ≠ [] := by
    rintro rfl
    simp [FileSystem.get?] at hmade
  cases h with
  | homeless h => simp [h] at hdir
  | found h hfound =>
    obtain rfl := Option.some.inj (hdir.symm.trans h)
    simp [hfalls.missing] at hfound
  | unmade h _ hmake =>
    obtain rfl := Option.some.inj (hdir.symm.trans h)
    simp [hfalls.made] at hmake
  | unwritten h _ _ hwrite =>
    obtain rfl := Option.some.inj (hdir.symm.trans h)
    simp [hwritten] at hwrite
  | made h _ _ hwrite =>
    obtain rfl := Option.some.inj (hdir.symm.trans h)
    rw [hwritten] at hwrite
    cases hwrite
    exact ⟨rfl, by simp [get?_insert hloc]⟩

lemma Prepares.contains (h : Prepares asked? m (.ok dir) m') (hdir : dir ≠ "") :
    m'.files.contains dir := by
  generalize hr : Except.ok dir = r at h
  cases h with
  | homeless | unmade | unwritten => cases hr
  | found _ hfound =>
    cases hr
    exact hfound
  | made _ _ hmake hwrite =>
    cases hr
    obtain ⟨place, hw⟩ := write_spec hwrite
    have hthere := hw.preserves.stat? (makeDirectories_directory hdir hmake)
    simp [FileSystem.contains, hthere]

lemma Prepares.of_contains (h : Prepares asked? m r m') (hdir : chosen? asked? m.home? = some dir)
    (hthere : m.files.contains dir) : r = .ok dir ∧ m' = m := by
  cases h with
  | homeless h => simp [h] at hdir
  | found h =>
    obtain rfl := Option.some.inj (hdir.symm.trans h)
    exact ⟨rfl, rfl⟩
  | unmade h hmissing | unwritten h hmissing | made h hmissing =>
    obtain rfl := Option.some.inj (hdir.symm.trans h)
    simp [hthere] at hmissing

end Kept

/-- Preparing the settings directory keeps every file exactly if the settings file of a missing
directory falls on none that was there with other content. It falls on none where the directory has a
name and no path leads up. A directory that is there stays as it is, and so does one that has a name
once it was prepared. -/
theorem prepareDirectory_keeps_files_iff (asked? : Option String) (m : Machine) :
    let run := (prepareDirectory asked?).runOn m
    ((∀ loc content, m.files.get? loc = some (.file content) →
        run.2.files.get? loc = some (.file content)) ↔
      ∀ dir loc content, chosen? asked? m.home? = some dir → FallsOn m.files dir loc content →
        content = Utf8.bytes template) ∧
    (∀ dir, chosen? asked? m.home? = some dir → Rooted m.files → Descends m.files dir →
      ∀ loc content, m.files.get? loc = some (.file content) →
        run.2.files.get? loc = some (.file content)) ∧
    (∀ dir, chosen? asked? m.home? = some dir → m.files.contains dir → run = (.ok dir, m)) ∧
    ∀ dir, run.1 = .ok dir → dir ≠ "" → (prepareDirectory asked?).runOn run.2 = (.ok dir, run.2) := by
  intro run
  have hrun : Prepares asked? m run.1 run.2 := prepareDirectory_prepares asked? m
  refine ⟨⟨?_, ?_⟩, ?_, ?_, ?_⟩
  · intro hkept dir loc content hdir hfalls
    have hold := hkept loc content hfalls.old
    rw [(hrun.replaces hdir hfalls).2] at hold
    cases hold
    rfl
  · intro hsame loc content hold
    rcases hrun.keeps hold with hkept | ⟨⟨dir, hdir, hfalls⟩, htemplate⟩
    · exact hkept
    · rwa [hsame dir loc content hdir hfalls]
  · intro dir hdir hroot hdesc loc content hold
    rcases hrun.keeps hold with hkept | ⟨⟨dir', hdir', hfalls⟩, -⟩
    · exact hkept
    · obtain rfl := Option.some.inj (hdir.symm.trans hdir')
      exact absurd hdesc (hfalls.not_descends hroot)
  · intro dir hdir hthere
    exact Prod.ext_iff.2 (hrun.of_contains hdir hthere)
  · intro dir hok hname
    rw [hok] at hrun
    have hagain := prepareDirectory_prepares asked? run.2
    have hdir : chosen? asked? run.2.home? = some dir := by
      rw [hrun.frame]
      exact hrun.chosen
    exact Prod.ext_iff.2 (hagain.of_contains hdir (hrun.contains hname))

/-- In a home without links, what is there stays. -/
theorem prepareDirectory_keeps_notes :
    let m : Machine :=
      { files := { entries := [(["home"], .directory), (["home", "notes"], .file [1])] }
        home? := some "/home" }
    chosen? none m.home? = some "/home/.member-rpc" ∧ Rooted m.files ∧
      Descends m.files "/home/.member-rpc" ∧
      ((prepareDirectory none).runOn m).2.files.get? ["home", "notes"] = some (.file [1]) := by
  intro m
  have hdir : chosen? none m.home? = some "/home/.member-rpc" := by decide
  have hroot : Rooted m.files := rooted_of_entries (by decide)
  have hdesc : Descends m.files "/home/.member-rpc" :=
    { named := by decide
      path := by decide
      links := linksDescend_of_entries (by simp [m]) }
  exact ⟨hdir, hroot, hdesc,
    (prepareDirectory_keeps_files_iff none m).2.1 _ hdir hroot hdesc _ _ (by decide)⟩

lemma fallsOn_of_unnamed {content : List UInt8} :
    FallsOn { entries := [(["settings.toml"], .file content)] } "" ["settings.toml"] content where
  missing := rfl
  made := rfl
  leads := by
    have hpath : path? (settingsPath "") = .ok ⟨false, ["settings.toml"]⟩ := by decide
    exact ⟨_, target_eq_ok_iff.2 ⟨_, hpath, .down rfl isName_fileName rfl nofun (.arrive rfl)⟩⟩
  old := rfl

/-- A settings file in the current directory is replaced where the directory has no name. -/
theorem unnamed_directory_replaces_settings :
    let m : Machine := { files := { entries := [(["settings.toml"], .file [])] } }
    let run := (prepareDirectory (some "")).runOn m
    m.files.get? ["settings.toml"] = some (.file []) ∧ run.1 = .ok "" ∧
      run.2.files.get? ["settings.toml"] = some (.file (Utf8.bytes template)) ∧
      Utf8.bytes template ≠ [] := by
  intro m run
  have hrun : Prepares (some "") m run.1 run.2 := prepareDirectory_prepares (some "") m
  have hreplaced := hrun.replaces rfl fallsOn_of_unnamed
  refine ⟨rfl, hreplaced.1, hreplaced.2, ?_⟩
  intro hempty
  have hnone : template = "" := bytes_injective (hempty.trans (by decide))
  exact absurd hnone (by decide +kernel)

end MemberRelay.Proofs
