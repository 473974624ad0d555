import MemberRelay.Proofs.Settings.Loaded

/-!
# When the settings are fixed

Settings are fixed by one run through all stages of loading. Every stage has one kind of failure, and
a stage that fails leaves the settings as they were.
-/

namespace MemberRelay.Proofs
open Settings FileSystem

/-- All that loading needs: a directory, a file of text in it, settings in the text, and that none
are fixed. -/
structure Settles (asked? : Option String) (m : Machine) (dir text : String) (s : Settings) :
    Prop where
  prepared : ((prepareDirectory asked?).runOn m).1 = .ok dir
  read : ((prepareDirectory asked?).runOn m).2.files.readText (settingsPath dir) = .ok text
  parsed : parse text = .ok s
  unset : m.cell.value? = none

inductive LoadStage where
  | home
  | directory
  | template
  | reading
  | parsing
  | fixing

/-- The stage that fails, and what it fails with. -/
inductive FailsAt (asked? : Option String) (m : Machine) : LoadStage → Failure → Prop where
  | homeless (h : chosen? asked? m.home? = none) :
      FailsAt asked? m .home (.io "home directory not found")
  | unmade {dir : String} {err : FileError} (h : chosen? asked? m.home? = some dir)
      (hmissing : m.files.contains dir = false)
      (hmake : (m.files.makeDirectories dir).2 = .error err) :
      FailsAt asked? m .directory (.io err.message)
  | unwritten {dir : String} {err : FileError} (h : chosen? asked? m.home? = some dir)
      (hmissing : m.files.contains dir = false) (hmake : (m.files.makeDirectories dir).2 = .ok ())
      (hwrite : (m.files.makeDirectories dir).1.write (settingsPath dir) (Utf8.bytes template) =
        .error err) :
      FailsAt asked? m .template (.io err.message)
  | unread {dir : String} {err : FileError}
      (h : ((prepareDirectory asked?).runOn m).1 = .ok dir)
      (hread : ((prepareDirectory asked?).runOn m).2.files.readText (settingsPath dir) =
        .error err) :
      FailsAt asked? m .reading (.io err.message)
  | unparsed {dir text : String} {f : Failure}
      (h : ((prepareDirectory asked?).runOn m).1 = .ok dir)
      (hread : ((prepareDirectory asked?).runOn m).2.files.readText (settingsPath dir) = .ok text)
      (hparse : parse text = .error f) :
      FailsAt asked? m .parsing f
  | late {dir text : String} {s : Settings}
      (h : ((prepareDirectory asked?).runOn m).1 = .ok dir)
      (hread : ((prepareDirectory asked?).runOn m).2.files.readText (settingsPath dir) = .ok text)
      (hparse : parse text = .ok s) (hset : m.cell.value? ≠ none) :
      FailsAt asked? m .fixing (.config "global settings already initialized")

section Stages

variable {asked? : Option String} {m m' : Machine} {dir text : String} {s : Settings} {f g : Failure}
  {stage stage' : LoadStage}

lemma set_of_value (h : m.cell.value? ≠ none) :
    m.cell.set s = .error (.config "global settings already initialized") := by
  obtain ⟨v, hv⟩ := Option.ne_none_iff_exists'.1 h
  rw [Cell.set, hv]

lemma Settles.unique {dir' text' : String} {s' : Settings} (h : Settles asked? m dir text s)
    (h' : Settles asked? m dir' text' s') : dir = dir' ∧ text = text' ∧ s = s' := by
  obtain rfl := Except.ok.inj (h.prepared.symm.trans h'.prepared)
  obtain rfl := Except.ok.inj (h.read.symm.trans h'.read)
  exact ⟨rfl, rfl, Except.ok.inj (h.parsed.symm.trans h'.parsed)⟩

lemma Prepares.fails_unmade {r : Except Failure String} {err : FileError}
    (h : Prepares asked? m r m') (hdir : chosen? asked? m.home? = some dir)
    (hmissing : m.files.contains dir = false) (hmake : (m.files.makeDirectories dir).2 = .error err) :
    r = .error (.io err.message) := by
  cases h with
  | homeless h => simp [h] at hdir
  | found h hfound =>
    obtain rfl := Option.some.inj (hdir.symm.trans h)
    simp [hmissing] at hfound
  | unmade h _ herror =>
    obtain rfl := Option.some.inj (hdir.symm.trans h)
    rw [hmake] at herror
    cases herror
    rfl
  | unwritten h _ hok | made h _ hok =>
    obtain rfl := Option.some.inj (hdir.symm.trans h)
    simp [hmake] at hok

lemma result_of_unprepared (h : ((prepareDirectory asked?).runOn m).1 = .error f) :
    ((loadGlobal asked?).runOn m).1 = .error f := by
  rw [loadGlobal, bind_runOn]
  rcases hrun : (prepareDirectory asked?).runOn m with ⟨f' | dir, m'⟩
  · rw [hrun] at h
    exact congrArg _ (Except.error.inj h)
  · rw [hrun] at h
    cases h

/-- Once there is a directory, its file, the text in it and the cell decide. -/
lemma result_of_prepared (h : ((prepareDirectory asked?).runOn m).1 = .ok dir) :
    ((loadGlobal asked?).runOn m).1 =
      (((prepareDirectory asked?).runOn m).2.files.readText (settingsPath dir)).mapError
          (fun err => .io err.message) >>= fun text =>
        parse text >>= fun s => (m.cell.set s).map fun _ => () := by
  rcases hrun : (prepareDirectory asked?).runOn m with ⟨f' | dir', m'⟩
  · rw [hrun] at h
    cases h
  · obtain rfl := Except.ok.inj ((congrArg Prod.fst hrun).symm.trans h)
    have hcell : m'.cell = m.cell := by rw [(prepares_of_runOn hrun).frame]
    rw [loadGlobal, bind_runOn, hrun]
    simp only [bind_runOn, load_runOn, report_runOn, fix_runOn]
    rw [← hcell]
    cases m'.files.readText (settingsPath dir') with
    | error err => rfl
    | ok text =>
      cases hparse : parse text with
      | error f => simp [Except.mapError, bind, Except.bind, hparse]
      | ok s =>
        simp only [Except.mapError, bind, Except.bind, hparse]
        cases m'.cell.set s <;> rfl

/-- A stage that fails ends the loading. -/
lemma FailsAt.result (h : FailsAt asked? m stage f) :
    ((loadGlobal asked?).runOn m).1 = .error f := by
  cases h with
  | homeless h =>
    apply result_of_unprepared
    rw [prepareDirectory, bind_runOn, chooseDirectory_runOn, h]
    rfl
  | @unmade dir err h hmissing hmake =>
    apply result_of_unprepared
    exact (prepareDirectory_prepares asked? m).fails_unmade h hmissing hmake
  | @unwritten dir err h hmissing hmake hwrite =>
    apply result_of_unprepared
    exact (prepareDirectory_prepares asked? m).fails_unwritten h hmissing hmake hwrite
  | unread h hread =>
    rw [result_of_prepared h, hread]
    rfl
  | unparsed h hread hparse =>
    rw [result_of_prepared h, hread]
    simp [Except.mapError, bind, Except.bind, hparse]
  | late h hread hparse hset =>
    rw [result_of_prepared h, hread]
    simp only [Except.mapError, bind, Except.bind, hparse, set_of_value hset]
    rfl

end Stages

end MemberRelay.Proofs
