import LibreKV.Log.FileName

/-!
# LibreKV.Log.Records

What the log files of a program hold.

`LogSpec` is the log as one wants to think of it: a name and the records written so far, each
with the name of its file. A write of `LogSpec` has no buffers and opens nothing. Every run of
the functions of `log.c` is a run of `LogSpec` with the same calls and the same results
(`log_refines`), so what holds of its runs holds of the files. In particular a record is
complete and is written once, and the name of its file is a matter of the names before it.
-/

namespace LibreKV.Log

open CString CString.Buffer Fallible Transition

/-! ### Calls and their records -/

/-- The level that a call finds. -/
def Environment.levelSet (env : Environment) : UInt8 :=
  match env.config with
  | some content => levelRead content
  | none => LogLevel.inf

/-- Every bit of the call's level is set. -/
def LogCall.Logged (call : LogCall) : Prop :=
  call.loglevel &&& call.env.levelSet = call.loglevel

instance (call : LogCall) : Decidable call.Logged :=
  inferInstanceAs (Decidable (_ = _))

/-- The name of the call's level in a record. -/
def LogCall.levelName (call : LogCall) : List UInt8 :=
  match logLevelText call.loglevel with
  | .ok text => text
  | .error _ => []

/-- What a call is to add to its file. -/
def LogCall.record (call : LogCall) : List UInt8 :=
  ascii "[" ++ call.levelName ++ ascii "] [" ++ call.env.time.chars ++ ascii "]:[" ++ call.body

/-! ### The log without its buffers -/

/-- The name held for the next file, and the records with the names of their files. -/
structure LogSpec where
  held : List UInt8
  files : List LogFile

def LogSpec.initial : LogSpec := ⟨[], []⟩

/-- The name held after a call: the name built from `log.conf` covers the one before; without
`log.conf` a first name is built from the home directory. -/
def LogCall.nameAfter (call : LogCall) (held : List UInt8) : List UInt8 :=
  match call.env.config with
  | some content => overlay held (currentName call.env content)
  | none =>
    if held = [] ∧ call.Logged then
      match call.env.home with
      | some home => dayName call.env home.chars
      | none => []
    else held

/-- A log write and its result. -/
def LogSpec.write (s : LogSpec) (call : LogCall) : Int × LogSpec :=
  let held := call.nameAfter s.held
  if call.Logged ∧ call.env.appendable held = true then
    (0, ⟨held, s.files ++ [⟨held, call.record⟩]⟩)
  else (-1, ⟨held, s.files⟩)

/-- A write of the abstract log, with its result. -/
def SpecStep (s : LogSpec) (p : LogCall × Int) (s' : LogSpec) : Prop :=
  s.write p.1 = (p.2, s')

/-- A log write that returns, with its result. -/
def LogReturn (m : LogModule) (p : LogCall × Int) (m' : LogModule) : Prop :=
  p.1.run m = .ok (p.2, m')

/-- The module's state for the abstract log. -/
structure Abstracts (m : LogModule) (s : LogSpec) : Prop where
  held : m.logsetting.filepath.Holds s.held
  files : m.closed = s.files
  noneOpen : m.loging.logfile = none

theorem Abstracts.initial : Abstracts .initial .initial :=
  ⟨holds_zeroed (by decide), rfl, rfl⟩

/-! ### What a returning call has done -/

/-- The level is read anew in each call. -/
theorem getlogset_loglevel {env : Environment} {s s' : LogSet}
    (h : getlogset env s = .ok s') : s'.loglevel = env.levelSet := by
  obtain ⟨-, ⟨hnone, rfl⟩ | ⟨path, content, hcontent, hread, hconfig⟩⟩ := getlogset_eq_ok h
  · simp [Environment.levelSet, hnone, LogSet.default]
  · obtain ⟨-, hlevel, -⟩ := readConfig_eq_ok hread hconfig
    simp [Environment.levelSet, hcontent, hlevel]

theorem currentName_ne_nil (env : Environment) (content : List UInt8) :
    currentName env content ≠ [] := by
  simp [currentName, dayName, show ascii "/" = [47] from rfl]

/-- The name held after the settings were read, which is the last word when `log.conf` was
there. -/
theorem getlogset_name {call : LogCall} {s s' : LogSet} {held : List UInt8}
    (hheld : s.filepath.Holds held) (h : getlogset call.env s = .ok s') :
    ∃ t, s'.filepath.Holds t ∧ (¬ (t = [] ∧ call.Logged) → call.nameAfter held = t) ∧
      (t = [] ↔ held = [] ∧ call.env.config = none) := by
  rcases getlogset_holds hheld h with ⟨hnone, hkeep⟩ | ⟨content, hcontent, hholds⟩
  · refine ⟨held, hkeep ▸ hheld, fun hno => ?_, by simp [hnone]⟩
    simp only [LogCall.nameAfter, hnone, if_neg hno]
  · refine ⟨_, hholds, fun _ => ?_, ?_⟩
    · simp only [LogCall.nameAfter, hcontent, overlay]
    · simp [hcontent, currentName_ne_nil]

/-- A call up to its `fopen`: the abstract name is held, and it is the one to be opened. -/
theorem Abstracts.initlogName {m m' : LogModule} {s : LogSpec} {call : LogCall}
    {name? : Option (List UInt8)} (hm : Abstracts m s)
    (h : initlogName call.env call.loglevel m = .ok (name?, m')) :
    Abstracts m' ⟨call.nameAfter s.held, s.files⟩ ∧
      (¬ call.Logged ∧ name? = none ∨ call.Logged ∧ name? = some (call.nameAfter s.held) ∧
        m'.loging.logtime.text = call.env.time.chars) := by
  obtain ⟨set, hset, hrest⟩ := initlogName_eq_ok h
  obtain ⟨t, ht, hname, hempty⟩ := getlogset_name hm.held hset
  rw [getlogset_loglevel hset] at hrest
  rcases hrest with ⟨hbits, rfl, rfl⟩ | ⟨hbits, loging, set', name, htime, hhome, hopened, rfl, rfl⟩
  · have hunlogged : ¬ call.Logged := hbits
    -- `initlog` returns before its `memset`, so what was open stays as it was
    refine ⟨⟨?_, hm.files, hm.noneOpen⟩, Or.inl ⟨hunlogged, rfl⟩⟩
    rw [hname fun hno => hunlogged hno.2]
    exact ht
  · have hlogged : call.Logged := hbits
    have hheld : set'.filepath.Holds (call.nameAfter s.held) := by
      rcases homeName_holds ht hhome with ⟨hne, rfl⟩ | ⟨rfl, home, henv, hholds⟩
      · rw [hname fun hno => hne hno.1]
        exact ht
      -- no name yet: there was none before the call either, and `log.conf` gave none
      · obtain ⟨hheld, hconfig⟩ := hempty.mp rfl
        simp only [LogCall.nameAfter, hconfig, hheld, hlogged, henv, and_self, if_true]
        exact hholds
    obtain ⟨htext, hnoneOpen⟩ := settime_eq_ok htime
    refine ⟨⟨hheld, hm.files, hnoneOpen⟩, Or.inr ⟨hlogged, ?_, htext⟩⟩
    rw [← hopened, hheld.string?]

/-- A name that cannot be opened is not written to. -/
theorem not_written {m m' : LogModule} {s : LogSpec} {call : LogCall}
    {name? : Option (List UInt8)} (hm : Abstracts m s)
    (h : initlogName call.env call.loglevel m = .ok (name?, m'))
    (hno : ∀ name, name? = some name → call.env.appendable name = false) :
    ¬ (call.Logged ∧ call.env.appendable (call.nameAfter s.held) = true) := by
  rintro ⟨hlogged, happend⟩
  rcases (hm.initlogName h).2 with ⟨hunlogged, -⟩ | ⟨-, rfl, -⟩
  · exact hunlogged hlogged
  · rw [hno _ rfl] at happend
    cases happend

/-- **One write.** A log write that returns does what the abstract log does. -/
theorem Abstracts.step {m m' : LogModule} {s : LogSpec} {call : LogCall} {r : Int}
    (hm : Abstracts m s) (h : call.run m = .ok (r, m')) :
    ∃ s', s.write call = (r, s') ∧ Abstracts m' s' := by
  obtain ⟨r₁, m₂, hinit, hrest⟩ := run_eq_ok h
  obtain ⟨name?, m₁, hname, hopened⟩ := initlog_eq_ok hinit
  obtain ⟨hm₁, hspec⟩ := hm.initlogName hname
  rcases hopened with ⟨hno, rfl, rfl⟩ | ⟨name, text, rfl, happend, htext, rfl, rfl⟩
  -- `initlog` failed: no record, but the settings it read stay
  · rcases hrest with ⟨-, rfl, rfl⟩ | ⟨hr, -⟩
    · refine ⟨⟨call.nameAfter s.held, s.files⟩, ?_, hm₁⟩
      rw [LogSpec.write, if_neg (not_written hm hname hno)]
    · exact absurd hr (by decide)
  -- the file was opened: the header and the message make one record
  · rcases hrest with ⟨hr, -⟩ | ⟨-, rfl, file, hfile, rfl⟩
    · exact absurd rfl hr
    · obtain rfl := Option.some.inj hfile
      rcases hspec with ⟨-, hnone⟩ | ⟨hlogged, hsome, htime⟩
      · cases hnone
      · obtain rfl := Option.some.inj hsome
        refine ⟨_, if_pos ⟨hlogged, happend⟩, ⟨hm₁.held, ?_, rfl⟩⟩
        · have hrecord : logHeader text m₁.loging.logtime ++ call.body = call.record := by
            simp only [logHeader, LogCall.record, LogCall.levelName, htext, htime]
          show m₁.closed ++ [_] = s.files ++ [_]
          rw [hm₁.files, hrecord]

/-! ### Runs of the abstract log -/

/-- The calls of a run that returned 0. -/
def logged (log : List (LogCall × Int)) : List LogCall :=
  (log.filter fun p => p.2 = 0).map Prod.fst

/-- The names built from `log.conf` in a run, in the order of the calls. -/
def configNames (log : List (LogCall × Int)) : List (List UInt8) :=
  log.filterMap fun p => p.1.env.config.map (currentName p.1.env)

/-- The name that a logged call builds in the home directory. -/
def LogCall.homeName? (call : LogCall) : Option (List UInt8) :=
  if call.Logged then call.env.home.map fun home => dayName call.env home.chars else none

/-- The name built by the first logged call that had no `log.conf`, if no call before it had one;
empty, if there is no such call. Without a home directory such a call does not return, so it is
not in the log of a run. -/
def firstName (log : List (LogCall × Int)) : List UInt8 :=
  ((log.takeWhile fun p => p.1.env.config.isNone).findSome? fun p => p.1.homeName?).getD []

section Spec

variable {log : List (LogCall × Int)} {s s' : LogSpec} {p : LogCall × Int}

theorem logged_snoc (log : List (LogCall × Int)) (p : LogCall × Int) :
    logged (log ++ [p]) = logged log ++ if p.2 = 0 then [p.1] else [] := by
  by_cases hp : p.2 = 0
  · simp [logged, hp]
  · simp [logged, hp]

/-- One step of the abstract log: a record for a result of 0, and nothing else. -/
theorem SpecStep.files (h : SpecStep s p s') : s'.held = p.1.nameAfter s.held ∧
    s'.files = s.files ++ if p.2 = 0 then [⟨s'.held, p.1.record⟩] else [] := by
  obtain ⟨call, r⟩ := p
  unfold SpecStep LogSpec.write at h
  dsimp only at h
  by_cases hwrite : call.Logged ∧ call.env.appendable (call.nameAfter s.held) = true
  · rw [if_pos hwrite] at h
    obtain ⟨rfl, rfl⟩ := Prod.mk.inj h
    exact ⟨rfl, rfl⟩
  · rw [if_neg hwrite] at h
    obtain ⟨rfl, rfl⟩ := Prod.mk.inj h
    exact ⟨rfl, (List.append_nil _).symm⟩

/-- The records of a run, whatever their files. -/
theorem spec_records (h : Run SpecStep .initial log s) :
    s.files.map LogFile.written = (logged log).map LogCall.record := by
  induction h with
  | nil => rfl
  | @snoc log s s' p _ hstep ih =>
      rw [(SpecStep.files hstep).2, List.map_append, ih, logged_snoc, List.map_append]
      by_cases hp : p.2 = 0
      · simp [hp]
      · simp [hp]

/-- A call reads the directory `dir` from `log.conf`, and its date has ten characters. -/
structure ReadsDirectory (dir : List UInt8) (call : LogCall) : Prop where
  config : ∃ content, call.env.config = some content ∧ pathRead content = dir
  date : call.env.date.chars.length = 10

/-- Names of one directory have one length, so each covers the one before. -/
theorem nameAfter_of_directory {dir held : List UInt8} {call : LogCall}
    (hcall : ReadsDirectory dir call) (hheld : held.length ≤ dir.length + 15) :
    call.nameAfter held = dayName call.env dir ∧
      (dayName call.env dir).length = dir.length + 15 := by
  obtain ⟨⟨content, hconfig, rfl⟩, hdate⟩ := hcall
  have hlength : (dayName call.env (pathRead content)).length = (pathRead content).length + 15 := by
    rw [dayName, List.length_append, List.length_append, List.length_append, hdate]
    rfl
  refine ⟨?_, hlength⟩
  simp only [LogCall.nameAfter, hconfig, currentName]
  exact overlay_of_length_le (by omega)

/-- While the directory stays the same, each record is in the file of its day. -/
theorem spec_files_of_directory {dir : List UInt8} (h : Run SpecStep .initial log s)
    (hdir : ∀ p ∈ log, ReadsDirectory dir p.1) :
    s.held.length ≤ dir.length + 15 ∧
      s.files = (logged log).map fun call => ⟨dayName call.env dir, call.record⟩ := by
  induction h with
  | nil => exact ⟨Nat.zero_le _, rfl⟩
  | @snoc log s s' p _ hstep ih =>
      obtain ⟨hlength, hfiles⟩ := ih fun q hq => hdir q (List.mem_append_left _ hq)
      have hp := hdir p (List.mem_append_right _ (List.mem_singleton_self p))
      obtain ⟨hname, hday⟩ := nameAfter_of_directory hp hlength
      obtain ⟨hheld, hfiles'⟩ := SpecStep.files hstep
      rw [hname] at hheld
      refine ⟨by rw [hheld, hday], ?_⟩
      rw [hfiles', hfiles, logged_snoc, List.map_append, hheld]
      by_cases hr : p.2 = 0
      · simp [hr]
      · simp [hr]

/-- A name built from `log.conf` is longer than an empty one, so it leaves a name. -/
theorem foldl_overlay_eq_nil {first : List UInt8} :
    (configNames log).foldl overlay first = [] ↔ configNames log = [] ∧ first = [] := by
  constructor
  · intro h
    have hnames : configNames log = [] := by
      cases hnames : configNames log with
      | nil => rfl
      | cons name names =>
          have hmem : name ∈ configNames log := by simp [hnames]
          obtain ⟨p, -, hp⟩ := List.mem_filterMap.mp hmem
          obtain ⟨content, -, rfl⟩ := Option.map_eq_some_iff.mp hp
          have hle := length_le_foldl_overlay names (overlay first (currentName p.1.env content))
          rw [hnames, List.foldl_cons] at h
          rw [h, length_overlay, List.length_nil] at hle
          have hpos := List.length_pos_iff.mpr (currentName_ne_nil p.1.env content)
          omega
    rw [hnames] at h
    exact ⟨hnames, h⟩
  · rintro ⟨hnames, rfl⟩
    rw [hnames]
    rfl

theorem homeName?_ne_some_nil (call : LogCall) : call.homeName? ≠ some [] := by
  unfold LogCall.homeName?
  split
  · simp [dayName, show ascii "/" = [47] from rfl]
  · simp

/-- One more call gives the first name only when there is no name yet, from `log.conf` or from
the home directory, and it has no `log.conf` itself. -/
theorem firstName_snoc (log : List (LogCall × Int)) (p : LogCall × Int) :
    firstName (log ++ [p]) =
      if p.1.env.config = none ∧ configNames log = [] ∧ firstName log = [] then
        p.1.homeName?.getD []
      else firstName log := by
  have hconfig : (∀ q ∈ log, q.1.env.config.isNone = true) ↔ configNames log = [] := by
    simp [configNames, List.filterMap_eq_nil_iff]
  by_cases hnames : configNames log = []
  · have hall := List.takeWhile_eq_self_iff.mpr (hconfig.mpr hnames)
    simp only [firstName, List.takeWhile_append_of_pos (hconfig.mpr hnames), hall,
      List.findSome?_append]
    by_cases hp : p.1.env.config = none
    · cases hfirst : log.findSome? fun q => q.1.homeName? with
      | none => simp [hp, hnames]
      | some name =>
          have hne : name ≠ [] := by
            rintro rfl
            obtain ⟨q, -, hq⟩ := List.exists_of_findSome?_eq_some hfirst
            exact homeName?_ne_some_nil q.1 hq
          simp [hne]
    · have hsome : p.1.env.config.isNone = false := by
        rw [Option.isNone_eq_false_iff, Option.isSome_iff_ne_none]
        exact hp
      simp [hp, hsome]
  -- the search has stopped at a call before
  · have hstop : (log.takeWhile fun q => q.1.env.config.isNone).length ≠ log.length := by
      intro hlength
      have hall := (List.takeWhile_prefix _).eq_of_length hlength
      exact hnames (hconfig.mp (List.takeWhile_eq_self_iff.mp hall))
    rw [if_neg fun hno => hnames hno.2.1, firstName, List.takeWhile_append, if_neg hstop, firstName]

/-- The name held is the first one with all the names of `log.conf` copied over it. -/
theorem spec_held (h : Run SpecStep .initial log s) :
    s.held = (configNames log).foldl overlay (firstName log) := by
  induction h with
  | nil => rfl
  | @snoc log s s' p _ hstep hheld =>
      have hheld' := (SpecStep.files hstep).1
      unfold LogCall.nameAfter at hheld'
      cases hconfig : p.1.env.config with
      | some content =>
          -- one more name is copied over the one held
          simp only [hconfig] at hheld'
          rw [hheld', firstName_snoc, if_neg (by simp [hconfig]), configNames,
            List.filterMap_append, List.foldl_append, ← configNames, ← hheld]
          simp [hconfig]
      | none =>
          have hnames : configNames (log ++ [p]) = configNames log := by
            simp [configNames, hconfig]
          simp only [hconfig] at hheld'
          rw [hnames, firstName_snoc]
          by_cases hempty : s.held = []
          -- there is no name before, so this call may give the first one
          · obtain ⟨hno, hfirst⟩ := foldl_overlay_eq_nil.mp (hheld.symm.trans hempty)
            rw [if_pos ⟨hconfig, hno, hfirst⟩, hno, hheld', hempty, LogCall.homeName?]
            by_cases hlogged : p.1.Logged
            · cases hhome : p.1.env.home <;> simp [hlogged]
            · simp [hlogged]
          · rw [if_neg fun hno => hempty (hheld.trans (foldl_overlay_eq_nil.mpr hno.2)),
              hheld', if_neg fun hno => hempty hno.1, hheld]

end Spec

/-! ### Runs of log writes -/

section Results

variable {log : List (LogCall × Int)} {m : LogModule}

/-- Every run of log writes is a run of the abstract log. -/
theorem abstracts_of_run (hrun : Run LogReturn .initial log m) :
    ∃ s, Run SpecStep .initial log s ∧ Abstracts m s :=
  hrun.simulate Abstracts.initial fun _ _ _ _ hm hstep => hm.step hstep

/-- Log writes whose results can be computed are a run. -/
theorem exists_run_of_isSome
    (h : (log.foldlM (returned fun m call => call.run m) LogModule.initial).isSome = true) :
    ∃ m, Run LogReturn .initial log m := by
  obtain ⟨m, hm⟩ := Option.isSome_iff_exists.mp h
  exact ⟨m, .of_returned hm⟩

theorem run_two_directories :
    ∃ m, Run LogReturn .initial [(firstCall, 0), (callIn (ascii "/l"), 0)] m :=
  exists_run_of_isSome (by decide +kernel)

theorem run_one_directory :
    ∃ m, Run LogReturn .initial [(firstCall, 0), (callIn (ascii "/log"), 0)] m :=
  exists_run_of_isSome (by decide +kernel)

/-- **The log refines its abstraction.** Every run of log writes is a run of the abstract log
with the same calls and the same results; at its end the files closed are the abstract ones,
the name held is the abstract one, and no file is open. -/
theorem log_refines (hrun : Run LogReturn .initial log m) :
    ∃ s, Run SpecStep .initial log s ∧ m.closed = s.files ∧
      m.logsetting.filepath.Holds s.held ∧ m.loging.logfile = none := by
  obtain ⟨s, hspec, hm⟩ := abstracts_of_run hrun
  exact ⟨s, hspec, hm.files, hm.held, hm.noneOpen⟩

theorem log_refines_example : ∃ m s,
    Run LogReturn .initial [(firstCall, 0), (callIn (ascii "/l"), 0)] m ∧
      Run SpecStep .initial [(firstCall, 0), (callIn (ascii "/l"), 0)] s ∧ m.closed = s.files := by
  obtain ⟨m, hrun⟩ := run_two_directories
  obtain ⟨s, hspec, hfiles, -⟩ := log_refines hrun
  exact ⟨m, s, hrun, hspec, hfiles⟩

/-- **Records are complete, in order, and written once.** Over any run, what was written to the
files is the records of the calls that returned 0, in the order of the calls; a call that
returned anything else has written nothing. -/
theorem records_of_run (hrun : Run LogReturn .initial log m) :
    m.closed.map LogFile.written = (logged log).map LogCall.record := by
  obtain ⟨s, hspec, hm⟩ := abstracts_of_run hrun
  rw [hm.files, spec_records hspec]

/-- Two records, although the name of the second file is garbled. -/
theorem records_of_run_example : ∃ m,
    Run LogReturn .initial [(firstCall, 0), (callIn (ascii "/l"), 0)] m ∧
      m.closed.map LogFile.written =
        [ascii "[INF] [2016-10-25 12:00:00]:[started]\n",
          ascii "[INF] [2016-10-25 12:00:00]:[started]\n"] := by
  obtain ⟨m, hrun⟩ := run_two_directories
  refine ⟨m, hrun, (records_of_run hrun).trans ?_⟩
  decide

/-- **A log stays in its directory.** As long as every call reads the same directory from
`log.conf`, each record is in the file of this directory and of the day of its call. -/
theorem files_of_directory (hrun : Run LogReturn .initial log m) {dir : List UInt8}
    (hdir : ∀ p ∈ log, ReadsDirectory dir p.1) :
    m.closed = (logged log).map fun call => ⟨dayName call.env dir, call.record⟩ := by
  obtain ⟨s, hspec, hm⟩ := abstracts_of_run hrun
  rw [hm.files, (spec_files_of_directory hspec hdir).2]

/-- Two calls with the directory `/log`. -/
theorem files_of_directory_example : ∃ m,
    Run LogReturn .initial [(firstCall, 0), (callIn (ascii "/log"), 0)] m ∧
      m.closed.map LogFile.name = [ascii "/log/2016-10-25.log", ascii "/log/2016-10-25.log"] := by
  obtain ⟨m, hrun⟩ := run_one_directory
  have hchars : ∀ b ∈ ascii "/log", b ≠ 0 ∧ isSpace b = false := by decide +kernel
  have hcall : ReadsDirectory (ascii "/log") (callIn (ascii "/log")) :=
    ⟨⟨_, config_confEnvironment _, pathRead_line (by decide) hchars _⟩, rfl⟩
  have hdir : ∀ p ∈ [(firstCall, (0 : Int)), (callIn (ascii "/log"), 0)],
      ReadsDirectory (ascii "/log") p.1 := by
    intro p hp
    simp only [List.mem_cons, List.not_mem_nil, or_false] at hp
    rcases hp with rfl | rfl
    · exact hcall
    · exact hcall
  refine ⟨m, hrun, ?_⟩
  rw [files_of_directory hrun hdir]
  decide

/-- **What the name is made of.** After any run, each character of the name held is that of the
last name built from `log.conf` that was long enough to reach it; where none was, it is that of
the name that the first logged call without `log.conf` built in the home directory, if no call
before it had a `log.conf`. -/
theorem name_chars (hrun : Run LogReturn .initial log m) (i : ℕ) :
    m.logsetting.filepath.text[i]? =
      (((configNames log).reverse.find? fun name => i < name.length).getD (firstName log))[i]? := by
  obtain ⟨s, hspec, hm⟩ := abstracts_of_run hrun
  rw [hm.held.text, spec_held hspec, getElem?_foldl_overlay]

/-- A write without `log.conf`. -/
def homeCall (home : Str) : LogCall :=
  ⟨{ confEnvironment [] with access := fun _ => false, home := some home },
    LogLevel.inf, .bytes (ascii "started]\n") 9⟩

/-- The home directory of the superuser. -/
def rootHome : Str := ⟨ascii "/root", by decide⟩

/-- Writes with two home directories, and one with a shorter directory in `log.conf`. -/
def homeLog : List (LogCall × Int) :=
  [(homeCall rootHome, 0), (homeCall ⟨ascii "/home/me", by decide⟩, 0), (callIn (ascii "/l"), 0)]

/-- The last three letters of the name are those of the first home directory's. -/
theorem name_chars_example : ∃ m, Run LogReturn .initial homeLog m ∧
    m.logsetting.filepath.text[16]? = some 'g'.toUInt8 ∧
    m.logsetting.filepath.text[17]? = some 'l'.toUInt8 ∧
    m.logsetting.filepath.text[20]? = none := by
  obtain ⟨m, hrun⟩ : ∃ m, Run LogReturn .initial homeLog m :=
    exists_run_of_isSome (by decide +kernel)
  have hnames : configNames homeLog = [ascii "/l/2016-10-25.log"] := by decide
  have hfirst : firstName homeLog = ascii "/root/2016-10-25.log" := by decide
  refine ⟨m, hrun, ?_⟩
  rw [name_chars hrun, name_chars hrun, name_chars hrun, hnames, hfirst]
  exact ⟨rfl, rfl, rfl⟩

end Results

end LibreKV.Log
