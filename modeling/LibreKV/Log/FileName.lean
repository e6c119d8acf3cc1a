import LibreKV.Log.Write

/-!
# LibreKV.Log.FileName

Which file a log write opens.

The name in `logsetting.filepath` stays from call to call. `ReadConfig` copies a new name over
it without the terminating zero, so a longer old name shows behind the new one. The invariant
is that nothing but zeros stands behind the name held; from it follows what a copy leaves, and
that the name opened is the one `ReadConfig` built exactly when the name held before was not
longer.
-/

namespace LibreKV.Log

open CString CString.Buffer Fallible Transition

/-- What `getcwd` leaves in the cleared buffer of `getlogset`. -/
def Environment.cwdRead (env : Environment) : List UInt8 :=
  match env.cwd with
  | some cwd => if cwd.chars.length < maxFilePath then cwd.chars else []
  | none => []

/-- The content of `log.conf`, when it is there and can be read. -/
def Environment.config (env : Environment) : Option (List UInt8) :=
  let path := env.cwdRead ++ ascii "/log.conf"
  if env.access path then env.readable path else none

/-- The path that is read from the content of `log.conf`. -/
def pathRead (content : List UInt8) : List UInt8 :=
  upToZero ((scanWord (ascii "path=") content).1.getD [])

/-- The level that is set by the content of `log.conf`. -/
def levelRead (content : List UInt8) : UInt8 :=
  let rest := (scanWord (ascii "path=") content).2
  getcode (upToZero ((scanWord (ascii "level=") rest).1.getD []))

/-- The name of the day's log file in a directory. -/
def dayName (env : Environment) (directory : List UInt8) : List UInt8 :=
  directory ++ ascii "/" ++ (env.date.chars ++ ascii ".log")

/-- The name to be opened after `log.conf` was read. -/
def currentName (env : Environment) (content : List UInt8) : List UInt8 :=
  dayName env (pathRead content)

/-- A `path` line is read as it is written, whatever follows it. -/
theorem pathRead_line {path : List UInt8} (hne : path ≠ [])
    (hpath : ∀ b ∈ path, b ≠ 0 ∧ isSpace b = false) (rest : List UInt8) :
    pathRead (ascii "path=" ++ (path ++ '\n'.toUInt8 :: rest)) = path := by
  rw [pathRead, scanWord_line _ hne (fun b hb => (hpath b hb).2) rfl, Option.getD_some]
  exact upToZero_of_notMem fun hzero => (hpath 0 hzero).1 rfl

theorem zero_notMem_dayName {env : Environment} {directory : List UInt8} (h : 0 ∉ directory) :
    0 ∉ dayName env directory := by
  have hslash : 0 ∉ ascii "/" := by decide
  have hlog : 0 ∉ ascii ".log" := by decide
  simp [dayName, h, hslash, hlog, env.date.nonzero]

theorem zero_notMem_currentName (env : Environment) (content : List UInt8) :
    0 ∉ currentName env content := zero_notMem_dayName (zero_notMem_upToZero _)

/-! ### The steps of a call -/

/-- The day's file name, in the buffers of `ReadConfig` and `initlog`. -/
theorem getdate_log {n : ℕ} {env : Environment} {date date' date'' : Buffer n}
    (hdate : getdate env date = .ok date') (hlog : date'.strcat (ascii ".log") = some date'') :
    date''.text = env.date.chars ++ ascii ".log" := by
  rw [text_strcat (by decide) hlog, text_strcpy (inBounds_eq_ok.mp hdate),
    upToZero_of_notMem env.date.nonzero]

/-- The word stored in a cleared buffer. -/
theorem storeWord_text {n : ℕ} (hn : 0 < n) {word : Option (List UInt8)} {value : Buffer n}
    (h : storeWord (.zeroed n) word = .ok value) : value.text = upToZero (word.getD []) := by
  cases word with
  | none =>
      obtain rfl := Except.ok.inj h
      exact (holds_zeroed hn).text
  | some word => exact text_strcpy (inBounds_eq_ok.mp h)

/-- What `ReadConfig` does when the file can be read: the level is the one in it, and the name
it built is the one held already, or it is copied over that one. -/
theorem readConfig_eq_ok {env : Environment} {path content : List UInt8} {s s' : LogSet}
    {r : UInt8} (hread : env.readable path = some content)
    (h : readConfig env path s = .ok (r, s')) :
    r = 0 ∧ s'.loglevel = levelRead content ∧ (currentName env content).length < maxFilePath ∧
      (currentName env content = s.filepath.text ∧ s'.filepath = s.filepath ∨
        s.filepath.memcpy (currentName env content) = some s'.filepath) := by
  simp only [readConfig, hread] at h
  obtain ⟨value, hvalue, h⟩ := bind_eq_ok.mp h
  obtain ⟨date, hdate, h⟩ := bind_eq_ok.mp h
  obtain ⟨date', hlog, h⟩ := bind_eq_ok.mp h
  obtain ⟨value₁, hslash, h⟩ := bind_eq_ok.mp h
  obtain ⟨value₂, hname, h⟩ := bind_eq_ok.mp h
  obtain ⟨filepath, hcopy, h⟩ := bind_eq_ok.mp h
  obtain ⟨levelValue, hlevel, h⟩ := bind_eq_ok.mp h
  obtain ⟨rfl, rfl⟩ := Prod.mk.inj (Except.ok.inj h)
  have hdaylog := getdate_log hdate (inBounds_eq_ok.mp hlog)
  have hstring := string?_strcat date'.zero_notMem_text (inBounds_eq_ok.mp hname)
  rw [text_strcat (by decide) (inBounds_eq_ok.mp hslash), storeWord_text (by decide) hvalue,
    hdaylog] at hstring
  obtain ⟨hzero, htext⟩ := string?_eq_some.mp hstring
  have htext : value₂.text = currentName env content := htext
  rw [htext, storeName] at hcopy
  have hcode : getcode levelValue.text = levelRead content := by
    rw [storeWord_text (by decide) hlevel]
    rfl
  refine ⟨rfl, hcode, htext ▸ length_text_lt hzero, ?_⟩
  split at hcopy
  · exact Or.inr (inBounds_eq_ok.mp hcopy)
  · next heq =>
    obtain rfl := Except.ok.inj hcopy
    exact Or.inl ⟨not_not.mp heq, rfl⟩

/-- A null of `getcwd` leaves an empty string. -/
theorem getcwd_string (env : Environment) :
    ((getcwd env (.zeroed maxFilePath)).getD (.zeroed maxFilePath)).string? =
      some env.cwdRead := by
  have hempty := string?_zeroed (n := maxFilePath) (by decide)
  unfold getcwd Environment.cwdRead
  cases env.cwd with
  | none => exact hempty
  | some cwd =>
      dsimp only [Option.bind_some]
      cases hcopy : (zeroed maxFilePath).strcpy cwd.chars with
      | some path =>
          rw [if_pos (length_lt_of_strcpy hcopy), Option.getD_some, string?_strcpy hcopy,
            upToZero_of_notMem cwd.nonzero]
      | none =>
          -- the name does not fit
          have hlong : ¬ cwd.chars.length < maxFilePath := by
            intro hlt
            obtain ⟨path, hpath⟩ := (zeroed maxFilePath).exists_strcpy hlt
            rw [hcopy] at hpath
            cases hpath
          rw [if_neg hlong, Option.getD_none]
          exact hempty

/-- What `getlogset` does: without a `log.conf` that can be read it sets the defaults, and else
it returns what `ReadConfig` made of the settings. -/
theorem getlogset_eq_ok {env : Environment} {s s' : LogSet} (h : getlogset env s = .ok s') :
    env.cwdRead.length ≤ 502 ∧
      (env.config = none ∧ s' = s.default ∨
        ∃ path content, env.config = some content ∧ env.readable path = some content ∧
          readConfig env path s = .ok (0, s')) := by
  obtain ⟨path, hconf, h⟩ := bind_eq_ok.mp h
  have hstring := string?_strcat (by decide) (inBounds_eq_ok.mp hconf)
  rw [(string?_eq_some.mp (getcwd_string env)).2] at hstring
  obtain ⟨hzero, htext⟩ := string?_eq_some.mp hstring
  have hlength := length_text_lt hzero
  rw [htext, List.length_append] at hlength
  refine ⟨Nat.le_of_lt_succ (Nat.lt_of_add_lt_add_right hlength), ?_⟩
  rw [htext] at h
  by_cases haccess : env.access (env.cwdRead ++ ascii "/log.conf") = true
  · rw [if_pos haccess] at h
    obtain ⟨⟨r, s₁⟩, hread, h⟩ := bind_eq_ok.mp h
    cases hcontent : env.readable (env.cwdRead ++ ascii "/log.conf") with
    | none =>
        -- `access` found the file and `fopen` did not: the defaults, as without a file
        rw [readConfig, hcontent] at hread
        obtain ⟨rfl, rfl⟩ := Prod.mk.inj (Except.ok.inj hread)
        obtain rfl := Except.ok.inj h
        exact Or.inl ⟨by simp [Environment.config, hcontent], rfl⟩
    | some content =>
        obtain ⟨rfl, -⟩ := readConfig_eq_ok hcontent hread
        obtain rfl := Except.ok.inj h
        exact Or.inr ⟨_, content, by simp [Environment.config, haccess, hcontent], hcontent, hread⟩
  · rw [if_neg haccess] at h
    obtain rfl := Except.ok.inj h
    exact Or.inl ⟨by simp [Environment.config, haccess], rfl⟩

/-- Reading the settings: without `log.conf` the name held stays as it is, with it the new
name is followed by the rest of a longer old one. -/
theorem getlogset_holds {env : Environment} {s s' : LogSet} {t : List UInt8}
    (ht : s.filepath.Holds t) (h : getlogset env s = .ok s') :
    (env.config = none ∧ s'.filepath = s.filepath) ∨
      ∃ content, env.config = some content ∧
        s'.filepath.Holds (currentName env content ++
          t.drop (currentName env content).length) := by
  obtain ⟨-, ⟨hnone, rfl⟩ | ⟨path, content, hcontent, hread, hconfig⟩⟩ := getlogset_eq_ok h
  · exact Or.inl ⟨hnone, rfl⟩
  · refine Or.inr ⟨content, hcontent, ?_⟩
    obtain ⟨-, -, hshort, ⟨hsame, hkeep⟩ | hcopy⟩ := readConfig_eq_ok hread hconfig
    · rw [hkeep, hsame, ht.text, List.drop_length, List.append_nil]
      exact ht
    · exact ht.memcpy (zero_notMem_currentName env content) hshort hcopy

/-- Naming a file in the home directory, when no name is held. -/
theorem homeName_holds {env : Environment} {s s' : LogSet} {t : List UInt8}
    (ht : s.filepath.Holds t) (h : homeName env s = .ok s') :
    (t ≠ [] ∧ s' = s) ∨
      (t = [] ∧ ∃ home, env.home = some home ∧ s'.filepath.Holds (dayName env home.chars)) := by
  rw [homeName, ht.text] at h
  split at h
  · next hempty =>
    subst hempty
    refine Or.inr ⟨rfl, ?_⟩
    cases hhome : env.home with
    | none => simp [hhome] at h
    | some home =>
        simp only [hhome] at h
        obtain ⟨filepath, hcopy, h⟩ := bind_eq_ok.mp h
        obtain ⟨date, hdate, h⟩ := bind_eq_ok.mp h
        obtain ⟨date', hlog, h⟩ := bind_eq_ok.mp h
        obtain ⟨filepath₁, hslash, h⟩ := bind_eq_ok.mp h
        obtain ⟨filepath₂, hname, h⟩ := bind_eq_ok.mp h
        obtain rfl := Except.ok.inj h
        rw [inBounds_eq_ok] at hcopy hlog hslash hname
        -- `strcat` reads on to a zero, so the path of the home directory left room for one.
        have hshort := length_lt_of_memcpy home.nonzero hcopy (zero_mem_of_strcat hslash)
        have hhold := ht.memcpy home.nonzero hshort hcopy
        rw [List.drop_nil, List.append_nil] at hhold
        have hhold₁ := hhold.strcat (by decide) hslash
        have hhold₂ := hhold₁.strcat date'.zero_notMem_text hname
        rw [getdate_log hdate hlog] at hhold₂
        exact ⟨home, rfl, hhold₂⟩
  · next hne => exact Or.inl ⟨hne, (Except.ok.inj h).symm⟩

/-! ### Runs of log writes -/

/-- Nothing but zeros stands behind the name held in the settings. -/
def HoldsName (m : LogModule) : Prop := ∃ t, m.logsetting.filepath.Holds t

theorem HoldsName.initial : HoldsName .initial := ⟨[], holds_zeroed (by decide)⟩

/-- A call keeps the invariant up to its `fopen`. -/
theorem HoldsName.initlogName {env : Environment} {loglevel : UInt8} {m m' : LogModule}
    {name? : Option (List UInt8)} (hm : HoldsName m)
    (h : initlogName env loglevel m = .ok (name?, m')) : HoldsName m' := by
  obtain ⟨t, ht⟩ := hm
  obtain ⟨s, hset, hrest⟩ := initlogName_eq_ok h
  have hs : ∃ t, s.filepath.Holds t := by
    rcases getlogset_holds ht hset with ⟨-, hkeep⟩ | ⟨content, -, hholds⟩
    · exact ⟨t, hkeep ▸ ht⟩
    · exact ⟨_, hholds⟩
  rcases hrest with ⟨-, -, rfl⟩ | ⟨-, loging, s', name, -, hhome, -, -, rfl⟩
  · exact hs
  · obtain ⟨t₁, ht₁⟩ := hs
    rcases homeName_holds ht₁ hhome with ⟨-, rfl⟩ | ⟨-, home, -, hholds⟩
    · exact ⟨t₁, ht₁⟩
    · exact ⟨_, hholds⟩

/-- A log write keeps the invariant. -/
theorem HoldsName.step {m m' : LogModule} {call : LogCall} (hm : HoldsName m)
    (h : LogStep m call m') : HoldsName m' := by
  obtain ⟨name?, m₁, hname, hrest⟩ := h.cases
  have hm₁ := hm.initlogName hname
  rcases hrest with rfl | ⟨name, text, -, rfl⟩
  · exact hm₁
  · exact hm₁

theorem HoldsName.of_run {m : LogModule} {log : List LogCall}
    (h : Run LogStep .initial log m) : HoldsName m :=
  h.invariant .initial fun _ _ _ hm hstep => hm.step hstep

/-- A call that goes on to open a file after reading `log.conf` opens the name built from it,
continued by what a longer name held before has left. -/
theorem initlogName_config {env : Environment} {loglevel : UInt8} {m m' : LogModule}
    {content name t : List UInt8} (ht : m.logsetting.filepath.Holds t)
    (hconfig : env.config = some content)
    (h : initlogName env loglevel m = .ok (some name, m')) :
    name = currentName env content ++ t.drop (currentName env content).length := by
  obtain ⟨s, hset, ⟨-, hnone, -⟩ | ⟨-, loging, s', name', -, hhome, hstring, hname, -⟩⟩ :=
    initlogName_eq_ok h
  · cases hnone
  · rcases getlogset_holds ht hset with ⟨hnone, -⟩ | ⟨content', hcontent, hholds⟩
    · rw [hconfig] at hnone
      cases hnone
    · obtain rfl := Option.some.inj (hconfig.symm.trans hcontent)
      rcases homeName_holds hholds hhome with ⟨-, rfl⟩ | ⟨hempty, -⟩
      · rw [hholds.string?, ← hname] at hstring
        exact (Option.some.inj hstring).symm
      · simp [currentName, dayName, show ascii "/" = [47] from rfl] at hempty

/-- **Which file is opened.** After any run of log writes, a call that reads `log.conf` and
goes on to open a file opens the one named by `log.conf` and the date exactly when the name
held in `logsetting.filepath` before the call is not longer than this one. -/
theorem opens_current_iff {log : List LogCall} {m m' : LogModule} {env : Environment}
    {loglevel : UInt8} {content name : List UInt8} (hrun : Run LogStep .initial log m)
    (hconfig : env.config = some content)
    (hopen : initlogName env loglevel m = .ok (some name, m')) :
    name = currentName env content ↔
      m.logsetting.filepath.text.length ≤ (currentName env content).length := by
  obtain ⟨t, ht⟩ := HoldsName.of_run hrun
  rw [initlogName_config ht hconfig hopen, ht.text, List.append_right_eq_self,
    List.drop_eq_nil_iff]

/-- A `log.conf` with a directory and every level. -/
def confContent (directory : List UInt8) : List UInt8 :=
  ascii "path=" ++ (directory ++ '\n'.toUInt8 :: ascii "level=ALL\n")

/-- What a call finds with such a `log.conf`. -/
def confEnvironment (directory : List UInt8) : Environment where
  cwd := some ⟨ascii "/kv", by decide⟩
  access path := path = ascii "/kv/log.conf"
  readable path :=
    if path = ascii "/kv/log.conf" then some (confContent directory) else none
  appendable _ := true
  date := ⟨ascii "2016-10-25", by decide⟩
  dateFits := by decide
  time := ⟨ascii "2016-10-25 12:00:00", by decide⟩
  timeFits := by decide
  home := none

/-- One write with a directory. -/
def callIn (directory : List UInt8) : LogCall :=
  ⟨confEnvironment directory, LogLevel.inf, .bytes (ascii "started]\n") 9⟩

/-- One write with the directory `/log`. -/
def firstCall : LogCall := callIn (ascii "/log")

/-- The name opened by a call with the directory `after`, after a write with `before`. -/
def secondName (before after : List UInt8) : Except Fault (Option (List UInt8)) := do
  let r ← (callIn before).run .initial
  let opened ← initlogName (confEnvironment after) LogLevel.inf r.2
  .ok opened.1

theorem config_confEnvironment (directory : List UInt8) :
    (confEnvironment directory).config = some (confContent directory) := by
  have hpath : (confEnvironment directory).cwdRead ++ ascii "/log.conf" = ascii "/kv/log.conf" :=
    rfl
  simp only [Environment.config, hpath]
  rfl

theorem exists_run_of_secondName {before after name : List UInt8}
    (h : secondName before after = .ok (some name)) :
    ∃ m m', Run LogStep .initial [callIn before] m ∧
      initlogName (confEnvironment after) LogLevel.inf m = .ok (some name, m') := by
  obtain ⟨⟨r, m⟩, hfirst, h⟩ := bind_eq_ok.mp h
  obtain ⟨⟨name?, m'⟩, hopen, h⟩ := bind_eq_ok.mp h
  obtain rfl := Except.ok.inj h
  exact ⟨m, m', .snoc .nil ⟨r, hfirst⟩, hopen⟩

/-- With a longer directory in `log.conf`, the name is copied over the whole of the one before. -/
theorem opens_current_iff_longer_directory :
    ∃ m m', Run LogStep .initial [callIn (ascii "/l")] m ∧
      initlogName (confEnvironment (ascii "/log")) LogLevel.inf m =
        .ok (some (ascii "/log/2016-10-25.log"), m') ∧
      (ascii "/log/2016-10-25.log" =
          currentName (confEnvironment (ascii "/log")) (confContent (ascii "/log")) ↔
        m.logsetting.filepath.text.length ≤
          (currentName (confEnvironment (ascii "/log")) (confContent (ascii "/log"))).length) := by
  have hsecond : secondName (ascii "/l") (ascii "/log") =
      .ok (some (ascii "/log/2016-10-25.log")) := by decide +kernel
  obtain ⟨m, m', hrun, hopen⟩ := exists_run_of_secondName hsecond
  exact ⟨m, m', hrun, hopen, opens_current_iff hrun (config_confEnvironment _) hopen⟩

/-- With a shorter directory in `log.conf`, the second call opens a file with the last two
letters of the name before. -/
theorem shorter_directory_keeps_tail :
    ∃ m m', Run LogStep .initial [firstCall] m ∧
      (confEnvironment (ascii "/l")).config = some (confContent (ascii "/l")) ∧
      initlogName (confEnvironment (ascii "/l")) LogLevel.inf m =
        .ok (some (ascii "/l/2016-10-25.logog"), m') ∧
      pathRead (confContent (ascii "/l")) = ascii "/l" ∧
      currentName (confEnvironment (ascii "/l")) (confContent (ascii "/l")) =
        ascii "/l/2016-10-25.log" ∧
      ascii "/l/2016-10-25.logog" ≠ ascii "/l/2016-10-25.log" := by
  have hsecond : secondName (ascii "/log") (ascii "/l") =
      .ok (some (ascii "/l/2016-10-25.logog")) := by decide +kernel
  obtain ⟨m, m', hrun, hopen⟩ := exists_run_of_secondName hsecond
  have hchars : ∀ b ∈ ascii "/l", b ≠ 0 ∧ isSpace b = false :=
    List.forall_mem_cons.mpr ⟨by decide, List.forall_mem_singleton.mpr (by decide)⟩
  have hread : pathRead (confContent (ascii "/l")) = ascii "/l" :=
    pathRead_line (by decide) hchars _
  refine ⟨m, m', hrun, config_confEnvironment _, hopen, hread, ?_, by decide⟩
  rw [currentName, hread]
  decide

end LibreKV.Log
