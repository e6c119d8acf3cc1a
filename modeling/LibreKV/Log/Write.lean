import LibreKV.Lib.Transition
import LibreKV.Log.Printf

/-!
# LibreKV.Log.Write

Writing to the log: `initlog`, `librekv_logWrite` and `librekv_logWrite_va`.

The static variables of `log.c` are the module's state (`LogModule`). Every call reads the
settings again, opens the file named by them, writes one line and closes the file. What a call
finds outside the process is its `Environment`; nothing relates the environments of two calls.
Only `fopen` can fail there: the source ignores what `fprintf`, `fwrite`, `fflush` and `fclose`
return, and here they write all that they are given.
-/

namespace LibreKV.Log

open CString Fallible Transition

/-- A file open for appending: its name, and what was written to it. Every write is taken to
succeed and to be in the file after `fclose`. -/
structure LogFile where
  name : List UInt8
  written : List UInt8
  deriving DecidableEq

/-- `struct log`. -/
structure LogStruct where
  logtime : Buffer 20
  filepath : Buffer maxFilePath
  logfile : Option LogFile
  deriving DecidableEq

/-- A `struct log` after `memset`. -/
def LogStruct.zeroed : LogStruct := ⟨.zeroed _, .zeroed _, none⟩

/-- The static variables, and the files closed so far. -/
structure LogModule where
  logsetting : LogSet
  loging : LogStruct
  closed : List LogFile

/-- Program start. -/
def LogModule.initial : LogModule := ⟨⟨.zeroed _, 0, 0⟩, .zeroed, []⟩

/-- `LogLevelText[loglevel-1]`. -/
def logLevelText (loglevel : UInt8) : Except Fault (List UInt8) :=
  if loglevel = 0 then .error .outOfBounds
  else inBounds ([ascii "INF", ascii "DEBUG", ascii "ERROR", []][loglevel.toNat - 1]?)

/-- `settime`. -/
def settime (env : Environment) (loging : LogStruct) : Except Fault LogStruct := do
  let logtime ← inBounds (loging.logtime.strcpy env.time.chars)
  .ok { loging with logtime := logtime }

/-- The part of `initlog` that names a file in the home directory, when there is no name. -/
def homeName (env : Environment) (logsetting : LogSet) : Except Fault LogSet :=
  if logsetting.filepath.text = [] then
    match env.home with
    | none => .error .badPointer
    | some path => do
      let filepath ← inBounds (logsetting.filepath.memcpy path.chars)
      let strdate : Buffer 30 ← getdate env (.zeroed _)
      let strdate ← inBounds (strdate.strcat (ascii ".log"))
      let filepath ← inBounds (filepath.strcat (ascii "/"))
      let filepath ← inBounds (filepath.strcat strdate.text)
      .ok { logsetting with filepath := filepath }
  else .ok logsetting

/-- `initlog` up to its `fopen`: the name it goes on to open, or `none` when the level is not
to be logged. -/
def initlogName (env : Environment) (loglevel : UInt8) (m : LogModule) :
    Except Fault (Option (List UInt8) × LogModule) := do
  let logsetting ← getlogset env m.logsetting
  if loglevel &&& logsetting.loglevel ≠ loglevel then
    .ok (none, { m with logsetting := logsetting })
  else do
    let loging ← settime env .zeroed
    let logsetting ← homeName env logsetting
    let loging := { loging with filepath := logsetting.filepath }
    let name ← inBounds loging.filepath.string?
    .ok (some name, { m with logsetting := logsetting, loging := loging })

/-- What the `fprintf` of `initlog` writes to a file it opened. -/
def logHeader (text : List UInt8) (logtime : Buffer 20) : List UInt8 :=
  ascii "[" ++ text ++ ascii "] [" ++ logtime.text ++ ascii "]:["

/-- `initlog`. After the `memset` no file is open, so `fopen` is always called. -/
def initlog (env : Environment) (loglevel : UInt8) (m : LogModule) :
    Except Fault (Int × LogModule) := do
  let r ← initlogName env loglevel m
  match r.1 with
  | none => .ok (-1, r.2)
  | some name =>
    if env.appendable name then do
      let text ← logLevelText loglevel
      let file : LogFile := ⟨name, logHeader text r.2.loging.logtime⟩
      .ok (0, { r.2 with loging := { r.2.loging with logfile := some file } })
    else .ok (-1, r.2)

/-- `fflush` and `fclose`, after `bytes` were written to the open file. -/
def LogModule.close (m : LogModule) (file : LogFile) (bytes : List UInt8) : LogModule :=
  { m with
    loging := { m.loging with logfile := none }
    closed := m.closed ++ [{ file with written := file.written ++ bytes }] }

/-- `librekv_logWrite_va`, when every `fprintf` succeeds. -/
def librekvLogWriteVa (env : Environment) (loglevel : UInt8) (fromat : Str) (args : List VaArg)
    (m : LogModule) : Except Fault (Int × LogModule) := do
  let r ← initlog env loglevel m
  if r.1 ≠ 0 then .ok (-1, r.2)
  else match r.2.loging.logfile with
    | none => .error .badPointer
    | some file => do
      let printed ← printfLog fromat.chars args
      .ok (0, r.2.close file printed.1)

/-- `librekv_logWrite`, when its `fwrite` succeeds; `buffer` is the memory at the pointer. -/
def librekvLogWrite (env : Environment) (loglevel : UInt8) (buffer : List UInt8)
    (bufSize : UInt32) (m : LogModule) : Except Fault (Int × LogModule) := do
  let r ← initlog env loglevel m
  if r.1 ≠ 0 then .ok (-1, r.2)
  else match r.2.loging.logfile with
    | none => .error .badPointer
    | some file =>
      if bufSize.toNat ≤ buffer.length then .ok (0, r.2.close file (buffer.take bufSize.toNat))
      else .error .outOfBounds

/-! ### Calls -/

/-- What is to be written to the log. -/
inductive Message
  | bytes (buffer : List UInt8) (bufSize : UInt32)
  | format (fromat : Str) (args : List VaArg)

/-- A log write, with what it finds outside the process. -/
structure LogCall where
  env : Environment
  loglevel : UInt8
  message : Message

/-- The text between the brackets of a record. -/
def LogCall.body (call : LogCall) : List UInt8 :=
  match call.message with
  | .bytes buffer bufSize => buffer.take bufSize.toNat
  | .format fromat args =>
    match printfLog fromat.chars args with
    | .ok printed => printed.1
    | .error _ => []

/-- Do a log write. -/
def LogCall.run (call : LogCall) (m : LogModule) : Except Fault (Int × LogModule) :=
  match call.message with
  | .bytes buffer bufSize => librekvLogWrite call.env call.loglevel buffer bufSize m
  | .format fromat args => librekvLogWriteVa call.env call.loglevel fromat args m

/-- A log write that returns. -/
def LogStep (m : LogModule) (call : LogCall) (m' : LogModule) : Prop :=
  ∃ r, call.run m = .ok (r, m')

/-! ### What a call does -/

/-- The time is stored; an open file stays open. -/
theorem settime_eq_ok {env : Environment} {loging loging' : LogStruct}
    (h : settime env loging = .ok loging') :
    loging'.logtime.text = env.time.chars ∧ loging'.logfile = loging.logfile := by
  obtain ⟨logtime, htime, h⟩ := bind_eq_ok.mp h
  obtain rfl := Except.ok.inj h
  refine ⟨?_, rfl⟩
  rw [Buffer.text_strcpy (inBounds_eq_ok.mp htime), upToZero_of_notMem env.time.nonzero]

/-- The settings are read; unless the level is not to be logged, `loging` is filled anew and
the file is named by the settings. -/
theorem initlogName_eq_ok {env : Environment} {loglevel : UInt8} {m m' : LogModule}
    {name? : Option (List UInt8)} (h : initlogName env loglevel m = .ok (name?, m')) :
    ∃ s, getlogset env m.logsetting = .ok s ∧
      (loglevel &&& s.loglevel ≠ loglevel ∧ name? = none ∧ m' = { m with logsetting := s } ∨
        loglevel &&& s.loglevel = loglevel ∧
          ∃ loging s' name, settime env .zeroed = .ok loging ∧ homeName env s = .ok s' ∧
            s'.filepath.string? = some name ∧ name? = some name ∧
            m' = { m with
              logsetting := s', loging := { loging with filepath := s'.filepath } }) := by
  obtain ⟨s, hset, h⟩ := bind_eq_ok.mp h
  refine ⟨s, hset, ?_⟩
  dsimp only at h
  by_cases hbits : loglevel &&& s.loglevel = loglevel
  · rw [if_neg (not_not.mpr hbits)] at h
    obtain ⟨loging, htime, h⟩ := bind_eq_ok.mp h
    obtain ⟨s', hhome, h⟩ := bind_eq_ok.mp h
    obtain ⟨name, hname, h⟩ := bind_eq_ok.mp h
    obtain ⟨rfl, rfl⟩ := Prod.mk.inj (Except.ok.inj h)
    exact Or.inr ⟨hbits, loging, s', name, htime, hhome, inBounds_eq_ok.mp hname, rfl, rfl⟩
  · rw [if_pos hbits] at h
    obtain ⟨rfl, rfl⟩ := Prod.mk.inj (Except.ok.inj h)
    exact Or.inl ⟨hbits, rfl, rfl⟩

/-- `initlog` has opened the file that was named, and written the header to it, or it has
returned -1. -/
theorem initlog_eq_ok {env : Environment} {loglevel : UInt8} {m m' : LogModule} {r : Int}
    (h : initlog env loglevel m = .ok (r, m')) :
    ∃ name? m₁, initlogName env loglevel m = .ok (name?, m₁) ∧
      ((∀ name, name? = some name → env.appendable name = false) ∧ r = -1 ∧ m' = m₁ ∨
        ∃ name text, name? = some name ∧ env.appendable name = true ∧
          logLevelText loglevel = .ok text ∧ r = 0 ∧
          m' = { m₁ with loging := { m₁.loging with
            logfile := some ⟨name, logHeader text m₁.loging.logtime⟩ } }) := by
  obtain ⟨⟨name?, m₁⟩, hname, h⟩ := bind_eq_ok.mp h
  refine ⟨name?, m₁, hname, ?_⟩
  cases name? with
  | none =>
      obtain ⟨rfl, rfl⟩ := Prod.mk.inj (Except.ok.inj h)
      refine Or.inl ⟨?_, rfl, rfl⟩
      intro name hno
      cases hno
  | some name =>
      dsimp only at h
      by_cases happend : env.appendable name = true
      · rw [if_pos happend] at h
        obtain ⟨text, htext, h⟩ := bind_eq_ok.mp h
        obtain ⟨rfl, rfl⟩ := Prod.mk.inj (Except.ok.inj h)
        exact Or.inr ⟨name, text, rfl, happend, htext, rfl, rfl⟩
      · rw [if_neg happend] at h
        obtain ⟨rfl, rfl⟩ := Prod.mk.inj (Except.ok.inj h)
        refine Or.inl ⟨?_, rfl, rfl⟩
        intro name' hsome
        obtain rfl := Option.some.inj hsome
        simpa using happend

/-- What the two log writes have in common: they return -1 after an `initlog` that failed, and
else they go on with the file it opened. -/
theorem open_eq_ok {env : Environment} {loglevel : UInt8} {m m' : LogModule} {r : Int}
    (write : LogModule → LogFile → Except Fault (Int × LogModule))
    (h : (do
      let r ← initlog env loglevel m
      if r.1 ≠ 0 then .ok (-1, r.2)
      else match r.2.loging.logfile with
        | none => .error .badPointer
        | some file => write r.2 file) = Except.ok (r, m')) :
    ∃ r₁ m₁, initlog env loglevel m = .ok (r₁, m₁) ∧
      (r₁ ≠ 0 ∧ r = -1 ∧ m' = m₁ ∨
        r₁ = 0 ∧ ∃ file, m₁.loging.logfile = some file ∧ write m₁ file = .ok (r, m')) := by
  obtain ⟨⟨r₁, m₁⟩, hinit, h⟩ := bind_eq_ok.mp h
  refine ⟨r₁, m₁, hinit, ?_⟩
  dsimp only at h
  by_cases hr : r₁ = 0
  · rw [if_neg (not_not.mpr hr)] at h
    cases hfile : m₁.loging.logfile with
    | none => simp [hfile] at h
    | some file =>
        simp only [hfile] at h
        exact Or.inr ⟨hr, file, rfl, h⟩
  · rw [if_pos hr] at h
    obtain ⟨rfl, rfl⟩ := Prod.mk.inj (Except.ok.inj h)
    exact Or.inl ⟨hr, rfl, rfl⟩

/-- A log write returns what `initlog` did, after it has written its message. -/
theorem run_eq_ok {call : LogCall} {m m' : LogModule} {r : Int}
    (h : call.run m = .ok (r, m')) :
    ∃ r₁ m₁, initlog call.env call.loglevel m = .ok (r₁, m₁) ∧
      (r₁ ≠ 0 ∧ r = -1 ∧ m' = m₁ ∨
        r₁ = 0 ∧ r = 0 ∧ ∃ file, m₁.loging.logfile = some file ∧ m' = m₁.close file call.body) := by
  obtain ⟨env, loglevel, message⟩ := call
  cases message with
  | bytes buffer bufSize =>
      obtain ⟨r₁, m₁, hinit, hfail | ⟨hr, file, hfile, hwrite⟩⟩ :=
        open_eq_ok (fun m₁ file => if bufSize.toNat ≤ buffer.length then
          .ok (0, m₁.close file (buffer.take bufSize.toNat)) else .error .outOfBounds) h
      · exact ⟨r₁, m₁, hinit, Or.inl hfail⟩
      · by_cases hsize : bufSize.toNat ≤ buffer.length
        · rw [if_pos hsize] at hwrite
          obtain ⟨rfl, rfl⟩ := Prod.mk.inj (Except.ok.inj hwrite)
          exact ⟨r₁, m₁, hinit, Or.inr ⟨hr, rfl, file, hfile, rfl⟩⟩
        · rw [if_neg hsize] at hwrite
          cases hwrite
  | format fromat args =>
      obtain ⟨r₁, m₁, hinit, hfail | ⟨hr, file, hfile, hwrite⟩⟩ :=
        open_eq_ok (fun m₁ file => printfLog fromat.chars args >>= fun printed =>
          .ok (0, m₁.close file printed.1)) h
      · exact ⟨r₁, m₁, hinit, Or.inl hfail⟩
      · obtain ⟨printed, hprinted, hclose⟩ := bind_eq_ok.mp hwrite
        obtain ⟨rfl, rfl⟩ := Prod.mk.inj (Except.ok.inj hclose)
        refine ⟨r₁, m₁, hinit, Or.inr ⟨hr, rfl, file, hfile, ?_⟩⟩
        simp only [LogCall.body, hprinted]

/-- What a log write does: it stops before the `fopen` succeeded, or it closes the file named
before the `fopen` with a header and its message. -/
theorem LogStep.cases {m m' : LogModule} {call : LogCall} (h : LogStep m call m') :
    ∃ name? m₁, initlogName call.env call.loglevel m = .ok (name?, m₁) ∧
      (m' = m₁ ∨ ∃ name text, name? = some name ∧
        m' = m₁.close ⟨name, logHeader text m₁.loging.logtime⟩ call.body) := by
  obtain ⟨r, h⟩ := h
  obtain ⟨r₁, m₂, hinit, hrest⟩ := run_eq_ok h
  obtain ⟨name?, m₁, hname, ⟨-, rfl, rfl⟩ | ⟨name, text, rfl, -, -, rfl, rfl⟩⟩ :=
    initlog_eq_ok hinit
  · refine ⟨name?, m₂, hname, ?_⟩
    rcases hrest with ⟨-, -, rfl⟩ | ⟨hr, -⟩
    · exact Or.inl rfl
    · exact absurd hr (by decide)
  · refine ⟨some name, m₁, hname, ?_⟩
    rcases hrest with ⟨hr, -⟩ | ⟨-, -, file, hfile, rfl⟩
    · exact absurd rfl hr
    · obtain rfl := Option.some.inj hfile
      exact Or.inr ⟨name, text, rfl, rfl⟩

/-- A format that is read as it is meant becomes one line of the file, after the header. -/
theorem librekvLogWriteVa_items {env : Environment} {loglevel : UInt8} {fromat : Str}
    {items : List Item} {m m₁ : LogModule} {file : LogFile} (hfromat : fromat.chars = format items)
    (hitems : ∀ item ∈ items, item.misread = false)
    (hinit : initlog env loglevel m = .ok (0, m₁)) (hfile : m₁.loging.logfile = some file) :
    librekvLogWriteVa env loglevel fromat (args items) m =
      .ok (0, m₁.close file (output items ++ ascii "]\n")) := by
  have hprints := printsItems_of_forall hitems []
  rw [PrintsItems, List.append_nil] at hprints
  simp [librekvLogWriteVa, hinit, hfile, hfromat, hprints]

end LibreKV.Log
