import LibreKV.Fault
import LibreKV.Lib.CString

/-!
# LibreKV.Log.Setting

The settings of `log.c`: `getcode`, `getdate`, `ReadConfig` and `getlogset`.

The settings are static. `ReadConfig` builds the file name of the log from the path in
`log.conf` and the date, and copies it over the name held in `logsetting.filepath` without its
terminating zero.
-/

namespace LibreKV.Log

open CString

/-- `MAXFILEPATH`, also the size of the local path buffers. -/
def maxFilePath : ℕ := 512

namespace LogLevel

/-- `NONE`. -/
def none : UInt8 := 0

/-- `INF`. -/
def inf : UInt8 := 1

/-- `DEBUG`. -/
def debug : UInt8 := 2

/-- `ERROR`. -/
def error : UInt8 := 4

/-- `ALL`, and what `getcode` returns for any other name. -/
def all : UInt8 := 255

end LogLevel

/-- `LOGSET`. -/
structure LogSet where
  filepath : Buffer maxFilePath
  maxfilelen : UInt32
  loglevel : UInt8
  deriving DecidableEq

/-- What a call finds outside the process. -/
structure Environment where
  /-- The working directory, if `getcwd` can tell it. -/
  cwd : Option Str
  /-- `access(path, F_OK)` succeeds. -/
  access : List UInt8 → Bool
  /-- The content of the file at a path, if it can be opened for reading. -/
  readable : List UInt8 → Option (List UInt8)
  /-- The file at a path can be opened for appending. -/
  appendable : List UInt8 → Bool
  /-- `strftime` of the time with `"%Y-%m-%d"`, for a year of at most four digits. -/
  date : Str
  dateFits : date.chars.length ≤ 10
  /-- `strftime` of the time with `"%Y-%m-%d %H:%M:%S"`. -/
  time : Str
  timeFits : time.chars.length ≤ 19
  /-- `getenv("HOME")`. -/
  home : Option Str

/-- A string function that stays inside its buffers. -/
def inBounds {α : Type} : Option α → Except Fault α
  | some a => .ok a
  | none => .error .outOfBounds

theorem inBounds_eq_ok {α : Type} {o : Option α} {a : α} : inBounds o = .ok a ↔ o = some a := by
  cases o <;> simp [inBounds]

/-- `getcode`. -/
def getcode (path : List UInt8) : UInt8 :=
  if path = ascii "INF" then LogLevel.inf
  else if path = ascii "DEBUG" then LogLevel.debug
  else if path = ascii "ERROR" then LogLevel.error
  else if path = ascii "NONE" then LogLevel.none
  else LogLevel.all

/-- `getdate`. -/
def getdate {n : ℕ} (env : Environment) (date : Buffer n) : Except Fault (Buffer n) :=
  inBounds (date.strcpy env.date.chars)

/-- Store a word that `fscanf` has read; nothing is stored when there was none. -/
def storeWord {n : ℕ} (value : Buffer n) : Option (List UInt8) → Except Fault (Buffer n)
  | some word => inBounds (value.strcpy word)
  | none => .ok value

/-- Store a name that differs from the one held, without its terminating zero. -/
def storeName {n : ℕ} (filepath : Buffer n) (value : List UInt8) : Except Fault (Buffer n) :=
  if value ≠ filepath.text then inBounds (filepath.memcpy value) else .ok filepath

/-- `ReadConfig`. -/
def readConfig (env : Environment) (path : List UInt8) (logsetting : LogSet) :
    Except Fault (UInt8 × LogSet) :=
  match env.readable path with
  | none => .ok (-1, logsetting)
  | some content => do
    let pathLine := scanWord (ascii "path=") content
    let value : Buffer maxFilePath ← storeWord (.zeroed _) pathLine.1
    let data : Buffer 50 ← getdate env (.zeroed _)
    let data ← inBounds (data.strcat (ascii ".log"))
    let value ← inBounds (value.strcat (ascii "/"))
    let value ← inBounds (value.strcat data.text)
    let filepath ← storeName logsetting.filepath value.text
    let levelLine := scanWord (ascii "level=") pathLine.2
    let value : Buffer maxFilePath ← storeWord (.zeroed _) levelLine.1
    .ok (0, { logsetting with filepath := filepath, loglevel := getcode value.text })

/-- The settings without a configuration. -/
def LogSet.default (logsetting : LogSet) : LogSet :=
  { logsetting with loglevel := LogLevel.inf, maxfilelen := 4096 }

/-- `getcwd`; `none` is its null, for a directory that it cannot tell or that does not fit. -/
def getcwd {n : ℕ} (env : Environment) (path : Buffer n) : Option (Buffer n) :=
  env.cwd.bind fun cwd => path.strcpy cwd.chars

/-- `getlogset`. It does not look at what `getcwd` returns: after a null the buffer is as it was
cleared, and the file read is `/log.conf`. -/
def getlogset (env : Environment) (logsetting : LogSet) : Except Fault LogSet := do
  let path : Buffer maxFilePath := .zeroed _
  let path := (getcwd env path).getD path
  let path ← inBounds (path.strcat (ascii "/log.conf"))
  if env.access path.text then do
    let r ← readConfig env path.text logsetting
    if r.1 ≠ 0 then .ok r.2.default else .ok r.2
  else .ok logsetting.default

end LibreKV.Log
