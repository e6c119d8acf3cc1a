import LibreKV.Log.Setting

/-!
# LibreKV.Log.Printf

`PrintfLog`, the formatter of `log.c`, and when it prints a format as it is meant.

The scanner looks at one character at a time and keeps no memory of the one before: `s`, `d`
and `c` take an argument wherever they stand, and `%` is dropped. A format is meant as a list
of items (`Item`), a directive with its argument or a character to be written; the
scanner prints the items exactly when none of the characters is one of the three letters.
-/

namespace LibreKV.Log

open CString Fallible

/-- A variable argument, after the default promotions. -/
inductive VaArg
  | str (s : Str)
  | int (d : Int32)
  deriving DecidableEq

/-- `va_arg(args, char *)`. -/
def vaString : List VaArg → Except Fault (Str × List VaArg)
  | .str s :: args => .ok (s, args)
  | _ => .error .badArgument

/-- `va_arg(args, int)`. -/
def vaInt : List VaArg → Except Fault (Int32 × List VaArg)
  | .int d :: args => .ok (d, args)
  | _ => .error .badArgument

/-- What `fprintf` writes for `"%d"`. -/
def decimal (d : Int32) : List UInt8 := ascii (toString d.toInt)

/-- What `fprintf` writes for `"%c"`, given an `int` that was cast to `char`. -/
def lowByte (d : Int32) : UInt8 := d.toInt8.toUInt8

/-- One round of the loop in `PrintfLog`: what is written, and the arguments left. -/
def printfChar (b : UInt8) (args : List VaArg) : Except Fault (List UInt8 × List VaArg) :=
  if b = 's'.toUInt8 then do
    let r ← vaString args
    .ok (r.1.chars, r.2)
  else if b = 'd'.toUInt8 then do
    let r ← vaInt args
    .ok (decimal r.1, r.2)
  else if b = 'c'.toUInt8 then do
    let r ← vaInt args
    .ok ([lowByte r.1], r.2)
  else if b ≠ '%'.toUInt8 ∧ b ≠ '\n'.toUInt8 then .ok ([b], args)
  else .ok ([], args)

/-- `PrintfLog`: what is written, and the arguments left. -/
def printfLog : List UInt8 → List VaArg → Except Fault (List UInt8 × List VaArg)
  | [], args => .ok (ascii "]\n", args)
  | b :: fromat, args => do
    let r ← printfChar b args
    let rest ← printfLog fromat r.2
    .ok (r.1 ++ rest.1, rest.2)

/-- The characters for which `PrintfLog` takes an argument. -/
def takesArgument (b : UInt8) : Bool :=
  b = 's'.toUInt8 || b = 'd'.toUInt8 || b = 'c'.toUInt8

/-! ### How many arguments are taken -/

theorem vaString_length {args rest : List VaArg} {s : Str}
    (h : vaString args = .ok (s, rest)) : args.length = rest.length + 1 := by
  rcases args with - | ⟨s' | d', args⟩ <;> simp_all [vaString]

theorem vaInt_length {args rest : List VaArg} {d : Int32}
    (h : vaInt args = .ok (d, rest)) : args.length = rest.length + 1 := by
  rcases args with - | ⟨s' | d', args⟩ <;> simp_all [vaInt]

/-- What is printed of an argument does not matter for how many are left. -/
theorem length_of_va {α : Type} {va : List VaArg → Except Fault (α × List VaArg)}
    (hva : ∀ {args rest a}, va args = .ok (a, rest) → args.length = rest.length + 1)
    (print : α → List UInt8) {args rest : List VaArg} {out : List UInt8}
    (h : (va args >>= fun r => .ok (print r.1, r.2)) = .ok (out, rest)) :
    args.length = rest.length + 1 := by
  obtain ⟨⟨a, args'⟩, htake, heq⟩ := bind_eq_ok.mp h
  obtain ⟨-, rfl⟩ := Prod.mk.inj (Except.ok.inj heq)
  exact hva htake

/-- A round takes one argument for a letter, and none for another character. -/
theorem printfChar_length {b : UInt8} {args rest : List VaArg} {out : List UInt8}
    (h : printfChar b args = .ok (out, rest)) :
    args.length = rest.length + if takesArgument b then 1 else 0 := by
  rw [printfChar] at h
  split at h
  · next hs =>
    subst hs
    exact length_of_va vaString_length Str.chars h
  split at h
  · next hd =>
    subst hd
    exact length_of_va vaInt_length decimal h
  split at h
  · next hc =>
    subst hc
    exact length_of_va vaInt_length (fun d => [lowByte d]) h
  · next hs hd hc =>
    have hletter : takesArgument b = false := by simp [takesArgument, hs, hd, hc]
    have hrest : args = rest := by
      split at h
      all_goals exact (Prod.mk.inj (Except.ok.inj h)).2
    rw [hletter, hrest]
    rfl

/-- The loop takes one argument for each letter of the format, directive or not. -/
theorem printfLog_length {fromat : List UInt8} {args rest : List VaArg} {out : List UInt8}
    (h : printfLog fromat args = .ok (out, rest)) :
    args.length = rest.length + fromat.countP takesArgument := by
  induction fromat generalizing args out with
  | nil =>
      obtain ⟨-, rfl⟩ := Prod.mk.inj (Except.ok.inj h)
      rfl
  | cons b fromat ih =>
      obtain ⟨r, hchar, hrest⟩ := bind_eq_ok.mp h
      obtain ⟨r', hlog, heq⟩ := bind_eq_ok.mp hrest
      obtain ⟨-, rfl⟩ := Prod.mk.inj (Except.ok.inj heq)
      rw [printfChar_length hchar, ih hlog, List.countP_cons, Nat.add_assoc]

/-! ### Formats as they are meant -/

/-- A character that is no directive and is to be written as it is. -/
structure OrdinaryChar where
  byte : UInt8
  nonzero : byte ≠ 0
  notPercent : byte ≠ '%'.toUInt8
  notNewline : byte ≠ '\n'.toUInt8
  deriving DecidableEq

/-- A part of a format: an ordinary character, or a directive with its argument. -/
inductive Item
  | char (b : OrdinaryChar)
  | str (s : Str)
  | int (d : Int32)
  | chr (d : Int32)
  deriving DecidableEq

namespace Item

/-- The part as it stands in the format. -/
def format : Item → List UInt8
  | char b => [b.byte]
  | str _ => ascii "%s"
  | int _ => ascii "%d"
  | chr _ => ascii "%c"

/-- The argument that belongs to the part. -/
def args : Item → List VaArg
  | char _ => []
  | str s => [.str s]
  | int d => [.int d]
  | chr d => [.int d]

/-- What is to be printed for the part. -/
def output : Item → List UInt8
  | char b => [b.byte]
  | str s => s.chars
  | int d => decimal d
  | chr d => [lowByte d]

/-- The part is a character that `PrintfLog` takes for a directive. -/
def misread : Item → Bool
  | char b => takesArgument b.byte
  | _ => false

end Item

/-- The format string of a list of parts. -/
def format (items : List Item) : List UInt8 := items.flatMap Item.format

/-- The arguments of a list of parts, one for each directive. -/
def args (items : List Item) : List VaArg := items.flatMap Item.args

/-- What is to be printed for a list of parts. -/
def output (items : List Item) : List UInt8 := items.flatMap Item.output

@[simp] theorem format_cons (item : Item) (items : List Item) :
    format (item :: items) = item.format ++ format items := List.flatMap_cons

@[simp] theorem args_cons (item : Item) (items : List Item) :
    args (item :: items) = item.args ++ args items := List.flatMap_cons

@[simp] theorem output_cons (item : Item) (items : List Item) :
    output (item :: items) = item.output ++ output items := List.flatMap_cons

/-- `PrintfLog` takes exactly the arguments of the format, whatever lies behind them, and
writes each part as it is meant, then the closing bracket and a newline. -/
def PrintsItems (items : List Item) (rest : List VaArg) : Prop :=
  printfLog (format items) (args items ++ rest) = .ok (output items ++ ascii "]\n", rest)

/-- A part's letters: its directive, or a character taken for one. -/
theorem Item.countP_format (item : Item) : item.format.countP takesArgument =
    item.args.length + if item.misread then 1 else 0 := by
  cases item with
  | char b =>
      rw [Item.format, List.countP_singleton]
      exact (Nat.zero_add _).symm
  | str s => rfl
  | int d => rfl
  | chr d => rfl

/-- The letters of a format: one for each argument, and the characters taken for directives. -/
theorem countP_format (items : List Item) : (format items).countP takesArgument =
    (args items).length + items.countP Item.misread := by
  induction items with
  | nil => rfl
  | cons item items ih =>
      rw [format_cons, List.countP_append, item.countP_format, ih, args_cons, List.length_append,
        List.countP_cons]
      omega

/-- An ordinary character that is none of the letters is written. -/
theorem printfChar_of_ordinary {b : OrdinaryChar} (h : takesArgument b.byte = false)
    (args : List VaArg) : printfChar b.byte args = .ok ([b.byte], args) := by
  simp only [takesArgument, Bool.or_eq_false_iff, decide_eq_false_iff_not] at h
  obtain ⟨⟨hs, hd⟩, hc⟩ := h
  rw [printfChar, if_neg hs, if_neg hd, if_neg hc, if_pos ⟨b.notPercent, b.notNewline⟩]

/-- One round, then the rest of the format. -/
theorem printfLog_cons {b : UInt8} {fromat o out : List UInt8} {as as' rest : List VaArg}
    (hchar : printfChar b as = .ok (o, as')) (hlog : printfLog fromat as' = .ok (out, rest)) :
    printfLog (b :: fromat) as = .ok (o ++ out, rest) := by
  simp [printfLog, hchar, hlog]

/-- A directive: the `%` is dropped, the letter takes the argument. -/
theorem printfLog_directive {b : UInt8} {fromat o out : List UInt8} {as as' rest : List VaArg}
    (hchar : printfChar b as = .ok (o, as')) (hlog : printfLog fromat as' = .ok (out, rest)) :
    printfLog ('%'.toUInt8 :: b :: fromat) as = .ok (o ++ out, rest) := by
  have hpercent : printfChar '%'.toUInt8 as = .ok ([], as) := rfl
  have hletter := printfLog_cons hchar hlog
  simpa using printfLog_cons hpercent hletter

/-- One part that is not misread: its argument is taken and its output written. -/
theorem printfLog_item {item : Item} (h : item.misread = false) {fromat out : List UInt8}
    {as rest : List VaArg} (hlog : printfLog fromat as = .ok (out, rest)) :
    printfLog (item.format ++ fromat) (item.args ++ as) = .ok (item.output ++ out, rest) := by
  cases item with
  | char b => exact printfLog_cons (printfChar_of_ordinary h as) hlog
  | str s =>
      have hchar : printfChar 's'.toUInt8 (.str s :: as) = .ok (s.chars, as) := rfl
      exact printfLog_directive hchar hlog
  | int d =>
      have hchar : printfChar 'd'.toUInt8 (.int d :: as) = .ok (decimal d, as) := rfl
      exact printfLog_directive hchar hlog
  | chr d =>
      have hchar : printfChar 'c'.toUInt8 (.int d :: as) = .ok ([lowByte d], as) := rfl
      exact printfLog_directive hchar hlog

/-- A format without misread characters is printed as it is meant. -/
theorem printsItems_of_forall {items : List Item} (h : ∀ item ∈ items, item.misread = false)
    (rest : List VaArg) : PrintsItems items rest := by
  induction items with
  | nil => rfl
  | cons item items ih =>
      have hlog := ih fun i hi => h i (List.mem_cons_of_mem item hi)
      have hitem := printfLog_item (h item List.mem_cons_self) hlog
      rw [PrintsItems, format_cons, args_cons, output_cons, List.append_assoc, List.append_assoc,
        hitem]

/-- **What `PrintfLog` prints.** A format is printed as it is meant, with one argument taken
for each directive, exactly when none of its ordinary characters is `s`, `d` or `c`. -/
theorem printsItems_iff (items : List Item) (rest : List VaArg) :
    PrintsItems items rest ↔ ∀ b, .char b ∈ items → takesArgument b.byte = false := by
  constructor
  · intro hprints b hb
    -- Every letter of the format took an argument, so the directives account for all of them.
    have hlength := printfLog_length hprints
    rw [List.length_append, countP_format] at hlength
    have hzero : items.countP Item.misread = 0 := by omega
    simpa [Item.misread] using List.countP_eq_zero.mp hzero (.char b) hb
  · intro h
    refine printsItems_of_forall (fun item hitem => ?_) rest
    cases item with
    | char b => exact h b hitem
    | str s => rfl
    | int d => rfl
    | chr d => rfl

/-- `librekv_logWrite_va(INF, "id %d", 7)`. -/
def idItems : List Item :=
  [.char ⟨'i'.toUInt8, by decide, by decide, by decide⟩,
    .char ⟨'d'.toUInt8, by decide, by decide, by decide⟩,
    .char ⟨' '.toUInt8, by decide, by decide, by decide⟩, .int 7]

/-- The `d` of "id" takes the 7, and the directive reads an argument that is not there; with
another `int` behind it, that one is printed for the directive. -/
theorem id_takes_argument :
    format idItems = ascii "id %d" ∧ args idItems = [.int 7] ∧
      output idItems = ascii "id 7" ∧
      printfLog (format idItems) (args idItems) = .error .badArgument ∧
      printfLog (format idItems) (args idItems ++ [.int 9]) = .ok (ascii "i7 9]\n", []) ∧
      ¬ PrintsItems idItems [] := by
  have hmissing : printfLog (format idItems) (args idItems) = .error .badArgument := rfl
  refine ⟨rfl, rfl, rfl, hmissing, rfl, ?_⟩
  rw [PrintsItems, List.append_nil, hmissing]
  intro h
  cases h

end LibreKV.Log
