import Mathlib.Data.List.Induction
import Mathlib.Data.List.TakeWhile
import Mathlib.Data.Nat.Notation

/-!
# Zero-terminated strings in buffers of a fixed size

A buffer is an array of bytes whose length never changes; what C calls its string is the
bytes before the first zero (`Buffer.text`). The functions of `string.h` that write are
partial: `none` stands for a write beyond the buffer.

A buffer that was cleared once and only ever holds strings has nothing but zeros behind its
string (`Buffer.Holds`). `strcat` keeps this and appends. `memcpy` of a string *without* its
zero keeps it too, but the string is then continued by the rest of the old one, as far as that
was longer (`Buffer.Holds.memcpy`).
-/

namespace CString

/-- The bytes of an ASCII text. -/
def ascii (s : String) : List UInt8 := s.toList.map fun c => UInt8.ofNat c.toNat

/-- The string that starts with these bytes: those before the first zero. -/
def upToZero (bytes : List UInt8) : List UInt8 := bytes.takeWhile (· != 0)

/-- A string, without its zero. -/
structure Str where
  chars : List UInt8
  nonzero : 0 ∉ chars
  deriving DecidableEq

/-- `char[n]`. -/
structure Buffer (n : ℕ) where
  bytes : List UInt8
  size : bytes.length = n
  deriving DecidableEq

theorem zero_notMem_upToZero (bytes : List UInt8) : 0 ∉ upToZero bytes := by
  intro h
  have hne := List.mem_takeWhile_imp h
  simp at hne

/-- Only the first zero counts. -/
theorem upToZero_append_zero_cons (t rest : List UInt8) :
    upToZero (t ++ 0 :: rest) = upToZero t := by
  induction t with
  | nil => rfl
  | cons b t ih =>
      by_cases hb : b = 0
      · subst hb
        rfl
      · have hpos : (b != 0) = true := by simpa using hb
        simp only [upToZero, List.cons_append, List.takeWhile_cons, hpos, if_true]
        exact congrArg (b :: ·) ih

theorem upToZero_of_notMem {t : List UInt8} (h : 0 ∉ t) : upToZero t = t := by
  rw [upToZero, List.takeWhile_eq_self_iff]
  intro b hb
  simpa using fun hzero : b = 0 => h (hzero ▸ hb)

namespace Buffer

variable {n : ℕ}

/-- A cleared buffer. -/
def zeroed (n : ℕ) : Buffer n := ⟨List.replicate n 0, List.length_replicate⟩

/-- The string in the buffer; all its bytes, when none is zero. -/
def text (b : Buffer n) : List UInt8 := upToZero b.bytes

/-- The string in the buffer, as a function sees it that reads on to the zero. -/
def string? (b : Buffer n) : Option (List UInt8) := if 0 ∈ b.bytes then some b.text else none

/-- Overwrite the bytes from `pos` on. -/
def write (b : Buffer n) (pos : ℕ) (src : List UInt8) : Option (Buffer n) :=
  if h : pos + src.length ≤ n then
    some ⟨b.bytes.take pos ++ src ++ b.bytes.drop (pos + src.length), by
      rw [List.length_append, List.length_append, List.length_take, List.length_drop, b.size]
      omega⟩
  else none

/-- `memcpy(b, src, length of src)`. -/
def memcpy (b : Buffer n) (src : List UInt8) : Option (Buffer n) := b.write 0 src

/-- `strcpy(b, s)`. -/
def strcpy (b : Buffer n) (s : List UInt8) : Option (Buffer n) := b.write 0 (s ++ [0])

/-- `strcat(b, s)`. -/
def strcat (b : Buffer n) (s : List UInt8) : Option (Buffer n) :=
  b.string?.bind fun t => b.write t.length (s ++ [0])

/-! ### What is read back -/

theorem zero_notMem_text (b : Buffer n) : 0 ∉ b.text := zero_notMem_upToZero b.bytes

theorem string?_eq_some {b : Buffer n} {t : List UInt8} :
    b.string? = some t ↔ 0 ∈ b.bytes ∧ b.text = t := by
  rw [string?]
  split
  · next hzero => simp [hzero]
  · next hzero => simp [hzero]

/-- Bytes with a zero behind them. -/
theorem string?_of_bytes {b : Buffer n} {t rest : List UInt8} (hbytes : b.bytes = t ++ 0 :: rest) :
    b.string? = some (upToZero t) := by
  rw [string?_eq_some, text, hbytes]
  exact ⟨List.mem_append_right t List.mem_cons_self, upToZero_append_zero_cons t rest⟩

/-- What a write leaves. -/
theorem write_eq_some {b b' : Buffer n} {pos : ℕ} {src : List UInt8}
    (h : b.write pos src = some b') : pos + src.length ≤ n ∧
      b'.bytes = b.bytes.take pos ++ src ++ b.bytes.drop (pos + src.length) := by
  rw [write] at h
  split at h
  · next hle =>
    obtain rfl := Option.some.inj h
    exact ⟨hle, rfl⟩
  · cases h

/-- After `strcpy` the buffer has the string of the bytes that were copied. -/
theorem string?_strcpy {b b' : Buffer n} {s : List UInt8} (h : b.strcpy s = some b') :
    b'.string? = some (upToZero s) := by
  obtain ⟨-, hbytes⟩ := write_eq_some h
  rw [List.take_zero, List.nil_append, List.append_assoc] at hbytes
  exact string?_of_bytes hbytes

theorem text_strcpy {b b' : Buffer n} {s : List UInt8} (h : b.strcpy s = some b') :
    b'.text = upToZero s := (string?_eq_some.mp (string?_strcpy h)).2

/-- `strcat` appends to the string. -/
theorem string?_strcat {b b' : Buffer n} {s : List UInt8} (hs : 0 ∉ s)
    (h : b.strcat s = some b') : b'.string? = some (b.text ++ s) := by
  obtain ⟨t, ht, hwrite⟩ := Option.bind_eq_some_iff.mp h
  obtain ⟨-, rfl⟩ := string?_eq_some.mp ht
  obtain ⟨-, hbytes⟩ := write_eq_some hwrite
  have htake : b.bytes.take b.text.length = b.text :=
    (List.prefix_iff_eq_take.mp (List.takeWhile_prefix _)).symm
  have hzero : 0 ∉ b.text ++ s := by
    rw [List.mem_append, not_or]
    exact ⟨b.zero_notMem_text, hs⟩
  rw [htake, ← List.append_assoc, List.append_assoc (b.text ++ s)] at hbytes
  rw [string?_of_bytes hbytes, upToZero_of_notMem hzero]

theorem text_strcat {b b' : Buffer n} {s : List UInt8} (hs : 0 ∉ s) (h : b.strcat s = some b') :
    b'.text = b.text ++ s := (string?_eq_some.mp (string?_strcat hs h)).2

/-- The string of a buffer that has a zero is shorter than the buffer. -/
theorem length_text_lt {b : Buffer n} (h : 0 ∈ b.bytes) : b.text.length < n := by
  have htake : b.text <+: b.bytes := List.takeWhile_prefix _
  have hne : b.text ≠ b.bytes := by
    intro heq
    rw [← heq] at h
    exact b.zero_notMem_text h
  have hlt := lt_of_le_of_ne htake.length_le fun heq => hne (htake.eq_of_length heq)
  rwa [b.size] at hlt

/-- A string that was copied without its zero and is followed by one fits the buffer. -/
theorem length_lt_of_memcpy {b b' : Buffer n} {s : List UInt8} (hs : 0 ∉ s)
    (h : b.memcpy s = some b') (hzero : 0 ∈ b'.bytes) : s.length < n := by
  obtain ⟨hle, hbytes⟩ := write_eq_some h
  rw [Nat.zero_add] at hle hbytes
  refine lt_of_le_of_ne hle fun heq => hs ?_
  have hend : b.bytes.drop s.length = [] := List.drop_eq_nil_iff.mpr (by rw [b.size, heq])
  rw [hbytes, List.take_zero, List.nil_append, hend, List.append_nil] at hzero
  exact hzero

/-- `strcat` needs the zero of the string it appends to. -/
theorem zero_mem_of_strcat {b b' : Buffer n} {s : List UInt8} (h : b.strcat s = some b') :
    0 ∈ b.bytes := by
  obtain ⟨t, ht, -⟩ := Option.bind_eq_some_iff.mp h
  exact (string?_eq_some.mp ht).1

/-! ### What fits -/

theorem exists_write (b : Buffer n) {pos : ℕ} {src : List UInt8} (h : pos + src.length ≤ n) :
    ∃ b', b.write pos src = some b' := ⟨_, dif_pos h⟩

/-- Bytes that fit with a zero behind them can be copied. -/
theorem exists_strcpy (b : Buffer n) {s : List UInt8} (h : s.length < n) :
    ∃ b', b.strcpy s = some b' :=
  b.exists_write (by rw [List.length_append, List.length_singleton]; omega)

theorem length_lt_of_strcpy {b b' : Buffer n} {s : List UInt8} (h : b.strcpy s = some b') :
    s.length < n := by
  obtain ⟨hle, -⟩ := write_eq_some h
  rw [List.length_append, List.length_singleton] at hle
  omega

theorem string?_zeroed (hn : 0 < n) : (zeroed n).string? = some [] := by
  obtain ⟨k, rfl⟩ := Nat.exists_eq_succ_of_ne_zero (Nat.ne_of_gt hn)
  rfl

/-! ### A string with nothing behind it -/

/-- The buffer holds the string `t`, and zeros from there on. -/
structure Holds (b : Buffer n) (t : List UInt8) : Prop where
  bytes : b.bytes = t ++ List.replicate (n - t.length) 0
  nonzero : 0 ∉ t
  short : t.length < n

theorem holds_zeroed (hn : 0 < n) : (zeroed n).Holds [] :=
  ⟨rfl, List.not_mem_nil, hn⟩

namespace Holds

variable {b b' : Buffer n} {s t : List UInt8}

theorem string? (h : b.Holds t) : b.string? = some t := by
  have hshort := h.short
  have hbytes := h.bytes
  rw [show n - t.length = (n - t.length - 1) + 1 by omega, List.replicate_succ] at hbytes
  rw [string?_of_bytes hbytes, upToZero_of_notMem h.nonzero]

theorem text (h : b.Holds t) : b.text = t := (string?_eq_some.mp h.string?).2

/-- A string copied without its zero: what the old string had behind it stays. -/
theorem memcpy (h : b.Holds t) (hs : 0 ∉ s) (hshort : s.length < n)
    (hcopy : b.memcpy s = some b') : b'.Holds (s ++ t.drop s.length) := by
  obtain ⟨-, hbytes⟩ := write_eq_some hcopy
  refine ⟨?_, ?_, ?_⟩
  · rw [hbytes, h.bytes, List.take_zero, List.nil_append, Nat.zero_add, List.drop_append,
      List.append_assoc, List.drop_replicate, List.length_append, List.length_drop]
    congr 3
    have := h.short
    omega
  · rw [List.mem_append, not_or]
    exact ⟨hs, fun hmem => h.nonzero (List.mem_of_mem_drop hmem)⟩
  · have := h.short
    rw [List.length_append, List.length_drop]
    omega

/-- `strcat` appends to the string held. -/
theorem strcat (h : b.Holds t) (hs : 0 ∉ s) (hcat : b.strcat s = some b') :
    b'.Holds (t ++ s) := by
  obtain ⟨t', ht', hwrite⟩ := Option.bind_eq_some_iff.mp hcat
  obtain rfl := Option.some.inj (h.string?.symm.trans ht')
  obtain ⟨hle, hbytes⟩ := write_eq_some hwrite
  rw [List.length_append, List.length_singleton] at hle
  refine ⟨?_, ?_, ?_⟩
  · have hrest : (t ++ List.replicate (n - t.length) 0).drop (t.length + (s.length + 1)) =
        List.replicate (n - (t ++ s).length - 1) 0 := by
      rw [List.drop_length_add_append, List.drop_replicate, List.length_append]
      congr 1
      omega
    rw [hbytes, h.bytes, List.take_left, List.length_append, List.length_singleton, hrest,
      List.append_assoc, List.append_assoc, List.append_assoc, List.singleton_append,
      ← List.replicate_succ, List.length_append]
    congr 3
    omega
  · rw [List.mem_append, not_or]
    exact ⟨h.nonzero, hs⟩
  · rw [List.length_append]
    omega

end Holds

end Buffer

/-! ### Strings copied over each other -/

section Overlay

variable {α : Type*}

/-- What is there after `s` was copied over `t` without a terminator. -/
def overlay (t s : List α) : List α := s ++ t.drop s.length

theorem getElem?_overlay (t s : List α) (i : ℕ) :
    (overlay t s)[i]? = if i < s.length then s[i]? else t[i]? := by
  by_cases hi : i < s.length
  · rw [if_pos hi, overlay, List.getElem?_append_left hi]
  · rw [if_neg hi, overlay, List.getElem?_append_right (by omega), List.getElem?_drop,
      Nat.add_sub_cancel' (by omega)]

theorem length_overlay (t s : List α) : (overlay t s).length = max s.length t.length := by
  rw [overlay, List.length_append, List.length_drop]
  omega

/-- Nothing shows behind a string that is not shorter. -/
theorem overlay_of_length_le {t s : List α} (h : t.length ≤ s.length) : overlay t s = s := by
  rw [overlay, List.drop_eq_nil_of_le h, List.append_nil]

/-- After any copies, a place shows the last string that reached it. -/
theorem getElem?_foldl_overlay (strings : List (List α)) (t : List α) (i : ℕ) :
    (strings.foldl overlay t)[i]? =
      ((strings.reverse.find? fun s => i < s.length).getD t)[i]? := by
  induction strings using List.reverseRecOn with
  | nil => rfl
  | append_singleton strings s ih =>
      rw [List.foldl_append, List.foldl_cons, List.foldl_nil, getElem?_overlay, List.reverse_append,
        List.reverse_singleton, List.singleton_append, List.find?_cons]
      by_cases hi : i < s.length
      · simp [hi]
      · simp [hi, ih]

/-- Copies never make a string shorter. -/
theorem length_le_foldl_overlay (strings : List (List α)) (t : List α) :
    t.length ≤ (strings.foldl overlay t).length := by
  induction strings generalizing t with
  | nil => exact Nat.le_refl _
  | cons s strings ih =>
      refine Nat.le_trans ?_ (ih (overlay t s))
      rw [length_overlay]
      exact Nat.le_max_right _ _

end Overlay

/-! ### Scanning a word -/

/-- `isspace` in the C locale. -/
def isSpace (b : UInt8) : Bool := b == 32 || (9 ≤ b && b ≤ 13)

/-- Match a literal part of a `scanf` format: whether all of it was there, and the input left. -/
def scanLiteral : List UInt8 → List UInt8 → Bool × List UInt8
  | [], input => (true, input)
  | _ :: _, [] => (false, [])
  | l :: ls, b :: input => if b = l then scanLiteral ls input else (false, b :: input)

/-- `fscanf` with a format of a literal part, `%s` and white space: the word, if one was read,
and the input left. -/
def scanWord (literal input : List UInt8) : Option (List UInt8) × List UInt8 :=
  let r := scanLiteral literal input
  if r.1 then
    let start := r.2.dropWhile isSpace
    let word := start.takeWhile fun b => !isSpace b
    let rest := start.dropWhile fun b => !isSpace b
    if word = [] then (none, rest) else (some word, rest.dropWhile isSpace)
  else (none, r.2)

theorem scanLiteral_append (literal input : List UInt8) :
    scanLiteral literal (literal ++ input) = (true, input) := by
  induction literal with
  | nil => rfl
  | cons l ls ih => rw [List.cons_append, scanLiteral, if_pos rfl, ih]

/-- A line with the literal part and a word is read as it is. -/
theorem scanWord_line (literal : List UInt8) {word : List UInt8} (hne : word ≠ [])
    (hword : ∀ b ∈ word, isSpace b = false) {sep : UInt8} (hsep : isSpace sep = true)
    (rest : List UInt8) :
    scanWord literal (literal ++ (word ++ sep :: rest)) =
      (some word, (sep :: rest).dropWhile isSpace) := by
  have hstart : (word ++ sep :: rest).dropWhile isSpace = word ++ sep :: rest := by
    cases word with
    | nil => exact absurd rfl hne
    | cons b bs => rw [List.cons_append, List.dropWhile_cons, hword b List.mem_cons_self]; rfl
  have hall : ∀ b ∈ word, (!isSpace b) = true := by
    intro b hb
    rw [hword b hb]
    rfl
  have htake : (word ++ sep :: rest).takeWhile (fun b => !isSpace b) = word := by
    rw [List.takeWhile_append_of_pos hall, List.takeWhile_cons, hsep]
    exact List.append_nil word
  have hdrop : (word ++ sep :: rest).dropWhile (fun b => !isSpace b) = sep :: rest := by
    rw [List.dropWhile_append_of_pos hall, List.dropWhile_cons, hsep]
    rfl
  simp only [scanWord, scanLiteral_append, if_true, hstart, htake, hdrop, if_neg hne]

end CString
