import Wxml.Json

/-!
# The texts of JSON values

The format of JSON, as everybody reads and writes it, for values whose numbers are whole. A value
has many texts: spaces may stand around every part, and a character of a string may be written as
itself, by a letter behind a backslash, by its code unit or by a pair of them. `Json.Spells` says
which texts a value has; it runs no reader and no writer.

**What is written is one of the texts** (`Json.spells_write`).

**Not established**: numbers with fractions or exponents, which no value here has, and duplicate
names in an object, which the format leaves open and `Spells` keeps as they are written.
-/

namespace Wxml.Json

/-! ## The format -/

/-- The characters that may stand around the parts of a text. -/
def isSpace (c : Char) : Bool := c == ' ' || c == '\t' || c == '\n' || c == '\r'

/-- A run of such characters, perhaps an empty one. -/
def IsSpaces (cs : List Char) : Prop := ∀ c ∈ cs, isSpace c = true

theorem IsSpaces.nil : IsSpaces [] := List.forall_mem_nil _

/-- A text with spaces around it. -/
def Padded (p : List Char → Prop) (cs : List Char) : Prop :=
  ∃ a x b, IsSpaces a ∧ p x ∧ IsSpaces b ∧ cs = a ++ (x ++ b)

/-- The value of a hexadecimal digit, in either case. -/
def hexDigit? (c : Char) : Option Nat :=
  if '0' ≤ c ∧ c ≤ '9' then some (c.toNat - '0'.toNat)
  else if 'a' ≤ c ∧ c ≤ 'f' then some (c.toNat - 'a'.toNat + 10)
  else if 'A' ≤ c ∧ c ≤ 'F' then some (c.toNat - 'A'.toNat + 10)
  else none

/-- The code unit that four hexadecimal digits stand for. -/
def codeUnit? (ds : List Char) : Option Nat :=
  if ds.length = 4 then (ds.mapM hexDigit?).map fun vs => vs.foldl (fun n v => 16 * n + v) 0
  else none

/-- The first half of a pair of code units. -/
def IsHigh (unit : Nat) : Prop := 0xd800 ≤ unit ∧ unit < 0xdc00

/-- The second half of a pair of code units. -/
def IsLow (unit : Nat) : Prop := 0xdc00 ≤ unit ∧ unit < 0xe000

instance (unit : Nat) : Decidable (IsHigh unit) := inferInstanceAs (Decidable (_ ∧ _))

instance (unit : Nat) : Decidable (IsLow unit) := inferInstanceAs (Decidable (_ ∧ _))

/-- The code point that a pair of code units stands for. -/
def paired (high low : Nat) : Nat := 0x10000 + (high - 0xd800) * 0x400 + (low - 0xdc00)

/-- The letters that stand behind a backslash, and what they stand for. -/
def letters : List (Char × Char) :=
  [('"', '"'), ('\\', '\\'), ('/', '/'), ('b', '\x08'), ('f', '\x0c'), ('n', '\n'), ('r', '\r'),
    ('t', '\t')]

/-- How a character of a string is written. -/
inductive CharSpelling (c : Char) : List Char → Prop
  | itself (notQuote : c ≠ '"') (notBackslash : c ≠ '\\') (shown : 0x20 ≤ c.toNat) :
      CharSpelling c [c]
  | letter {l : Char} (known : letters.lookup l = some c) : CharSpelling c ['\\', l]
  | unit {ds : List Char} (value : codeUnit? ds = some c.toNat) : CharSpelling c ('\\' :: 'u' :: ds)
  | pair {ds es : List Char} {high low : Nat} (first : codeUnit? ds = some high)
      (second : codeUnit? es = some low) (isHigh : IsHigh high) (isLow : IsLow low)
      (value : c.toNat = paired high low) :
      CharSpelling c ('\\' :: 'u' :: (ds ++ '\\' :: 'u' :: es))

/-- How some characters of a string are written. -/
inductive CharsSpelling : List Char → List Char → Prop
  | nil : CharsSpelling [] []
  | cons {c : Char} {cs x y : List Char} (first : CharSpelling c x) (others : CharsSpelling cs y) :
      CharsSpelling (c :: cs) (x ++ y)

/-- How a string is written. -/
def StringSpelling (s : String) (x : List Char) : Prop :=
  ∃ y, CharsSpelling s.toList y ∧ x = '"' :: (y ++ ['"'])

/-- How a natural number is written: no digit too many. -/
structure NatSpelling (n : Nat) (ds : List Char) : Prop where
  digits : ∀ c ∈ ds, c.isDigit = true
  nonempty : ds ≠ []
  shortest : ds.head? = some '0' → ds = ['0']
  value : n = Nat.ofDigitChars 10 ds 0

/-- How a whole number is written. -/
inductive IntSpelling : Int → List Char → Prop
  | plain {n : Nat} {x : List Char} (digits : NatSpelling n x) : IntSpelling n x
  | negative {n : Nat} {x : List Char} (digits : NatSpelling n x) : IntSpelling (-n) ('-' :: x)

mutual

/-- **The texts of a value.** -/
def Spells : Json → List Char → Prop
  | null, cs => cs = "null".toList
  | bool true, cs => cs = "true".toList
  | bool false, cs => cs = "false".toList
  | int n, cs => IntSpelling n cs
  | str s, cs => StringSpelling s cs
  | arr [], cs => ∃ a, IsSpaces a ∧ cs = '[' :: (a ++ [']'])
  | arr (v :: vs), cs =>
    ∃ x y, Padded (Spells v) x ∧ SpellsItems vs y ∧ cs = '[' :: (x ++ (y ++ [']']))
  | obj [], cs => ∃ a, IsSpaces a ∧ cs = '{' :: (a ++ ['}'])
  | obj ((name, v) :: fs), cs =>
    ∃ n x y, Padded (StringSpelling name) n ∧ Padded (Spells v) x ∧ SpellsFields fs y ∧
      cs = '{' :: (n ++ ':' :: (x ++ (y ++ ['}'])))

/-- The texts of the items behind the first one. -/
def SpellsItems : List Json → List Char → Prop
  | [], cs => cs = []
  | v :: vs, cs => ∃ x y, Padded (Spells v) x ∧ SpellsItems vs y ∧ cs = ',' :: (x ++ y)

/-- The texts of the fields behind the first one. -/
def SpellsFields : List (String × Json) → List Char → Prop
  | [], cs => cs = []
  | (name, v) :: fs, cs =>
    ∃ n x y, Padded (StringSpelling name) n ∧ Padded (Spells v) x ∧ SpellsFields fs y ∧
      cs = ',' :: (n ++ ':' :: (x ++ y))

end

/-! ## What is written -/

/-- A character is written as itself, by a letter, or by its code unit or units. All of these are
allowed by the format. -/
theorem CharSpelling.escape (c : Char) : CharSpelling c (escape c) := by
  by_cases special : c ∈ ['"', '\\', '\n', '\r', '\t', '\x08', '\x0c']
  · simp only [List.mem_cons, List.not_mem_nil, or_false] at special
    rcases special with rfl | rfl | rfl | rfl | rfl | rfl | rfl <;> exact .letter rfl
  · simp only [List.mem_cons, List.not_mem_nil, or_false, not_or] at special
    obtain ⟨notQuote, notBackslash, special⟩ := special
    by_cases control : c.toNat < 0x20
    · have hunit : ∀ n < 0x20, codeUnit? (Text.hex 4 n) = some n := by decide
      have hescape : Json.escape c = '\\' :: 'u' :: Text.hex 4 c.toNat := by
        simp only [Json.escape, notQuote, notBackslash, special, control, if_true, if_false]
      rw [hescape]
      exact .unit (hunit _ control)
    · have hescape : Json.escape c = [c] := by
        simp only [Json.escape, notQuote, notBackslash, special, control, if_false]
      rw [hescape]
      exact .itself notQuote notBackslash (Nat.le_of_not_lt control)

theorem CharsSpelling.escaped (cs : List Char) : CharsSpelling cs (cs.flatMap Json.escape) := by
  induction cs with
  | nil => exact .nil
  | cons c cs ih => exact .cons (.escape c) ih

theorem StringSpelling.written (s : String) : StringSpelling s (writeString s) :=
  ⟨_, .escaped s.toList, rfl⟩

/-- Zero is the only number whose first digit is a zero. -/
theorem head?_toDigits {n : Nat} (h : (Nat.toDigits 10 n).head? = some '0') : n = 0 := by
  induction n using Nat.strongRecOn with
  | ind n ih =>
    by_cases hsmall : n < 10
    · have hfirst : ∀ n < 10, (Nat.toDigits 10 n).head? = some '0' → n = 0 := by decide
      exact hfirst n hsmall h
    · have hsplit : Nat.toDigits 10 (n / 10) ++ Nat.toDigits 10 (n % 10) = Nat.toDigits 10 n := by
        rw [Nat.toDigits_append_toDigits (by decide) (by omega) (by omega), Nat.div_add_mod]
      obtain ⟨d, ds, hdigits⟩ :=
        List.exists_cons_of_ne_nil (Nat.toDigits_ne_nil (n := n / 10) (b := 10))
      rw [← hsplit, hdigits] at h
      have hzero : n / 10 = 0 := ih (n / 10) (by omega) (by rw [hdigits]; exact h)
      omega

/-- The digits of a number have no zero too many, and stand for the number. -/
theorem NatSpelling.digits_toDigits (n : Nat) : NatSpelling n (Nat.toDigits 10 n) where
  digits _ hc := Nat.isDigit_of_mem_toDigits (by decide) (by decide) hc
  nonempty := Nat.toDigits_ne_nil
  shortest h := by
    rw [head?_toDigits h]
    rfl
  value := (Nat.ofDigitChars_toDigits (by decide) (by decide)).symm

/-- A whole number is its digits, with a sign in front if it is negative. -/
theorem IntSpelling.written (n : Int) : IntSpelling n (writeInt n) := by
  cases n with
  | ofNat n => exact .plain (.digits_toDigits n)
  | negSucc n =>
    rw [Int.negSucc_eq]
    exact .negative (.digits_toDigits (n + 1))

theorem Padded.plain {p : List Char → Prop} {x : List Char} (h : p x) : Padded p x :=
  ⟨[], x, [], .nil, h, .nil, (List.append_nil x).symm⟩

/-- One space in front, as it stands behind a comma or a colon. -/
theorem Padded.behindSpace {p : List Char → Prop} {x : List Char} (h : p x) :
    Padded p (' ' :: x) := by
  refine ⟨[' '], x, [], ?_, h, .nil, ?_⟩
  · intro c hc
    rw [List.mem_singleton.mp hc]
    rfl
  · rw [List.append_nil]
    rfl

mutual

/-- **What is written is a text of the value.** The recursion is on the value, with the items of
arrays and the fields of objects beside it. -/
theorem spells_write (v : Json) : Spells v v.write := by
  cases v with
  | null => rw [write, Spells]
  | bool b =>
    cases b with
    | false => rw [write, Spells]
    | true => rw [write, Spells]
  | int n =>
    rw [write, Spells]
    exact .written n
  | str s =>
    rw [write, Spells]
    exact .written s
  | arr vs =>
    cases vs with
    | nil =>
      rw [write, Spells]
      exact ⟨[], .nil, rfl⟩
    | cons v vs =>
      rw [write, Spells]
      refine ⟨_, _, .plain (spells_write v), spellsItems_write vs, ?_⟩
      rw [List.cons_append, List.cons_append, List.append_assoc]
  | obj fs =>
    cases fs with
    | nil =>
      rw [write, Spells]
      exact ⟨[], .nil, rfl⟩
    | cons f fs =>
      obtain ⟨name, v⟩ := f
      rw [write, Spells]
      refine ⟨_, _, _, .plain (.written name), .behindSpace (spells_write v),
        spellsFields_write fs, ?_⟩
      simp

theorem spellsItems_write (vs : List Json) : SpellsItems vs (writeItems vs) := by
  cases vs with
  | nil => rw [writeItems, SpellsItems]
  | cons v vs =>
    rw [writeItems, SpellsItems]
    refine ⟨_, _, .behindSpace (spells_write v), spellsItems_write vs, ?_⟩
    simp

theorem spellsFields_write (fs : List (String × Json)) : SpellsFields fs (writeFields fs) := by
  cases fs with
  | nil => rw [writeFields, SpellsFields]
  | cons f fs =>
    obtain ⟨name, v⟩ := f
    rw [writeFields, SpellsFields]
    refine ⟨_, _, _, .behindSpace (.written name), .behindSpace (spells_write v),
      spellsFields_write fs, ?_⟩
    simp

end

end Wxml.Json
