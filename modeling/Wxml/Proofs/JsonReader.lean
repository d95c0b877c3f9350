import Wxml.Proofs.JsonText
import Wxml.Proofs.Scan.Passage

/-!
# Reading JSON

A reader of JSON texts. It skips spaces, tells the parts of a text by their first characters, and
refuses what is no text of a value. Whether it goes on is decided by a number that each part makes
smaller; the length of the text is enough.

**Every text of every value is read as that value** (`Json.read_of_spells`), so a text has one value
at most, whoever reads it. What is written is read back (`Json.read_render`).

**Not established**: that nothing else is read. The reader may accept a text that is no text of any
value; what is shown is that it reads every one of these, and reads it as its value.
-/

namespace Wxml.Json

/-! ## The reader -/

/-- What follows the spaces at the start. -/
def skipSpaces (cs : List Char) : List Char := cs.dropWhile isSpace

/-- The code unit at the start. -/
def readUnit (cs : List Char) : Option (Nat × List Char) :=
  (codeUnit? (cs.take 4)).map fun unit => (unit, cs.drop 4)

/-- The character of a code unit, or of the pair that it starts. -/
def readPaired (unit : Nat) (cs : List Char) : Option (Char × List Char) :=
  if IsHigh unit then
    if cs.take 2 = ['\\', 'u'] then
      (readUnit (cs.drop 2)).bind fun r =>
        if IsLow r.1 then some (Char.ofNat (paired unit r.1), r.2) else none
    else none
  else if IsLow unit then none
  else some (Char.ofNat unit, cs)

/-- The character that a backslash stands before. -/
def readEscape : List Char → Option (Char × List Char)
  | [] => none
  | l :: rest =>
    if l = 'u' then (readUnit rest).bind fun r => readPaired r.1 r.2
    else (letters.lookup l).map fun c => (c, rest)

/-- One character of a string. -/
def readChar : List Char → Option (Char × List Char)
  | [] => none
  | c :: rest =>
    if c = '\\' then readEscape rest
    else if c = '"' ∨ c.toNat < 0x20 then none
    else some (c, rest)

/-- The characters of a string up to its closing quote. The number bounds how many there are. -/
def readChars : Nat → List Char → Option (List Char × List Char)
  | 0, _ => none
  | bound + 1, cs =>
    if cs.head? = some '"' then some ([], cs.tail)
    else (readChar cs).bind fun r => (readChars bound r.2).map fun q => (r.1 :: q.1, q.2)

/-- A natural number. -/
def readNat (cs : List Char) : Option (Nat × List Char) :=
  let ds := cs.takeWhile Char.isDigit
  if ds = [] ∨ (ds.head? = some '0' ∧ ds ≠ ['0']) then none
  else some (Nat.ofDigitChars 10 ds 0, cs.dropWhile Char.isDigit)

/-- A whole number. -/
def readInt (cs : List Char) : Option (Int × List Char) :=
  if cs.head? = some '-' then (readNat cs.tail).map fun r => (-r.1, r.2)
  else (readNat cs).map fun r => (r.1, r.2)

/-- The values that have names. -/
def words : List (List Char × Json) :=
  [("null".toList, null), ("true".toList, bool true), ("false".toList, bool false)]

/-- A named value or a number. -/
def readPlain (cs : List Char) : Option (Json × List Char) :=
  match words.find? (·.1.isPrefixOf cs) with
  | some word => some (word.2, cs.drop word.1.length)
  | none => (readInt cs).map fun r => (int r.1, r.2)

/-- The name of a field, up to its value. -/
def readName (bound : Nat) (cs : List Char) : Option (String × List Char) :=
  if cs.head? = some '"' then
    (readChars bound cs.tail).bind fun r =>
      if (skipSpaces r.2).head? = some ':' then
        some (String.ofList r.1, skipSpaces (skipSpaces r.2).tail)
      else none
  else none

mutual

/-- A value. The number bounds how many parts are read one after the other or inside one another. -/
def readValue : Nat → List Char → Option (Json × List Char)
  | 0, _ => none
  | _ + 1, [] => none
  | bound + 1, c :: rest =>
    if c = '"' then (readChars bound rest).map fun r => (str (String.ofList r.1), r.2)
    else if c = '[' then
      if (skipSpaces rest).head? = some ']' then some (arr [], (skipSpaces rest).tail)
      else (readValue bound (skipSpaces rest)).bind fun r =>
        (readItems bound r.2).map fun q => (arr (r.1 :: q.1), q.2)
    else if c = '{' then
      if (skipSpaces rest).head? = some '}' then some (obj [], (skipSpaces rest).tail)
      else (readName bound (skipSpaces rest)).bind fun name =>
        (readValue bound name.2).bind fun r =>
          (readFields bound r.2).map fun q => (obj ((name.1, r.1) :: q.1), q.2)
    else readPlain (c :: rest)

/-- The items of an array behind the first one, to its end. -/
def readItems : Nat → List Char → Option (List Json × List Char)
  | 0, _ => none
  | bound + 1, cs =>
    if (skipSpaces cs).head? = some ']' then some ([], (skipSpaces cs).tail)
    else if (skipSpaces cs).head? = some ',' then
      (readValue bound (skipSpaces (skipSpaces cs).tail)).bind fun r =>
        (readItems bound r.2).map fun q => (r.1 :: q.1, q.2)
    else none

/-- The fields of an object behind the first one, to its end. -/
def readFields : Nat → List Char → Option (List (String × Json) × List Char)
  | 0, _ => none
  | bound + 1, cs =>
    if (skipSpaces cs).head? = some '}' then some ([], (skipSpaces cs).tail)
    else if (skipSpaces cs).head? = some ',' then
      (readName bound (skipSpaces (skipSpaces cs).tail)).bind fun name =>
        (readValue bound name.2).bind fun r =>
          (readFields bound r.2).map fun q => ((name.1, r.1) :: q.1, q.2)
    else none

end

/-- The value of a text, if it is the text of a value. -/
def read (text : String) : Option Json :=
  (readValue text.length (skipSpaces text.toList)).bind fun r =>
    if skipSpaces r.2 = [] then some r.1 else none

/-! ## Spaces -/

/-- Spaces are skipped as far as they go, and no further, as something else follows them or nothing
does. -/
theorem skipSpaces_append {a cs : List Char} (spaces : IsSpaces a) (ends : Stops isSpace cs) :
    skipSpaces (a ++ cs) = cs :=
  ends.dropWhile_append spaces

theorem isDigit_of_isSpace {c : Char} (h : isSpace c = true) : c.isDigit = false := by
  unfold isSpace at h
  simp only [Bool.or_eq_true, beq_iff_eq] at h
  rcases h with ((rfl | rfl) | rfl) | rfl <;> rfl

/-- A number ends where spaces start, or whatever ends it behind them. -/
theorem stops_isDigit_append {a cs : List Char} (spaces : IsSpaces a)
    (ends : Stops Char.isDigit cs) : Stops Char.isDigit (a ++ cs) := by
  cases a with
  | nil => exact ends
  | cons c a => exact stops_cons.mpr (isDigit_of_isSpace (spaces c List.mem_cons_self))

/-! ## Strings -/

/-- A code unit has four digits, no more and no fewer. -/
theorem length_of_codeUnit? {ds : List Char} {unit : Nat} (h : codeUnit? ds = some unit) :
    ds.length = 4 := by
  unfold codeUnit? at h
  by_cases hlength : ds.length = 4
  · exact hlength
  · rw [if_neg hlength] at h
    cases h

/-- Four digits are read as their code unit, whatever follows. -/
theorem readUnit_append {ds : List Char} {unit : Nat} (h : codeUnit? ds = some unit)
    (rest : List Char) : readUnit (ds ++ rest) = some (unit, rest) := by
  have hlength := length_of_codeUnit? h
  rw [readUnit, List.take_left' hlength, List.drop_left' hlength, h]
  rfl

/-- No character is half of a pair. So a code unit that is read alone is never one, and reading it
as a character loses nothing. -/
theorem not_isHigh_toNat (c : Char) : ¬ IsHigh c.toNat ∧ ¬ IsLow c.toNat := by
  have hvalid : c.toNat < 0xd800 ∨ (0xdfff < c.toNat ∧ c.toNat < 0x110000) := c.valid
  unfold IsHigh IsLow
  omega

/-- Every way of writing a character is read as the character. A first half of a pair is never taken
for a character, as no character has its code (`not_isHigh_toNat`). -/
theorem readChar_of_spelling {c : Char} {x : List Char} (h : CharSpelling c x) (rest : List Char) :
    readChar (x ++ rest) = some (c, rest) := by
  cases h with
  | itself notQuote notBackslash shown =>
    show readChar (c :: rest) = _
    have hplain : ¬ (c = '"' ∨ c.toNat < 0x20) := by
      rintro (hquote | hsmall)
      · exact notQuote hquote
      · omega
    rw [readChar, if_neg notBackslash, if_neg hplain]
  | @letter l known =>
    show readEscape (l :: rest) = _
    have hunit : l ≠ 'u' := by
      rintro rfl
      cases known
    rw [readEscape, if_neg hunit, known]
    rfl
  | @unit ds value =>
    show (readUnit (ds ++ rest)).bind (fun r => readPaired r.1 r.2) = _
    obtain ⟨notHigh, notLow⟩ := not_isHigh_toNat c
    rw [readUnit_append value]
    show readPaired c.toNat rest = _
    rw [readPaired, if_neg notHigh, if_neg notLow, Char.ofNat_toNat]
  | @pair ds es high low first second isHigh isLow value =>
    have hsplit : (ds ++ '\\' :: 'u' :: es) ++ rest = ds ++ '\\' :: 'u' :: (es ++ rest) := by
      rw [List.append_assoc]
      rfl
    show (readUnit ((ds ++ '\\' :: 'u' :: es) ++ rest)).bind (fun r => readPaired r.1 r.2) = _
    rw [hsplit, readUnit_append first]
    show readPaired high ('\\' :: 'u' :: (es ++ rest)) = _
    have hmark : ('\\' :: 'u' :: (es ++ rest)).take 2 = ['\\', 'u'] := rfl
    rw [readPaired, if_pos isHigh, if_pos hmark]
    show (readUnit (es ++ rest)).bind _ = _
    rw [readUnit_append second]
    show (if IsLow low then some (Char.ofNat (paired high low), rest) else none) = _
    rw [if_pos isLow, ← value, Char.ofNat_toNat]

/-- No character of a string is written with a quote in front, so that the first one there ends the
string. -/
theorem CharSpelling.head?_ne_quote {c : Char} {x : List Char} (h : CharSpelling c x)
    (rest : List Char) : (x ++ rest).head? ≠ some '"' := by
  cases h with
  | itself notQuote => exact fun hquote => notQuote (Option.some.inj hquote)
  | letter => exact fun hquote => absurd (Option.some.inj hquote) (by decide)
  | unit => exact fun hquote => absurd (Option.some.inj hquote) (by decide)
  | pair => exact fun hquote => absurd (Option.some.inj hquote) (by decide)

theorem CharSpelling.length_pos {c : Char} {x : List Char} (h : CharSpelling c x) :
    0 < x.length := by
  cases h <;> exact Nat.succ_pos _

/-- The characters of a string up to its quote. Each of them takes one character of the text at
least, so the bound is enough. -/
theorem readChars_of_spelling {cs x : List Char} (h : CharsSpelling cs x) {bound : Nat}
    (enough : x.length < bound) (rest : List Char) :
    readChars bound (x ++ '"' :: rest) = some (cs, rest) := by
  induction h generalizing bound with
  | nil =>
    obtain ⟨bound, rfl⟩ := Nat.exists_eq_succ_of_ne_zero (Nat.ne_of_gt enough)
    rw [List.nil_append, readChars, if_pos List.head?_cons]
    rfl
  | @cons c cs x y first others ih =>
    have hpos := first.length_pos
    rw [List.length_append] at enough
    obtain ⟨bound, rfl⟩ : ∃ b, bound = b + 1 := ⟨bound - 1, by omega⟩
    rw [List.append_assoc, readChars, if_neg (first.head?_ne_quote _), readChar_of_spelling first]
    show (readChars bound (y ++ '"' :: rest)).map _ = _
    rw [ih (by omega)]
    rfl

/-! ## Numbers -/

/-- A number is read up to where its digits end. What follows must not go on with them. -/
theorem readNat_of_spelling {n : Nat} {ds : List Char} (h : NatSpelling n ds) {rest : List Char}
    (ends : Stops Char.isDigit rest) : readNat (ds ++ rest) = some (n, rest) := by
  have hgood : ¬ (ds = [] ∨ (ds.head? = some '0' ∧ ds ≠ ['0'])) := by
    rintro (hnil | ⟨hzero, hlong⟩)
    · exact h.nonempty hnil
    · exact hlong (h.shortest hzero)
  unfold readNat
  rw [ends.takeWhile_append h.digits, ends.dropWhile_append h.digits]
  simp only [if_neg hgood, ← h.value]

theorem NatSpelling.head? {n : Nat} {ds : List Char} (h : NatSpelling n ds) :
    ∃ d rest, ds = d :: rest ∧ d.isDigit = true := by
  cases ds with
  | nil => exact absurd rfl h.nonempty
  | cons d rest => exact ⟨d, rest, rfl, h.digits d List.mem_cons_self⟩

/-- A whole number is read with its sign. The sign can be told from a digit. -/
theorem readInt_of_spelling {n : Int} {x : List Char} (h : IntSpelling n x) {rest : List Char}
    (ends : Stops Char.isDigit rest) : readInt (x ++ rest) = some (n, rest) := by
  cases h with
  | plain digits =>
    obtain ⟨d, ds, rfl, hd⟩ := digits.head?
    have hsign : ((d :: ds) ++ rest).head? ≠ some '-' := by
      rintro hminus
      cases Option.some.inj hminus
      cases hd
    rw [readInt, if_neg hsign, readNat_of_spelling digits ends]
    rfl
  | negative digits =>
    rw [List.cons_append, readInt, if_pos List.head?_cons, List.tail_cons,
      readNat_of_spelling digits ends]
    rfl

theorem IntSpelling.head? {n : Int} {x : List Char} (h : IntSpelling n x) :
    ∃ c y, x = c :: y ∧ (c.isDigit = true ∨ c = '-') := by
  cases h with
  | plain digits =>
    obtain ⟨d, ds, hds, hd⟩ := digits.head?
    exact ⟨d, ds, hds, .inl hd⟩
  | negative => exact ⟨'-', _, rfl, .inr rfl⟩

/-- No name starts like a number, so that the names are tried first without harm. -/
theorem find?_words_eq_none {c : Char} (h : c.isDigit = true ∨ c = '-') (cs : List Char) :
    words.find? (·.1.isPrefixOf (c :: cs)) = none := by
  rw [List.find?_eq_none]
  intro word hword hprefix
  have hfirst : ∀ word ∈ words, ∃ d ds, word.1 = d :: ds ∧ d.isDigit = false ∧ d ≠ '-' := by
    simp [words]
  obtain ⟨d, ds, hd, hdigit, hminus⟩ := hfirst word hword
  rw [hd, List.isPrefixOf_cons_cons, Bool.and_eq_true, beq_iff_eq] at hprefix
  obtain ⟨rfl, -⟩ := hprefix
  rcases h with h | h
  · rw [hdigit] at h
    cases h
  · exact hminus h

/-- A number is not mistaken for one of the named values. -/
theorem readPlain_of_int {n : Int} {x : List Char} (h : IntSpelling n x) {rest : List Char}
    (ends : Stops Char.isDigit rest) : readPlain (x ++ rest) = some (int n, rest) := by
  have hread := readInt_of_spelling h ends
  obtain ⟨c, y, rfl, hc⟩ := h.head?
  rw [readPlain, List.cons_append, find?_words_eq_none hc, ← List.cons_append, hread]
  rfl

/-! ## Values -/

/-- A text starts with a character that is no space. -/
def StartsDark (x : List Char) : Prop := ∃ c y, x = c :: y ∧ isSpace c = false

theorem StringSpelling.startsDark {s : String} {x : List Char} (h : StringSpelling s x) :
    StartsDark x := by
  obtain ⟨y, -, rfl⟩ := h
  exact ⟨'"', _, rfl, rfl⟩

/-- A value starts with a character that is neither a space nor the end of an array. -/
theorem Spells.head? {v : Json} {x : List Char} (h : Spells v x) :
    ∃ c y, x = c :: y ∧ isSpace c = false ∧ c ≠ ']' := by
  cases v with
  | null =>
    rw [Spells] at h
    exact ⟨'n', "ull".toList, h, rfl, by decide⟩
  | bool b =>
    cases b with
    | false =>
      rw [Spells] at h
      exact ⟨'f', "alse".toList, h, rfl, by decide⟩
    | true =>
      rw [Spells] at h
      exact ⟨'t', "rue".toList, h, rfl, by decide⟩
  | int n =>
    rw [Spells] at h
    obtain ⟨c, y, rfl, hc⟩ := h.head?
    refine ⟨c, y, rfl, ?_, ?_⟩
    · cases hspace : isSpace c with
      | false => rfl
      | true =>
        rcases hc with hc | rfl
        · rw [isDigit_of_isSpace hspace] at hc
          cases hc
        · cases hspace
    · rintro rfl
      rcases hc with hc | hc
      · cases hc
      · cases hc
  | str s =>
    rw [Spells] at h
    obtain ⟨y, -, rfl⟩ := h
    exact ⟨'"', _, rfl, rfl, by decide⟩
  | arr vs =>
    cases vs with
    | nil =>
      rw [Spells] at h
      obtain ⟨a, -, rfl⟩ := h
      exact ⟨'[', _, rfl, rfl, by decide⟩
    | cons v vs =>
      rw [Spells] at h
      obtain ⟨y, z, -, -, rfl⟩ := h
      exact ⟨'[', _, rfl, rfl, by decide⟩
  | obj fs =>
    cases fs with
    | nil =>
      rw [Spells] at h
      obtain ⟨a, -, rfl⟩ := h
      exact ⟨'{', _, rfl, rfl, by decide⟩
    | cons f fs =>
      obtain ⟨name, v⟩ := f
      rw [Spells] at h
      obtain ⟨n, y, z, -, -, -, rfl⟩ := h
      exact ⟨'{', _, rfl, rfl, by decide⟩

theorem Spells.startsDark {v : Json} {x : List Char} (h : Spells v x) : StartsDark x := by
  obtain ⟨c, y, hx, hc, -⟩ := h.head?
  exact ⟨c, y, hx, hc⟩

/-- The spaces before a padded text are skipped, those behind it are left for whoever reads on. The
text itself starts with something that is no space. -/
theorem Padded.skipSpaces_append {p : List Char → Prop} {cs : List Char} (h : Padded p cs)
    (dark : ∀ x, p x → StartsDark x) (rest : List Char) :
    ∃ x b, p x ∧ IsSpaces b ∧ x.length ≤ cs.length ∧
      skipSpaces (cs ++ rest) = x ++ (b ++ rest) := by
  obtain ⟨a, x, b, ha, hx, hb, rfl⟩ := h
  obtain ⟨c, y, rfl, hc⟩ := dark x hx
  refine ⟨c :: y, b, hx, hb, ?_, ?_⟩
  · simp only [List.length_append]
    omega
  · rw [List.append_assoc, List.append_assoc]
    exact Json.skipSpaces_append ha (stops_cons.mpr hc)

/-- The name of a field and its value: the name is read up to the value. -/
theorem readName_of_spelling {name : String} {p : List Char → Prop} {n x : List Char}
    (hname : Padded (StringSpelling name) n) (hvalue : Padded p x)
    (dark : ∀ x, p x → StartsDark x) {bound : Nat} (enough : n.length ≤ bound) (rest : List Char) :
    ∃ y b, p y ∧ IsSpaces b ∧ y.length ≤ x.length ∧
      readName bound (skipSpaces (n ++ ':' :: (x ++ rest))) = some (name, y ++ (b ++ rest)) := by
  obtain ⟨y, b, hy, hb, hlength, hskip⟩ := hvalue.skipSpaces_append dark rest
  obtain ⟨z, c, ⟨w, hw, rfl⟩, hc, hlength', hskip'⟩ :=
    hname.skipSpaces_append (fun _ => StringSpelling.startsDark) (':' :: (x ++ rest))
  refine ⟨y, b, hy, hb, hlength, ?_⟩
  have hbound : w.length < bound := by
    simp only [List.length_cons, List.length_append] at hlength'
    omega
  have hshape : '"' :: (w ++ ['"']) ++ (c ++ ':' :: (x ++ rest)) =
      '"' :: (w ++ '"' :: (c ++ ':' :: (x ++ rest))) := by
    rw [List.cons_append, List.append_assoc]
    rfl
  have hcolon : skipSpaces (c ++ ':' :: (x ++ rest)) = ':' :: (x ++ rest) :=
    Json.skipSpaces_append hc (stops_cons.mpr rfl)
  rw [hskip', hshape, readName, if_pos List.head?_cons, List.tail_cons,
    readChars_of_spelling hw hbound]
  show (if (skipSpaces (c ++ ':' :: (x ++ rest))).head? = some ':' then _ else _) = _
  rw [hcolon, if_pos List.head?_cons, List.tail_cons, hskip, String.ofList_toList]

/-- What follows the first item or field: the next one, or the end. Neither goes on with a number,
so numbers end where they should. -/
theorem SpellsItems.stops {vs : List Json} {y : List Char} (h : SpellsItems vs y)
    (rest : List Char) : Stops Char.isDigit (y ++ ']' :: rest) := by
  cases vs with
  | nil =>
    rw [SpellsItems] at h
    subst h
    exact stops_cons.mpr rfl
  | cons v vs =>
    rw [SpellsItems] at h
    obtain ⟨x, z, -, -, rfl⟩ := h
    exact stops_cons.mpr rfl

/-- The same for fields. Neither a comma nor a closing brace goes on with a number. -/
theorem SpellsFields.stops {fs : List (String × Json)} {y : List Char} (h : SpellsFields fs y)
    (rest : List Char) : Stops Char.isDigit (y ++ '}' :: rest) := by
  cases fs with
  | nil =>
    rw [SpellsFields] at h
    subst h
    exact stops_cons.mpr rfl
  | cons f fs =>
    obtain ⟨name, v⟩ := f
    rw [SpellsFields] at h
    obtain ⟨n, x, z, -, -, -, rfl⟩ := h
    exact stops_cons.mpr rfl

/-- Every text of a value is read as the value, whatever comes behind it that could not belong to a
number. -/
def Reads (v : Json) : Prop :=
  ∀ x bound rest, Spells v x → x.length ≤ bound → Stops Char.isDigit rest →
    readValue bound (x ++ rest) = some (v, rest)

/-- A value with spaces around it: those before it are skipped, those behind it are left. -/
theorem Reads.padded {v : Json} (reads : Reads v) {x : List Char} (h : Padded (Spells v) x)
    {bound : Nat} (enough : x.length ≤ bound) {rest : List Char} (ends : Stops Char.isDigit rest) :
    (skipSpaces (x ++ rest)).head? ≠ some ']' ∧
      ∃ b, IsSpaces b ∧ readValue bound (skipSpaces (x ++ rest)) = some (v, b ++ rest) := by
  obtain ⟨y, b, hy, hb, hlength, hskip⟩ := h.skipSpaces_append (fun _ => Spells.startsDark) rest
  rw [hskip]
  constructor
  · obtain ⟨c, z, rfl, -, hc⟩ := hy.head?
    exact fun hclose => hc (Option.some.inj hclose)
  · exact ⟨b, hb, reads y bound _ hy (hlength.trans enough) (stops_isDigit_append hb ends)⟩

/-- A field with spaces around its parts: its name is read up to its value, its value up to the
spaces behind it. -/
theorem Reads.field {v : Json} (reads : Reads v) {name : String} {n x : List Char}
    (hname : Padded (StringSpelling name) n) (hvalue : Padded (Spells v) x) {bound : Nat}
    (enough : n.length + x.length ≤ bound) {rest : List Char} (ends : Stops Char.isDigit rest) :
    (skipSpaces (n ++ ':' :: (x ++ rest))).head? ≠ some '}' ∧
      ∃ cs b, readName bound (skipSpaces (n ++ ':' :: (x ++ rest))) = some (name, cs) ∧
        IsSpaces b ∧ readValue bound cs = some (v, b ++ rest) := by
  constructor
  · obtain ⟨z, c, ⟨w, -, rfl⟩, -, -, hskip⟩ :=
      hname.skipSpaces_append (fun _ => StringSpelling.startsDark) (':' :: (x ++ rest))
    rw [hskip]
    exact fun hclose => absurd (Option.some.inj hclose) (by decide)
  · obtain ⟨y, b, hy, hb, hlength, hread⟩ := readName_of_spelling hname hvalue
      (fun _ => Spells.startsDark) (show n.length ≤ bound by omega) rest
    exact ⟨_, b, hread, hb, reads y bound _ hy (by omega) (stops_isDigit_append hb ends)⟩

/-- Every text of the items behind the first one is read as these items, up to the end of the array.
Spaces may stand in front. -/
def ReadsItems (vs : List Json) : Prop :=
  ∀ y bound a rest, SpellsItems vs y → y.length < bound → IsSpaces a →
    readItems bound (a ++ (y ++ ']' :: rest)) = some (vs, rest)

/-- Every text of the fields behind the first one is read as these fields, up to the end of the
object. Spaces may stand in front. -/
def ReadsFields (fs : List (String × Json)) : Prop :=
  ∀ y bound a rest, SpellsFields fs y → y.length < bound → IsSpaces a →
    readFields bound (a ++ (y ++ '}' :: rest)) = some (fs, rest)

/-! What is read of one part, if the parts inside it are read. -/

/-- A text has a character at least, so there is always a bound to count down from. -/
theorem Reads.of_succ {v : Json} (h : ∀ x bound rest, Spells v x → x.length ≤ bound + 1 →
    Stops Char.isDigit rest → readValue (bound + 1) (x ++ rest) = some (v, rest)) : Reads v := by
  intro x bound rest spelled enough ends
  have hpos : 0 < x.length := by
    obtain ⟨c, y, rfl, -⟩ := spelled.head?
    exact Nat.succ_pos _
  obtain ⟨bound, rfl⟩ : ∃ b, bound = b + 1 := ⟨bound - 1, by omega⟩
  exact h x bound rest spelled enough ends

/-- A number starts with none of the characters that start something else. -/
theorem reads_int (n : Int) : Reads (int n) := by
  refine .of_succ ?_
  intro x bound rest h enough ends
  rw [Spells] at h
  have hread := readPlain_of_int h ends
  obtain ⟨c, y, rfl, hc⟩ := h.head?
  have hquote : c ≠ '"' := by
    rintro rfl
    exact absurd hc (by decide)
  have harray : c ≠ '[' := by
    rintro rfl
    exact absurd hc (by decide)
  have hobject : c ≠ '{' := by
    rintro rfl
    exact absurd hc (by decide)
  rw [List.cons_append, readValue, if_neg hquote, if_neg harray, if_neg hobject]
  exact hread

theorem reads_str (s : String) : Reads (str s) := by
  refine .of_succ ?_
  intro x bound rest h enough ends
  rw [Spells] at h
  obtain ⟨y, hy, rfl⟩ := h
  rw [List.length_cons, List.length_append, List.length_singleton] at enough
  rw [List.cons_append, readValue, if_pos rfl, List.append_assoc]
  show (readChars bound (y ++ '"' :: rest)).map _ = _
  rw [readChars_of_spelling hy (by omega), Option.map_some, String.ofList_toList]

theorem reads_arr_nil : Reads (arr []) := by
  refine .of_succ ?_
  intro x bound rest h enough ends
  rw [Spells] at h
  obtain ⟨a, ha, rfl⟩ := h
  have hskip : skipSpaces (a ++ [']'] ++ rest) = ']' :: rest := by
    rw [List.append_assoc]
    exact Json.skipSpaces_append ha (stops_cons.mpr rfl)
  rw [List.cons_append, readValue, if_neg (by decide), if_pos rfl, hskip, if_pos List.head?_cons,
    List.tail_cons]

/-- The first item of an array does not start with the end of the array, so it is read as an item,
and the others behind it. -/
theorem Reads.arr_cons {v : Json} {vs : List Json} (reads : Reads v) (others : ReadsItems vs) :
    Reads (arr (v :: vs)) := by
  refine .of_succ ?_
  intro x bound rest h enough ends
  rw [Spells] at h
  obtain ⟨x, y, hx, hy, rfl⟩ := h
  simp only [List.length_cons, List.length_append, List.length_nil] at enough
  have hshape : (x ++ (y ++ [']'])) ++ rest = x ++ (y ++ ']' :: rest) := by
    simp only [List.append_assoc, List.singleton_append]
  obtain ⟨hopen, b, hb, hfirst⟩ :=
    reads.padded hx (show x.length ≤ bound by omega) (hy.stops rest)
  have hothers := others y bound b rest hy (by omega) hb
  rw [List.cons_append, readValue, if_neg (by decide), if_pos rfl, hshape, if_neg hopen, hfirst,
    Option.bind_some, hothers, Option.map_some]

theorem reads_obj_nil : Reads (obj []) := by
  refine .of_succ ?_
  intro x bound rest h enough ends
  rw [Spells] at h
  obtain ⟨a, ha, rfl⟩ := h
  have hskip : skipSpaces (a ++ ['}'] ++ rest) = '}' :: rest := by
    rw [List.append_assoc]
    exact Json.skipSpaces_append ha (stops_cons.mpr rfl)
  rw [List.cons_append, readValue, if_neg (by decide), if_neg (by decide), if_pos rfl, hskip,
    if_pos List.head?_cons, List.tail_cons]

/-- The first field of an object starts with the quote of its name, and the others follow its
value. -/
theorem Reads.obj_cons {name : String} {v : Json} {fs : List (String × Json)} (reads : Reads v)
    (others : ReadsFields fs) : Reads (obj ((name, v) :: fs)) := by
  refine .of_succ ?_
  intro x bound rest h enough ends
  rw [Spells] at h
  obtain ⟨n, x, y, hn, hx, hy, rfl⟩ := h
  simp only [List.length_cons, List.length_append, List.length_nil] at enough
  have hshape : (n ++ ':' :: (x ++ (y ++ ['}']))) ++ rest =
      n ++ ':' :: (x ++ (y ++ '}' :: rest)) := by
    simp only [List.append_assoc, List.cons_append, List.nil_append]
  obtain ⟨hopen, cs, b, hname, hb, hfirst⟩ := reads.field hn hx
    (show n.length + x.length ≤ bound by omega) (hy.stops rest)
  have hothers := others y bound b rest hy (by omega) hb
  rw [List.cons_append, readValue, if_neg (by decide), if_neg (by decide), if_pos rfl, hshape,
    if_neg hopen, hname, Option.bind_some, hfirst, Option.bind_some, hothers, Option.map_some]

theorem readsItems_nil : ReadsItems [] := by
  intro y bound a rest h enough ha
  obtain ⟨bound, rfl⟩ : ∃ b, bound = b + 1 := ⟨bound - 1, by omega⟩
  rw [SpellsItems] at h
  subst h
  have hskip : skipSpaces (a ++ ([] ++ ']' :: rest)) = ']' :: rest :=
    Json.skipSpaces_append ha (stops_cons.mpr rfl)
  rw [readItems, hskip, if_pos List.head?_cons, List.tail_cons]

/-- Behind a comma the next item is read like the first one, up to the spaces behind it. -/
theorem Reads.items_cons {v : Json} {vs : List Json} (reads : Reads v) (others : ReadsItems vs) :
    ReadsItems (v :: vs) := by
  intro y bound a rest h enough ha
  obtain ⟨bound, rfl⟩ : ∃ b, bound = b + 1 := ⟨bound - 1, by omega⟩
  rw [SpellsItems] at h
  obtain ⟨x, z, hx, hz, rfl⟩ := h
  simp only [List.length_cons, List.length_append] at enough
  have hskip : skipSpaces (a ++ (',' :: (x ++ z) ++ ']' :: rest)) =
      ',' :: (x ++ (z ++ ']' :: rest)) := by
    rw [List.cons_append, List.append_assoc]
    exact Json.skipSpaces_append ha (stops_cons.mpr rfl)
  obtain ⟨-, b, hb, hfirst⟩ := reads.padded hx (show x.length ≤ bound by omega) (hz.stops rest)
  have hothers := others z bound b rest hz (by omega) hb
  rw [readItems, hskip, List.head?_cons, if_neg (by decide), if_pos rfl, List.tail_cons, hfirst,
    Option.bind_some, hothers, Option.map_some]

theorem readsFields_nil : ReadsFields [] := by
  intro y bound a rest h enough ha
  obtain ⟨bound, rfl⟩ : ∃ b, bound = b + 1 := ⟨bound - 1, by omega⟩
  rw [SpellsFields] at h
  subst h
  have hskip : skipSpaces (a ++ ([] ++ '}' :: rest)) = '}' :: rest :=
    Json.skipSpaces_append ha (stops_cons.mpr rfl)
  rw [readFields, hskip, if_pos List.head?_cons, List.tail_cons]

/-- Behind a comma the next field is read like the first one. -/
theorem Reads.fields_cons {name : String} {v : Json} {fs : List (String × Json)} (reads : Reads v)
    (others : ReadsFields fs) : ReadsFields ((name, v) :: fs) := by
  intro y bound a rest h enough ha
  obtain ⟨bound, rfl⟩ : ∃ b, bound = b + 1 := ⟨bound - 1, by omega⟩
  rw [SpellsFields] at h
  obtain ⟨n, x, z, hn, hx, hz, rfl⟩ := h
  simp only [List.length_cons, List.length_append] at enough
  have hskip : skipSpaces (a ++ (',' :: (n ++ ':' :: (x ++ z)) ++ '}' :: rest)) =
      ',' :: (n ++ ':' :: (x ++ (z ++ '}' :: rest))) := by
    simp only [List.cons_append, List.append_assoc]
    exact Json.skipSpaces_append ha (stops_cons.mpr rfl)
  obtain ⟨-, cs, b, hname, hb, hfirst⟩ := reads.field hn hx
    (show n.length + x.length ≤ bound by omega) (hz.stops rest)
  have hothers := others z bound b rest hz (by omega) hb
  rw [readFields, hskip, List.head?_cons, if_neg (by decide), if_pos rfl, List.tail_cons, hname,
    Option.bind_some, hfirst, Option.bind_some, hothers, Option.map_some]

mutual

/-- **Every text of a value is read as the value.** The recursion is on the value, together with the
items of arrays and the fields of objects; each case is one of the lemmas above. -/
theorem reads : (v : Json) → Reads v
  | null => .of_succ fun _ _ _ h _ _ => by
    rw [Spells] at h
    subst h
    rfl
  | bool true => .of_succ fun _ _ _ h _ _ => by
    rw [Spells] at h
    subst h
    rfl
  | bool false => .of_succ fun _ _ _ h _ _ => by
    rw [Spells] at h
    subst h
    rfl
  | int n => reads_int n
  | str s => reads_str s
  | arr [] => reads_arr_nil
  | arr (v :: vs) => (reads v).arr_cons (readsItems vs)
  | obj [] => reads_obj_nil
  | obj ((_, v) :: fs) => (reads v).obj_cons (readsFields fs)

theorem readsItems : (vs : List Json) → ReadsItems vs
  | [] => readsItems_nil
  | v :: vs => (reads v).items_cons (readsItems vs)

theorem readsFields : (fs : List (String × Json)) → ReadsFields fs
  | [] => readsFields_nil
  | (_, v) :: fs => (reads v).fields_cons (readsFields fs)

end

/-- **Every text of a value is read as that value.** In particular a text is the text of one value
at most, and any other reader that reads all texts agrees with this one on them. -/
theorem read_of_spells {v : Json} {text : String} (h : Padded (Spells v) text.toList) :
    read text = some v := by
  obtain ⟨-, b, hb, hread⟩ := (reads v).padded h (Nat.le_refl _) (stops_nil _)
  rw [List.append_nil, List.append_nil, String.length_toList] at hread
  have hend : skipSpaces b = [] := by
    have hskip := skipSpaces_append hb (stops_nil _)
    rwa [List.append_nil] at hskip
  rw [read, hread, Option.bind_some, if_pos hend]

/-- **What is written is read back**, for every value, by a reader that was not made for what the
writer happens to write. -/
theorem read_render (v : Json) : read v.render = some v := by
  refine read_of_spells (.plain ?_)
  rw [render, String.toList_ofList]
  exact spells_write v

end Wxml.Json
