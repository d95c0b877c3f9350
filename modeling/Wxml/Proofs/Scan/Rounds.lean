import Wxml.Proofs.Scan.Reach

/-!
# Rounds of the readers

Two readers go round: one over the attributes of a tag, one over the tokens of a text. Neither
counts its rounds. A round finds something or skips a blank and goes on, or it is the last one
(`Round`), and a loop is what rounds make of a cursor when one of them is the last (`Loop`). Nothing
in this says that there is a last one.

There is, because a round that goes on has passed something (`Advancing`), also where a part of what
is read may be empty: the name of a closing tag, a text, the dashes of a comment, the value of an
attribute. **The law** (`scanning_ends`): from every cursor both loops end, after no more rounds
than there are characters and one, and what they end with is what `readAttributes` and `readAll`
answer.

**Not established**: a count of the rounds that is exact. A round over attributes may skip one
blank, so that the count depends on how the blanks are spread.
-/

namespace Wxml

open Wxml.Text

/-! ## Loops -/

/-- What one round of a loop does: it goes on from another cursor with what it found, if it found
anything, or it is the last round. -/
inductive Round where
  | onward (found : Option Token) (cursor : Cursor)
  | stopped (cursor : Cursor)
  | failed (error : CompileError) (cursor : Cursor)

/-- The answer of a loop from its first round on. -/
def Round.andThen (round : Round) (others : Cursor → Reading (List Token)) : Reading (List Token) :=
  match round with
  | onward found c => (others c).map (found.toList ++ ·)
  | stopped c => .done [] c
  | failed e c => .failed e c

/-- **A loop that ends**: how many rounds there are from a cursor, and what they answer. -/
inductive Loop (round : Cursor → Round) : Cursor → Nat → Reading (List Token) → Prop
  | stopped {c c' : Cursor} (last : round c = .stopped c') : Loop round c 1 (.done [] c')
  | failed {c c' : Cursor} {e : CompileError} (last : round c = .failed e c') :
      Loop round c 1 (.failed e c')
  | onward {c c' : Cursor} {found : Option Token} {n : Nat} {r : Reading (List Token)}
      (first : round c = .onward found c') (others : Loop round c' n r) :
      Loop round c (n + 1) (r.map (found.toList ++ ·))

/-- Every round that goes on has passed something. -/
def Advancing (round : Cursor → Round) : Prop :=
  ∀ c found c', round c = .onward found c' → ∃ x, x ≠ [] ∧ c.Passes x c'

namespace Loop

variable {round : Cursor → Round} {c : Cursor} {n m : Nat} {r s : Reading (List Token)}

/-- A loop that ends ends in one way, since a round does. The number of rounds is determined as
well, but nothing needs it. -/
theorem eq (h : Loop round c n r) (h' : Loop round c m s) : r = s := by
  induction h generalizing m s with
  | stopped last =>
    cases h' with
    | stopped last' => cases last.symm.trans last'; rfl
    | failed last' => cases last.symm.trans last'
    | onward first' => cases last.symm.trans first'
  | failed last =>
    cases h' with
    | stopped last' => cases last.symm.trans last'
    | failed last' => cases last.symm.trans last'; rfl
    | onward first' => cases last.symm.trans first'
  | onward first others ih =>
    cases h' with
    | stopped last' => cases first.symm.trans last'
    | failed last' => cases first.symm.trans last'
    | onward first' others' =>
      cases first.symm.trans first'
      rw [ih others']

/-- **A loop whose rounds advance ends**, with the answer of the function that unfolds to it, and
every round but the last takes a character. The induction is on what is left to read. -/
theorem exists_of_advancing (advancing : Advancing round) {answer : Cursor → Reading (List Token)}
    (unfolds : ∀ c, answer c = (round c).andThen answer) (c : Cursor) :
    ∃ n, n ≤ c.rest.length + 1 ∧ Loop round c n (answer c) := by
  induction hlength : c.rest.length using Nat.strongRecOn generalizing c with
  | ind length ih =>
    rw [unfolds c]
    cases hround : round c with
    | stopped c' => exact ⟨1, Nat.le_add_left _ _, .stopped hround⟩
    | failed e c' => exact ⟨1, Nat.le_add_left _ _, .failed hround⟩
    | onward found c' =>
      obtain ⟨x, something, passes⟩ := advancing c found c' hround
      have hpos := List.length_pos_iff.mpr something
      have hparts := passes.length_eq
      obtain ⟨n, hn, others⟩ := ih c'.rest.length (by omega) c' rfl
      exact ⟨n + 1, by omega, .onward hround others⟩

/-- Two loops from one cursor cannot end differently, so the answers of a loop are one answer. -/
theorem exists_iff (advancing : Advancing round) {answer : Cursor → Reading (List Token)}
    (unfolds : ∀ c, answer c = (round c).andThen answer) (c : Cursor) (r : Reading (List Token)) :
    (∃ n, Loop round c n r) ↔ r = answer c := by
  obtain ⟨n, -, hends⟩ := exists_of_advancing advancing unfolds c
  constructor
  · rintro ⟨m, h⟩
    exact h.eq hends
  · rintro rfl
    exact ⟨n, hends⟩

/-- A loop finds no more tokens than there are characters, as each of them has taken one at
least. -/
theorem length_le (h : Loop round c n r) (advancing : Advancing round) {ts : List Token}
    {c' : Cursor} (hdone : r = .done ts c') : ts.length ≤ c.rest.length := by
  induction h generalizing ts with
  | stopped last =>
    cases hdone
    exact Nat.zero_le _
  | failed last => cases hdone
  | @onward c c₁ found n r first others ih =>
    obtain ⟨us, hus, rfl⟩ := Reading.map_eq_done.mp hdone
    obtain ⟨x, something, passes⟩ := advancing c found c₁ first
    have hpos := List.length_pos_iff.mpr something
    have hparts := passes.length_eq
    have hothers := ih hus
    have hfound : found.toList.length ≤ 1 := Option.length_toList_le
    rw [List.length_append]
    omega

end Loop

/-! ## The loop over the attributes -/

/-- The round that reads one thing and goes on behind it. -/
def Reading.round : Reading Token → Round
  | done t c => .onward (some t) c
  | failed e c => .failed e c

/-- A round that reads one thing unfolds like two readers in a row. -/
theorem Reading.andThen_round (r : Reading Token) (others : Cursor → Reading (List Token)) :
    r.round.andThen others = r.andThen fun t c => (others c).map (t :: ·) := by
  cases r <;> rfl

namespace Cursor

/-- One round over the attributes of a tag. -/
def attributeRound (c : Cursor) : Round :=
  match c.rest with
  | [] => .failed ⟨.endOfInput, some c.position⟩ c
  | x :: xs =>
    if x = '>' then .stopped c
    else if x = '/' then
      if xs.head? = some '>' then .stopped c
      else .failed ⟨.expected "'>' after '/'", some c.position⟩ c
    else if isBlank x then .onward none (c.advance 1)
    else c.readAttribute.round

/-- The reader of the attributes is its first round and itself again. This is all that the law about
loops asks of it. -/
theorem readAttributes_eq (c : Cursor) :
    c.readAttributes = c.attributeRound.andThen readAttributes := by
  have hnothing : ∀ r : Reading (List Token), r.map ((none : Option Token).toList ++ ·) = r := by
    intro r
    cases r <;> rfl
  unfold attributeRound
  cases hrest : c.rest with
  | nil => exact readAttributes_nil hrest
  | cons x xs =>
    rw [readAttributes_cons hrest]
    dsimp only
    by_cases hgt : x = '>'
    · rw [if_pos hgt, if_pos hgt]
      rfl
    · rw [if_neg hgt, if_neg hgt]
      by_cases hslash : x = '/'
      · rw [if_pos hslash, if_pos hslash]
        by_cases hclose : xs.head? = some '>'
        · rw [if_pos hclose, if_pos hclose]
          rfl
        · rw [if_neg hclose, if_neg hclose]
          rfl
      · rw [if_neg hslash, if_neg hslash]
        by_cases hblank : isBlank x = true
        · rw [if_pos hblank, if_pos hblank]
          exact (hnothing _).symm
        · rw [if_neg hblank, if_neg hblank, Reading.andThen_round]

/-- A round skips a blank or reads an attribute, and neither is empty. -/
theorem advancing_attributeRound : Advancing attributeRound := by
  intro c found c' h
  unfold attributeRound at h
  cases hrest : c.rest with
  | nil =>
    rw [hrest] at h
    cases h
  | cons x xs =>
    rw [hrest] at h
    dsimp only at h
    by_cases hgt : x = '>'
    · rw [if_pos hgt] at h
      cases h
    rw [if_neg hgt] at h
    by_cases hslash : x = '/'
    · rw [if_pos hslash] at h
      by_cases hclose : xs.head? = some '>'
      · rw [if_pos hclose] at h
        cases h
      · rw [if_neg hclose] at h
        cases h
    rw [if_neg hslash] at h
    by_cases hblank : isBlank x = true
    · rw [if_pos hblank] at h
      cases h
      exact ⟨[x], List.cons_ne_nil x [], passes_advance (x := [x]) hrest⟩
    rw [if_neg hblank] at h
    cases hread : c.readAttribute with
    | failed e c₁ =>
      rw [hread] at h
      cases h
    | done t c₁ =>
      obtain ⟨y, passes⟩ := (readAttribute_from c).passes
      rw [hread] at h passes
      cases h
      exact ⟨y, passes.ne_nil (readAttribute_shorter hread), passes⟩

/-! ## The loop over the tokens -/

/-- One round over the tokens of a text. -/
def tokenRound (c : Cursor) : Round :=
  match c.readNext with
  | .done (some t) c' => .onward (some t) c'
  | .done none c' => .stopped c'
  | .failed e c' => .failed e c'

/-- The reader of a text is its first round and itself again. -/
theorem readAll_eq (c : Cursor) : c.readAll = c.tokenRound.andThen readAll := by
  unfold tokenRound
  cases hread : c.readNext with
  | failed e c' => exact readAll_failed hread
  | done found c' =>
    cases found with
    | none => exact readAll_none hread
    | some t => exact readAll_some hread

/-- **The three ends of a call of the token reader**, wherever it is called: it has passed
something, it stands at the end, or it fails. -/
theorem readNext_ends (c : Cursor) :
    (∃ t c' x, c.readNext = .done (some t) c' ∧ x ≠ [] ∧ c.Passes x c') ∨
      (∃ c', c.readNext = .done none c' ∧ c'.rest = [] ∧ c.Passes c.rest c') ∨
      ∃ e c', c.readNext = .failed e c' := by
  obtain ⟨x, passes⟩ := (readNext_from c).passes
  cases hread : c.readNext with
  | failed e c' => exact .inr (.inr ⟨e, c', rfl⟩)
  | done found c' =>
    rw [hread] at passes
    cases found with
    | some t => exact .inl ⟨t, c', x, rfl, passes.ne_nil (readNext_shorter hread), passes⟩
    | none =>
      -- only blanks are left, and the reader has skipped them all
      have hend : (c.skip isBlank).rest = [] := by
        rw [rest_skip]
        exact List.dropWhile_eq_nil_iff.mpr (readNext_none hread)
      cases hread.symm.trans (readNext_eq_none rfl hend)
      have hall : c.rest = x := by
        rw [passes.rest]
        show x ++ (c.skip isBlank).rest = x
        rw [hend, List.append_nil]
      exact .inr (.inl ⟨_, rfl, hend, hall ▸ passes⟩)

/-- A round over tokens goes on only with a token, and reading one has passed something
(`readNext_ends`). -/
theorem advancing_tokenRound : Advancing tokenRound := by
  intro c found c' h
  unfold tokenRound at h
  obtain ⟨t, c₁, x, hread, something, passes⟩ | ⟨c₁, hread, -, -⟩ | ⟨e, c₁, hread⟩ :=
    readNext_ends c
  · rw [hread] at h
    cases h
    exact ⟨x, something, passes⟩
  · rw [hread] at h
    cases h
  · rw [hread] at h
    cases h

end Cursor

/-! ## The law -/

/-- **Reading ends.** Wherever it is called, the token reader reads a token and has moved on, finds
nothing and stands at the end, or fails; and a round over attributes goes on further behind, stops,
or fails. So from every cursor each of the two loops ends, in one way. A text is read in no more
rounds than it has characters and one, and has no more tokens than characters. -/
theorem scanning_ends :
    (∀ c : Cursor,
      (∃ t c', c.readNext = .done (some t) c' ∧ c.position.offset < c'.position.offset) ∨
      (∃ c', c.readNext = .done none c' ∧ c'.rest = [] ∧
        c'.position.offset = c.position.offset + c.rest.length) ∨
      ∃ e c', c.readNext = .failed e c') ∧
    (∀ c : Cursor,
      (∃ found c', c.attributeRound = .onward found c' ∧ c.position.offset < c'.position.offset) ∨
      (∃ c', c.attributeRound = .stopped c') ∨ ∃ e c', c.attributeRound = .failed e c') ∧
    (∀ c r, (∃ n, Loop Cursor.attributeRound c n r) ↔ r = c.readAttributes) ∧
    (∀ c r, (∃ n, Loop Cursor.tokenRound c n r) ↔ r = c.readAll) ∧
    ∀ text : String,
      (∃ n, n ≤ text.length + 1 ∧
        Loop Cursor.tokenRound (.ofString text) n (Cursor.ofString text).readAll) ∧
      ((∃ ts, Token.scan text = .ok ts ∧ ts.length ≤ text.length) ∨
        ∃ e, Token.scan text = .error e) := by
  refine ⟨fun c => ?_, fun c => ?_,
    Loop.exists_iff Cursor.advancing_attributeRound Cursor.readAttributes_eq,
    Loop.exists_iff Cursor.advancing_tokenRound Cursor.readAll_eq, fun text => ?_⟩
  · obtain ⟨t, c', x, hread, something, passes⟩ | ⟨c', hread, hend, passes⟩ | hfailed :=
      c.readNext_ends
    · exact .inl ⟨t, c', hread, passes.offset_lt something⟩
    · exact .inr (.inl ⟨c', hread, hend, passes.offset_eq⟩)
    · exact .inr (.inr hfailed)
  · cases hround : c.attributeRound with
    | onward found c' =>
      obtain ⟨x, something, passes⟩ := Cursor.advancing_attributeRound c found c' hround
      exact .inl ⟨found, c', rfl, passes.offset_lt something⟩
    | stopped c' => exact .inr (.inl ⟨c', rfl⟩)
    | failed e c' => exact .inr (.inr ⟨e, c', rfl⟩)
  · obtain ⟨n, hn, hloop⟩ :=
      Loop.exists_of_advancing Cursor.advancing_tokenRound Cursor.readAll_eq (.ofString text)
    have hlength : (Cursor.ofString text).rest.length = text.length := String.length_toList
    rw [hlength] at hn
    refine ⟨⟨n, hn, hloop⟩, ?_⟩
    unfold Token.scan
    cases hread : (Cursor.ofString text).readAll with
    | done ts c' =>
      have hcount := hloop.length_le Cursor.advancing_tokenRound hread
      exact .inl ⟨ts, rfl, hlength ▸ hcount⟩
    | failed e c' => exact .inr ⟨e, rfl⟩

end Wxml
