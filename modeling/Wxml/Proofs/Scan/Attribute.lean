import Wxml.Proofs.Layout
import Wxml.Proofs.Scan.Passage

/-!
# Reading attributes

A reader that answers has passed a spelling of its answer (`..._done`). A reader that stands before
a spelling passes it and answers with what is spelled (`..._of_spelling`), provided that what
follows cannot belong to it. Here this is shown for one attribute and for the loop over the
attributes of a tag.

**Not established**: the two directions speak of answers that are values. Which error is given where
no attribute can be read is told case by case (`readAttribute_unnamed`, `readAttribute_cut`,
`readAttribute_assigned`) and not characterised by a spelling.
-/

namespace Wxml

open Wxml.Text

/-! ## Names and values -/

/-- The test for a tag's name as three facts. The quotes, `=` and `<` are no part of it: a name may
hold them. -/
theorem isTagNameChar_iff {c : Char} :
    isTagNameChar c = true ↔ c ≠ '/' ∧ c ≠ '>' ∧ isBlank c = false := by
  simp [isTagNameChar, and_assoc]

/-- The test for an attribute's name: that for a tag's name, without `=`. -/
theorem isAttributeNameChar_iff {c : Char} :
    isAttributeNameChar c = true ↔ c ≠ '=' ∧ c ≠ '>' ∧ c ≠ '/' ∧ isBlank c = false := by
  simp [isAttributeNameChar, and_assoc]

theorem isTagName_run (c : Cursor) : IsTagName (c.run isTagNameChar) :=
  fun _ h => isTagNameChar_iff.mp (Cursor.of_mem_run h)

/-- A run that is not empty is a name. An empty one is the error `readAttribute_unnamed`. -/
theorem isAttributeName_run {c : Cursor} (h : c.run isAttributeNameChar ≠ []) :
    IsAttributeName (c.run isAttributeNameChar) :=
  ⟨h, fun _ h => isAttributeNameChar_iff.mp (Cursor.of_mem_run h)⟩

theorem isGap_run (c : Cursor) : IsGap (c.run isBlank) := fun _ h => Cursor.of_mem_run h

/-- What ends a tag's name ends a bare attribute, too: a blank, `>` or `/`. -/
theorem stops_isTagNameChar_iff {cs : List Char} :
    Stops isTagNameChar cs ↔ Stops isAttributeNameChar cs ∧ cs.head? ≠ some '=' := by
  cases cs with
  | nil => simp [stops_nil]
  | cons c cs =>
    have hblank : isBlank '=' = false := by decide
    rw [stops_cons, stops_cons, List.head?_cons]
    by_cases hc : c = '='
    · simp [hc, isTagNameChar, isAttributeNameChar, hblank]
    · simp only [isTagNameChar, isAttributeNameChar, ne_eq, Option.some.injEq, hc,
      not_false_eq_true,   and_true, bne_iff_ne.mpr hc, Bool.true_and]
      rw [Bool.and_comm (c != '/')]

namespace Cursor

/-- A value that was read reaches up to the first quote of its own kind. The other quote may stand
in it. -/
theorem readValue_done {c c' : Cursor} {quote : Char} {name : String} {start : Position} {t : Token}
    (h : c.readValue quote name start = .done t c') :
    ∃ value, t = .ofAttribute name (String.ofList value) start ∧ quote ∉ value ∧
      c.Passes (value ++ [quote]) c' := by
  obtain ⟨u, hclose, ht⟩ := Reading.map_eq_done.mp h
  refine ⟨c.run (· != quote), ht.symm, ?_, (passes_skip c _).trans (expect_done hclose)⟩
  intro hmem
  have := of_mem_run hmem
  simp at this

/-- Any value that does not hold its own quote is read back, behind any name. -/
theorem readValue_of_passes {c c' : Cursor} {quote : Char} {value : List Char} (name : String)
    (start : Position) (closed : quote ∉ value) (h : c.Passes (value ++ [quote]) c') :
    c.readValue quote name start = .done (.ofAttribute name (String.ofList value) start) c' := by
  obtain ⟨c₁, hvalue, hquote⟩ := h.split
  have all : ∀ ch ∈ value, (ch != quote) = true := by
    intro ch hch
    simp only [bne_iff_ne, ne_eq]
    rintro rfl
    exact closed hch
  have stops : Stops (· != quote) c₁.rest := by
    rw [hquote.rest]
    simp [stops_cons]
  unfold readValue
  rw [hvalue.skip_eq all stops, hvalue.run_eq all stops, expect_of_passes _ hquote]
  rfl

/-! What stands behind its name tells what an attribute is. -/

/-- Where no name starts there is no attribute, and the message shows what stands there. -/
theorem readAttribute_unnamed {c : Cursor} (unnamed : c.run isAttributeNameChar = []) :
    c.readAttribute =
      .fail (.unexpected (c.shown ++ " where an attribute name was expected")) c := by
  unfold readAttribute
  rw [if_pos unnamed]

/-- A name without `=` behind it is an attribute of its own, with the value of one that is switched
on. -/
theorem readAttribute_bare {c : Cursor} (named : c.run isAttributeNameChar ≠ [])
    (bare : (c.skip isAttributeNameChar).rest.head? ≠ some '=') :
    c.readAttribute =
      .done (.ofAttribute (String.ofList (c.run isAttributeNameChar)) bareValue c.position)
        (c.skip isAttributeNameChar) := by
  unfold readAttribute
  simp only [if_neg named]
  split
  · next hrest => simp [hrest] at bare
  · next hrest => simp [hrest] at bare
  · rfl

/-- A text that ends behind the `=` ends too early. The error stands at the end, not at the name. -/
theorem readAttribute_cut {c : Cursor} (named : c.run isAttributeNameChar ≠ [])
    (hrest : (c.skip isAttributeNameChar).rest = ['=']) :
    c.readAttribute = .fail .endOfInput ((c.skip isAttributeNameChar).advance 1) := by
  unfold readAttribute
  simp only [if_neg named, hrest]

/-- Behind `=` there has to be a quote of either kind. Blanks are not allowed there, and neither is
a value without quotes. -/
theorem readAttribute_assigned {c : Cursor} {quote : Char} {rest : List Char}
    (named : c.run isAttributeNameChar ≠ [])
    (hrest : (c.skip isAttributeNameChar).rest = '=' :: quote :: rest) :
    c.readAttribute =
      if quote = '"' ∨ quote = '\'' then
        ((c.skip isAttributeNameChar).advance 2).readValue quote
          (String.ofList (c.run isAttributeNameChar)) c.position
      else
        .fail (.expected ("quote to open the value of attribute '" ++
          String.ofList (c.run isAttributeNameChar) ++ "'"))
          ((c.skip isAttributeNameChar).advance 1) := by
  unfold readAttribute
  simp only [if_neg named, hrest]

/-- **What can stand where an attribute is read.** -/
inductive AttributeShape (c : Cursor) : Prop
  | unnamed (unnamed : c.run isAttributeNameChar = [])
  | bare (named : c.run isAttributeNameChar ≠ [])
      (alone : (c.skip isAttributeNameChar).rest.head? ≠ some '=')
  | cut (named : c.run isAttributeNameChar ≠ []) (hrest : (c.skip isAttributeNameChar).rest = ['='])
  | quoted {quote : Char} {rest : List Char} (named : c.run isAttributeNameChar ≠ [])
      (hrest : (c.skip isAttributeNameChar).rest = '=' :: quote :: rest)
      (isQuote : quote = '"' ∨ quote = '\'')
  | unquoted {quote : Char} {rest : List Char} (named : c.run isAttributeNameChar ≠ [])
      (hrest : (c.skip isAttributeNameChar).rest = '=' :: quote :: rest)
      (notQuote : ¬ (quote = '"' ∨ quote = '\''))

/-- The five cases are all there are. Every law about `readAttribute` goes through them, so that
none of them has to unfold its definition. -/
theorem attributeShape (c : Cursor) : c.AttributeShape := by
  by_cases named : c.run isAttributeNameChar = []
  · exact .unnamed named
  by_cases alone : (c.skip isAttributeNameChar).rest.head? = some '='
  · obtain ⟨rest, hrest⟩ := List.head?_eq_some_iff.mp alone
    cases rest with
    | nil => exact .cut named hrest
    | cons quote rest =>
      by_cases isQuote : quote = '"' ∨ quote = '\''
      · exact .quoted named hrest isQuote
      · exact .unquoted named hrest isQuote
  · exact .bare named alone

/-- What the attribute reader answers is spelled between where it started and where it stopped. A
bare attribute stops only where nothing that could belong to its name follows, which the spelling of
a tag asks for. -/
theorem readAttribute_done {c c' : Cursor} {t : Token} (h : c.readAttribute = .done t c') :
    ∃ bare x, AttributeSpelling t bare x ∧ c.Passes x c' ∧
      (bare = true → Stops isTagNameChar c'.rest) := by
  have hname := passes_skip c isAttributeNameChar
  have hstops := stops_skip c isAttributeNameChar
  unfold readAttribute at h
  simp only at h
  split at h
  · simp [Reading.fail] at h
  · next hrun =>
    have named : IsAttributeName (String.ofList (c.run isAttributeNameChar)).toList := by
      rw [String.toList_ofList]
      exact isAttributeName_run hrun
    split at h
    · simp [Reading.fail] at h
    · next quote rest hrest =>
      split at h
      · next hquote =>
        obtain ⟨value, rfl, closed, hvalue⟩ := readValue_done h
        have hopen : (c.skip isAttributeNameChar).Passes ['=', quote]
            ((c.skip isAttributeNameChar).advance 2) := passes_advance (x := ['=', quote]) hrest
        have closed' : quote ∉ (String.ofList value).toList := by rwa [String.toList_ofList]
        refine ⟨false, _, .quoted named hquote closed', ?_, Bool.noConfusion⟩
        simpa using hname.trans (hopen.trans hvalue)
      · simp [Reading.fail] at h
    · next hbare₁ hbare₂ =>
      injection h with ht hc
      subst ht hc
      refine ⟨true, _, .bare named, by simpa using hname, fun _ => ?_⟩
      refine stops_isTagNameChar_iff.mpr ⟨hstops, ?_⟩
      -- an equals sign here would have been read as the start of a value
      intro heq
      obtain ⟨rest, hrest⟩ := List.head?_eq_some_iff.mp heq
      cases rest with
      | nil => exact hbare₁ hrest
      | cons quote rest => exact hbare₂ _ _ hrest

/-- The attribute reader reads any spelling, if what follows cannot belong to it. This is asked of
bare attributes only, as a quote ends all others. -/
theorem readAttribute_of_spelling {c c' : Cursor} {t : Token} {bare : Bool} {x : List Char}
    (spelled : AttributeSpelling t bare x) (h : c.Passes x c')
    (ends : bare = true → Stops isTagNameChar c'.rest) :
    ∃ u, c.readAttribute = .done u c' ∧ u.unplaced = t.unplaced := by
  cases spelled with
  | @bare name position named =>
    have all := fun ch hch => isAttributeNameChar_iff.mpr (named.plain ch hch)
    obtain ⟨stops, hequals⟩ := stops_isTagNameChar_iff.mp (ends rfl)
    refine ⟨.ofAttribute name bareValue c.position, ?_, rfl⟩
    unfold readAttribute
    rw [h.run_eq all stops, h.skip_eq all stops, if_neg named.nonempty, String.ofList_toList]
    split
    · next hrest => simp [hrest] at hequals
    · next hrest => simp [hrest] at hequals
    · rfl
  | @quoted name value position quote named isQuote closed =>
    have all := fun ch hch => isAttributeNameChar_iff.mpr (named.plain ch hch)
    obtain ⟨c₁, hname, hassign⟩ := h.split
    have hassign : c₁.Passes (['=', quote] ++ (value.toList ++ [quote])) c' := hassign
    obtain ⟨c₂, hopen, hvalue⟩ := hassign.split
    have stops : Stops isAttributeNameChar c₁.rest := by
      rw [hopen.rest]
      exact stops_cons.mpr (by decide)
    have hread := readValue_of_passes name c.position closed hvalue
    rw [String.ofList_toList] at hread
    refine ⟨.ofAttribute name value c.position, ?_, rfl⟩
    unfold readAttribute
    rw [hname.run_eq all stops, hname.skip_eq all stops, if_neg named.nonempty,
      String.ofList_toList, hopen.rest]
    simp only [List.cons_append, List.nil_append]
    rw [if_pos isQuote, ← hread, hopen.eq_advance]
    rfl

end Cursor

/-! ## The attributes of a tag -/

/-- An attribute starts with a character that ends none of the loops: it is neither a blank nor the
end of a tag. So the loop over the attributes calls the attribute reader there. -/
theorem AttributeSpelling.starts {t : Token} {bare : Bool} {x : List Char}
    (h : AttributeSpelling t bare x) :
    ∃ c cs, x = c :: cs ∧ c ≠ '=' ∧ c ≠ '>' ∧ c ≠ '/' ∧ isBlank c = false := by
  have front : ∀ {name : List Char}, IsAttributeName name → ∀ rest,
      ∃ c cs, name ++ rest = c :: cs ∧ c ≠ '=' ∧ c ≠ '>' ∧ c ≠ '/' ∧ isBlank c = false := by
    intro name named rest
    obtain ⟨c, cs, rfl⟩ := List.exists_cons_of_ne_nil named.nonempty
    exact ⟨c, cs ++ rest, rfl, named.plain c List.mem_cons_self⟩
  cases h with
  | bare named => simpa using front named []
  | quoted named isQuote closed => exact front named _

/-- One more blank in front, and the first attribute stands apart. The loop skips blanks one at a
time, and this is its step in the proof. -/
theorem AttributesSpelling.cons_blank {ts : List Token} {x : List Char} {b : Char}
    (h : AttributesSpelling false ts x) (blank : isBlank b = true) (apart : Bool) :
    AttributesSpelling apart ts (b :: x) := by
  have longer : ∀ {gap : List Char}, IsGap gap → IsGap (b :: gap) := by
    intro gap hgap c hc
    rcases List.mem_cons.mp hc with rfl | hc
    · exact blank
    · exact hgap c hc
  cases h with
  | nil hgap => exact .nil (longer hgap)
  | cons hgap _ first others =>
    exact .cons (longer hgap) (fun _ => List.cons_ne_nil _ _) first others

/-- What ends a tag stands at the front. -/
def EndsTag (cs : List Char) : Prop :=
  (∃ rest, cs = '>' :: rest) ∨ ∃ rest, cs = '/' :: '>' :: rest

/-- The end of a tag ends the name of a bare attribute before it. -/
theorem EndsTag.stops {cs : List Char} (h : EndsTag cs) : Stops isTagNameChar cs := by
  rcases h with ⟨rest, rfl⟩ | ⟨rest, rfl⟩ <;> exact stops_cons.mpr (by decide)

/-- Behind something that has to stand apart, the attributes start with a blank or do not start. -/
theorem AttributesSpelling.stops {ts : List Token} {x rest : List Char}
    (h : AttributesSpelling true ts x) (ends : EndsTag rest) : Stops isTagNameChar (x ++ rest) := by
  have blankStops : ∀ {b : Char} {cs : List Char}, isBlank b = true →
      Stops isTagNameChar (b :: cs) := by
    intro b cs hb
    exact stops_cons.mpr (by simp [isTagNameChar, hb])
  cases h with
  | nil hgap =>
    cases x with
    | nil => exact ends.stops
    | cons b gap => exact blankStops (hgap b List.mem_cons_self)
  | @cons _ _ _ _ gap _ _ hgap separated =>
    cases gap with
    | nil => exact absurd rfl (separated rfl)
    | cons b gap => exact blankStops (hgap b List.mem_cons_self)

/-- Where an attribute starts, nothing that has to stand apart is in front of it: otherwise its name
would have gone on with this character. -/
theorem separated_of_touches {apart : Bool} {x : Char} {xs : List Char}
    (touches : apart = true → Stops isTagNameChar (x :: xs)) (hgt : x ≠ '>') (hslash : x ≠ '/')
    (hblank : ¬ isBlank x = true) : apart = true → ([] : List Char) ≠ [] := by
  intro hapart
  have hx := stops_cons.mp (touches hapart)
  exact absurd (isTagNameChar_iff.mpr ⟨hslash, hgt, by simpa using hblank⟩) (by simp [hx])

namespace Cursor

/-- One round of the loop, by the first character that is left. The proofs below unfold it by this
equation, once for each round. -/
theorem readAttributes_cons {c : Cursor} {x : Char} {xs : List Char} (h : c.rest = x :: xs) :
    c.readAttributes =
      if x = '>' then .done [] c
      else if x = '/' then
        if xs.head? = some '>' then .done [] c else .fail (.expected "'>' after '/'") c
      else if isBlank x then (c.advance 1).readAttributes
      else c.readAttribute.andThen fun t c' => c'.readAttributes.map (t :: ·) := by
  rw [readAttributes]
  split
  · next hnil => rw [hnil] at h; cases h
  · next y ys hcons =>
    rw [hcons] at h
    injection h with hy hys
    subst hy hys
    congr 3
    split
    · next heq => rw [heq]; rfl
    · next heq => rw [heq]; rfl

theorem readAttributes_nil {c : Cursor} (h : c.rest = []) :
    c.readAttributes = .fail .endOfInput c := by
  rw [readAttributes]
  split
  · rfl
  · next hcons =>
    rw [hcons] at h
    cases h

/-- Before the end of a tag there are no more attributes. The end itself is left to `readTagEnd`. -/
theorem readAttributes_of_endsTag {c : Cursor} (h : EndsTag c.rest) :
    c.readAttributes = .done [] c := by
  rcases h with ⟨rest, hrest⟩ | ⟨rest, hrest⟩
  · rw [readAttributes_cons hrest]
    rfl
  · rw [readAttributes_cons hrest]
    rfl

/-- Blanks before an attribute, or before the end of a tag, are skipped. The loop takes one round
for each of them and finds nothing in it. -/
theorem readAttributes_of_gap {c c' : Cursor} {gap : List Char} (blank : IsGap gap)
    (h : c.Passes gap c') : c.readAttributes = c'.readAttributes := by
  induction gap generalizing c with
  | nil => rw [h.eq (.refl c)]
  | cons b gap ih =>
    have hb := blank b List.mem_cons_self
    have hgt : b ≠ '>' := by rintro rfl; revert hb; decide
    have hslash : b ≠ '/' := by rintro rfl; revert hb; decide
    have hsplit : c.Passes ([b] ++ gap) c' := h
    obtain ⟨c₁, hfirst, hothers⟩ := hsplit.split
    rw [readAttributes_cons h.rest, if_neg hgt, if_neg hslash, if_pos hb, ← ih _ hothers,
      hfirst.eq_advance]
    · rfl
    · exact fun ch hch => blank ch (List.mem_cons_of_mem _ hch)

/-- What the attribute loop answers is spelled between where it started and where it stopped, and it
stops before the end of the tag. -/
theorem readAttributes_done {c c' : Cursor} {ts : List Token} (h : c.readAttributes = .done ts c')
    (apart : Bool) (touches : apart = true → Stops isTagNameChar c.rest) :
    ∃ x, AttributesSpelling apart ts x ∧ c.Passes x c' ∧ EndsTag c'.rest := by
  fun_induction readAttributes c generalizing ts apart with
  | case1 => simp [Reading.fail] at h
  | case2 c xs hrest =>
    injection h with hts hc
    subst hts hc
    exact ⟨[], .nil .nil, .refl c, .inl ⟨xs, hrest⟩⟩
  | case3 c xs hhead hrest =>
    injection h with hts hc
    subst hts hc
    obtain ⟨rest, rfl⟩ := List.head?_eq_some_iff.mp hhead
    exact ⟨[], .nil .nil, .refl c, .inr ⟨rest, hrest⟩⟩
  | case4 => simp [Reading.fail] at h
  | case5 c b xs hrest _ _ blank ih =>
    obtain ⟨x, spelled, passes, ends⟩ := ih h false Bool.noConfusion
    have hb : c.Passes [b] (c.advance 1) := passes_advance (x := [b]) hrest
    exact ⟨b :: x, spelled.cons_blank blank apart, hb.trans passes, ends⟩
  | case6 => simp at h
  | case7 c x xs hrest hgt hslash hblank t c₁ hattr ih =>
    obtain ⟨ts', hts, rfl⟩ := Reading.map_eq_done.mp h
    obtain ⟨bare, y, spelled, passes, stops⟩ := readAttribute_done hattr
    obtain ⟨z, others, passes', ends⟩ := ih hts bare stops
    rw [hrest] at touches
    have separated := separated_of_touches touches hgt hslash hblank
    exact ⟨[] ++ y ++ z, .cons .nil separated spelled others, passes.trans passes', ends⟩

/-- The attribute loop reads any spelling that stands before the end of a tag. The induction is on
the attributes; blanks before each are skipped at once (`readAttributes_of_gap`). -/
theorem readAttributes_of_spelling {c c' : Cursor} {ts : List Token} {apart : Bool} {x : List Char}
    (spelled : AttributesSpelling apart ts x) (h : c.Passes x c') (ends : EndsTag c'.rest) :
    ∃ us, c.readAttributes = .done us c' ∧ us.map Token.unplaced = ts.map Token.unplaced := by
  induction spelled generalizing c with
  | nil blank =>
    refine ⟨[], ?_, rfl⟩
    rw [readAttributes_of_gap blank h, readAttributes_of_endsTag ends]
  | @cons apart bare t ts gap x y blank separated first others ih =>
    obtain ⟨c₂, hfirst, hothers⟩ := h.split
    obtain ⟨c₁, hgap, hfirst⟩ := hfirst.split
    have stops : bare = true → Stops isTagNameChar c₂.rest := by
      intro hbare
      rw [hothers.rest]
      rw [hbare] at others
      exact others.stops ends
    obtain ⟨u, hread, hu⟩ := readAttribute_of_spelling first hfirst stops
    obtain ⟨us, hreads, hus⟩ := ih hothers
    refine ⟨u :: us, ?_, by rw [List.map_cons, List.map_cons, hu, hus]⟩
    -- the first character of an attribute is none of those that the loop looks for
    obtain ⟨ch, xs, rfl, -, hgt, hslash, hdark⟩ := first.starts
    rw [readAttributes_of_gap blank hgap, readAttributes_cons hfirst.rest, if_neg hgt,
      if_neg hslash, if_neg (by simp [hdark]), hread]
    show c₂.readAttributes.map (u :: ·) = _
    rw [hreads]
    rfl

end Cursor

end Wxml
