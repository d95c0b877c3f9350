import Wxml.Proofs.Scan.Behind
import Wxml.Proofs.ViablePrefix

/-!
# Texts one behind the other

Two texts, the first of which can be read. Read as one text, they give the tokens of the first and
then those of the second, or the error of the second; and everything that comes from the second has
moved behind the first. Only a text token reaches across the border: it goes on up to the next `<`.

The argument has two parts. Up to the border the readers do what they did before, by the laws of
longer texts (`Cursor.readAll_continues`). From the border on they stand before the second text,
with the first one read before it (`Cursor.readAll_behind`).

**The law** (`scan_append`) joins them.

**Not established**: anything about a first text that cannot be read. Its error may go away with the
second text behind it, or stay (`Reading.Final`).
-/

namespace Wxml

open Wxml.Text

namespace Cursor

/-- Blanks in front change nothing. At the border of two texts the blanks that end the first and
those that start the second are one gap. -/
theorem readAll_of_gap {c c' : Cursor} {gap : List Char} (blank : IsGap gap)
    (h : c.Passes gap c') : c.readAll = c'.readAll := by
  have hskip : c.skip isBlank = c'.skip isBlank := by
    refine (h.trans (passes_skip c' isBlank)).skip_eq ?_ (stops_skip c' isBlank)
    intro ch hch
    rcases List.mem_append.mp hch with hch | hch
    · exact blank ch hch
    · exact of_mem_run hch
  have hnext : c.readNext = c'.readNext := by
    unfold readNext
    rw [hskip]
  cases hread : c'.readNext with
  | failed e c₁ => rw [readAll_failed hread, readAll_failed (hnext.trans hread)]
  | done found c₁ =>
    cases found with
    | none => rw [readAll_none hread, readAll_none (hnext.trans hread)]
    | some t => rw [readAll_some hread, readAll_some (hnext.trans hread)]

/-- **Where all of a text is read, reading a longer text goes on behind it**, unless a text stands
last that does not end there. -/
theorem readAll_continues {c c' : Cursor} {ts : List Token} (h : c.readAll = .done ts c')
    {more : List Char}
    (apart : ∀ t, ts.getLast? = some t → t.kind = .text → Stops (· != '<') more) :
    (c.extend more).readAll =
      (Cursor.mk more (c.position.after c.rest)).readAll.map (ts ++ ·) := by
  fun_induction readAll c generalizing ts with
  | case1 => cases h
  | case2 c c₁ hnext =>
    cases h
    have blank := readNext_none hnext
    have passes : (c.extend more).Passes c.rest ⟨more, c.position.after c.rest⟩ := ⟨rfl, rfl⟩
    rw [readAll_of_gap blank passes]
    cases (Cursor.mk more (c.position.after c.rest)).readAll <;> rfl
  | case3 c t c₁ hnext ih =>
    obtain ⟨us, hus, rfl⟩ := Reading.map_eq_done.mp h
    obtain ⟨gap, x, blank, spelled, passes, ends⟩ := readNext_done hnext
    have apart' : ∀ u, us.getLast? = some u → u.kind = .text → Stops (· != '<') more := by
      intro u hu
      refine apart u ?_
      rw [List.getLast?_cons, hu]
      rfl
    have stops : t.kind = .text → Stops (· != '<') (c₁.rest ++ more) := by
      intro htext
      by_cases inside : c₁.rest = []
      · -- nothing is left for another token, so the text stands last
        obtain ⟨c₂, hnone⟩ := readNext_of_gap (c := c₁) (by rw [inside]; exact IsGap.nil)
        rw [readAll_none hnone] at hus
        cases hus
        rw [inside]
        exact apart t rfl htext
      · exact (ends htext).append inside more
    have hnext' : (c.extend more).readNext = .done (some t) (c₁.extend more) := by
      rw [readNext_extend (by rw [hnext]; trivial) (by simp [hnext]) ?_, hnext]
      · rfl
      · intro u c₂ hu
        rw [hnext] at hu
        cases hu
        exact stops
    have hborder : c₁.position.after c₁.rest = c.position.after c.rest := by
      rw [passes.position, passes.rest, ← Position.after_append]
    rw [readAll_some hnext', ih hus apart', hborder]
    cases (Cursor.mk more (c.position.after c.rest)).readAll <;> rfl

end Cursor

/-- **Reading is compositional.** A first text that is read, and does not end in a text token that
the second text would go on with, is followed by what the second text gives: its tokens, or its
error, moved behind the first text. -/
theorem scan_append {first second : String} {tokens : List Token}
    (read : Token.scan first = .ok tokens)
    (apart : (∀ t, tokens.getLast? = some t → t.kind ≠ .text) ∨ second = "" ∨
      second.toList.head? = some '<') :
    (∀ more, Token.scan second = .ok more →
      Token.scan (first ++ second) = .ok (tokens ++ more.map (Token.behind first.toList))) ∧
    ∀ e, Token.scan second = .error e →
      Token.scan (first ++ second) = .error (e.behind first.toList) := by
  obtain ⟨c, hall⟩ := Token.scan_eq_ok_iff.mp read
  have stops : ∀ t, tokens.getLast? = some t → t.kind = .text → Stops (· != '<') second.toList := by
    intro t ht htext
    rcases apart with other | rfl | hhead
    · exact absurd htext (other t ht)
    · exact stops_nil _
    · obtain ⟨rest, hrest⟩ := List.head?_eq_some_iff.mp hhead
      rw [hrest]
      exact stops_text_cons.mpr rfl
  have hborder : Cursor.mk second.toList (Position.start.after first.toList) =
      (Cursor.ofString second).behind first.toList := by
    rw [← Position.start_behind]
    rfl
  have hjoined : (Cursor.ofString (first ++ second)).readAll =
      ((Cursor.ofString second).readAll.behind (List.map (Token.behind first.toList))
        first.toList).map (tokens ++ ·) := by
    have counted : 1 ≤ (Cursor.ofString second).position.line := Int.le_refl 1
    rw [← Cursor.readAll_behind counted, ← hborder, ← Cursor.extend_ofString]
    exact Cursor.readAll_continues hall stops
  constructor
  · intro more hmore
    obtain ⟨c', hsecond⟩ := Token.scan_eq_ok_iff.mp hmore
    rw [Token.scan, hjoined, hsecond]
    rfl
  · intro e he
    obtain ⟨c', hsecond⟩ := Token.scan_eq_error_iff.mp he
    rw [Token.scan, hjoined, hsecond]
    rfl

/-- Behind a text on the second line: what stands on the first line of the second text moves to the
right, and what stands on its later lines only moves down. -/
theorem scan_append_secondLine :
    let text : Token := ⟨.text, "x", ⟨2, 1, 1⟩, none, none⟩
    let leaf (tag name : Position) : Token :=
      ⟨.selfCloseTag, "b", tag, none, some [⟨.attribute, "c", name, some "{{true}}", none⟩]⟩
    let slash (p : Position) : CompileError := ⟨.expected "'>' after '/'", some p⟩
    (Token.scan "\nx" = .ok [text] ∧ Token.scan "<b\nc/>" = .ok [leaf ⟨1, 1, 0⟩ ⟨2, 1, 3⟩] ∧
      Token.scan "<b /c>" = .error (slash ⟨1, 4, 3⟩)) ∧
    Token.scan ("\nx" ++ "<b\nc/>") = .ok [text, leaf ⟨2, 2, 2⟩ ⟨3, 1, 5⟩] ∧
      Token.scan ("\nx" ++ "<b /c>") = .error (slash ⟨2, 5, 5⟩) := by
  intro text leaf slash
  have htext : Token.scan "\nx" = .ok [text] := by with_unfolding_all rfl
  have hleaf : Token.scan "<b\nc/>" = .ok [leaf ⟨1, 1, 0⟩ ⟨2, 1, 3⟩] := by with_unfolding_all rfl
  have hslash : Token.scan "<b /c>" = .error (slash ⟨1, 4, 3⟩) :=
    Token.scan_eq_error_of_map (by decide +kernel)
  have hmoved : (leaf ⟨1, 1, 0⟩ ⟨2, 1, 3⟩).behind "\nx".toList = leaf ⟨2, 2, 2⟩ ⟨3, 1, 5⟩ := by
    with_unfolding_all rfl
  have hmovedSlash : (slash ⟨1, 4, 3⟩).behind "\nx".toList = slash ⟨2, 5, 5⟩ := by
    with_unfolding_all rfl
  refine ⟨⟨htext, hleaf, hslash⟩, ?_, ?_⟩
  · rw [(scan_append htext (.inr (.inr rfl))).1 _ hleaf, List.map_singleton, hmoved]
    rfl
  · rw [(scan_append htext (.inr (.inr rfl))).2 _ hslash, hmovedSlash]

end Wxml
