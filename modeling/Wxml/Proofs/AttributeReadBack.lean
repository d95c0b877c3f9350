import Wxml.Proofs.AttributeOrder
import Wxml.Proofs.ReadBack

/-!
# Attributes that read back

Code writes every value between double quotes. Markup may also write it between single ones, and
then the value may hold double quotes. Such a value ends too early when the code is read, so it is
not read as it was.

**The law** (`scan_renderAttributes_iff`): a tag with rendered attributes is read as the attributes
that were rendered exactly when none of their values holds a double quote.

Neither direction runs a reader. A text is read as the tokens of which it is a layout, so the
question is which attributes the rendered text spells. If it spells the rendered ones, then the name
of the first one ends where it ended before, the quote behind it is a double one, and the spelling
of a quoted value says that the quote does not stand in it.

**Not established**: what a tag is read as whose attributes do not read back. It may be an error,
another list of attributes, or several tokens.
-/

namespace Wxml

open Wxml.Text

/-! ## What a rendered text spells -/

/-- The name under which an attribute is written, and what is written as its value. -/
def Token.output (t : Token) : String × Option String :=
  ((Role.ofName t.value).outputName t.value, some t.expression)

/-- The name of an attribute and its value as written. -/
def Token.named (t : Token) : String × Option String := (t.value, t.rawValue)

/-- Blanks in front of something dark are told from it. -/
theorem IsGap.eq_of_append {gap gap' x y : List Char} (blank : IsGap gap) (blank' : IsGap gap')
    (dark : Stops isBlank x) (dark' : Stops isBlank y) (h : gap ++ x = gap' ++ y) :
    gap = gap' ∧ x = y := by
  have hgap : gap = gap' := by
    rw [← dark.takeWhile_append blank, h, dark'.takeWhile_append blank']
  rw [hgap] at h
  exact ⟨hgap, List.append_cancel_left h⟩

theorem isGap_space : IsGap [' '] := by
  intro c hc
  rw [List.mem_singleton.mp hc]
  decide

/-- No attribute starts with a blank, so the blanks before it can be told from it. -/
theorem AttributeSpelling.stops_blank {t : Token} {bare : Bool} {x : List Char}
    (h : AttributeSpelling t bare x) (rest : List Char) : Stops isBlank (x ++ rest) := by
  obtain ⟨c, cs, rfl, -, -, -, dark⟩ := h.starts
  exact stops_cons.mpr dark

theorem IsAttributeName.stops_blank {name : List Char} (h : IsAttributeName name)
    (rest : List Char) : Stops isBlank (name ++ rest) := by
  obtain ⟨c, cs, rfl⟩ := List.exists_cons_of_ne_nil h.nonempty
  exact stops_cons.mpr (h.plain c List.mem_cons_self).2.2.2

/-- A bare attribute is not followed by a value: behind it there has to be a blank or the end of the
tag. -/
theorem AttributesSpelling.ne_equals {ts : List Token} {rest : List Char} :
    ¬ AttributesSpelling true ts ('=' :: rest) := by
  have dark : isBlank '=' = false := by decide
  intro h
  generalize hx : '=' :: rest = x at h
  cases h with
  | nil blank =>
    have hblank := blank '=' (hx ▸ List.mem_cons_self)
    rw [dark] at hblank
    cases hblank
  | @cons _ _ _ _ gap y z blank separated first others =>
    cases gap with
    | nil => exact absurd rfl (separated rfl)
    | cons c gap =>
      have hblank := blank c List.mem_cons_self
      injection hx with hc _
      rw [← hc, dark] at hblank
      cases hblank

/-- **The first attribute of a rendered text.** If the text spells an attribute with the name and
the value that were rendered, then the value holds no double quote, and the rest of the text spells
the rest of the attributes. -/
theorem AttributesSpelling.rendered_cons {apart : Bool} {a u : Token} {us : List Token}
    {rest : List Char} (named : IsAttributeName a.value.toList) (same : u.named = a.output)
    (h : AttributesSpelling apart (u :: us) (a.inlineText.toList ++ rest)) :
    '"' ∉ a.expression.toList ∧ AttributesSpelling false us rest := by
  have outputNamed := named.outputName
  obtain ⟨hvalue, hraw⟩ := Prod.mk.inj same
  rw [Token.toList_inlineText] at h
  generalize hx : [' '] ++ (((Role.ofName a.value).outputName a.value).toList ++
    '=' :: '"' :: (a.expression.toList ++ ['"'])) ++ rest = x at h
  cases h with
  | @cons _ bare _ _ gap y z blank _ first others =>
    rw [List.append_assoc, List.append_assoc, List.append_assoc] at hx
    have hbody := (isGap_space.eq_of_append blank (outputNamed.stops_blank _)
      (first.stops_blank z) hx).2
    cases first with
    | bare _ =>
      -- the name would end in front of the equals sign
      rw [← hvalue] at hbody
      have hrest := List.append_cancel_left hbody
      exact absurd (hrest ▸ others) AttributesSpelling.ne_equals
    | quoted _ _ closed =>
      obtain rfl := Option.some.inj hraw
      rw [← hvalue, List.append_assoc] at hbody
      have hquoted := List.append_cancel_left hbody
      injection hquoted with _ hquoted
      injection hquoted with hquote hquoted
      rw [← hquote] at closed hquoted
      have hrest : rest = z := List.append_cancel_left hquoted
      exact ⟨closed, hrest ▸ others⟩

/-- A rendered text that spells what was rendered holds no double quote in a value. The induction
takes one attribute after the other off the text (`rendered_cons`). -/
theorem AttributesSpelling.unquoted {as us : List Token} {apart : Bool}
    (named : ∀ a ∈ as, IsAttributeName a.value.toList)
    (same : us.map Token.named = as.map Token.output)
    (h : AttributesSpelling apart us (String.join (as.map Token.inlineText)).toList) :
    ∀ a ∈ as, '"' ∉ a.expression.toList := by
  induction as generalizing us apart with
  | nil => exact List.forall_mem_nil _
  | cons a as ih =>
    obtain ⟨hname, hnames⟩ := List.forall_mem_cons.mp named
    obtain ⟨u, us, rfl, hu, hus⟩ := List.map_eq_cons_iff.mp same
    rw [List.map_cons, String.join_cons, String.toList_append] at h
    obtain ⟨hquote, hrest⟩ := h.rendered_cons hname hu
    exact List.forall_mem_cons.mpr ⟨hquote, ih hnames hus hrest⟩

/-! ## The tag around it -/

/-- No blanks stand behind a text that ends with the end of a tag. -/
theorem IsGap.eq_of_tagEnd {x y gap : List Char} (blank : IsGap gap)
    (h : x ++ ['>'] = y ++ ['>'] ++ gap) : x = y := by
  rcases List.eq_nil_or_concat gap with rfl | ⟨most, last, rfl⟩
  · rw [List.append_nil] at h
    exact List.append_cancel_right h
  · rw [List.concat_eq_append] at h blank
    rw [← List.append_assoc] at h
    injection List.append_inj_right' h rfl with hlast _
    have hblank := blank last (List.mem_append_right _ List.mem_cons_self)
    rw [← hlast] at hblank
    exact absurd hblank (by decide)

/-- The characters of the tag, as a tag spelling has them. -/
theorem toList_tag (inline : String) :
    ("<x" ++ inline ++ ">").toList = '<' :: ("x".toList ++ inline.toList) ++ ['>'] := by
  simp

/-- If a tag is read from a text that starts and ends as one, then what stands in between spells its
attributes. -/
theorem Layout.tag_attributes {u : Token} {inline : String} {read : List Token}
    (h : Layout false [u] ("<x" ++ inline ++ ">").toList) (opens : u.kind = .openTag)
    (name : u.value = "x") (attributes : u.attributes = some read) :
    AttributesSpelling true read inline.toList := by
  rw [toList_tag] at h
  generalize hx : '<' :: ("x".toList ++ inline.toList) ++ ['>'] = x at h
  cases h with
  | @cons _ _ _ gap y rest blank _ first others =>
    have behind : IsGap rest := by
      cases others with
      | nil blank _ => exact blank
    have dark : Stops isBlank ('<' :: ("x".toList ++ inline.toList) ++ ['>']) :=
      stops_cons.mpr (by decide)
    rw [List.append_assoc] at hx
    have hy := (IsGap.nil.eq_of_append blank dark (first.stops_blank rest) hx).2
    cases first with
    | @openTag value position as z tag =>
      obtain ⟨w, spelled, rfl⟩ := tag.written
      obtain rfl : value = "x" := name
      obtain rfl : as = read := Option.some.inj attributes
      have hends : inline.toList ++ ['>'] = w ++ ['>'] ++ rest := by
        simp only [List.cons_append, List.append_assoc, List.cons.injEq, true_and] at hy
        rw [List.append_assoc]
        exact List.append_cancel_left hy
      rw [behind.eq_of_tagEnd hends]
      exact spelled
    | _ => cases opens

/-- What stands between the name and the end of a tag is read as its attributes, if it spells some.
This is the direction that constructs; `Layout.tag_attributes` is the other one. -/
theorem exists_scan_tag {inline : String} {as : List Token}
    (h : AttributesSpelling true as inline.toList) :
    ∃ u read, Token.scan ("<x" ++ inline ++ ">") = .ok [u] ∧ u.kind = .openTag ∧ u.value = "x" ∧
      u.attributes = some read ∧ read.map Token.unplaced = as.map Token.unplaced := by
  let tag : Token := { kind := .openTag, value := "x", position := .start, attributes := some as }
  have named : IsTagName "x".toList := by
    intro c hc
    obtain rfl : c = 'x' := List.mem_singleton.mp hc
    decide
  have spelled : TagSpelling "x" as ('<' :: ("x".toList ++ inline.toList)) :=
    ⟨named, by decide, by decide, _, h, rfl⟩
  have layout : Layout false [tag] ("<x" ++ inline ++ ">").toList := by
    rw [toList_tag, ← List.append_nil ('<' :: _ ++ ['>'])]
    exact .cons_tight Bool.noConfusion (.openTag spelled) (.nil .nil fun _ => rfl)
  obtain ⟨us, hscan, hus⟩ := Token.scan_of_layout layout
  obtain ⟨u, us, rfl, hu, hnone⟩ := List.map_eq_cons_iff.mp hus
  obtain rfl := List.map_eq_nil_iff.mp hnone
  obtain ⟨read, htag, hread⟩ := Token.eq_of_unplaced_tag (hu.trans (Token.unplaced_tag ..))
  rw [htag] at hscan
  exact ⟨_, read, hscan, rfl, rfl, rfl, hread⟩

/-! ## The law -/

/-- Name and value of an attribute do not depend on where it stands. -/
theorem Token.named_unplaced (t : Token) : t.unplaced.named = t.named := by
  obtain ⟨kind, value, position, rawValue, attributes⟩ := t
  cases attributes with
  | none => rw [Token.unplaced_plain]; rfl
  | some as => rw [Token.unplaced_tag]; rfl

/-- **Rendered attributes read back exactly when no value holds a double quote.** For the attributes
of a token of any text: the tag `x` with the rendered attributes is read as one opening tag `x`
whose attributes have, in order, the output names and the expressions of those that are no
directives, if and only if none of these expressions holds a double quote. -/
theorem scan_renderAttributes_iff {source : String} {ts : List Token}
    (scanned : Token.scan source = .ok ts) {t : Token} (mem : t ∈ ts) {attributes : List Token}
    (carried : t.attributes = some attributes) :
    (∃ u read, Token.scan ("<x" ++ (renderAttributes attributes {}).1 ++ ">") = .ok [u] ∧
        u.kind = .openTag ∧ u.value = "x" ∧ u.attributes = some read ∧
        read.map (fun a => (a.value, a.rawValue)) = (ofClass .inline attributes).map fun a =>
          ((Role.ofName a.value).outputName a.value, some a.expression)) ↔
      ∀ a ∈ ofClass .inline attributes, '"' ∉ a.expression.toList := by
  have named : ∀ a ∈ ofClass .inline attributes, IsAttributeName a.value.toList := by
    intro a ha
    obtain ⟨x, spelled⟩ := (Token.layout_of_scan scanned).exists_spelling mem
    refine spelled.attributes_named a ?_
    rw [carried]
    exact (List.mem_filter.mp ha).1
  rw [text_renderAttributes]
  constructor
  · rintro ⟨u, read, hscan, opens, name, hread, same⟩
    have spelled := (Token.layout_of_scan hscan).tag_attributes opens name hread
    exact spelled.unquoted named same
  · intro unquoted
    obtain ⟨u, read, hscan, opens, name, hread, same⟩ :=
      exists_scan_tag (attributesSpelling_inlined named unquoted true)
    refine ⟨u, read, hscan, opens, name, hread, ?_⟩
    calc read.map Token.named
        = (read.map Token.unplaced).map Token.named := by
          rw [List.map_map]
          exact List.map_congr_left fun a _ => a.named_unplaced.symm
      _ = ((ofClass .inline attributes).map Token.inlined).map Token.named := by
          rw [same, List.map_map]
          exact List.map_congr_left fun a _ => a.named_unplaced
      _ = (ofClass .inline attributes).map Token.output := List.map_map

/-- A double quote in a directive is not rendered; one in another attribute cuts its value short. -/
theorem scan_renderAttributes_quotes :
    let quiet : List Token := [⟨.attribute, "wx:if", ⟨1, 4, 3⟩, some "\"", none⟩,
      ⟨.attribute, "bindtap", ⟨1, 14, 13⟩, some "\x7b\x7bgo\x7d\x7d", none⟩]
    let loud : List Token := [⟨.attribute, "c", ⟨1, 4, 3⟩, some "d\"", none⟩]
    Token.scan "<a wx:if='\"' bindtap='\x7b\x7bgo\x7d\x7d'>" =
        .ok [⟨.openTag, "a", .start, none, some quiet⟩] ∧
      Token.scan "<b c='d\"'/>" = .ok [⟨.selfCloseTag, "b", .start, none, some loud⟩] ∧
      (∃ u read, Token.scan ("<x" ++ (renderAttributes quiet {}).1 ++ ">") = .ok [u] ∧
        u.kind = .openTag ∧ u.value = "x" ∧ u.attributes = some read ∧
        read.map (fun a => (a.value, a.rawValue)) = [("onclick", some "go")]) ∧
      ¬ ∃ u read, Token.scan ("<x" ++ (renderAttributes loud {}).1 ++ ">") = .ok [u] ∧
        u.kind = .openTag ∧ u.value = "x" ∧ u.attributes = some read ∧
        read.map (fun a => (a.value, a.rawValue)) = [("c", some "d\"")] := by
  intro quiet loud
  have hquiet : Token.scan "<a wx:if='\"' bindtap='\x7b\x7bgo\x7d\x7d'>" =
      .ok [⟨.openTag, "a", .start, none, some quiet⟩] := by with_unfolding_all rfl
  have hloud : Token.scan "<b c='d\"'/>" =
      .ok [⟨.selfCloseTag, "b", .start, none, some loud⟩] := by with_unfolding_all rfl
  have quietIff := scan_renderAttributes_iff hquiet List.mem_cons_self rfl
  have loudIff := scan_renderAttributes_iff hloud List.mem_cons_self rfl
  have hgo : ∀ a ∈ ofClass .inline quiet, '"' ∉ a.expression.toList := by decide +kernel
  have hcut : ¬ ∀ a ∈ ofClass .inline loud, '"' ∉ a.expression.toList := by decide +kernel
  exact ⟨hquiet, hloud, quietIff.mpr hgo, mt loudIff.mp hcut⟩

end Wxml
