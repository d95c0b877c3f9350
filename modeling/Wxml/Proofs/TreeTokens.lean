import Wxml.Compile
import Wxml.Proofs.Nesting
import Wxml.Proofs.Scan

/-!
# Trees as token lists

`Written` says how trees are written as tokens, one after the other. A closing tag may have any name
and comments may stand anywhere, so a tree can be written in many ways. Reading undoes all of them
(`Node.read?_of_written`), since the stack reader takes the tokens of a tree and puts the tree on
the innermost open element (`Node.grow_written`).

**The law** (`exists_readTree_of_layout`): a text that is a layout of the tokens of a tree is read
as that tree, up to positions.

**Not established**: that `Written` gives every list of tokens from which a tree is read. Closing
tags may also be missing at the end, and other tokens may follow; the module on markup adds these.
-/

namespace Wxml

/-- **How trees are written as tokens**, one after the other. -/
inductive Written : List Node → List Token → Prop
  | nil : Written [] []
  | comment {c : Token} {ns : List Node} {ts : List Token} (skipped : c.kind = .comment)
      (rest : Written ns ts) : Written ns (c :: ts)
  | leaf {t : Token} {ns : List Node} {ts : List Token}
      (single : t.kind ≠ .openTag ∧ t.kind ≠ .closeTag ∧ t.kind ≠ .comment) (rest : Written ns ts) :
      Written (.leaf t :: ns) (t :: ts)
  | element {t closer : Token} {children ns : List Node} {inside ts : List Token}
      (opens : t.kind = .openTag) (closes : closer.kind = .closeTag)
      (within : Written children inside) (rest : Written ns ts) :
      Written (.element t children :: ns) (t :: (inside ++ closer :: ts))

/-- Trees that are written one after the other are written together. -/
theorem Written.append {ns ms : List Node} {ts us : List Token} (h : Written ns ts)
    (h' : Written ms us) : Written (ns ++ ms) (ts ++ us) := by
  induction h with
  | nil => exact h'
  | comment skipped _ ih => exact .comment skipped ih
  | leaf single _ ih => exact .leaf single ih
  | element opens closes within _ _ ih =>
    rw [List.cons_append, List.cons_append, List.append_assoc, List.cons_append]
    exact .element opens closes within ih

/-! ## Reading what is written -/

namespace Node

section Steps

variable (f : Frame) (outer : List Frame) {t : Token} (ts : List Token)

theorem grow_comment (skipped : t.kind = .comment) : grow f outer (t :: ts) = grow f outer ts := by
  rw [grow.eq_def]
  simp only [skipped]

/-- An opening tag goes on top of the stack, as an element with nothing inside. -/
theorem grow_open (opens : t.kind = .openTag) :
    grow f outer (t :: ts) = grow ⟨t, []⟩ (f :: outer) ts := by
  rw [grow.eq_def]
  simp only [opens]

/-- Any other token is put on the innermost open element. -/
theorem grow_leaf (single : t.kind ≠ .openTag ∧ t.kind ≠ .closeTag ∧ t.kind ≠ .comment) :
    grow f outer (t :: ts) = grow (f.add (.leaf t)) outer ts := by
  obtain ⟨hopen, hclose, hcomment⟩ := single
  rw [grow.eq_def]
  cases hkind : t.kind with
  | openTag => exact absurd hkind hopen
  | closeTag => exact absurd hkind hclose
  | comment => exact absurd hkind hcomment
  | _ => simp only [hkind]

/-- A closing tag takes the innermost element off the stack and puts it on the one around it. Its
name is noticed but decides nothing. -/
theorem grow_close (g : Frame) (closes : t.kind = .closeTag) :
    (grow f (g :: outer) (t :: ts)).node = (grow (g.add f.close) outer ts).node := by
  rw [grow, closes]

/-- Where no other element is open, a closing tag ends the root and the reading. -/
theorem grow_close_last (closes : t.kind = .closeTag) : (grow f [] (t :: ts)).node = f.close := by
  rw [grow, closes]

end Steps

/-- The stack reader puts written trees on the innermost open element, in front of whatever follows.
The induction is on how they are written. -/
theorem grow_written {ns : List Node} {ts : List Token} (h : Written ns ts) (f : Frame)
    (outer : List Frame) (rest : List Token) :
    (grow f outer (ts ++ rest)).node =
      (grow ⟨f.opener, ns.reverse ++ f.inside⟩ outer rest).node := by
  induction h generalizing f outer rest with
  | nil => rfl
  | comment skipped _ ih =>
    rw [List.cons_append, grow_comment _ _ _ skipped]
    exact ih f outer rest
  | @leaf t ns ts single _ ih =>
    rw [List.cons_append, grow_leaf _ _ _ single, ih, List.reverse_cons, List.append_assoc]
    rfl
  | @element t closer children ns inside ts opens closes _ _ ihWithin ih =>
    have hclose : Frame.close ⟨t, children.reverse⟩ = .element t children := by
      rw [Frame.close, List.reverse_reverse]
    rw [List.cons_append, grow_open _ _ _ opens, List.append_assoc, List.cons_append, ihWithin,
      List.append_nil, grow_close _ _ _ _ closes, hclose, ih, List.reverse_cons, List.append_assoc]
    rfl

/-- The first of some written trees is the one that is read, whatever follows them, and comments
before it are passed over. -/
theorem read?_of_written {n : Node} {ns : List Node} {ts : List Token} (h : Written (n :: ns) ts)
    (rest : List Token) : ∃ g, read? (ts ++ rest) = some g ∧ g.node = n := by
  generalize hall : n :: ns = all at h
  induction h with
  | nil => cases hall
  | comment skipped _ ih =>
    rw [List.cons_append, read?, skipped]
    exact ih hall
  | @leaf t ns ts single _ _ =>
    cases hall
    exact ⟨_, (read?_cons single.2.2 (ts ++ rest)).trans (if_neg single.1), rfl⟩
  | @element t closer children ns inside ts opens closes within _ _ _ =>
    cases hall
    refine ⟨grow ⟨t, []⟩ [] (inside ++ closer :: (ts ++ rest)), ?_, ?_⟩
    · rw [List.cons_append, read?, opens, List.append_assoc, List.cons_append]
    · rw [grow_written within, List.append_nil, grow_close_last _ _ closes, Frame.close,
        List.reverse_reverse]

end Node

/-! ## Reading and positions -/

/-- The open element with every token changed. -/
def Frame.mapTokens (f : Token → Token) (frame : Frame) : Frame :=
  ⟨f frame.opener, frame.inside.map (Node.mapTokens f)⟩

theorem Frame.close_mapTokens (f : Token → Token) (frame : Frame) :
    (frame.mapTokens f).close = frame.close.mapTokens f := by
  rw [Frame.close, Frame.close, Node.mapTokens, Node.mapTokensAll_eq_map, List.map_reverse]
  rfl

/-- So does closing all that is open, at the end of the tokens. -/
theorem Frame.closeAll_mapTokens (f : Token → Token) (frame : Frame) (outer : List Frame) :
    (frame.mapTokens f).closeAll (outer.map (Frame.mapTokens f)) =
      (frame.closeAll outer).mapTokens f := by
  induction outer generalizing frame with
  | nil => exact close_mapTokens f frame
  | cons g outer ih =>
    rw [List.map_cons, closeAll, closeAll, ← ih, close_mapTokens]
    rfl

namespace Node

variable {f : Token → Token}

/-- Reading looks only at the kinds of tokens, so it commutes with every change of tokens that keeps
them. The stack is changed along. -/
theorem grow_map (kept : ∀ t, (f t).kind = t.kind) (frame : Frame) (outer : List Frame)
    (ts : List Token) :
    (grow (frame.mapTokens f) (outer.map (Frame.mapTokens f)) (ts.map f)).node =
      (grow frame outer ts).node.mapTokens f := by
  fun_induction grow frame outer ts with
  | case1 frame outer => exact Frame.closeAll_mapTokens f frame outer
  | case2 frame t ts hkind =>
    rw [List.map_cons, List.map_nil, grow_close_last _ _ (by rwa [kept])]
    exact Frame.close_mapTokens f frame
  | case3 frame t ts hkind g gs r ih =>
    rw [List.map_cons, List.map_cons, grow_close _ _ _ _ (by rwa [kept]), Frame.close_mapTokens]
    exact ih
  | case4 frame outer t ts hkind ih =>
    rw [List.map_cons, grow_comment _ _ _ (by rwa [kept])]
    exact ih
  | case5 frame outer t ts hkind ih =>
    rw [List.map_cons, grow_open _ _ _ (by rwa [kept])]
    exact ih
  | case6 frame outer t ts hclose hcomment hopen ih =>
    rw [List.map_cons, grow_leaf _ _ _ (by rw [kept]; exact ⟨hopen, hclose, hcomment⟩)]
    exact ih

/-- The tree of changed tokens is the changed tree, if the tokens keep their kinds. `unplaced` and
other line ends are such changes. -/
theorem read?_map (kept : ∀ t, (f t).kind = t.kind) (ts : List Token) :
    (read? (ts.map f)).map (·.node) = (read? ts).map (·.node.mapTokens f) := by
  fun_induction read? ts with
  | case1 => rfl
  | case2 t ts hkind ih =>
    rw [List.map_cons, read?, kept, hkind]
    exact ih
  | case3 t ts hkind =>
    rw [List.map_cons, read?, kept, hkind]
    exact congrArg some (grow_map kept ⟨t, []⟩ [] ts)
  | case4 t ts hcomment hopen =>
    rw [List.map_cons, read?_cons (by rwa [kept]), kept, if_neg hopen]
    rfl

/-- The tree as if all its tokens stood at the start of a text. Two trees are equal up to positions
when this makes them equal. -/
def unplaced (n : Node) : Node := n.mapTokens Token.unplaced

/-- Token lists that are equal up to positions have trees that are equal up to positions. Errors are
not compared, as both lists have a tree or neither has. -/
theorem read?_of_unplaced {ts us : List Token}
    (same : us.map Token.unplaced = ts.map Token.unplaced) {g : Grown} (h : read? ts = some g) :
    ∃ g', read? us = some g' ∧ g'.node.unplaced = g.node.unplaced := by
  have hts := read?_map Token.kind_unplaced ts
  have hus := read?_map Token.kind_unplaced us
  rw [same, hts, h] at hus
  exact Option.map_eq_some_iff.mp hus.symm

end Node

/-! ## The law -/

/-- A text has a tree exactly when it has tokens and these have a tree. Errors of the one and of the
other are kept apart by this. -/
theorem readTree_eq_ok_iff {text : String} {n : Node} :
    (readTree text).1 = .ok n ↔ ∃ ts, Token.scan text = .ok ts ∧ (Node.ofTokens ts).1 = .ok n := by
  rw [readTree, readTokens]
  cases Token.scan text with
  | error e => simp
  | ok ts => simp

/-- Compiling is reading a tree and generating its code, from an empty chain. After the tree has
been read nothing fails. -/
theorem compile_eq_map (text : String) :
    (compile text).1 = (readTree text).1.map fun root => (root.generateRoot {}).code := by
  unfold compile
  obtain ⟨result, notices⟩ := readTree text
  cases result <;> rfl

/-- A text is read as the tree of the tokens that it is a layout of. The tokens that are read are
those tokens up to positions, and so are the trees. -/
theorem exists_readTree_of_read? {text : String} {ts : List Token} {g : Grown}
    (read : Node.read? ts = some g) (laid : Layout false ts text.toList) :
    ∃ m, (readTree text).1 = .ok m ∧ m.unplaced = g.node.unplaced := by
  -- the scanned tokens have other positions than those of the layout, so the trees have too
  obtain ⟨us, hscan, same⟩ := Token.scan_of_layout laid
  obtain ⟨g', hread, hnode⟩ := Node.read?_of_unplaced same read
  exact ⟨g'.node, readTree_eq_ok_iff.mpr ⟨us, hscan, Node.ofTokens_eq_ok_iff.mpr ⟨g', hread, rfl⟩⟩,
    hnode⟩

/-- **A text is read as the tree it is a layout of.** All freedoms of writing are in the hypotheses:
those of tokens in `Layout`, those of trees in `Written`. -/
theorem exists_readTree_of_layout {text : String} {n : Node} {ts : List Token}
    (written : Written [n] ts) (laid : Layout false ts text.toList) :
    ∃ m, (readTree text).1 = .ok m ∧ m.unplaced = n.unplaced := by
  obtain ⟨g, hread, rfl⟩ := Node.read?_of_written written []
  rw [List.append_nil] at hread
  exact exists_readTree_of_read? hread laid

end Wxml
