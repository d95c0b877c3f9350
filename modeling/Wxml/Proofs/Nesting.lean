import Wxml.Proofs.Tree

/-!
# Reading a tree is counting depth

The tree of a token list is read with a stack of open elements. Seen from outside, only the height
of the stack matters: an opening tag adds one to it, a closing tag takes one away, and the root ends
where nothing is open any more. Two readings of the list are compared with the tree:

- `untilClosed` is the part of the list that the stack reader takes, found by counting;
- `outline` is the list of the tokens that become nodes, each with the count in front of it.

**The law** (`parse_follows_depth`): the tree, written parents first (`Node.preorder`), is the
outline of the root's part of the list. No token is lost, repeated or put at another depth, whatever
the names of the tags and wherever the list ends.

**Not established**: anything about names. A closing tag ends the innermost open element whatever
its name is, so the law never compares names; what is noticed about them stands in another module.
-/

namespace Wxml

/-! ## Counting -/

/-- How many elements some tokens open and leave open. -/
def balance (ts : List Token) : Int :=
  ts.countP (·.kind == .openTag) - ts.countP (·.kind == .closeTag)

/-- By how much one token changes the depth. -/
def TokenKind.rise : TokenKind → Int
  | .openTag => 1
  | .closeTag => -1
  | _ => 0

@[simp] theorem balance_nil : balance [] = 0 := rfl

/-- One token more changes the count by its own rise. -/
theorem balance_cons (t : Token) (ts : List Token) :
    balance (t :: ts) = t.kind.rise + balance ts := by
  unfold balance
  rw [List.countP_cons, List.countP_cons]
  cases t.kind <;> simp [TokenKind.rise] <;> omega

/-- The count of two parts is the sum of theirs. -/
theorem balance_append (ts us : List Token) : balance (ts ++ us) = balance ts + balance us := by
  unfold balance
  rw [List.countP_append, List.countP_append]
  omega

/-- The tokens up to the closing tag of the outermost of some open elements, of which there are
`outer + 1`. -/
def untilClosed (outer : Nat) : List Token → List Token
  | [] => []
  | t :: ts =>
    match t.kind with
    | .closeTag =>
      match outer with
      | 0 => [t]
      | outer + 1 => t :: untilClosed outer ts
    | .openTag => t :: untilClosed (outer + 1) ts
    | _ => t :: untilClosed outer ts

/-- The tokens that become nodes, each with the depth at which it stands. -/
def outline (depth : Int) : List Token → List (Token × Int)
  | [] => []
  | t :: ts =>
    match t.kind with
    | .closeTag => outline (depth - 1) ts
    | .comment => outline depth ts
    | .openTag => (t, depth) :: outline (depth + 1) ts
    | _ => (t, depth) :: outline depth ts

/-- Counting from a depth, some tokens are the first part of a list that comes down to the ground,
or the whole list when no part does. -/
structure ReachesGround (depth : Int) (taken ts : List Token) : Prop where
  above : ∀ i < taken.length, 0 < depth + balance (taken.take i)
  ends : depth + balance taken = 0 ∨ taken = ts ∧ 0 < depth + balance ts

theorem ReachesGround.nil {depth : Int} (positive : 0 < depth) : ReachesGround depth [] [] :=
  ⟨nofun, .inr ⟨rfl, by simpa using positive⟩⟩

/-- One token in front, from a depth above the ground. -/
theorem ReachesGround.cons {depth : Int} {t : Token} {taken ts : List Token} (positive : 0 < depth)
    (h : ReachesGround (depth + t.kind.rise) taken ts) :
    ReachesGround depth (t :: taken) (t :: ts) where
  above := by
    intro i hi
    cases i with
    | zero => simpa using positive
    | succ i =>
      rw [List.take_succ_cons, balance_cons]
      have := h.above i (by simpa using hi)
      omega
  ends := by
    rw [balance_cons, balance_cons]
    rcases h.ends with hground | ⟨rfl, habove⟩
    · exact .inl (by omega)
    · exact .inr ⟨rfl, by omega⟩

/-- The part that is taken comes down to the ground at its end and not before, or it is the whole
list. -/
theorem untilClosed_reachesGround (outer : Nat) (ts : List Token) :
    ReachesGround (outer + 1) (untilClosed outer ts) ts := by
  fun_induction untilClosed outer ts with
  | case1 outer => exact .nil (by omega)
  | case2 t ts hkind =>
    refine ⟨fun i hi => ?_, .inl (by simp [balance_cons, hkind, TokenKind.rise])⟩
    have hzero : i = 0 := by simpa using hi
    simp [hzero]
  | case3 t ts hkind outer ih =>
    have hdepth : ((outer + 1 : Nat) : Int) + 1 + t.kind.rise = outer + 1 := by
      rw [hkind, TokenKind.rise]
      omega
    refine .cons (by omega) ?_
    rw [hdepth]
    exact ih
  | case4 outer t ts hkind ih =>
    have hdepth : (outer : Int) + 1 + t.kind.rise = (outer + 1 : Nat) + 1 := by
      rw [hkind, TokenKind.rise]
      omega
    refine .cons (by omega) ?_
    rw [hdepth]
    exact ih
  | case5 outer t ts hclose hopen ih =>
    have hrise : t.kind.rise = 0 := by
      revert hclose hopen
      cases t.kind <;> simp [TokenKind.rise]
    refine .cons (by omega) ?_
    rw [hrise, Int.add_zero]
    exact ih

/-! ## The stack and the count -/

/-- The tokens of a stack of open elements with their depths, parents before children. -/
def Frame.trail : List Frame → List (Token × Nat)
  | [] => []
  | f :: outer => trail outer ++ f.close.preorder outer.length

/-- A node that is put on an open element comes last in it. -/
theorem Frame.preorder_close_add (f : Frame) (n : Node) (depth : Nat) :
    (f.add n).close.preorder depth = f.close.preorder depth ++ n.preorder (depth + 1) := by
  simp only [Frame.close, Frame.add, List.reverse_cons, Node.preorder, Node.preorderAll_append,
    Node.preorderAll_singleton, List.cons_append]

/-- A node that is put on the innermost element comes last in the whole stack. -/
theorem Frame.trail_add (f : Frame) (n : Node) (outer : List Frame) :
    trail (f.add n :: outer) = trail (f :: outer) ++ n.preorder (outer.length + 1) := by
  rw [trail, trail, preorder_close_add, List.append_assoc]

/-- An element that is closed hands its tokens to the element around it. Neither their order nor
their depths change by that. -/
theorem Frame.trail_close (f g : Frame) (outer : List Frame) :
    trail (g.add f.close :: outer) = trail (f :: g :: outer) := by
  rw [trail_add]
  rfl

/-- Closing everything at the end of the list changes no token and no depth. -/
theorem Frame.preorder_closeAll (f : Frame) (outer : List Frame) :
    (f.closeAll outer).preorder 0 = trail (f :: outer) := by
  induction outer generalizing f with
  | nil => rfl
  | cons g outer ih => rw [closeAll, ih, trail_close]

/-- Putting a node on the innermost element does not change which element is the outermost. -/
theorem Frame.opener_getLast_add (f : Frame) (n : Node) (outer : List Frame) :
    ((f.add n :: outer).getLast (List.cons_ne_nil _ outer)).opener =
      ((f :: outer).getLast (List.cons_ne_nil f outer)).opener := by
  cases outer with
  | nil => rfl
  | cons g outer => rfl

/-- The root of the tree is the outermost of the open elements. -/
theorem Frame.token_closeAll (f : Frame) (outer : List Frame) :
    (f.closeAll outer).token = ((f :: outer).getLast (List.cons_ne_nil f outer)).opener := by
  induction outer generalizing f with
  | nil => rfl
  | cons g outer ih => exact (ih (g.add f.close)).trans (opener_getLast_add g f.close outer)

namespace Node

/-- The stack reader takes the tokens that the count takes, and leaves the others. The count does
not build anything, so the part of the root can be spoken of without the tree. -/
theorem grow_rest (f : Frame) (outer : List Frame) (ts : List Token) :
    untilClosed outer.length ts ++ (grow f outer ts).rest = ts := by
  fun_induction grow f outer ts with
  | case1 f outer => rfl
  | case2 f t ts hkind => simp [untilClosed, hkind]
  | case3 f t ts hkind g gs r ih => simpa [untilClosed, hkind] using ih
  | case4 f outer t ts hkind ih => simpa [untilClosed, hkind] using ih
  | case5 f outer t ts hkind ih => simpa [untilClosed, hkind] using ih
  | case6 f outer t ts hclose hcomment hopen ih =>
    simpa [untilClosed] using ih

/-- The root stays the outermost of the open elements, whatever is opened and closed inside it. -/
theorem grow_token (f : Frame) (outer : List Frame) (ts : List Token) :
    (grow f outer ts).node.token = ((f :: outer).getLast (List.cons_ne_nil f outer)).opener := by
  fun_induction grow f outer ts with
  | case1 f outer => exact Frame.token_closeAll f outer
  | case2 f t ts hkind => rfl
  | case3 f t ts hkind g gs r ih => exact ih.trans (Frame.opener_getLast_add g f.close gs)
  | case4 f outer t ts hkind ih => exact ih
  | case5 f outer t ts hkind ih => exact ih
  | case6 f outer t ts hclose hcomment hopen ih =>
    exact ih.trans (Frame.opener_getLast_add f _ outer)

/-- What the stack reader adds to the stack is the outline of what it takes. The trail of the stack
comes first, as it was read first; the induction follows the reader. -/
theorem grow_preorder (f : Frame) (outer : List Frame) (ts : List Token) :
    ((grow f outer ts).node.preorder 0).map (fun p => (p.1, (p.2 : Int))) =
      (Frame.trail (f :: outer)).map (fun p => (p.1, (p.2 : Int))) ++
        outline (outer.length + 1) (untilClosed outer.length ts) := by
  -- the trail is what the stack holds already: every case moves one token from the outline to it
  fun_induction grow f outer ts with
  | case1 f outer =>
    rw [Frame.preorder_closeAll]
    simp [untilClosed, outline]
  | case2 f t ts hkind =>
    simp [untilClosed, hkind, outline, Frame.trail]
  | case3 f t ts hkind g gs r ih =>
    rw [Frame.trail_close] at ih
    simpa [untilClosed, hkind, outline] using ih
  | case4 f outer t ts hkind ih =>
    simpa [untilClosed, hkind, outline] using ih
  | case5 f outer t ts hkind ih =>
    rw [ih]
    simp [untilClosed, hkind, outline, Frame.trail, Frame.close, preorder, preorderAll]
  | case6 f outer t ts hclose hcomment hopen ih =>
    rw [ih, Frame.trail_add]
    simp [untilClosed, outline, preorder]

end Node

/-! ## The shape of the tree -/

/-- An open element as reading builds it. -/
structure Frame.Built (f : Frame) : Prop where
  opens : f.opener.kind = .openTag
  inside : ∀ n ∈ f.inside, n.Built

/-- An open element that is built so far gives a built node when it is closed. -/
theorem Frame.Built.close {f : Frame} (h : f.Built) : f.close.Built :=
  .element h.opens fun n hn => h.inside n (List.mem_reverse.mp hn)

/-- It is still built when a built node is put on it. -/
theorem Frame.Built.add {f : Frame} (h : f.Built) {n : Node} (hn : n.Built) : (f.add n).Built where
  opens := h.opens
  inside := by
    intro m hm
    rcases List.mem_cons.mp hm with rfl | hm
    · exact hn
    · exact h.inside m hm

/-- Closing everything on the stack gives a built node, if all of it was built so far. -/
theorem Frame.built_closeAll {f : Frame} {outer : List Frame} (hf : f.Built)
    (houter : ∀ g ∈ outer, g.Built) : (f.closeAll outer).Built := by
  induction outer generalizing f with
  | nil => exact hf.close
  | cons g outer ih =>
    have hg := houter g List.mem_cons_self
    exact ih (hg.add hf.close) fun g' hg' => houter g' (List.mem_cons_of_mem _ hg')

namespace Node

/-- The reader keeps this through all tokens: opening tags become elements, and only they do. -/
theorem grow_built {f : Frame} {outer : List Frame} (ts : List Token) (hf : f.Built)
    (houter : ∀ g ∈ outer, g.Built) : (grow f outer ts).node.Built := by
  fun_induction grow f outer ts with
  | case1 f outer => exact Frame.built_closeAll hf houter
  | case2 f t ts hkind => exact hf.close
  | case3 f t ts hkind g gs r ih =>
    have hg := houter g List.mem_cons_self
    exact ih (hg.add hf.close) fun g' hg' => houter g' (List.mem_cons_of_mem _ hg')
  | case4 f outer t ts hkind ih => exact ih hf houter
  | case5 f outer t ts hkind ih =>
    refine ih ⟨hkind, nofun⟩ fun g hg => ?_
    rcases List.mem_cons.mp hg with rfl | hg
    · exact hf
    · exact houter g hg
  | case6 f outer t ts hclose hcomment hopen ih => exact ih (hf.add (.leaf hopen)) houter

/-- **Every tree that is read is built.** Nothing else is put on the stack. -/
theorem built_of_read? {ts : List Token} {g : Grown} (h : read? ts = some g) : g.node.Built := by
  fun_induction read? ts with
  | case1 => cases h
  | case2 t ts hkind ih => exact ih h
  | case3 t ts hkind =>
    cases h
    exact grow_built ts ⟨hkind, nofun⟩ nofun
  | case4 t ts hcomment hopen =>
    cases h
    exact .leaf hopen

/-- The tree of a list is the node that is read from it, without regard to the rest and to
notices. -/
theorem ofTokens_eq_ok_iff {ts : List Token} {n : Node} :
    (ofTokens ts).1 = .ok n ↔ ∃ g, read? ts = some g ∧ g.node = n := by
  unfold ofTokens TokenStream.parse TokenStream.readNode
  simp only [List.drop_zero]
  cases read? ts with
  | none => simp
  | some g => simp

/-- A list with nothing but comments ends too early. The error stands at the last comment, if there
is one. -/
theorem ofTokens_of_none {ts : List Token} (h : read? ts = none) :
    (ofTokens ts).1 = .error ⟨.endOfInput, ts.getLast?.map (·.position)⟩ := by
  unfold ofTokens TokenStream.parse TokenStream.readNode
  simp only [List.drop_zero, h]
  rfl

theorem built_of_ofTokens {ts : List Token} {n : Node} (h : (ofTokens ts).1 = .ok n) : n.Built := by
  obtain ⟨g, hread, rfl⟩ := ofTokens_eq_ok_iff.mp h
  exact built_of_read? hread

/-- The root is an element when it is an opening tag, and a leaf otherwise. A closing tag in front
becomes a leaf, too. -/
theorem read?_cons {t : Token} (ht : t.kind ≠ .comment) (rest : List Token) :
    read? (t :: rest) =
      if t.kind = .openTag then some (grow ⟨t, []⟩ [] rest) else some ⟨.leaf t, rest, []⟩ := by
  rw [read?]
  cases hkind : t.kind with
  | comment => exact absurd hkind ht
  | _ => rfl

/-- Comments in front are passed over, any number of them, and the first other token decides what is
read. -/
theorem read?_append {comments : List Token} (skipped : ∀ c ∈ comments, c.kind = .comment)
    {t : Token} (ht : t.kind ≠ .comment) (rest : List Token) :
    read? (comments ++ t :: rest) =
      if t.kind = .openTag then some (grow ⟨t, []⟩ [] rest) else some ⟨.leaf t, rest, []⟩ := by
  induction comments with
  | nil => exact read?_cons ht rest
  | cons c comments ih =>
    rw [List.cons_append, read?, skipped c List.mem_cons_self]
    exact ih fun c' hc' => skipped c' (List.mem_cons_of_mem _ hc')

end Node

/-! ## The tokens of the tree -/

/-- Without the depths an outline is a filter: what is neither a comment nor a closing tag. -/
theorem map_fst_outline (depth : Int) (ts : List Token) :
    (outline depth ts).map Prod.fst =
      ts.filter fun t => t.kind != .comment && t.kind != .closeTag := by
  fun_induction outline depth ts with
  | case1 => rfl
  | case2 depth t ts hkind ih => rw [ih, List.filter_cons_of_neg (by simp [hkind])]
  | case3 depth t ts hkind ih => rw [ih, List.filter_cons_of_neg (by simp [hkind])]
  | case4 depth t ts hkind ih => rw [List.map_cons, ih, List.filter_cons_of_pos (by simp [hkind])]
  | case5 depth t ts hclose hcomment hopen ih =>
    rw [List.map_cons, ih, List.filter_cons_of_pos (by simpa using ⟨hcomment, hclose⟩)]

/-- Every node of a tree comes from a token of the list. No comment is among them, and a closing tag
only as the whole tree. -/
theorem Node.token_of_read? {ts : List Token} {g : Grown} (h : read? ts = some g) {d : Node}
    (hd : d ∈ g.node :: g.node.descendants) :
    d.token ∈ ts ∧ d.token.kind ≠ .comment ∧ (d.token.kind = .closeTag → d = g.node) := by
  fun_induction read? ts with
  | case1 => cases h
  | case2 t ts hkind ih =>
    obtain ⟨hmem, hkinds⟩ := ih h
    exact ⟨List.mem_cons_of_mem _ hmem, hkinds⟩
  | case3 t ts hkind =>
    cases h
    have built : (grow ⟨t, []⟩ [] ts).node.Built := grow_built ts ⟨hkind, nofun⟩ nofun
    obtain ⟨k, hk⟩ := built.exists_mem_preorder hd 0
    have hcounted := List.mem_map_of_mem (f := fun p : Token × Nat => (p.1, (p.2 : Int))) hk
    rw [grow_preorder] at hcounted
    rcases List.mem_append.mp hcounted with hroot | hinside
    · have hroot : d.token = t ∧ k = 0 := by
        simpa [Frame.trail, Frame.close, preorder, preorderAll] using hroot
      simp [hroot.1, hkind]
    · have houtline := List.mem_map_of_mem (f := Prod.fst) hinside
      rw [map_fst_outline, List.mem_filter, Bool.and_eq_true, bne_iff_ne, bne_iff_ne] at houtline
      obtain ⟨hmem, hcomment, hclose⟩ := houtline
      have htaken := List.mem_append_left (grow ⟨t, []⟩ [] ts).rest hmem
      rw [grow_rest ⟨t, []⟩ [] ts] at htaken
      exact ⟨List.mem_cons_of_mem _ htaken, hcomment, fun hkind => absurd hkind hclose⟩
  | case4 t ts hcomment hopen =>
    cases h
    obtain rfl := List.mem_singleton.mp hd
    exact ⟨List.mem_cons_self, hcomment, fun _ => rfl⟩

/-! ## The law -/

/-- The tokens from one place up to another. -/
def segment (ts : List Token) (start stop : Nat) : List Token := (ts.take stop).drop start

/-- Where the root that starts at `r` ends: at the first place behind which nothing is open any
more, or at the end of the list when there is no such place. -/
def EndsRoot (ts : List Token) (r j : Nat) : Prop :=
  (r < j ∧ j ≤ ts.length ∧ balance (segment ts r j) = 0 ∧
    ∀ i, r < i → i < j → balance (segment ts r i) ≠ 0) ∨
  (j = ts.length ∧ ∀ i, r < i → i ≤ ts.length → balance (segment ts r i) ≠ 0)

/-- Where the root starts: at the first token that is no comment. -/
def rootIndex (ts : List Token) : Nat := ts.findIdx (·.kind != .comment)

/-- Whether a token of the root's part becomes a node. A closing tag does only when it is the
root. -/
def becomesNode (root t : Token) : Bool :=
  t.kind != .comment && (root.kind != .openTag || t.kind != .closeTag)

/-- The tokens from one place up to another that become nodes, each with the number of elements that
are open in front of it. -/
def outlineByCount (ts : List Token) (root : Token) (r j : Nat) : List (Token × Int) :=
  (((segment ts r j).zipIdx r).filter fun p => becomesNode root p.1).map fun p =>
    (p.1, balance (segment ts r p.2))

/-- **A tree found by counting**: where its root starts and ends in a list, which tokens it has, how
deep each of them stands, and which of them can have something inside. -/
structure CountedTree (ts : List Token) (n : Node) (r j : Nat) : Prop where
  starts : ts[r]? = some n.token
  ends : if n.token.kind = .openTag then EndsRoot ts r j else j = r + 1
  outlined : (n.preorder 0).map (fun p => (p.1, (p.2 : Int))) = outlineByCount ts n.token r j
  built : n.Built

/-- A part in the middle of a list, found by its place. -/
theorem segment_append (before after rest : List Token) :
    segment (before ++ (after ++ rest)) before.length (before.length + after.length) = after := by
  unfold segment
  rw [List.take_length_add_append, List.take_left, List.drop_left]

/-- One token of an outline, by the two questions that are asked of it: whether it becomes a node,
and how it changes the depth. -/
theorem outline_cons {root : Token} (opens : root.kind = .openTag) (depth : Int) (t : Token)
    (ts : List Token) :
    outline depth (t :: ts) =
      (if becomesNode root t then [(t, depth)] else []) ++ outline (depth + t.kind.rise) ts := by
  rw [outline, becomesNode, opens]
  cases t.kind <;> simp [TokenKind.rise]
  rfl

/-- The outline of a part of a list, by counting in the list. `done` is the part before it that the
depth is counted from, and grows in the induction. -/
theorem outline_eq {root : Token} (opens : root.kind = .openTag)
    (before done part rest : List Token) :
    outline (balance done) part =
      ((part.zipIdx (before.length + done.length)).filter
        fun p => becomesNode root p.1).map fun p =>
        (p.1, balance (segment (before ++ (done ++ (part ++ rest))) before.length p.2)) := by
  induction part generalizing done with
  | nil => rfl
  | cons t part ih =>
    have hstep := ih (done ++ [t])
    rw [List.length_append, List.length_singleton, ← Nat.add_assoc, balance_append, balance_cons,
      balance_nil, Int.add_zero, List.append_assoc] at hstep
    have hdepth : balance (segment (before ++ (done ++ (t :: part ++ rest))) before.length
        (before.length + done.length)) = balance done := by
      rw [segment_append]
    rw [outline_cons opens, hstep, List.zipIdx_cons, List.filter_cons]
    split
    · rw [List.map_cons, hdepth]
      rfl
    · rfl

/-- The outline of the root's part is found by counting in the whole list. -/
theorem outlineByCount_append {root : Token} (opens : root.kind = .openTag)
    (before part rest : List Token) :
    outlineByCount (before ++ (part ++ rest)) root before.length (before.length + part.length) =
      outline 0 part := by
  rw [outlineByCount, segment_append]
  exact (outline_eq opens before [] part rest).symm

/-- The part that counting takes ends the root, as it was defined by its first return to zero. -/
theorem endsRoot_untilClosed (before : List Token) {t : Token} (opens : t.kind = .openTag)
    (rest : List Token) :
    EndsRoot (before ++ t :: rest) before.length
      (before.length + 1 + (untilClosed 0 rest).length) := by
  obtain ⟨more, hmore⟩ : ∃ more, rest = untilClosed 0 rest ++ more :=
    ⟨_, (Node.grow_rest ⟨t, []⟩ [] rest).symm⟩
  have hground := untilClosed_reachesGround 0 rest
  generalize untilClosed 0 rest = taken at hmore hground
  subst hmore
  -- counting from behind the opening tag is counting from depth one
  have hcount : ∀ k ≤ taken.length, balance (segment (before ++ t :: (taken ++ more)) before.length
      (before.length + 1 + k)) = 1 + balance (taken.take k) := by
    intro k hk
    have hsegment := segment_append before (t :: taken.take k) (taken.drop k ++ more)
    rw [List.length_cons, List.length_take_of_le hk, List.cons_append, ← List.append_assoc,
      List.take_append_drop, Nat.add_comm k, ← Nat.add_assoc] at hsegment
    rw [hsegment, balance_cons, opens]
    rfl
  have habove : ∀ i, before.length < i → i < before.length + 1 + taken.length →
      balance (segment (before ++ t :: (taken ++ more)) before.length i) ≠ 0 := by
    intro i hi hlt
    obtain ⟨k, rfl⟩ : ∃ k, i = before.length + 1 + k := ⟨i - (before.length + 1), by omega⟩
    have hpositive := hground.above k (by omega)
    rw [hcount k (by omega)]
    omega
  have hlast := hcount taken.length (Nat.le_refl _)
  rw [List.take_length] at hlast
  rcases hground.ends with hzero | ⟨hall, hpositive⟩
  · refine .inl ⟨by omega, by simp; omega, ?_, habove⟩
    rw [hlast]
    simpa using hzero
  · have hlength : before.length + 1 + taken.length = (before ++ t :: (taken ++ more)).length := by
      rw [← hall, List.length_append, List.length_cons]
      omega
    refine .inr ⟨hlength, fun i hi hle => ?_⟩
    by_cases hlt : i < before.length + 1 + taken.length
    · exact habove i hi hlt
    · have heq : i = before.length + 1 + taken.length := by omega
      rw [heq, hlast]
      rw [← hall] at hpositive
      omega

/-- A list with something other than comments has a root: its first such token. -/
theorem exists_root {ts : List Token} (present : ∃ t ∈ ts, t.kind ≠ .comment) :
    ∃ comments t rest, ts = comments ++ t :: rest ∧ (∀ c ∈ comments, c.kind = .comment) ∧
      t.kind ≠ .comment ∧ rootIndex ts = comments.length := by
  induction ts with
  | nil => simp at present
  | cons u ts ih =>
    by_cases hu : u.kind = .comment
    · obtain ⟨t, ht, hkind⟩ := present
      rcases List.mem_cons.mp ht with rfl | ht
      · exact absurd hu hkind
      · obtain ⟨comments, t, rest, rfl, skipped, hkind, hindex⟩ := ih ⟨t, ht, hkind⟩
        refine ⟨u :: comments, t, rest, rfl, ?_, hkind, ?_⟩
        · intro c hc
          rcases List.mem_cons.mp hc with rfl | hc
          · exact hu
          · exact skipped c hc
        · rw [rootIndex] at hindex
          rw [rootIndex, List.findIdx_cons, hindex, hu]
          rfl
    · refine ⟨[], u, ts, rfl, nofun, hu, ?_⟩
      rw [rootIndex, List.findIdx_cons, bne_iff_ne.mpr hu]
      rfl

/-- The root of a stream at its start, and where the stream stands behind it. -/
theorem TokenStream.parse_of_read? {ts : List Token} {g : Grown} (h : Node.read? ts = some g) :
    ∃ notices, TokenStream.parse { tokens := ts } =
      (.ok g.node, { tokens := ts, index := ts.length - g.rest.length }, notices) := by
  refine ⟨g.notices ++ leftoverNotices (ts.drop (ts.length - g.rest.length)), ?_⟩
  unfold TokenStream.parse TokenStream.readNode
  simp only [List.drop_zero, h]

/-- **Reading a tree is counting depth.** A list with a token that is no comment has a tree. Its
root starts at the first such token and ends where `EndsRoot` says; what stands between, without the
comments and without the closing tags of elements, is the tree with parents first, and each token
stands as deep as the count in front of it says. -/
theorem parse_follows_depth (ts : List Token) (present : ∃ t ∈ ts, t.kind ≠ .comment) :
    ∃ n j notices,
      TokenStream.parse { tokens := ts } = (.ok n, { tokens := ts, index := j }, notices) ∧
        CountedTree ts n (rootIndex ts) j := by
  obtain ⟨comments, t, rest, rfl, skipped, hkind, hindex⟩ := exists_root present
  have hread := Node.read?_append skipped hkind rest
  have hroot : (comments ++ t :: rest)[comments.length]? = some t := by simp
  rw [hindex]
  by_cases hopen : t.kind = .openTag
  · rw [if_pos hopen] at hread
    obtain ⟨notices, hparse⟩ := TokenStream.parse_of_read? hread
    have hrest : untilClosed 0 rest ++ (Node.grow ⟨t, []⟩ [] rest).rest = rest :=
      Node.grow_rest ⟨t, []⟩ [] rest
    have hlength := congrArg List.length hrest
    rw [List.length_append] at hlength
    have hj : (comments ++ t :: rest).length - (Node.grow ⟨t, []⟩ [] rest).rest.length =
        comments.length + 1 + (untilClosed 0 rest).length := by
      rw [List.length_append, List.length_cons]
      omega
    have htoken : (Node.grow ⟨t, []⟩ [] rest).node.token = t := Node.grow_token ..
    rw [hj] at hparse
    refine ⟨_, _, notices, hparse, ?_, ?_, ?_, ?_⟩
    · rw [htoken]
      exact hroot
    · rw [htoken, if_pos hopen]
      exact endsRoot_untilClosed comments hopen rest
    · have hcount := outlineByCount_append hopen comments (t :: untilClosed 0 rest)
        (Node.grow ⟨t, []⟩ [] rest).rest
      rw [List.cons_append, hrest, List.length_cons, Nat.add_comm _ 1, ← Nat.add_assoc] at hcount
      rw [htoken, hcount, Node.grow_preorder, outline, hopen]
      rfl
    · exact Node.grow_built rest ⟨hopen, nofun⟩ nofun
  · rw [if_neg hopen] at hread
    obtain ⟨notices, hparse⟩ := TokenStream.parse_of_read? hread
    have hj : (comments ++ t :: rest).length - rest.length = comments.length + 1 := by
      rw [List.length_append, List.length_cons]
      omega
    rw [hj] at hparse
    have hpart : segment (comments ++ t :: rest) comments.length (comments.length + 1) = [t] :=
      segment_append comments [t] rest
    have hempty : segment (comments ++ t :: rest) comments.length comments.length = [] :=
      segment_append comments [] (t :: rest)
    have hshown : becomesNode t t = true := by simp [becomesNode, hkind, hopen]
    refine ⟨.leaf t, _, notices, hparse, hroot, by rw [Node.token, if_neg hopen], ?_, .leaf hopen⟩
    rw [Node.token, outlineByCount, hpart, List.zipIdx_singleton]
    simp only [List.filter_cons, hshown, if_true, List.filter_nil, List.map_cons, List.map_nil,
      hempty]
    rfl

/-- A list whose root is never closed, and whose only closing tag has another name than the element
it closes. -/
theorem parse_follows_depth_unclosed :
    let tag (kind : TokenKind) (name : String) : Token :=
      { kind, value := name, position := .start }
    let ts := [tag .comment "c", tag .openTag "a", tag .openTag "b", tag .text "x",
      tag .closeTag "z", tag .selfCloseTag "d"]
    (∃ t ∈ ts, t.kind ≠ .comment) ∧
      ∃ n notices,
        TokenStream.parse { tokens := ts } = (.ok n, { tokens := ts, index := 6 }, notices) ∧
          CountedTree ts n 1 6 := by
  intro tag ts
  have present : ∃ t ∈ ts, t.kind ≠ .comment := ⟨tag .openTag "a", by simp [ts], nofun⟩
  obtain ⟨n, j, notices, hparse, hcounted⟩ := parse_follows_depth ts present
  have hj : j = 6 := congrArg (fun result => result.2.1.index) hparse.symm
  subst hj
  exact ⟨present, n, notices, hparse, hcounted⟩

end Wxml
