import Wxml.Proofs.ChainRun

/-!
# The braces of a pass

An opening branch writes a brace that only a closing branch closes, and whether a closing branch is
written is up to the chain. So the braces of the output are accounted for by the branches that the
chain remembers.

**The law** (`braces_accounted`): when the names, attributes, expressions and texts that a tree
shows are balanced, its code closes no brace before it is opened. What stays open is the number of
its opening branches less the closing branches that the chain remembers. The code is balanced
exactly when the chain remembers every opening branch and ends closed.

One invariant carries the proof (`Accounted`). The depth that the code has reached covers what the
chain owes; from any such depth a piece of code leads to another, without falling below zero on the
way. The chain may owe a brace that was opened far to the left, so a piece of code need not be
balanced by itself.

**Not established**: that balanced code is code. Braces are counted wherever they stand, those in
quotes and comments of an expression included, and the other brackets are not counted at all.
-/

namespace Wxml

/-! ## Depth -/

/-- How many braces a text opens more than it closes. -/
def braceDepth (cs : List Char) : Int := cs.count '{' - cs.count '}'

/-- **Balanced braces**: as many are closed as are opened, and none before it is opened. -/
structure BraceBalanced (s : String) : Prop where
  equal : s.toList.count '{' = s.toList.count '}'
  above : ∀ start, start <+: s.toList → start.count '}' ≤ start.count '{'

theorem braceDepth_append (cs ds : List Char) :
    braceDepth (cs ++ ds) = braceDepth cs + braceDepth ds := by
  unfold braceDepth
  rw [List.count_append, List.count_append]
  omega

/-- Prefixes are cut at lengths, of which there are finitely many. This makes balance decidable. -/
theorem forall_prefix_iff {P : List Char → Prop} (cs : List Char) :
    (∀ start, start <+: cs → P start) ↔ ∀ n, n < cs.length + 1 → P (cs.take n) := by
  constructor
  · intro h n _
    exact h _ (List.take_prefix n cs)
  · intro h start hstart
    rw [List.prefix_iff_eq_take.mp hstart]
    exact h _ (Nat.lt_succ_of_le hstart.length_le)

instance (s : String) : Decidable (BraceBalanced s) :=
  decidable_of_iff
    (s.toList.count '{' = s.toList.count '}' ∧
      ∀ n, n < s.toList.length + 1 → (s.toList.take n).count '}' ≤ (s.toList.take n).count '{')
    ⟨fun h => ⟨h.1, (forall_prefix_iff _).mpr h.2⟩, fun h => ⟨h.1, (forall_prefix_iff _).mp h.2⟩⟩

/-- **A climb**: from one depth a text leads to another, and never below zero. -/
structure Climbs (start : Int) (s : String) (stop : Int) : Prop where
  arrives : stop = start + braceDepth s.toList
  above : ∀ begun, begun <+: s.toList → 0 ≤ start + braceDepth begun

namespace Climbs

/-- Climbs follow one another: a prefix of both texts ends in one of the two. -/
theorem append {start middle stop : Int} {s t : String} (first : Climbs start s middle)
    (second : Climbs middle t stop) : Climbs start (s ++ t) stop := by
  constructor
  · rw [second.arrives, first.arrives, String.toList_append, braceDepth_append]
    omega
  · intro begun hbegun
    rw [String.toList_append] at hbegun
    rcases List.prefix_or_prefix_of_prefix hbegun (List.prefix_append _ _) with h | ⟨more, rfl⟩
    · exact first.above begun h
    · have hmore := second.above more ((List.prefix_append_right_inj _).mp hbegun)
      rw [first.arrives] at hmore
      rw [braceDepth_append]
      omega

/-- A balanced text leads back to where it starts, from every depth that is not below zero: its own
prefixes never go below that. -/
theorem balanced {s : String} (h : BraceBalanced s) {start : Int} (positive : 0 ≤ start) :
    Climbs start s start := by
  constructor
  · have := h.equal
    unfold braceDepth
    omega
  · intro begun hbegun
    have := h.above begun hbegun
    unfold braceDepth
    omega

theorem opening {start : Int} (positive : 0 ≤ start) : Climbs start "\x7b" (start + 1) := by
  constructor
  · rfl
  · intro begun hbegun
    rcases List.prefix_cons_iff.mp hbegun with rfl | ⟨more, rfl, hmore⟩
    · exact Int.add_nonneg positive (by decide)
    · rw [List.prefix_nil.mp hmore]
      exact Int.add_nonneg positive (by decide)

/-- A closing brace leads one down, and needs a brace to close. This is the only place where a depth
of one is asked for. -/
theorem closing {start : Int} (positive : 1 ≤ start) : Climbs start "\x7d" (start - 1) := by
  constructor
  · rfl
  · intro begun hbegun
    rcases List.prefix_cons_iff.mp hbegun with rfl | ⟨more, rfl, hmore⟩
    · exact Int.add_nonneg (by omega) (by decide)
    · rw [List.prefix_nil.mp hmore]
      show 0 ≤ start + -1
      omega

end Climbs

/-- Balanced texts in a row are balanced, as climbs from zero back to zero. -/
theorem BraceBalanced.append {s t : String} (hs : BraceBalanced s) (ht : BraceBalanced t) :
    BraceBalanced (s ++ t) := by
  have climb := (Climbs.balanced hs (Int.le_refl 0)).append (Climbs.balanced ht (Int.le_refl 0))
  constructor
  · have := climb.arrives
    unfold braceDepth at this
    omega
  · intro begun hbegun
    have := climb.above begun hbegun
    unfold braceDepth at this
    omega

/-! ## The parts of a node -/

/-- What an attribute contributes to the code: its text, if it is written inline, and the expression
of its directive otherwise. -/
def Token.attributePart (t : Token) : String :=
  match t.directive? with
  | some d => d.expression
  | none => t.inlineText

/-- What a node shows of its token: the name of an element and what its attributes contribute, or a
text. -/
def Token.parts (t : Token) : List String :=
  match t.kind with
  | .openTag => camelCase t.value :: (t.attributes.getD []).map Token.attributePart
  | .selfCloseTag => firstUpper t.value :: (t.attributes.getD []).map Token.attributePart
  | .text => [normalizeText t.value]
  | _ => []

/-- The parts of all nodes of a tree are balanced. -/
def Node.BalancedParts (root : Node) : Prop :=
  ∀ n ∈ root :: root.descendants, ∀ part ∈ n.token.parts, BraceBalanced part

instance (root : Node) : Decidable root.BalancedParts :=
  inferInstanceAs (Decidable (∀ n ∈ root :: root.descendants, ∀ part ∈ n.token.parts,
    BraceBalanced part))

/-- Any number of balanced texts in a row are balanced. -/
theorem balanced_join {parts : List String} (h : ∀ part ∈ parts, BraceBalanced part) :
    BraceBalanced (String.join parts) := by
  induction parts with
  | nil => decide
  | cons part parts ih =>
    rw [String.join_cons]
    exact (h part List.mem_cons_self).append (ih fun other hother =>
      h other (List.mem_cons_of_mem _ hother))

section Attributes

variable {attributes : List Token}
  (h : ∀ part ∈ attributes.map Token.attributePart, BraceBalanced part)

include h

/-- The inline text of a tag is balanced if what its attributes contribute is. Directives do not
stand in it. -/
theorem balanced_inlineTexts : BraceBalanced (inlineTexts attributes) := by
  apply balanced_join
  intro part hpart
  obtain ⟨t, ht, rfl⟩ := List.mem_map.mp hpart
  obtain ⟨ht, inline⟩ := List.mem_filter.mp ht
  have hbalanced := h _ (List.mem_map_of_mem ht)
  rwa [Token.attributePart, Option.isNone_iff_eq_none.mp inline] at hbalanced

/-- What an attribute contributes that is a directive is its expression, so that this is
balanced. -/
theorem balanced_expression {d : Directive} (hd : d ∈ directives attributes) :
    BraceBalanced d.expression := by
  obtain ⟨t, ht, hdirective⟩ := List.mem_filterMap.mp hd
  have hbalanced := h _ (List.mem_map_of_mem ht)
  rwa [Token.attributePart, hdirective] at hbalanced

end Attributes

/-! ## Accounting -/

/-- **Accounted code**: from every depth that covers what the chain owes, the code climbs to one
that covers what the chain owes behind it. It rises by the openings, less the closings that the
chain remembers meanwhile. -/
def Accounted (c : Chain) (code : String) (c' : Chain) (openings : Nat) : Prop :=
  ∀ start : Int, c.owed ≤ start → ∃ stop : Int, Climbs start code stop ∧ c'.owed ≤ stop ∧
    stop + c'.pushed .closes = start + openings + c.pushed .closes

namespace Accounted

variable {c c₁ c₂ : Chain} {code code' : String} {k k' : Nat}

/-- Balanced code asks nothing of the chain and leaves it as it is. -/
theorem balanced (h : BraceBalanced code) : Accounted c code c 0 := by
  intro start covers
  exact ⟨start, .balanced h (by omega), covers, by omega⟩

/-- Pieces of code follow one another, each from the chain that the one before it has left. The
openings add up. -/
theorem append (first : Accounted c code c₁ k) (second : Accounted c₁ code' c₂ k') :
    Accounted c (code ++ code') c₂ (k + k') := by
  intro start covers
  obtain ⟨middle, climbs, covers, hmiddle⟩ := first start covers
  obtain ⟨stop, climbs', covers, hstop⟩ := second middle covers
  exact ⟨stop, climbs.append climbs', covers, by omega⟩

/-- Balanced texts may stand on both sides. The tags of an element and the text of a loop are put
around code in this way. -/
theorem between {before after : String} (h : Accounted c code c₁ k) (hbefore : BraceBalanced before)
    (hafter : BraceBalanced after) : Accounted c (before ++ code ++ after) c₁ k := by
  have whole := ((balanced hbefore).append h).append (balanced hafter)
  rwa [Nat.zero_add] at whole

/-- An opening branch writes a brace whether the chain remembers it or not. If it does, the brace is
owed; if not, nothing will close it, and the depth stays one higher. -/
theorem opens {e : String} (h : Accounted c code c₁ k) (he : BraceBalanced e) :
    Accounted c (c₁.branch .opens e code).code (c₁.branch .opens e code).chain (k + 1) := by
  intro start covers
  obtain ⟨below, -, covers₁, hbelow⟩ := h start covers
  obtain ⟨stop, climbs, -, hstop⟩ := h (start + 1) (by omega)
  have howed := (c₁.meet .opens).owed_le_one
  have hpushed : (c₁.meet .opens).pushed .closes = c₁.pushed .closes := by
    by_cases hopen : c₁.isOpen = true <;> simp [Chain.meet, hopen, Chain.pushed_push]
  rw [Chain.branch_chain]
  refine ⟨stop, ?_, by omega, by omega⟩
  have hbrace := (Climbs.opening (by omega)).append (.balanced he (by omega : 0 ≤ start + 1))
  exact ((hbrace.append (.balanced (by decide) (by omega))).append climbs).append
    (.balanced (by decide) (by omega))

/-- A continuing branch writes no brace, with or without a conditional to continue. -/
theorem continues {e : String} (h : Accounted c code c₁ k) (he : BraceBalanced e) :
    Accounted c (c₁.branch .continues e code).code (c₁.branch .continues e code).chain k := by
  by_cases hopen : c₁.isOpen = true
  · rw [Chain.branch, if_pos hopen]
    intro start covers
    obtain ⟨stop, climbs, covers₁, hstop⟩ := h.between (he.append (by decide : BraceBalanced "?"))
      (by decide : BraceBalanced ":") start covers
    refine ⟨stop, climbs, ?_, ?_⟩
    · rwa [Chain.owed, hopen] at covers₁
    · rw [Chain.pushed_push]
      exact hstop
  · rw [Chain.branch, if_neg hopen]
    exact h

/-- A closing branch writes its brace only when one is owed, and so never below zero. -/
theorem closes {e : String} (h : Accounted c code c₁ k) (he : BraceBalanced e) :
    Accounted c (c₁.branch .closes e code).code (c₁.branch .closes e code).chain k := by
  by_cases hopen : c₁.isOpen = true
  · rw [Chain.branch, if_pos hopen]
    intro start covers
    obtain ⟨stop, climbs, covers₁, hstop⟩ := h.between (he.append (by decide : BraceBalanced "?"))
      (by decide : BraceBalanced ":null") start covers
    rw [Chain.owed, if_pos hopen] at covers₁
    refine ⟨stop - 1, ?_, ?_, ?_⟩
    · have hbrace := climbs.append (.closing (by omega))
      rwa [String.append_assoc] at hbrace
    · show (0 : Int) ≤ stop - 1
      omega
    · rw [Chain.pushed_push, if_pos rfl]
      omega
  · rw [Chain.branch, if_neg hopen]
    exact h

/-- **One branch**, whatever the chain makes of it. The three cases above are the three kinds of
branch; only an opening one counts as an opening. -/
theorem branch {e : String} (h : Accounted c code c₁ k) (he : BraceBalanced e) (b : Branch) :
    Accounted c (c₁.branch b e code).code (c₁.branch b e code).chain (k + [b].count .opens) := by
  cases b with
  | opens => exact h.opens he
  | continues => exact h.continues he
  | closes => exact h.closes he

/-- All conditionals of an element, one around the other. The induction is on them, with the chain
handed on. -/
theorem branchAll {branches : List (Branch × String)} (h : Accounted c code c₁ k)
    (balanced : ∀ branch ∈ branches, BraceBalanced branch.2) :
    Accounted c (c₁.branchAll branches code).code (c₁.branchAll branches code).chain
      (k + (branches.map Prod.fst).count .opens) := by
  induction branches generalizing c₁ code k with
  | nil => exact h
  | cons first branches ih =>
    obtain ⟨b, e⟩ := first
    have hfirst := h.branch (balanced _ List.mem_cons_self) b
    have hrest := ih hfirst fun branch hbranch => balanced branch (List.mem_cons_of_mem _ hbranch)
    rw [Nat.add_assoc, ← List.count_append] at hrest
    exact hrest

/-- A loop opens a brace and closes it, around code that may itself leave some open. What is owed
inside is still owed behind the loop. -/
theorem repeatFor {e : String} (h : Accounted c code c₁ k) (he : BraceBalanced e) :
    Accounted c (repeatFor code e) c₁ k := by
  intro start covers
  obtain ⟨below, -, covers₁, hbelow⟩ := h start covers
  obtain ⟨stop, climbs, -, hstop⟩ := h (start + 1) (by omega)
  refine ⟨stop - 1, ?_, by omega, by omega⟩
  have positive : (0 : Int) ≤ start := by omega
  have hopen : Climbs start "<>\x7b" (start + 1) :=
    (Climbs.balanced (by decide : BraceBalanced "<>") positive).append (.opening positive)
  have hclose : Climbs stop ")\x7d</>" (stop - 1) :=
    ((Climbs.balanced (by decide : BraceBalanced ")") (by omega)).append
      (.closing (by omega))).append (.balanced (by decide : BraceBalanced "</>") (by omega))
  exact (((hopen.append (.balanced he (by omega))).append
    (.balanced (by decide) (by omega))).append climbs).append hclose

/-- All loops of an element: each opens a brace and closes it again. -/
theorem repeated {t : Token} (h : Accounted c code c₁ k)
    (balanced : ∀ e ∈ t.loops, BraceBalanced e) : Accounted c (t.repeated code) c₁ k := by
  rw [Token.repeated]
  generalize t.loops = loops at balanced
  induction loops with
  | nil => exact h
  | cons e loops ih =>
    exact (ih fun e he => balanced e (List.mem_cons_of_mem _ he)).repeatFor
      (balanced e List.mem_cons_self)

end Accounted

/-! ## The code of a tree -/

/-- Balanced parts of an element are, besides its name, what its attributes contribute. -/
theorem Token.balanced_attributes {t : Token} (h : ∀ part ∈ t.parts, BraceBalanced part)
    (element : t.isElement = true) :
    ∀ part ∈ (t.attributes.getD []).map Token.attributePart, BraceBalanced part := by
  intro part hpart
  apply h
  rw [Token.isElement, Bool.or_eq_true, beq_iff_eq, beq_iff_eq] at element
  rcases element with hkind | hkind
  · rw [Token.parts, hkind]
    exact List.mem_cons_of_mem _ hpart
  · rw [Token.parts, hkind]
    exact List.mem_cons_of_mem _ hpart

/-- So the expressions of its directives are balanced. A token that is no element has none. -/
theorem Token.balanced_directives {t : Token} (h : ∀ part ∈ t.parts, BraceBalanced part)
    {d : Directive} (hd : d ∈ t.directives) : BraceBalanced d.expression := by
  rw [Token.directives] at hd
  by_cases element : t.isElement = true
  · rw [if_pos element] at hd
    exact balanced_expression (Token.balanced_attributes h element) hd
  · rw [if_neg element] at hd
    cases hd

theorem Token.balanced_branches {t : Token} (h : ∀ part ∈ t.parts, BraceBalanced part) :
    ∀ branch ∈ t.branches, BraceBalanced branch.2 := by
  intro branch hbranch
  obtain ⟨d, hd, hbranch⟩ := List.mem_filterMap.mp hbranch
  have hbalanced := Token.balanced_directives h hd
  cases d with
  | branch b e => cases hbranch; exact hbalanced
  | loop e => cases hbranch

theorem Token.balanced_loops {t : Token} (h : ∀ part ∈ t.parts, BraceBalanced part) :
    ∀ e ∈ t.loops, BraceBalanced e := by
  intro e he
  obtain ⟨d, hd, hloop⟩ := List.mem_filterMap.mp he
  have hbalanced := Token.balanced_directives h hd
  cases d with
  | branch b e => cases hloop
  | loop e => cases hloop; exact hbalanced

/-- The code of a node that has nothing inside is balanced, if its parts are. It meets no branch of
its own yet. -/
theorem Token.balanced_body {t : Token} (h : ∀ part ∈ t.parts, BraceBalanced part)
    (plain : t.kind ≠ .openTag) : BraceBalanced (t.body "") := by
  unfold Token.body
  cases hkind : t.kind with
  | openTag => exact absurd hkind plain
  | selfCloseTag =>
    have hname := h (firstUpper t.value) (by simp [Token.parts, hkind])
    have hattributes := balanced_inlineTexts
      (Token.balanced_attributes h (by simp [Token.isElement, hkind]))
    exact (((by decide : BraceBalanced "<").append hname).append hattributes).append (by decide)
  | text => exact h (normalizeText t.value) (by simp [Token.parts, hkind])
  | _ => exact (by decide : BraceBalanced "")

/-- The tag of an element around accounted code. Name and attributes are balanced, and the name is
written twice. -/
theorem Accounted.body {t : Token} (h : ∀ part ∈ t.parts, BraceBalanced part)
    (opens : t.kind = .openTag) {c c₁ : Chain} {code : String} {k : Nat}
    (inside : Accounted c code c₁ k) : Accounted c (t.body code) c₁ k := by
  have hname := h (camelCase t.value) (by simp [Token.parts, opens])
  have hattributes := balanced_inlineTexts
    (Token.balanced_attributes h (by simp [Token.isElement, opens]))
  have hopener := (((by decide : BraceBalanced "<").append hname).append hattributes).append
    (by decide : BraceBalanced ">")
  have hcloser := ((by decide : BraceBalanced "</").append hname).append
    (by decide : BraceBalanced ">")
  have whole := inside.between hopener hcloser
  rw [← String.append_assoc, ← String.append_assoc] at whole
  simpa only [Token.body, opens] using whole

/-- The code of siblings, if each of them is accounted for from every chain. The depth that one of
them leaves is where the next one starts. -/
theorem Node.accounted_generateAll {ns : List Node} {c : Chain}
    (h : ∀ n ∈ ns, ∀ c, Accounted c (n.generate c).code (n.generate c).chain (n.met.count .opens)) :
    Accounted c (Node.generateAll ns c).code (Node.generateAll ns c).chain
      ((Node.metAll ns).count .opens) := by
  induction ns generalizing c with
  | nil => exact .balanced (by decide : BraceBalanced "")
  | cons n ns ih =>
    rw [Node.generateAll, Node.metAll, List.count_append]
    exact (h n List.mem_cons_self c).append (ih fun m hm => h m (List.mem_cons_of_mem _ hm))

/-- **The code of a tree is accounted for**, whatever the chain in front of it. The induction goes
from the nodes inside to the node: its tag, then its branches, then its loops. -/
theorem Node.Built.accounted {n : Node} (built : n.Built) (parts : n.BalancedParts) (c : Chain) :
    Accounted c (n.generate c).code (n.generate c).chain (n.met.count .opens) := by
  refine built.induction (P := fun n => n.BalancedParts → ∀ c,
    Accounted c (n.generate c).code (n.generate c).chain (n.met.count .opens))
    (fun n built ih parts c => ?_) parts c
  have own := parts n List.mem_cons_self
  have inside := Node.accounted_generateAll (c := c) fun m hm =>
    ih m hm (Node.forall_inside parts hm)
  have body : Accounted c (n.token.body (Node.generateAll n.inside c).code)
      (Node.generateAll n.inside c).chain ((Node.metAll n.inside).count .opens) := by
    cases built with
    | leaf plain => exact .balanced (Token.balanced_body own plain)
    | element opens _ => exact inside.body own opens
  rw [(built.generate_eq c).1, (built.generate_eq c).2, Node.met_eq, List.count_append]
  exact (body.branchAll (Token.balanced_branches own)).repeated (Token.balanced_loops own)

/-! ## The law -/

/-- **The braces of a pass.** Balanced parts give code that closes no brace before it is opened and
leaves open as many as the tree has opening branches, less the closing branches that the chain
remembers. It is balanced exactly when the chain remembers every opening branch and ends closed. -/
theorem braces_accounted {tokens : List Token} {root : Node}
    (read : (Node.ofTokens tokens).1 = .ok root) (parts : root.BalancedParts) :
    let g := root.generateRoot {}
    (∀ start, start <+: g.code.toList → start.count '}' ≤ start.count '{') ∧
      (g.code.toList.count '{' : Int) - g.code.toList.count '}' =
        root.openings - g.chain.toList.count .closes ∧
      g.chain = root.met.foldl Chain.meet {} ∧
      (BraceBalanced g.code ↔ Chain.RemembersOpenings {} root.met ∧
        (g.chain.toList = [] ∨ g.chain.toList.getLast? = some .closes)) := by
  intro g
  have built := Node.built_of_ofTokens read
  have hchain : g.chain = root.met.foldl Chain.meet {} := built.generate_chain {}
  obtain ⟨stop, climbs, -, hstop⟩ := built.accounted parts {} 0 (by decide)
  have habove : ∀ start, start <+: g.code.toList → start.count '}' ≤ start.count '{' := by
    intro start hstart
    have := climbs.above start hstart
    unfold braceDepth at this
    omega
  have hdepth : (g.code.toList.count '{' : Int) - g.code.toList.count '}' =
      root.met.count .opens - g.chain.pushed .closes := by
    have harrives : stop = 0 + ((g.code.toList.count '{' : Int) - g.code.toList.count '}') :=
      climbs.arrives
    have hstop : stop + g.chain.pushed .closes = 0 + root.met.count .opens + (0 : Nat) := hstop
    omega
  refine ⟨habove, built.count_met ▸ hdepth, hchain, ?_⟩
  rw [← Chain.isOpen_eq_false_iff, hchain, ← Chain.pushed_closes_eq_iff, ← hchain]
  constructor
  · intro balanced
    have := balanced.equal
    omega
  · intro settled
    exact ⟨by omega, habove⟩

/-- A conditional that is opened twice and closed once. -/
def openedTwice : Node :=
  .element (.ofTag .openTag "a")
    [.leaf (.ofTag .selfCloseTag "b" [.ofAttribute "wx:if" "\x7b\x7bx\x7d\x7d"]),
      .leaf (.ofTag .selfCloseTag "c" [.ofAttribute "wx:if" "\x7b\x7by\x7d\x7d"]),
      .leaf (.ofTag .selfCloseTag "d" [.ofAttribute "wx:else" ""])]

/-- The chain ends closed and one brace stays open, as the second opening was not remembered. -/
theorem braces_accounted_openedTwice :
    (∃ ts, (Node.ofTokens ts).1 = .ok openedTwice) ∧ openedTwice.BalancedParts ∧
      ((openedTwice.generateRoot {}).code.toList.count '{' : Int) -
        (openedTwice.generateRoot {}).code.toList.count '}' = 1 ∧
      ¬ Chain.RemembersOpenings {} openedTwice.met := by
  have read : (Node.ofTokens (.ofTag .openTag "a" ::
      openedTwice.inside.map Node.token)).1 = .ok openedTwice := rfl
  have parts : openedTwice.BalancedParts := by decide +kernel
  obtain ⟨-, hdepth, hchain, hbalanced⟩ := braces_accounted read parts
  have hopenings : openedTwice.openings = 2 := by decide +kernel
  have hmet : openedTwice.met = [.opens, .opens, .closes] := by decide +kernel
  have hlist : (openedTwice.generateRoot {}).chain.toList = [.opens, .closes] := by
    rw [hchain, hmet]
    rfl
  rw [hopenings, hlist] at hdepth
  refine ⟨⟨_, read⟩, parts, hdepth, fun remembers => ?_⟩
  have balanced := hbalanced.mpr ⟨remembers, .inr (by rw [hlist]; rfl)⟩
  have hequal := balanced.equal
  have hone : ((2 : Nat) : Int) - ([Branch.opens, .closes].count .closes : Nat) = 1 := rfl
  omega

end Wxml
