import Wxml.Proofs.TreeTokens

/-!
# When compilation fails

Some operations refuse what they are not made for. A queue takes directives only (`Queue.add`), a
chain applies conditionals only (`Chain.apply`), and a stream has no token at some places
(`TokenStream.peek`). Whoever calls them has to ask first: whether a role is queued, whether it is a
conditional, whether a token remains.

The compiler is written so that there is nothing to refuse. Here its work is done once more with
these operations, each behind the question that belongs to it, and every refusal ends the work:
`renderGuarded`, `Chain.resolveGuarded`, `Node.generateGuarded`, `TokenStream.readGuarded` and
`compileGuarded`. Each has the same result as the definition it stands beside, so the questions are
the right ones: nothing is ever refused but a document.

**The law** (`compile_error_iff`): a document is refused when it cannot be read, with the error of
the reader, or when it holds nothing but comments, at the last of them. Nothing else goes wrong.

**Not established**: that the work fits on a machine. Elements are nested as deep as a document
nests them, and the recursion over a tree goes as deep; an implementation with a bounded stack can
fail there although nothing is refused. Reading the bytes of a file is no part of compilation,
either.
-/

namespace Wxml

/-! ## Attributes -/

/-- The inline text of some attributes, and the queue with their directives added. A role that is
queued is given to the queue. -/
def renderGuarded : List Token → Queue → Except DirectiveError (String × Queue)
  | [], q => .ok ("", q)
  | t :: ts, q =>
    if (Role.ofName t.value).isQueued then
      (q.add (Role.ofName t.value) t.expression).bind fun q' => renderGuarded ts q'
    else (renderGuarded ts q).map fun r => (t.inlineText ++ r.1, r.2)

/-- The question that is asked of a role is the one that decides whether there is a directive. -/
theorem Role.directive?_eq_none_iff (role : Role) (expression : String) :
    role.directive? expression = none ↔ role.isQueued = false := by
  cases role <;> simp [directive?, isQueued]

/-- A queue takes every role that is queued. So the attributes of a tag are rendered without a
refusal, to the same text and the same queue. -/
theorem renderGuarded_eq (ts : List Token) (q : Queue) :
    renderGuarded ts q = .ok (renderAttributes ts q) := by
  induction ts generalizing q with
  | nil => rfl
  | cons t ts ih =>
    rw [renderGuarded, renderAttributes, Token.directive?]
    cases hdirective : (Role.ofName t.value).directive? t.expression with
    | none =>
      have inline := (Role.directive?_eq_none_iff _ _).mp hdirective
      rw [inline, if_neg Bool.false_ne_true, ih]
      rfl
    | some d =>
      have queued : (Role.ofName t.value).isQueued = true := by
        rw [← Bool.not_eq_false, ← Role.directive?_eq_none_iff _ t.expression, hdirective]
        exact Option.some_ne_none d
      rw [if_pos queued, Queue.add, hdirective]
      exact ih (q.push d)

/-! ## Directives -/

namespace Chain

/-- Applies some directives, in order. -/
def applyAll (c : Chain) : List Directive → String → Except DirectiveError Generated
  | [], code => .ok ⟨code, c, []⟩
  | d :: ds, code =>
    (c.apply d.role d.expression code).bind fun first =>
      (first.chain.applyAll ds first.code).map fun last =>
        { last with notices := first.notices ++ last.notices }

/-- Wraps an element's code in its directives. The items of the queue that are conditionals are
applied to the chain. -/
def resolveGuarded (c : Chain) (queue : Queue) (code : String) : Except DirectiveError Generated :=
  (c.applyAll (queue.items.filter (·.role.isConditional)) code).map fun g =>
    { g with code := queue.loops.foldl repeatFor g.code }

/-- A chain applies every item that is a conditional. The items are asked first, and the answer is
the one that `Queue.conditionals` gives. -/
theorem applyAll_eq (items : List Directive) (c : Chain) (code : String) :
    c.applyAll (items.filter (·.role.isConditional)) code =
      .ok (c.branchAll (Queue.mk items).conditionals code) := by
  induction items generalizing c code with
  | nil => rfl
  | cons d items ih =>
    cases d with
    | loop e => exact ih c code
    | branch b e =>
      rw [List.filter_cons_of_pos rfl, applyAll]
      show (applyAll (c.branch b e code).chain _ (c.branch b e code).code).map _ = _
      rw [ih]
      rfl

/-- Resolving a queue refuses nothing: it asks the chain for conditionals only. -/
theorem resolveGuarded_eq (c : Chain) (queue : Queue) (code : String) :
    c.resolveGuarded queue code = .ok (c.resolve queue code) := by
  rw [resolveGuarded, applyAll_eq]
  rfl

end Chain

/-! ## Trees -/

/-- Closes a tag around the code inside it and wraps it in its directives. The attributes come
before what is inside. -/
def Token.wrapGuarded (t : Token) (inside : Except DirectiveError Generated) :
    Except DirectiveError Generated :=
  (renderGuarded (t.attributes.getD []) {}).bind fun rendered =>
    inside.bind fun inner =>
      (inner.chain.resolveGuarded rendered.2 ("<" ++ camelCase t.value ++ rendered.1 ++ ">" ++
        inner.code ++ "</" ++ camelCase t.value ++ ">")).map fun g =>
          { g with notices := inner.notices ++ g.notices }

/-- The code of a tag that has nothing inside. -/
def Token.singleGuarded (t : Token) (chain : Chain) : Except DirectiveError Generated :=
  (renderGuarded (t.attributes.getD []) {}).bind fun rendered =>
    chain.resolveGuarded rendered.2 ("<" ++ firstUpper t.value ++ rendered.1 ++ "/>")

mutual

/-- The code of a node, starting from a chain. A node that is no element has an empty queue. -/
def Node.generateGuarded : Node → Chain → Except DirectiveError Generated
  | .leaf t, chain =>
    match t.kind with
    | .openTag => t.wrapGuarded (.ok ⟨"", chain, []⟩)
    | .selfCloseTag => t.singleGuarded chain
    | .text => chain.resolveGuarded {} (normalizeText t.value)
    | _ => chain.resolveGuarded {} ""
  | .element t children, chain =>
    match t.kind with
    | .openTag => t.wrapGuarded (Node.generateAllGuarded children chain)
    | .selfCloseTag => t.singleGuarded chain
    | .text => chain.resolveGuarded {} (normalizeText t.value)
    | _ => chain.resolveGuarded {} ""

/-- The code of some nodes in a row. -/
def Node.generateAllGuarded : List Node → Chain → Except DirectiveError Generated
  | [], chain => .ok ⟨"", chain, []⟩
  | n :: ns, chain =>
    (n.generateGuarded chain).bind fun first =>
      (Node.generateAllGuarded ns first.chain).map fun rest =>
        ⟨first.code ++ rest.code, rest.chain, first.notices ++ rest.notices⟩

end

theorem Token.wrapGuarded_eq (t : Token) (inside : Generated) :
    t.wrapGuarded (.ok inside) = .ok (t.wrap inside) := by
  rw [wrapGuarded, renderGuarded_eq]
  show (Chain.resolveGuarded inside.chain _ _).map _ = _
  rw [Chain.resolveGuarded_eq]
  rfl

theorem Token.singleGuarded_eq (t : Token) (chain : Chain) :
    t.singleGuarded chain = .ok (t.single chain) := by
  rw [singleGuarded, renderGuarded_eq]
  exact Chain.resolveGuarded_eq chain _ _

mutual

/-- **Generating code refuses nothing**, whatever the tree and whatever the chain. -/
theorem Node.generateGuarded_eq (n : Node) (chain : Chain) :
    n.generateGuarded chain = .ok (n.generate chain) := by
  cases n with
  | leaf t =>
    rw [Node.generateGuarded, Node.generate]
    cases t.kind with
    | openTag => exact t.wrapGuarded_eq _
    | selfCloseTag => exact t.singleGuarded_eq chain
    | _ => exact chain.resolveGuarded_eq {} _
  | element t children =>
    rw [Node.generateGuarded, Node.generate]
    cases t.kind with
    | openTag =>
      show t.wrapGuarded (Node.generateAllGuarded children chain) = _
      rw [Node.generateAllGuarded_eq children chain]
      exact t.wrapGuarded_eq _
    | selfCloseTag => exact t.singleGuarded_eq chain
    | _ => exact chain.resolveGuarded_eq {} _

/-- The same for nodes in a row, with the chain handed on. -/
theorem Node.generateAllGuarded_eq (ns : List Node) (chain : Chain) :
    Node.generateAllGuarded ns chain = .ok (Node.generateAll ns chain) := by
  cases ns with
  | nil => rw [Node.generateAllGuarded, Node.generateAll]
  | cons n ns =>
    rw [Node.generateAllGuarded, Node.generateAll, Node.generateGuarded_eq n chain]
    show (Node.generateAllGuarded ns (n.generate chain).chain).map _ = _
    rw [Node.generateAllGuarded_eq ns _]
    rfl

end

/-! ## Streams -/

namespace TokenStream

/-- The stream behind its next token. -/
def next (s : TokenStream) : TokenStream := { s with index := s.index + 1 }

/-- The tokens that have not been read. -/
def unread (s : TokenStream) : List Token := s.tokens.drop s.index

/-- What remains is counted, and what has not been read is listed. -/
theorem remaining_eq (s : TokenStream) : s.remaining = s.unread.length := List.length_drop.symm

theorem unread_next {s : TokenStream} {t : Token} {ts : List Token} (h : s.unread = t :: ts) :
    s.next.unread = ts := by
  show s.tokens.drop (s.index + 1) = ts
  rw [← List.drop_drop, show s.tokens.drop s.index = t :: ts from h]
  rfl

/-- The next token, or the end of the list: a place that was reached is never before the first
token. -/
theorem peek_zero (s : TokenStream) :
    s.peek 0 = s.unread.head?.elim (.error (.behind s.endOfInput)) .ok := by
  have hplace : ¬ (s.index : Int) + 0 < 0 := by omega
  have hindex : ((s.index : Int) + 0).toNat = s.index := by omega
  have hfirst : s.unread.head? = s.tokens[s.index]? := List.head?_drop
  unfold peek
  simp only [if_neg hplace, hindex, ← hfirst]
  cases s.unread with
  | nil => rfl
  | cons t ts => rfl

/-- A token that was looked at is the next one to be read. -/
theorem unread_of_peek {s : TokenStream} {t : Token} (h : s.peek 0 = .ok t) :
    s.unread = t :: s.next.unread := by
  rw [peek_zero] at h
  cases hunread : s.unread with
  | nil =>
    rw [hunread] at h
    cases h
  | cons u ts =>
    rw [hunread] at h
    cases h
    rw [unread_next hunread]

/-- Nothing to look at is nothing to read. The other refusal, before the first token, does not occur
at the place where a stream stands. -/
theorem peek_eq_error {s : TokenStream} {e : PeekError} (h : s.peek 0 = .error e) :
    s.unread = [] ∧ e = .behind s.endOfInput := by
  rw [peek_zero] at h
  cases hunread : s.unread with
  | nil =>
    rw [hunread] at h
    cases h
    exact ⟨rfl, rfl⟩
  | cons t ts =>
    rw [hunread] at h
    cases h

/-- A stream moves on when it has looked at a token, so that reading ends. -/
theorem remaining_next_lt {s : TokenStream} {t : Token} (h : s.peek 0 = .ok t) :
    s.next.remaining < s.remaining := by
  rw [remaining_eq, remaining_eq, unread_of_peek h]
  exact Nat.lt_succ_self _

/-- Reads on inside the innermost of some nested elements, and then inside those around it. A token
is looked at when one remains. -/
def fillGuarded (f : Frame) (outer : List Frame) (s : TokenStream) : Except PeekError Node :=
  if s.remaining = 0 then
    match outer with
    | [] => .ok f.close
    | g :: gs => fillGuarded (g.add f.close) gs s
  else
    match _h : s.peek 0 with
    | .error e => .error e
    | .ok t =>
      match t.kind with
      | .closeTag =>
        match outer with
        | [] => .ok f.close
        | g :: gs => fillGuarded (g.add f.close) gs s.next
      | .comment => fillGuarded f outer s.next
      | .openTag => fillGuarded ⟨t, []⟩ (f :: outer) s.next
      | _ => fillGuarded (f.add (.leaf t)) outer s.next
termination_by (s.remaining, outer.length)
decreasing_by
  · exact .right _ (Nat.lt_succ_self _)
  all_goals exact .left _ _ (remaining_next_lt _h)

/-- Reads one node. -/
def readGuarded (s : TokenStream) : Except PeekError Node :=
  match _h : s.peek 0 with
  | .error e => .error e
  | .ok t =>
    match t.kind with
    | .comment => s.next.readGuarded
    | .openTag => s.next.fillGuarded ⟨t, []⟩ []
    | _ => .ok (.leaf t)
termination_by s.remaining
decreasing_by exact remaining_next_lt _h

theorem unread_eq_nil_of_remaining {s : TokenStream} (h : s.remaining = 0) : s.unread = [] := by
  rw [remaining_eq] at h
  exact List.length_eq_zero_iff.mp h

/-- Where a token remains, there is one to look at. -/
theorem peek_ne_error_of_remaining {s : TokenStream} (h : s.remaining ≠ 0) (e : PeekError) :
    s.peek 0 ≠ .error e := by
  intro hpeek
  apply h
  rw [remaining_eq, (peek_eq_error hpeek).1, List.length_nil]

/-- Inside an element every token is there that is looked at: one is asked for before each look, and
where none remains, what is open is closed. -/
theorem fillGuarded_eq (f : Frame) (outer : List Frame) (s : TokenStream) :
    s.fillGuarded f outer = .ok (Node.grow f outer s.unread).node := by
  fun_induction fillGuarded f outer s with
  | case1 f s ended =>
    rw [unread_eq_nil_of_remaining ended]
    rfl
  | case2 f s ended g gs ih =>
    rw [ih, unread_eq_nil_of_remaining ended]
    rfl
  | case3 f outer s remains e hpeek => exact absurd hpeek (peek_ne_error_of_remaining remains e)
  | case4 f s remains t hpeek hkind =>
    rw [unread_of_peek hpeek, Node.grow_close_last f _ hkind]
  | case5 f s remains t hpeek hkind g gs ih =>
    rw [ih, unread_of_peek hpeek, Node.grow_close f gs _ g hkind]
  | case6 f outer s remains t hpeek hkind ih =>
    rw [ih, unread_of_peek hpeek, Node.grow_comment f outer _ hkind]
  | case7 f outer s remains t hpeek hkind ih =>
    rw [ih, unread_of_peek hpeek, Node.grow_open f outer _ hkind]
  | case8 f outer s remains t hpeek hclose hcomment hopen ih =>
    rw [ih, unread_of_peek hpeek, Node.grow_leaf f outer _ ⟨hopen, hclose, hcomment⟩]

/-- **Reading a node refuses only the end of the list.** It has the node or the error of `readNode`,
and never looks before the first token. -/
theorem readGuarded_eq (s : TokenStream) : s.readGuarded = s.readNode.1.mapError .behind := by
  have hnode : s.readNode.1 =
      (Node.read? s.unread).elim (.error s.endOfInput) fun g => .ok g.node := by
    unfold readNode
    rw [show s.tokens.drop s.index = s.unread from rfl]
    cases Node.read? s.unread with
    | none => rfl
    | some g => rfl
  rw [hnode]
  clear hnode
  fun_induction readGuarded s with
  | case1 s e hpeek =>
    obtain ⟨hnil, rfl⟩ := peek_eq_error hpeek
    rw [hnil]
    rfl
  | case2 s t hpeek hkind ih =>
    rw [ih, unread_of_peek hpeek, Node.read?, hkind]
    rfl
  | case3 s t hpeek hkind =>
    rw [fillGuarded_eq, unread_of_peek hpeek, Node.read?, hkind]
    rfl
  | case4 s t hpeek hcomment hopen =>
    rw [unread_of_peek hpeek, Node.read?_cons hcomment, if_neg hopen]
    rfl

end TokenStream

/-! ## Documents -/

/-- What can end a compilation in which nothing is taken for granted. -/
inductive Refusal where
  /-- The document is refused. -/
  | document (error : CompileError)
  /-- A token was to be looked at before the first one. -/
  | place
  /-- A directive was not used as one. -/
  | directive (error : DirectiveError)
  deriving Repr

/-- The refusal of a token. -/
def Refusal.ofPeek : PeekError → Refusal
  | .behind e => document e
  | .before => place

/-- The code of a document. -/
def compileGuarded (text : String) : Except Refusal String :=
  ((Token.scan text).mapError .document).bind fun tokens =>
    ((TokenStream.readGuarded { tokens }).mapError .ofPeek).bind fun root =>
      ((root.generateGuarded {}).mapError .directive).map (·.code)

/-- The tree of a text: its tokens, and then their tree. -/
theorem readTree_fst (text : String) :
    (readTree text).1 = (Token.scan text).bind fun ts => (Node.ofTokens ts).1 := by
  rw [readTree, readTokens]
  cases Token.scan text <;> rfl

/-- The tree of a list is the first node of its stream. -/
theorem Node.ofTokens_fst (ts : List Token) :
    (Node.ofTokens ts).1 = (TokenStream.readNode { tokens := ts }).1 := by
  unfold Node.ofTokens TokenStream.parse
  obtain ⟨result, s, notices⟩ := TokenStream.readNode { tokens := ts }
  cases result <;> rfl

/-- **Compiling refuses documents only.** The guarded compilation has the result of the plain one,
so none of the refusals of its parts can occur. -/
theorem compileGuarded_eq (text : String) :
    compileGuarded text = (compile text).1.mapError .document := by
  rw [compile_eq_map, readTree_fst, compileGuarded]
  cases Token.scan text with
  | error e => rfl
  | ok ts =>
    show (((TokenStream.readGuarded { tokens := ts }).mapError _).bind _) =
      ((Node.ofTokens ts).1.map _).mapError _
    rw [TokenStream.readGuarded_eq, Node.ofTokens_fst]
    cases (TokenStream.readNode { tokens := ts }).1 with
    | error e => rfl
    | ok root =>
      show ((root.generateGuarded {}).mapError _).map _ = _
      rw [Node.generateGuarded_eq]
      rfl

/-- There is no node exactly where there are only comments. -/
theorem Node.read?_eq_none_iff {ts : List Token} :
    Node.read? ts = none ↔ ∀ t ∈ ts, t.kind = .comment := by
  induction ts with
  | nil => simp [Node.read?]
  | cons t ts ih =>
    rw [List.forall_mem_cons]
    by_cases skipped : t.kind = .comment
    · rw [Node.read?, skipped]
      simp [ih]
    · rw [Node.read?_cons skipped]
      by_cases opens : t.kind = .openTag <;> simp [opens, skipped]

/-- There is no tree where there are only comments, and this is the only reason. The error stands at
the last comment, or nowhere if there is none. -/
theorem Node.ofTokens_eq_error_iff {ts : List Token} {e : CompileError} :
    (Node.ofTokens ts).1 = .error e ↔
      (∀ t ∈ ts, t.kind = .comment) ∧ e = ⟨.endOfInput, ts.getLast?.map (·.position)⟩ := by
  rw [← Node.read?_eq_none_iff]
  cases hread : Node.read? ts with
  | none =>
    rw [Node.ofTokens_of_none hread, Except.error.injEq, eq_comm]
    constructor
    · intro h
      exact ⟨rfl, h⟩
    · rintro ⟨-, h⟩
      exact h
  | some g =>
    rw [Node.ofTokens_eq_ok_iff.mpr ⟨g, hread, rfl⟩]
    constructor
    · intro h
      cases h
    · rintro ⟨h, -⟩
      cases h

/-- **When compilation fails.** A document is refused when its tokens cannot be read, and then with
that error, or when it holds nothing but comments, and then at the last of them. No operation on the
way refuses anything else: not in a document, not in any other tree with any chain, and not in any
other list of tokens, wherever reading starts in it. -/
theorem compile_error_iff :
    (∀ text e, (compile text).1 = .error e ↔
      Token.scan text = .error e ∨
        ∃ ts, Token.scan text = .ok ts ∧ (∀ t ∈ ts, t.kind = .comment) ∧
          e = ⟨.endOfInput, ts.getLast?.map (·.position)⟩) ∧
    (∀ text, compileGuarded text = (compile text).1.mapError .document) ∧
    (∀ (root : Node) (chain : Chain), root.generateGuarded chain = .ok (root.generate chain)) ∧
    ∀ s : TokenStream, s.readGuarded = s.readNode.1.mapError .behind := by
  refine ⟨?_, compileGuarded_eq, Node.generateGuarded_eq, TokenStream.readGuarded_eq⟩
  intro text e
  have hcompile : (compile text).1 = .error e ↔ (readTree text).1 = .error e := by
    rw [compile_eq_map]
    cases (readTree text).1 <;> simp [Except.map]
  rw [hcompile, readTree_fst]
  cases Token.scan text with
  | error e' => simp [Except.bind]
  | ok ts => simp [Except.bind, Node.ofTokens_eq_error_iff]

end Wxml
