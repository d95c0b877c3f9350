import Wxml.Proofs.StreamRuns

/-!
# What reading a root notices

Reading is lenient, and what it lets pass is noticed on the way: closing tags under another name,
elements that the list leaves open, and tokens behind the root. All of it can be told from the
tokens by counting. An element is open where nothing behind its opening tag brings the count below
the depth at which it stands (`stillOpen`), and a closing tag closes the innermost element that is
open in front of it.

The elements on the reader's stack are those that are open behind the tokens read so far. This is
the invariant of the reader (`Node.grow_notices`), and each token changes both alike
(`stillOpen_open`, `stillOpen_close`, `stillOpen_other`).

**The law** (`parse_notices`): the notices of a root are the misnamed closing tags of its part of
the list, then the elements that are open at its end, innermost first, then the tokens behind it.
Nothing is left out and nothing is noticed twice.

**Not established**: how notices are worded and printed. Reading a node by itself, without the
notice about what is left behind it, is not treated.
-/

namespace Wxml

/-! ## Elements that are open -/

/-- **Leaving elements open**: what is open in front of some tokens is open behind them too, since
the count never falls below where it starts. -/
def LeavesOpen (ts : List Token) : Prop := ∀ start, start <+: ts → 0 ≤ balance start

/-- How many of the elements that are open in front of some tokens are closed by them. -/
def closings : List Token → Nat
  | [] => 0
  | t :: ts =>
    match t.kind with
    | .openTag => closings ts - 1
    | .closeTag => closings ts + 1
    | _ => closings ts

/-- How one token changes the count of closings, in the form that the induction below needs: for any
bound at once. -/
theorem closings_cons_le_iff {d : Int} {t : Token} {ts : List Token} :
    (closings (t :: ts) : Int) ≤ d ↔ 0 ≤ d ∧ (closings ts : Int) ≤ d + t.kind.rise := by
  rw [closings]
  cases t.kind <;> simp only [TokenKind.rise] <;> omega

/-- As many elements are closed as the count falls below where it starts. `closings` runs through
the list once, and the right side is what it means. -/
theorem closings_le_iff {d : Int} {ts : List Token} :
    (closings ts : Int) ≤ d ↔ ∀ start, start <+: ts → -d ≤ balance start := by
  induction ts generalizing d with
  | nil => simp [closings]
  | cons t ts ih =>
    rw [closings_cons_le_iff, ih]
    constructor
    · rintro ⟨hzero, hstarts⟩ start hstart
      rcases List.prefix_cons_iff.mp hstart with rfl | ⟨more, rfl, hmore⟩
      · simpa using hzero
      · have := hstarts more hmore
        rw [balance_cons]
        omega
    · intro h
      refine ⟨by simpa using h [] List.nil_prefix, fun start hstart => ?_⟩
      have := h (t :: start) (List.cons_prefix_cons.mpr ⟨rfl, hstart⟩)
      rw [balance_cons] at this
      omega

/-- Nothing that is open in front is closed exactly when the count of closings is zero. This makes
it decidable. -/
theorem leavesOpen_iff {ts : List Token} : LeavesOpen ts ↔ closings ts = 0 := by
  have h : (closings ts : Int) ≤ 0 ↔ ∀ start, start <+: ts → -0 ≤ balance start := closings_le_iff
  rw [Int.neg_zero] at h
  rw [LeavesOpen, ← h]
  omega

instance (ts : List Token) : Decidable (LeavesOpen ts) :=
  decidable_of_iff (closings ts = 0) leavesOpen_iff.symm

/-- One more token at the end: it has to leave the count where it started or above. -/
theorem leavesOpen_concat {ts : List Token} {t : Token} :
    LeavesOpen (ts ++ [t]) ↔ LeavesOpen ts ∧ 0 ≤ balance ts + t.kind.rise := by
  have hwhole : balance (ts ++ [t]) = balance ts + t.kind.rise := by
    rw [balance_append, balance_cons, balance_nil, Int.add_zero]
  rw [← hwhole]
  constructor
  · intro h
    exact ⟨fun start hstart => h start (hstart.trans (List.prefix_append ts [t])),
      h _ List.prefix_rfl⟩
  · rintro ⟨hinit, hlast⟩ start hstart
    rcases List.prefix_concat_iff.mp hstart with rfl | hstart
    · exact hlast
    · exact hinit start hstart

/-- The opening tags whose elements are open behind some tokens, outermost first. -/
def stillOpen : List Token → List Token
  | [] => []
  | t :: ts => if t.kind = .openTag ∧ LeavesOpen ts then t :: stillOpen ts else stillOpen ts

/-- As many elements are open behind some tokens as they open and leave open. -/
theorem length_stillOpen (ts : List Token) :
    ((stillOpen ts).length : Int) = balance ts + closings ts := by
  induction ts with
  | nil => rfl
  | cons t ts ih =>
    rw [stillOpen, closings, balance_cons]
    by_cases hleft : t.kind = .openTag ∧ LeavesOpen ts
    · have hclosings := leavesOpen_iff.mp hleft.2
      rw [if_pos hleft, hleft.1, List.length_cons]
      simp only [TokenKind.rise]
      omega
    · rw [if_neg hleft]
      rw [leavesOpen_iff] at hleft
      cases hkind : t.kind <;> simp only [hkind, TokenKind.rise, true_and] at hleft ⊢ <;> omega

/-- Elements in front of a token stay open behind it, unless it is a closing tag and closes the only
one that is left of them. -/
theorem leavesOpen_close {ts : List Token} {t : Token} (h : t.kind = .closeTag) :
    LeavesOpen (ts ++ [t]) ↔ LeavesOpen ts ∧ stillOpen ts ≠ [] := by
  rw [leavesOpen_concat, h]
  refine and_congr_right fun hleft => ?_
  have hlength := length_stillOpen ts
  rw [leavesOpen_iff.mp hleft] at hlength
  rw [← List.length_pos_iff]
  simp only [TokenKind.rise]
  omega

/-- Only a closing tag closes something, so any other token leaves open what was open. -/
theorem leavesOpen_other {ts : List Token} {t : Token} (h : t.kind ≠ .closeTag) :
    LeavesOpen (ts ++ [t]) ↔ LeavesOpen ts := by
  rw [leavesOpen_concat]
  refine and_iff_left_of_imp fun hleft => ?_
  have hwhole := hleft ts List.prefix_rfl
  revert h
  cases t.kind <;> simp [TokenKind.rise] <;> omega

/-- A token that closes nothing adds to what is open, or nothing. -/
theorem stillOpen_concat {ts : List Token} {t : Token} (h : t.kind ≠ .closeTag) :
    stillOpen (ts ++ [t]) = stillOpen ts ++ stillOpen [t] := by
  induction ts with
  | nil => rfl
  | cons u ts ih =>
    rw [List.cons_append, stillOpen, stillOpen, ih]
    by_cases hu : u.kind = .openTag ∧ LeavesOpen ts
    · rw [if_pos hu, if_pos ⟨hu.1, (leavesOpen_other h).mpr hu.2⟩, List.cons_append]
    · rw [if_neg hu, if_neg fun both => hu ⟨both.1, (leavesOpen_other h).mp both.2⟩]

/-- An opening tag is open behind itself, inside everything that was open. -/
theorem stillOpen_open {ts : List Token} {t : Token} (h : t.kind = .openTag) :
    stillOpen (ts ++ [t]) = stillOpen ts ++ [t] := by
  rw [stillOpen_concat (by rw [h]; exact TokenKind.noConfusion)]
  simp [stillOpen, h, leavesOpen_iff, closings]

/-- Texts, comments and self-closing tags change nothing. With the two laws above this is how the
stack of the reader moves. -/
theorem stillOpen_other {ts : List Token} {t : Token} (hopen : t.kind ≠ .openTag)
    (hclose : t.kind ≠ .closeTag) : stillOpen (ts ++ [t]) = stillOpen ts := by
  rw [stillOpen_concat hclose]
  simp [stillOpen, hopen]

/-- A closing tag closes the innermost element. If nothing is open behind the tokens so far, it
closes nothing of theirs. -/
theorem stillOpen_close {ts : List Token} {t : Token} (h : t.kind = .closeTag) :
    stillOpen (ts ++ [t]) = (stillOpen ts).dropLast := by
  induction ts with
  | nil => simp [stillOpen, h]
  | cons u ts ih =>
    rw [List.cons_append, stillOpen, stillOpen, ih]
    by_cases hu : u.kind = .openTag ∧ LeavesOpen ts
    · rw [if_pos hu]
      by_cases hinner : stillOpen ts = []
      · rw [if_neg fun both => ((leavesOpen_close h).mp both.2).2 hinner, hinner]
        rfl
      · rw [if_pos ⟨hu.1, (leavesOpen_close h).mpr ⟨hu.2, hinner⟩⟩,
          List.dropLast_cons_of_ne_nil hinner]
    · rw [if_neg hu, if_neg fun both => hu ⟨both.1, ((leavesOpen_close h).mp both.2).1⟩]

/-! ## Notices by counting -/

/-- What is noticed about a token behind others: a closing tag is noticed when the innermost element
that is open there has another name. -/
def misnamed (before : List Token) (t : Token) : List Notice :=
  if t.kind = .closeTag then
    ((stillOpen before).getLast?.toList.filter fun opener => t.value != opener.value).map
      fun opener => .mismatched opener t
  else []

/-- The notice that is found by counting is the one that the reader gives, if its innermost open
element is the one that counting finds. -/
theorem misnamed_close {before : List Token} {t : Token} (h : t.kind = .closeTag) {f : Frame}
    (innermost : (stillOpen before).getLast? = some f.opener) :
    misnamed before t = f.closingNotices t := by
  rw [misnamed, if_pos h, innermost, Frame.closingNotices]
  by_cases hname : t.value = f.opener.value <;> simp [hname]

/-- What is noticed about some tokens behind others: their closing tags one by one, and at the end
the elements that are open, innermost first. -/
def noticed (before : List Token) : List Token → List Notice
  | [] => (stillOpen before).reverse.map .unclosed
  | t :: ts => misnamed before t ++ noticed (before ++ [t]) ts

theorem noticed_other {before : List Token} {t : Token} (h : t.kind ≠ .closeTag)
    (ts : List Token) : noticed before (t :: ts) = noticed (before ++ [t]) ts := by
  rw [noticed, misnamed, if_neg h, List.nil_append]

/-- **The stack holds what is open.** When the stack is made of the elements that are open behind
the tokens read so far, what the reader notices from there on is told by counting. The induction
follows the reader, and each token changes the stack and the count alike. -/
theorem Node.grow_notices (f : Frame) (outer : List Frame) (ts : List Token) :
    ∀ before, ((f :: outer).map (·.opener)).reverse = stillOpen before →
      (grow f outer ts).notices = noticed before (untilClosed outer.length ts) := by
  -- every case moves the next token to those read before, and the stack follows
  fun_induction grow f outer ts with
  | case1 f outer =>
    intro before stack
    rw [untilClosed, noticed, ← stack, List.reverse_reverse, List.map_map]
    rfl
  | case2 f t ts hkind =>
    intro before stack
    have hclosed := misnamed_close hkind (f := f) (by rw [← stack]; rfl)
    simp only [List.length_nil, untilClosed, hkind]
    rw [noticed, noticed, hclosed, stillOpen_close hkind, ← stack]
    simp
  | case3 f t ts hkind g gs r ih =>
    intro before stack
    have hclosed := misnamed_close hkind (f := f) (by rw [← stack]; simp)
    have hstack : ((g.add f.close :: gs).map (·.opener)).reverse = stillOpen (before ++ [t]) := by
      rw [stillOpen_close hkind, ← stack]
      simp [Frame.add]
    simp only [List.length_cons, untilClosed, hkind]
    rw [noticed, hclosed, ← ih _ hstack]
  | case4 f outer t ts hkind ih =>
    intro before stack
    have hclose : t.kind ≠ .closeTag := by rw [hkind]; exact TokenKind.noConfusion
    have hopen : t.kind ≠ .openTag := by rw [hkind]; exact TokenKind.noConfusion
    simp only [untilClosed, hkind]
    rw [noticed_other hclose, ← ih _ (by rw [stillOpen_other hopen hclose, stack])]
  | case5 f outer t ts hkind ih =>
    intro before stack
    have hclose : t.kind ≠ .closeTag := by rw [hkind]; exact TokenKind.noConfusion
    have hstack :
        ((⟨t, []⟩ :: f :: outer).map Frame.opener).reverse = stillOpen (before ++ [t]) := by
      rw [stillOpen_open hkind, ← stack, List.map_cons, List.reverse_cons]
    simp only [untilClosed, hkind]
    rw [noticed_other hclose]
    exact ih _ hstack
  | case6 f outer t ts hclose hcomment hopen ih =>
    intro before stack
    simp only [untilClosed]
    rw [noticed_other hclose, ← ih _ (by rw [stillOpen_other hopen hclose, ← stack]; rfl)]

/-! ## The part of a root -/

/-- A part of a list that reaches the ground only at its end is above it before, and not below it
there. -/
theorem ReachesGround.above_prefix {depth : Int} {taken ts : List Token}
    (h : ReachesGround depth taken ts) {start : List Token} (hstart : start <+: taken) :
    0 ≤ depth + balance start := by
  rw [List.prefix_iff_eq_take] at hstart
  by_cases hlt : start.length < taken.length
  · have := h.above _ hlt
    rw [← hstart] at this
    omega
  · rw [List.take_of_length_le (Nat.le_of_not_lt hlt)] at hstart
    subst hstart
    rcases h.ends with hground | ⟨rfl, habove⟩ <;> omega

/-- Only a closing tag brings the count down to the ground, so a part that ends there ends with
one. -/
theorem ReachesGround.getLast?_kind {depth : Int} {taken ts : List Token}
    (h : ReachesGround depth taken ts) (positive : 0 < depth)
    (ground : depth + balance taken = 0) :
    taken.getLast?.map (·.kind) = some .closeTag := by
  rcases List.eq_nil_or_concat taken with rfl | ⟨start, c, hconcat⟩
  · rw [balance_nil] at ground
    omega
  · rw [List.concat_eq_append] at hconcat
    subst hconcat
    have habove := h.above start.length (by simp)
    rw [List.take_left] at habove
    rw [balance_append, balance_cons, balance_nil] at ground
    have hkind : c.kind = .closeTag := by
      have hrise : c.kind.rise < 0 := by omega
      revert hrise
      cases c.kind <;> simp [TokenKind.rise]
    simp [hkind]

/-- **The part of a list that a root takes**, with what is noticed in it. Only comments stand before
it, and a root that is an element goes on until nothing is open. -/
structure RootPart (ts comments part : List Token) (g : Grown) : Prop where
  list : ts = comments ++ (part ++ g.rest)
  start : comments.length = rootIndex ts
  root : part.head? = some g.node.token
  notices : g.notices = noticed [] part
  ends : g.node.token.kind = .openTag → ReachesGround 1 part.tail (part.tail ++ g.rest)

/-- Every root that is read has its part of the list. The notices come from `Node.grow_notices` with
the root alone on the stack. -/
theorem Node.exists_rootPart {ts : List Token} {g : Grown} (h : read? ts = some g) :
    ∃ comments part, RootPart ts comments part g := by
  have present : ∃ t ∈ ts, t.kind ≠ .comment := by
    obtain ⟨htoken, hkind, -⟩ := Node.token_of_read? h List.mem_cons_self
    exact ⟨_, htoken, hkind⟩
  obtain ⟨comments, t, rest, rfl, skipped, hkind, hindex⟩ := exists_root present
  rw [read?_append skipped hkind] at h
  by_cases hopen : t.kind = .openTag
  · rw [if_pos hopen] at h
    cases h
    have hstack : [t] = stillOpen [t] := (@stillOpen_open [] t hopen).symm
    have hclose : t.kind ≠ .closeTag := by rw [hopen]; exact TokenKind.noConfusion
    have hrest := grow_rest ⟨t, []⟩ [] rest
    refine ⟨comments, t :: untilClosed 0 rest, ?_, hindex.symm, ?_, ?_, fun _ => ?_⟩
    · exact congrArg (comments ++ t :: ·) hrest.symm
    · exact congrArg some (grow_token ⟨t, []⟩ [] rest).symm
    · rw [noticed_other hclose]
      exact grow_notices ⟨t, []⟩ [] rest [t] hstack
    · have hground := untilClosed_reachesGround 0 rest
      exact hrest.symm ▸ hground
  · rw [if_neg hopen] at h
    cases h
    refine ⟨comments, [t], rfl, hindex.symm, rfl, ?_, fun hroot => absurd hroot hopen⟩
    simp [noticed, misnamed, stillOpen, hopen]

/-- Inside the part of an element nothing is closed that is open in front of it, since the part ends
where the count first returns to zero. -/
theorem RootPart.leavesOpen {ts comments part : List Token} {g : Grown}
    (h : RootPart ts comments part g) (opens : g.node.token.kind = .openTag) : LeavesOpen part := by
  intro start hstart
  have hground := h.ends opens
  obtain ⟨taken, rfl⟩ := List.head?_eq_some_iff.mp h.root
  rcases List.prefix_cons_iff.mp hstart with rfl | ⟨more, rfl, hmore⟩
  · exact Int.le_refl 0
  · rw [balance_cons, opens]
    exact hground.above_prefix hmore

/-- In the part of an element the open elements are counted by the balance alone. -/
theorem RootPart.length_stillOpen {ts comments part : List Token} {g : Grown}
    (h : RootPart ts comments part g) (opens : g.node.token.kind = .openTag) :
    ((stillOpen part).length : Int) = balance part := by
  rw [Wxml.length_stillOpen, leavesOpen_iff.mp (h.leavesOpen opens)]
  exact Int.add_zero _

/-- An element ends with a closing tag behind which nothing is open, or with the list. -/
theorem RootPart.closed_or_ended {ts comments part : List Token} {g : Grown}
    (h : RootPart ts comments part g) (opens : g.node.token.kind = .openTag) :
    (part.getLast?.map (·.kind) = some .closeTag ∧ balance part = 0) ∨
      (g.rest = [] ∧ 0 < balance part) := by
  have hground := h.ends opens
  obtain ⟨taken, rfl⟩ := List.head?_eq_some_iff.mp h.root
  have hbalance : balance (g.node.token :: taken) = 1 + balance taken := by
    rw [balance_cons, opens]
    rfl
  rw [List.tail_cons] at hground
  rw [hbalance]
  rcases hground.ends with hzero | ⟨hall, hpositive⟩
  · refine .inl ⟨?_, hzero⟩
    obtain ⟨c, hlast, hkind⟩ := Option.map_eq_some_iff.mp (hground.getLast?_kind (by omega) hzero)
    rw [List.getLast?_cons, hlast]
    exact congrArg some hkind
  · rw [List.self_eq_append_right] at hall
    rw [hall, List.append_nil] at hpositive
    exact .inr ⟨hall, hpositive⟩

/-! ## The law -/

/-- What is noticed about the tokens behind a root: how many are no comments, and where the first of
these stands. -/
def discardNotices (rest : List Token) : List Notice :=
  (rest.find? (·.kind != .comment)).toList.map fun t =>
    .discarded (rest.countP (·.kind != .comment)) t.position

/-- The reader looks for what is left in its own way, and finds the same. -/
theorem TokenStream.leftoverNotices_eq (rest : List Token) :
    leftoverNotices rest = discardNotices rest := by
  rw [leftoverNotices, discardNotices, ← List.head?_filter, List.countP_eq_length_filter]
  cases rest.filter (·.kind != .comment) <;> rfl

/-- Comments behind a root are not noticed; anything else is. -/
theorem discardNotices_ne_nil_iff {rest : List Token} :
    discardNotices rest ≠ [] ↔ ∃ t ∈ rest, t.kind ≠ .comment := by
  rw [discardNotices, ne_eq, List.map_eq_nil_iff, Option.toList_eq_nil_iff, List.find?_eq_none]
  simp

theorem exists_of_mem_discardNotices {rest : List Token} {n : Notice}
    (h : n ∈ discardNotices rest) : ∃ count first, n = .discarded count first := by
  obtain ⟨t, -, rfl⟩ := List.mem_map.mp h
  exact ⟨_, _, rfl⟩

theorem exists_of_mem_misnamed {before : List Token} {t : Token} {n : Notice}
    (h : n ∈ misnamed before t) : ∃ opener, n = .mismatched opener t := by
  by_cases hclose : t.kind = .closeTag
  · rw [misnamed, if_pos hclose] at h
    obtain ⟨opener, -, rfl⟩ := List.mem_map.mp h
    exact ⟨opener, rfl⟩
  · rw [misnamed, if_neg hclose] at h
    cases h

/-- What is noticed inside a root is no warning. Misnamed and missing closing tags are let pass, and
only mentioned. -/
theorem level_of_mem_noticed {before ts : List Token} {n : Notice} (h : n ∈ noticed before ts) :
    n.level = .debug := by
  induction ts generalizing before with
  | nil =>
    obtain ⟨t, -, rfl⟩ := List.mem_map.mp h
    rfl
  | cons t ts ih =>
    rcases List.mem_append.mp h with h | h
    · obtain ⟨opener, rfl⟩ := exists_of_mem_misnamed h
      rfl
    · exact ih h

/-- The element that a notice says is not closed. -/
def Notice.unclosed? : Notice → Option Token
  | unclosed element => some element
  | _ => none

/-- The elements that are said not to be closed are those that counting finds open at the end. -/
theorem filterMap_unclosed?_noticed (before ts : List Token) :
    (noticed before ts).filterMap Notice.unclosed? = (stillOpen (before ++ ts)).reverse := by
  induction ts generalizing before with
  | nil =>
    rw [noticed, List.append_nil, List.filterMap_map]
    exact List.filterMap_some
  | cons t ts ih =>
    have hmisnamed : (misnamed before t).filterMap Notice.unclosed? = [] := by
      rw [List.filterMap_eq_nil_iff]
      intro n hn
      obtain ⟨opener, rfl⟩ := exists_of_mem_misnamed hn
      rfl
    rw [noticed, List.filterMap_append, hmisnamed, ih, List.append_assoc]
    rfl

/-- All notices of a root, about the tokens in its part and about those behind it. -/
def allNoticed (part rest : List Token) : List Notice := noticed [] part ++ discardNotices rest

theorem filterMap_unclosed?_allNoticed (part rest : List Token) :
    (allNoticed part rest).filterMap Notice.unclosed? = (stillOpen part).reverse := by
  have hnone : (discardNotices rest).filterMap Notice.unclosed? = [] := by
    rw [List.filterMap_eq_nil_iff]
    intro n hn
    obtain ⟨count, first, rfl⟩ := exists_of_mem_discardNotices hn
    rfl
  rw [allNoticed, List.filterMap_append, hnone, List.append_nil, filterMap_unclosed?_noticed]
  rfl

/-- The warnings of a root are about what is behind it. -/
theorem filter_warning_allNoticed (part rest : List Token) :
    (allNoticed part rest).filter (·.level == .warning) = discardNotices rest := by
  have hnone : (noticed [] part).filter (·.level == .warning) = [] := by
    rw [List.filter_eq_nil_iff]
    intro n hn
    rw [level_of_mem_noticed hn]
    exact Bool.false_ne_true
  have hall : (discardNotices rest).filter (·.level == .warning) = discardNotices rest := by
    rw [List.filter_eq_self]
    intro n hn
    obtain ⟨count, first, rfl⟩ := exists_of_mem_discardNotices hn
    rfl
  rw [allNoticed, List.filter_append, hnone, hall, List.nil_append]

/-- Something is said to be discarded exactly when there is something to discard. -/
theorem exists_discarded_iff {part rest : List Token} :
    (∃ count first, .discarded count first ∈ allNoticed part rest) ↔
      ∃ t ∈ rest, t.kind ≠ .comment := by
  rw [← discardNotices_ne_nil_iff, ← filter_warning_allNoticed part]
  constructor
  · rintro ⟨count, first, hmem⟩
    exact List.ne_nil_of_mem (List.mem_filter.mpr ⟨hmem, rfl⟩)
  · intro h
    obtain ⟨n, hn⟩ := List.exists_mem_of_ne_nil _ h
    have hmem := (List.mem_filter.mp hn).1
    rw [filter_warning_allNoticed] at hn
    obtain ⟨count, first, rfl⟩ := exists_of_mem_discardNotices hn
    exact ⟨count, first, hmem⟩

/-- Where a root is read, its notices come first, and then those about what follows. -/
theorem TokenStream.parse_of_some {s : TokenStream} {g : Grown}
    (h : Node.read? s.unread = some g) :
    s.parse = (.ok g.node, { s with index := s.tokens.length - g.rest.length },
      g.notices ++ leftoverNotices (s.tokens.drop (s.tokens.length - g.rest.length))) := by
  unfold parse
  rw [readNode_of_some h]

theorem TokenStream.exists_grown_of_parse {s s' : TokenStream} {root : Node}
    {notices : List Notice} (h : s.parse = (.ok root, s', notices)) :
    ∃ g, Node.read? s.unread = some g := by
  cases hread : Node.read? s.unread with
  | some g => exact ⟨g, rfl⟩
  | none =>
    unfold parse at h
    rw [readNode_of_none hread] at h
    cases h

/-- The part of a root found in the whole list of a stream, by where it starts and where the stream
stands behind it. -/
theorem TokenStream.segment_of_rootPart {s : TokenStream} {comments part : List Token} {g : Grown}
    (h : RootPart s.unread comments part g) :
    let r := s.index + rootIndex s.unread
    let j := s.tokens.length - g.rest.length
    s.tokens[r]? = some g.node.token ∧ segment s.tokens r j = part ∧ s.tokens.drop j = g.rest := by
  intro r j
  obtain ⟨t, taken, hpart⟩ : ∃ t taken, part = t :: taken :=
    List.exists_cons_of_ne_nil fun hnil => by simpa [hnil] using h.root
  have hlist : s.tokens = s.tokens.take s.index ++ comments ++ (part ++ g.rest) := by
    rw [List.append_assoc, ← h.list]
    exact (List.take_append_drop s.index s.tokens).symm
  have hlength := congrArg List.length h.list
  rw [← remaining_eq, remaining, List.length_append, List.length_append] at hlength
  have hpos : 0 < part.length := by rw [hpart]; exact Nat.succ_pos _
  have hbefore : (s.tokens.take s.index ++ comments).length = r := by
    rw [List.length_append, List.length_take_of_le (by omega), h.start]
  have hr : r = s.index + comments.length := by rw [h.start]
  have hj : j = r + part.length := by omega
  clear_value r j
  generalize s.tokens.take s.index ++ comments = before at hlist hbefore
  subst hbefore hj
  have hroot : t = g.node.token := Option.some.inj (by rw [← h.root, hpart]; rfl)
  rw [hlist, segment_append]
  refine ⟨?_, rfl, ?_⟩
  · rw [hpart, hroot]
    simp
  · rw [← List.drop_drop, List.drop_left, List.drop_left]

/-- **What the notices of a root say**, when the root starts at `r` and ends in front of `j`. -/
structure Diagnosed (ts : List Token) (root : Token) (r j : Nat) (notices : List Notice) :
    Prop where
  starts : ts[r]? = some root
  /-- Closing tags under another name come first, then open elements, then what is discarded. -/
  whole : notices = allNoticed (segment ts r j) (ts.drop j)
  /-- Something is said to be discarded exactly when a token that is no comment follows. -/
  discards_iff : (∃ count first, .discarded count first ∈ notices) ↔
    ∃ t ∈ ts.drop j, t.kind ≠ .comment
  /-- This is the only warning, and it tells how many such tokens there are and where the first
  stands. -/
  warnings : notices.filter (·.level == .warning) =
    ((ts.drop j).find? (·.kind != .comment)).toList.map fun t =>
      .discarded ((ts.drop j).countP (·.kind != .comment)) t.position
  /-- The elements that are said not to be closed are those still open, innermost first. -/
  unclosed : notices.filterMap Notice.unclosed? = (stillOpen (segment ts r j)).reverse
  /-- There are as many of them as there are more opening than closing tags. -/
  count : root.kind = .openTag →
    ((notices.filterMap Notice.unclosed?).length : Int) = balance (segment ts r j)
  /-- There are none when a closing tag was met behind which nothing is open. Otherwise the list has
  ended. -/
  ends : root.kind = .openTag →
    ((segment ts r j).getLast?.map (·.kind) = some .closeTag ∧ balance (segment ts r j) = 0 ∧
      notices.filterMap Notice.unclosed? = []) ∨
    (j = ts.length ∧ 0 < balance (segment ts r j) ∧ notices.filterMap Notice.unclosed? ≠ [])

/-- **Reading a root notices everything irregular, once.** `Diagnosed` says what, for a root of any
kind that starts anywhere in the list: the notices are known from the tokens alone. -/
theorem parse_notices {s s' : TokenStream} {root : Node} {notices : List Notice}
    (h : s.parse = (.ok root, s', notices)) :
    Diagnosed s.tokens root.token (s.index + rootIndex s.unread) s'.index notices := by
  obtain ⟨g, hread⟩ := TokenStream.exists_grown_of_parse h
  obtain ⟨comments, part, hpart⟩ := Node.exists_rootPart hread
  obtain ⟨hstart, hsegment, hdrop⟩ := TokenStream.segment_of_rootPart hpart
  rw [TokenStream.parse_of_some hread, hdrop, hpart.notices, TokenStream.leftoverNotices_eq] at h
  cases h
  have hunclosed := filterMap_unclosed?_allNoticed part g.rest
  change Diagnosed _ _ _ (s.tokens.length - g.rest.length) (allNoticed part g.rest)
  refine ⟨hstart, ?_, ?_, ?_, ?_, fun opens => ?_, fun opens => ?_⟩
  · rw [hsegment, hdrop]
  · rw [hdrop]
    exact exists_discarded_iff
  · rw [hdrop]
    exact filter_warning_allNoticed part g.rest
  · rw [hsegment, hunclosed]
  · rw [hsegment, hunclosed, List.length_reverse, hpart.length_stillOpen opens]
  · have hlength := hpart.length_stillOpen opens
    rw [hsegment, hunclosed, List.reverse_eq_nil_iff, ne_eq, List.reverse_eq_nil_iff,
      ← List.length_eq_zero_iff]
    rcases hpart.closed_or_ended opens with ⟨hlast, hzero⟩ | ⟨hend, hpositive⟩
    · exact .inl ⟨hlast, hzero, by omega⟩
    · exact .inr ⟨by rw [hend]; rfl, hpositive, by omega⟩

/-- A list that leaves two elements open, one of them closed under another name before, and a list
that goes on behind its root. -/
theorem parse_notices_irregular :
    let token (kind : TokenKind) (name : String) (place : Int) : Token :=
      { kind, value := name, position := ⟨1, place + 1, place⟩ }
    let a := token .openTag "a" 4
    let b := token .openTag "b" 7
    let z := token .closeTag "z" 10
    let d := token .openTag "d" 14
    let x := token .text "x" 17
    let cut := [token .comment "c" 0, a, b, z, d, x]
    let long := [a, z, token .comment "c" 14, x, b]
    TokenStream.parse { tokens := cut } = (.ok (.element a [.element b [], .element d [.leaf x]]),
        { tokens := cut, index := 6 }, [.mismatched b z, .unclosed d, .unclosed a]) ∧
      Diagnosed cut a 1 6 [.mismatched b z, .unclosed d, .unclosed a] ∧
      TokenStream.parse { tokens := long } = (.ok (.element a []),
        { tokens := long, index := 2 }, [.mismatched a z, .discarded 2 x.position]) ∧
      Diagnosed long a 0 2 [.mismatched a z, .discarded 2 x.position] := by
  intro token a b z d x cut long
  have hopen : TokenStream.parse { tokens := cut } =
      (.ok (.element a [.element b [], .element d [.leaf x]]),
        { tokens := cut, index := 6 }, [.mismatched b z, .unclosed d, .unclosed a]) := rfl
  have hlong : TokenStream.parse { tokens := long } = (.ok (.element a []),
      { tokens := long, index := 2 }, [.mismatched a z, .discarded 2 x.position]) := rfl
  exact ⟨hopen, parse_notices hopen, hlong, parse_notices hlong⟩

end Wxml
