import Wxml.Proofs.CompileFailure

/-!
# Calls on a stream of tokens

A stream can be used by any calls in any order, each from where the last one left it, also when that
one failed. What a call does to a stream is said by the tokens that it takes (`TokenStream.Takes`):
one for a read that succeeds, none for a peek or for a read at the end, the whole of a node with the
comments before it, and all the comments that are left when no node follows them.

**The law** (`stream_run`): after any calls the stream stands in its list or at its end, from there
on it only moves forward, and each call fails only where it must and leaves the stream where it
should.

**Not established**: a stream whose index lies behind its list, which no call reaches from its
start. Nothing is said about the notices here.
-/

namespace Wxml

namespace TokenStream

/-! ## What a call takes -/

/-- **Taking tokens**: they are the next ones of a stream, and the other stream stands behind them
in the same list. -/
structure Takes (s : TokenStream) (taken : List Token) (s' : TokenStream) : Prop where
  tokens : s'.tokens = s.tokens
  index : s'.index = s.index + taken.length
  unread : s.unread = taken ++ s'.unread

theorem Takes.refl (s : TokenStream) : s.Takes [] s := ⟨rfl, rfl, rfl⟩

/-- Takings follow one another like the tokens that are taken. -/
theorem Takes.trans {s s' s'' : TokenStream} {taken more : List Token} (h : s.Takes taken s')
    (h' : s'.Takes more s'') : s.Takes (taken ++ more) s'' where
  tokens := h'.tokens.trans h.tokens
  index := by rw [h'.index, h.index, List.length_append, Nat.add_assoc]
  unread := by rw [h.unread, h'.unread, List.append_assoc]

theorem Takes.index_le {s s' : TokenStream} {taken : List Token} (h : s.Takes taken s') :
    s.index ≤ s'.index := by
  rw [h.index]
  exact Nat.le_add_right _ _

/-- What is taken was there, so a stream in its list stays there. Only a read behind the list could
leave it, and such a read takes nothing. -/
theorem Takes.within {s s' : TokenStream} {taken : List Token} (h : s.Takes taken s')
    (within : s.index ≤ s.tokens.length) : s'.index ≤ s.tokens.length := by
  have hlength := congrArg List.length h.unread
  rw [← remaining_eq, remaining, List.length_append] at hlength
  rw [h.index]
  omega

/-- A stream set to where a rest starts has taken what stands before the rest. Something has to be
taken, since otherwise a stream behind its list would be set back. -/
theorem takes_of_unread {s : TokenStream} {taken rest : List Token}
    (h : s.unread = taken ++ rest) (hne : taken ≠ []) :
    s.Takes taken { s with index := s.tokens.length - rest.length } := by
  have hlength := congrArg List.length h
  have hpos : 0 < taken.length := List.length_pos_iff.mpr hne
  rw [← remaining_eq, remaining, List.length_append] at hlength
  have hindex : s.tokens.length - rest.length = s.index + taken.length := by omega
  refine ⟨rfl, hindex, ?_⟩
  show s.unread = taken ++ s.tokens.drop (s.tokens.length - rest.length)
  rw [hindex, ← List.drop_drop, show s.tokens.drop s.index = s.unread from rfl, h, List.drop_left]

/-- A stream set to the end of its list has taken everything that was left. -/
theorem takes_unread (s : TokenStream) :
    s.Takes s.unread { s with index := max s.index s.tokens.length } := by
  refine ⟨rfl, ?_, ?_⟩
  · show max s.index s.tokens.length = s.index + s.unread.length
    rw [← remaining_eq, remaining]
    omega
  · have hend : s.tokens.drop (max s.index s.tokens.length) = [] :=
      List.drop_of_length_le (Nat.le_max_right _ _)
    exact (List.append_nil _).symm.trans (congrArg _ hend.symm)

/-- A read takes one token, or nothing is left and it fails and takes none. -/
theorem read_cases (s : TokenStream) :
    (∃ t, s.read = (.ok t, s.next) ∧ s.Takes [t] s.next) ∨
      s.unread = [] ∧ s.read = (.error s.endOfInput, s) := by
  have hfirst : s.tokens[s.index]? = s.unread.head? := List.head?_drop.symm
  unfold read
  rw [hfirst]
  cases hunread : s.unread with
  | nil => exact .inr ⟨rfl, rfl⟩
  | cons t ts =>
    refine .inl ⟨t, rfl, rfl, rfl, ?_⟩
    rw [unread_next hunread]
    exact hunread

end TokenStream

/-- A node is read from the tokens before the rest, and there is at least one: its own. -/
theorem Node.taken_of_read? {ts : List Token} {g : Grown} (h : read? ts = some g) :
    ∃ taken, taken ≠ [] ∧ ts = taken ++ g.rest := by
  fun_induction read? ts with
  | case1 => cases h
  | case2 t ts hkind ih =>
    obtain ⟨taken, -, htaken⟩ := ih h
    exact ⟨t :: taken, List.cons_ne_nil t taken, congrArg (t :: ·) htaken⟩
  | case3 t ts hkind =>
    cases h
    exact ⟨t :: untilClosed 0 ts, List.cons_ne_nil _ _,
      congrArg (t :: ·) (grow_rest ⟨t, []⟩ [] ts).symm⟩
  | case4 t ts hcomment hopen =>
    cases h
    exact ⟨[t], List.cons_ne_nil t [], rfl⟩

namespace TokenStream

/-- Where a node can be read, the stream stands before what the stack reader left. -/
theorem readNode_of_some {s : TokenStream} {g : Grown} (h : Node.read? s.unread = some g) :
    s.readNode = (.ok g.node, { s with index := s.tokens.length - g.rest.length }, g.notices) := by
  unfold readNode
  rw [show s.tokens.drop s.index = s.unread from rfl, h]

/-- Where none can be read, the stream stands at its end: the comments that were left are gone. -/
theorem readNode_of_none {s : TokenStream} (h : Node.read? s.unread = none) :
    s.readNode = (.error s.endOfInput, { s with index := max s.index s.tokens.length }, []) := by
  unfold readNode
  rw [show s.tokens.drop s.index = s.unread from rfl, h]

/-- **Reading a node**: it fails exactly where only comments are left, with the end of the list at
its last token, and then nothing is left. Otherwise it takes something. -/
structure ReadsNode (s : TokenStream) (result : Except CompileError Node) (s' : TokenStream) :
    Prop where
  fails_iff : ∀ e, result = .error e ↔
    (∀ t ∈ s.unread, t.kind = .comment) ∧ e = ⟨.endOfInput, s.tokens.getLast?.map (·.position)⟩
  ends : ∀ e, result = .error e → s'.remaining = 0
  advances : ∀ n, result = .ok n → s.index < s'.index
  forward : ∃ taken, s.Takes taken s'

/-- The failing half of `ReadsNode`. The error names the last token of the list, not of what was
left. -/
theorem readsNode_of_none {s : TokenStream} (h : Node.read? s.unread = none) :
    s.ReadsNode s.readNode.1 s.readNode.2.1 := by
  rw [readNode_of_none h]
  refine ⟨fun e => ?_, fun e _ => ?_, fun n hok => ?_, s.unread, s.takes_unread⟩
  · rw [Except.error.injEq, eq_comm]
    exact (and_iff_right (Node.read?_eq_none_iff.mp h)).symm
  · exact Nat.sub_eq_zero_of_le (Nat.le_max_right _ _)
  · cases hok

/-- The succeeding half: a node consists of one token at least. -/
theorem readsNode_of_some {s : TokenStream} {g : Grown} (h : Node.read? s.unread = some g) :
    s.ReadsNode s.readNode.1 s.readNode.2.1 := by
  obtain ⟨taken, hne, htaken⟩ := Node.taken_of_read? h
  have htakes := takes_of_unread htaken hne
  rw [readNode_of_some h]
  refine ⟨fun e => ⟨fun hfail => ?_, fun hall => ?_⟩, fun e hfail => ?_, fun n _ => ?_,
    taken, htakes⟩
  · cases hfail
  · rw [Node.read?_eq_none_iff.mpr hall.1] at h
    cases h
  · cases hfail
  · have hpos : 0 < taken.length := List.length_pos_iff.mpr hne
    exact Nat.lt_of_lt_of_eq (Nat.lt_add_of_pos_right hpos) htakes.index.symm

/-- **Reading a node does as said**, wherever the stream stands. -/
theorem readsNode_readNode (s : TokenStream) : s.ReadsNode s.readNode.1 s.readNode.2.1 := by
  cases hread : Node.read? s.unread with
  | none => exact readsNode_of_none hread
  | some g => exact readsNode_of_some hread

/-- The root is the next node. Reading it differs in what is noticed about the tokens behind it, and
in nothing else. -/
theorem parse_eq_readNode (s : TokenStream) :
    s.parse.1 = s.readNode.1 ∧ s.parse.2.1 = s.readNode.2.1 := by
  unfold parse
  obtain ⟨result, s', notices⟩ := s.readNode
  cases result <;> exact ⟨rfl, rfl⟩

/-- Reading the root does the same, as it is the next node. -/
theorem readsNode_parse (s : TokenStream) : s.ReadsNode s.parse.1 s.parse.2.1 := by
  rw [s.parse_eq_readNode.1, s.parse_eq_readNode.2]
  exact s.readsNode_readNode

end TokenStream

/-! ## Runs -/

/-- A call on a stream. -/
inductive StreamCall where
  | read
  | peek (ahead : Int)
  | readNode
  | parse
  deriving DecidableEq, Repr

namespace TokenStream

/-- The stream as a call leaves it, whether the call succeeds or fails. -/
def afterCall (s : TokenStream) : StreamCall → TokenStream
  | .read => s.read.2
  | .peek _ => s
  | .readNode => s.readNode.2.1
  | .parse => s.parse.2.1

/-- The stream after some calls. -/
def after (s : TokenStream) (calls : List StreamCall) : TokenStream := calls.foldl afterCall s

/-- Whatever is called, the stream only moves forward, over tokens of its list. This is the one fact
about single calls that the law about runs needs. -/
theorem exists_takes_afterCall (s : TokenStream) (call : StreamCall) :
    ∃ taken, s.Takes taken (s.afterCall call) := by
  cases call with
  | read =>
    rcases s.read_cases with ⟨t, hread, htakes⟩ | ⟨-, hread⟩
    · exact ⟨[t], by rwa [afterCall, hread]⟩
    · exact ⟨[], by rw [afterCall, hread]; exact .refl s⟩
  | peek ahead => exact ⟨[], .refl s⟩
  | readNode => exact s.readsNode_readNode.forward
  | parse => exact s.readsNode_parse.forward

/-- After any calls the stream has only taken tokens. The induction is on the calls, with
`exists_takes_afterCall` as the step. -/
theorem exists_takes_after (s : TokenStream) (calls : List StreamCall) :
    ∃ taken, s.Takes taken (s.after calls) := by
  induction calls generalizing s with
  | nil => exact ⟨[], .refl s⟩
  | cons call calls ih =>
    obtain ⟨first, hfirst⟩ := s.exists_takes_afterCall call
    obtain ⟨more, hmore⟩ := ih (s.afterCall call)
    exact ⟨first ++ more, hfirst.trans hmore⟩

end TokenStream

/-- **Calls in any order.** After any calls on a list of tokens the stream stands in the list or at
its end, and what remains is what lies behind it. From there on it only moves forward. A read that
fails and a peek leave it as it is. Reading a node and reading the root both do as `ReadsNode`
says. -/
theorem stream_run (ts : List Token) (calls : List StreamCall) :
    let s := ({ tokens := ts } : TokenStream).after calls
    (s.tokens = ts ∧ s.index ≤ ts.length ∧ (s.remaining : Int) = ts.length - s.index) ∧
      (∀ more, s.index ≤ (s.after more).index) ∧
      (∀ e, s.read.1 = .error e → s.afterCall .read = s) ∧
      (∀ ahead, s.afterCall (.peek ahead) = s) ∧
      s.ReadsNode s.readNode.1 (s.afterCall .readNode) ∧
      s.ReadsNode s.parse.1 (s.afterCall .parse) := by
  intro s
  obtain ⟨taken, htakes⟩ := TokenStream.exists_takes_after { tokens := ts } calls
  have htokens : s.tokens = ts := htakes.tokens
  have hwithin : s.index ≤ ts.length := htakes.within (Nat.zero_le _)
  refine ⟨⟨htokens, hwithin, ?_⟩, fun more => ?_, fun e hfail => ?_, fun _ => rfl,
    s.readsNode_readNode, s.readsNode_parse⟩
  · rw [TokenStream.remaining, htokens]
    omega
  · obtain ⟨_, hmore⟩ := s.exists_takes_after more
    exact hmore.index_le
  · rcases s.read_cases with ⟨t, hread, -⟩ | ⟨-, hread⟩
    · rw [hread] at hfail
      cases hfail
    · rw [TokenStream.afterCall, hread]

/-- Two peeks outside the list, a node that ends only with the list, and then three calls at its
end. -/
theorem stream_run_pastEnd :
    let token (kind : TokenKind) (name : String) : Token :=
      { kind, value := name, position := .start }
    let ts := [token .comment "c", token .openTag "a", token .text "x", token .comment "d"]
    let s := ({ tokens := ts } : TokenStream).after [.peek 9, .peek (-9), .readNode, .parse, .read]
    s.index = 4 ∧ s.index ≤ ts.length ∧
      (∃ e, s.read.1 = .error e) ∧ s.afterCall .read = s ∧
      (∃ e, s.parse.1 = .error e) ∧ (s.afterCall .parse).remaining = 0 := by
  intro token ts s
  obtain ⟨⟨-, hwithin, -⟩, -, hread, -, -, hparse⟩ :=
    stream_run ts [.peek 9, .peek (-9), .readNode, .parse, .read]
  have hend : s.index = 4 := rfl
  have hfail : s.read.1 = .error s.endOfInput := rfl
  have hnone : s.parse.1 = .error s.endOfInput := rfl
  exact ⟨hend, hwithin, ⟨_, hfail⟩, hread _ hfail, ⟨_, hnone⟩, hparse.ends _ hnone⟩

end Wxml
