import Wxml.Proofs.BuildSteps

/-!
# Builds that stop at the first failure

A document that does not compile ends a build, or the build goes on and reports it. The two builds
of one tree are compared. They meet the same sources and do the same with each, up to the first that
does not compile: there one of them stops, and the other adds to its report.

**The law** (`build_failFast`): where the build that goes on reports nothing, the two are the same
in every respect. Otherwise the one that stops fails with the first reported source, and leaves the
tree as it was when that was reported: with the outputs of the sources before it
(`Settings.Builds`) and nothing else. This holds of every tree, links included, for every reading of
the exclude patterns, and however deep the search for sources may get; and a build that did not come
too deep is the same wherever it may get deeper.

**What it does not establish.** A build whose outputs always put new sources before its own search
comes too deep for every number. Of such a build the law says what it does up to each depth.
-/

namespace Wxml

/-! ## The sources of a build -/

namespace Settings

/-- The sources that a build meets, in order. There are none where it cannot start. -/
def met (s : Settings) (tree : Entry) (matcher : Matcher) (depth : Nat) : List Location :=
  if tree.hasFolder [] (.ofLocation s.src) then
    match s.sourceRules matcher with
    | .ok rules => rules.met BuildState.tree (BuildM.source s) .tooDeep depth [] { tree }
    | .error _ => []
  else []

/-- The settings with failures reported. -/
def collecting (s : Settings) : Settings := { s with failFast := false }

/-- The settings with failures ending the build. -/
def stopping (s : Settings) : Settings := { s with failFast := true }

/-- A build meets a source that does not compile when it gets there. -/
def MeetsError (s : Settings) (tree : Entry) (matcher : Matcher) (depth : Nat) : Prop :=
  ∃ before f after reached text e, s.met tree matcher depth = before ++ f :: after ∧
    before.forM (BuildM.source s) { tree } = .ok () reached ∧
    s.sourceText reached.tree f = .ok text ∧ (compile text).1 = .error e

/-- **The outputs of some sources.** Each of them is read in the tree that those before it have
left, and compiles; its code and a line feed are written where the settings say, in folders that are
made for it. Nothing else in the tree changes. -/
inductive Builds (s : Settings) : Entry → List Location → Entry → Prop
  | nil (tree : Entry) : Builds s tree [] tree
  | cons {tree folders written last : Entry} {rel target : Location} {rels : List Location}
      {text code : String}
      (read : s.sourceText tree rel = .ok text)
      (compiled : (compile text).1 = .ok code)
      (placed : s.outputOf rel = .ok target)
      (made : tree.makeFolders [] target.dropLast = .ok folders)
      (wrote : folders.write [] (.ofLocation target) (Text.encode (code ++ "\n")) = .ok written)
      (rest : Builds s written rels last) : Builds s tree (rel :: rels) last

/-- **The first failure of a build that goes on**, in the state in which it has been reported: the
sources before it have outputs, and it does not compile. -/
structure Records (s : Settings) (st : BuildState) (before : List Location) (f : Location)
    (e : CompileError) (recorded : BuildState) : Prop where
  builds : s.Builds st.tree before recorded.tree
  refused : ∃ text, s.sourceText recorded.tree f = .ok text ∧ (compile text).1 = .error e
  runs : (before ++ [f]).forM (BuildM.source s.collecting) st = .ok () recorded
  reported : recorded.report.failed = st.report.failed ++ [(f.relativeText, e)]

end Settings

/-! ## One source -/

namespace BuildM

variable (s : Settings) (rel : Location) (st : BuildState)

/-- The two builds do the same with a source unless one of them stops. They part only where a source
does not compile, and there the one that stops fails. -/
theorem cautious_stopping :
    Cautious (fun _ => True) (source s.stopping rel) (source s.collecting rel) := by
  intro st
  cases s.sourceShape st.tree rel with
  | unreadable read =>
    left
    rw [source_of_unreadable (s := s.stopping) read, source_of_unreadable (s := s.collecting) read]
  | refused read refused =>
    right
    exact ⟨_, _, trivial, source_of_refused (s := s.stopping) read refused⟩
  | compiled read compiled =>
    left
    rw [source_of_compiled (s := s.stopping) read compiled,
      source_of_compiled (s := s.collecting) read compiled]
    rfl

/-- Failures that have been reported stay reported, whatever is done with a source. -/
theorem failed_prefix_source :
    st.report.failed <+: (endState (source s.collecting rel st)).report.failed := by
  cases s.sourceShape st.tree rel with
  | unreadable read =>
    rw [source_of_unreadable (s := s.collecting) read]
    exact List.prefix_rfl
  | refused read refused =>
    rw [source_of_refused (s := s.collecting) read refused]
    exact List.prefix_append _ _
  | @compiled text code read compiled =>
    rw [source_of_compiled (s := s.collecting) read compiled, (emits _ rel code _).failed_eq]
    exact List.prefix_rfl

/-- A report only grows along the sources, also in a loop that ends with an error. -/
theorem failed_prefix_forM (rels : List Location) :
    st.report.failed <+: (endState (rels.forM (source s.collecting) st)).report.failed := by
  induction rels generalizing st with
  | nil => exact List.prefix_rfl
  | cons rel rels ih =>
    have first := failed_prefix_source s rel st
    cases hsource : source s.collecting rel st with
    | ok u st' =>
      rw [hsource] at first
      rw [forM_cons_of_ok hsource]
      exact first.trans (ih st')
    | error e st' =>
      rw [hsource] at first
      rw [forM_cons_of_error hsource]
      exact first

/-! ## Many sources -/

/-- A first failure stays the first behind one more source that has an output. The tree of the
smaller run is the one with that output in it. -/
theorem records_cons {s : Settings} {rel f : Location} {before : List Location} {text code : String}
    {st st' recorded : BuildState} {e : CompileError} (read : s.sourceText st.tree rel = .ok text)
    (compiled : (compile text).1 = .ok code)
    (hemits : Emits s rel code (st.noticed (compile text).2) (.ok () st'))
    (hsource : source s.collecting rel st = .ok () st')
    (records : s.Records st' before f e recorded) : s.Records st (rel :: before) f e recorded where
  builds := by
    cases hemits with
    | written name folders file =>
      refine .cons read compiled ?_ folders file records.builds
      rw [Settings.outputOf, name]
      rfl
  refused := records.refused
  runs := by
    rw [List.cons_append, forM_cons_of_ok hsource]
    exact records.runs
  reported := by
    have hkept : st'.report.failed = st.report.failed := hemits.failed_eq
    rw [records.reported, hkept]

/-- **Two loops over the same sources** are the same, or part at the first source that does not
compile. -/
theorem forM_stopping (rels : List Location) :
    (rels.forM (source s.stopping) st = rels.forM (source s.collecting) st ∧
      (endState (rels.forM (source s.collecting) st)).report.failed = st.report.failed) ∨
    ∃ before f after e recorded stopped, rels = before ++ f :: after ∧
      s.Records st before f e recorded ∧
      rels.forM (source s.stopping) st = .error (.source f.relativeText e) stopped ∧
      stopped.tree = recorded.tree := by
  induction rels generalizing st with
  | nil => exact .inl ⟨rfl, rfl⟩
  | cons rel rels ih =>
    cases s.sourceShape st.tree rel with
    | unreadable read =>
      left
      rw [forM_cons_of_error (source_of_unreadable (s := s.stopping) read),
        forM_cons_of_error (source_of_unreadable (s := s.collecting) read)]
      exact ⟨rfl, rfl⟩
    | @refused text e read refused =>
      have hstop := source_of_refused (s := s.stopping) read refused
      have hcollect := source_of_refused (s := s.collecting) read refused
      refine .inr ⟨[], rel, rels, e, (st.noticed (compile text).2).recorded rel.relativeText e, _,
        rfl, ⟨.nil _, ⟨text, read, refused⟩, ?_, rfl⟩, forM_cons_of_error hstop rels, rfl⟩
      exact forM_cons_of_ok hcollect []
    | @compiled text code read compiled =>
      -- how failures are treated does not matter to the output
      have hstop : source s.stopping rel st = emit s rel code (st.noticed (compile text).2) :=
        source_of_compiled (s := s.stopping) read compiled
      have hcollect : source s.collecting rel st = emit s rel code (st.noticed (compile text).2) :=
        source_of_compiled (s := s.collecting) read compiled
      have hemits := emits s rel code (st.noticed (compile text).2)
      generalize emit s rel code (st.noticed (compile text).2) = r at *
      cases r with
      | error e st' =>
        left
        rw [forM_cons_of_error hstop, forM_cons_of_error hcollect]
        exact ⟨rfl, hemits.failed_eq⟩
      | ok u st' =>
        rw [forM_cons_of_ok hstop, forM_cons_of_ok hcollect]
        rcases ih st' with ⟨same, none⟩ | ⟨before, f, after, e, recorded, stopped, rfl, records,
          hstopped, htree⟩
        · exact .inl ⟨same, none.trans hemits.failed_eq⟩
        · exact .inr ⟨rel :: before, f, after, e, recorded, stopped, rfl,
            records_cons read compiled hemits hcollect records, hstopped, htree⟩

end BuildM

/-! ## Whole builds -/

section Whole

variable {s : Settings} {tree : Entry} {matcher : Matcher} {depth : Nat}

/-- The state behind a build is the one in which its run has ended, well or not. -/
theorem build_snd (s : Settings) (tree : Entry) (matcher : Matcher) (depth : Nat) :
    (build s tree matcher depth).2 = endState (buildAll s matcher depth { tree }) := by
  unfold build
  cases buildAll s matcher depth { tree } <;> rfl

theorem build_congr {s' : Settings} {depth' : Nat}
    (h : buildAll s matcher depth { tree } = buildAll s' matcher depth' { tree }) :
    build s tree matcher depth = build s' tree matcher depth' := by
  rw [build, h, build]

theorem build_of_error {e : Failure} {st : BuildState}
    (h : buildAll s matcher depth { tree } = .error e st) :
    build s tree matcher depth = (.error e, st) := by
  rw [build, h]

/-- Without a source folder a build does nothing. Patterns are not looked at before that is
known. -/
theorem buildAll_of_missing (missing : tree.hasFolder [] (.ofLocation s.src) = false) :
    buildAll s matcher depth { tree } =
      .error (.noSourceFolder (Location.text s.src)) { tree } := by
  unfold buildAll
  show (if tree.hasFolder [] (.ofLocation s.src) = true then _ else _ : BuildM Unit) _ = _
  rw [if_neg (Bool.eq_false_iff.mp missing)]
  rfl

/-- With patterns that make no sense a build does nothing either. -/
theorem buildAll_of_noRules {e : Failure} (found : tree.hasFolder [] (.ofLocation s.src) = true)
    (hrules : s.sourceRules matcher = .error e) :
    buildAll s matcher depth { tree } = .error e { tree } := by
  unfold buildAll
  show (if tree.hasFolder [] (.ofLocation s.src) = true then _ else _ : BuildM Unit) _ = _
  rw [if_pos found, hrules]
  rfl

/-- In all other cases a build is a walk from the source folder. -/
theorem buildAll_of_rules {rules : SourceRules}
    (found : tree.hasFolder [] (.ofLocation s.src) = true)
    (hrules : s.sourceRules matcher = .ok rules) :
    buildAll s matcher depth { tree } =
      rules.walk BuildState.tree (BuildM.source s) .tooDeep depth [] { tree } := by
  unfold buildAll
  show (if tree.hasFolder [] (.ofLocation s.src) = true then _ else _ : BuildM Unit) _ = _
  rw [if_pos found, hrules]
  rfl

/-- **How deep a search may get decides nothing else:** a build is the same where it may get deeper,
or it came too deep. -/
theorem build_deeper {depth' : Nat} (h : depth ≤ depth')
    (shallow : (build s tree matcher depth).1 ≠ .error .tooDeep) :
    build s tree matcher depth' = build s tree matcher depth := by
  cases found : tree.hasFolder [] (.ofLocation s.src) with
  | false => exact build_congr ((buildAll_of_missing found).trans (buildAll_of_missing found).symm)
  | true =>
    cases hrules : s.sourceRules matcher with
    | error e =>
      exact build_congr ((buildAll_of_noRules found hrules).trans
        (buildAll_of_noRules found hrules).symm)
    | ok rules =>
      have cautious := rules.cautious_walk BuildState.tree (BuildM.source s) .tooDeep h []
      rcases cautious { tree } with same | ⟨e, st, rfl, failed⟩
      · exact build_congr ((buildAll_of_rules found hrules).trans
          (same.symm.trans (buildAll_of_rules found hrules).symm))
      · rw [build_of_error ((buildAll_of_rules found hrules).trans failed)] at shallow
        exact absurd rfl shallow

/-- The two builds are loops over the same sources, and both end alike behind the last one. Where
they cannot start, there are no sources and the failure is all. -/
theorem buildAll_stopping (s : Settings) (tree : Entry) (matcher : Matcher) (depth : Nat) :
    ∃ ends,
      buildAll s.collecting matcher depth { tree } = SourceRules.along (BuildM.source s.collecting)
        (s.collecting.met tree matcher depth) ends { tree } ∧
      buildAll s.stopping matcher depth { tree } = SourceRules.along (BuildM.source s.stopping)
        (s.collecting.met tree matcher depth) ends { tree } := by
  cases found : tree.hasFolder [] (.ofLocation s.src) with
  | false =>
    have hmet : s.collecting.met tree matcher depth = [] := if_neg (Bool.eq_false_iff.mp found)
    rw [hmet, buildAll_of_missing (s := s.stopping) found,
      buildAll_of_missing (s := s.collecting) found]
    exact ⟨some _, rfl, rfl⟩
  | true =>
    have hmet : s.collecting.met tree matcher depth = _ := if_pos found
    rw [hmet]
    cases hrules : s.sourceRules matcher with
    | error e =>
      rw [show s.collecting.sourceRules matcher = .error e from hrules,
        buildAll_of_noRules (s := s.stopping) found hrules,
        buildAll_of_noRules (s := s.collecting) found hrules]
      exact ⟨some e, rfl, rfl⟩
    | ok rules =>
      rw [show s.collecting.sourceRules matcher = .ok rules from hrules,
        buildAll_of_rules (s := s.stopping) found hrules,
        buildAll_of_rules (s := s.collecting) found hrules]
      exact rules.walk_eq_along_met (BuildM.cautious_stopping s) BuildState.tree _ depth [] { tree }

/-- A build that goes on and meets a source that does not compile reports something. So reports tell
whether the two builds differ. -/
theorem failed_ne_nil_of_meetsError (h : s.collecting.MeetsError tree matcher depth) :
    (endState ((s.collecting.met tree matcher depth).forM (BuildM.source s.collecting)
      { tree })).report.failed ≠ [] := by
  obtain ⟨before, f, after, reached, text, e, hmet, hbefore, htext, hcompile⟩ := h
  have hsource := BuildM.source_of_refused htext hcompile
  have hreported : (before ++ [f]).forM (BuildM.source s.collecting) { tree } =
      .ok () ((reached.noticed (compile text).2).recorded f.relativeText e) :=
    (forM_append_of_ok hbefore [f]).trans (forM_cons_of_ok hsource [])
  rw [hmet, List.append_cons, forM_append_of_ok hreported]
  exact (BuildM.failed_prefix_forM s _ after).ne_nil
    (List.append_ne_nil_of_right_ne_nil _ (List.cons_ne_nil _ _))

end Whole

/-- The error that a failure is to whoever compiles. That of a source is told in words, behind the
path of the source, and has no position of its own. -/
def Failure.compileError? : Failure → Option CompileError
  | .compile e => some e
  | .source path e => some ⟨.other (path ++ ": " ++ e.message), none⟩
  | _ => none

/-- **Stopping at the first failure.** For every tree and all settings, compare the build that stops
at the first failure with the one that goes on. Either the one that goes on meets no source that
does not compile, and the two are the same in every respect; or there is a first such source `f`,
and the one that stops ends there, with the failure of `f` and with the tree that the other had when
it reported `f`: the given one, with the outputs of the sources before `f`. It does not matter how
patterns are read, nor how deep the two may get, as neither changes with the depth unless it came
too deep. -/
theorem build_failFast (s : Settings) (tree : Entry) (matcher : Matcher) (depth : Nat) :
    let fast := build { s with failFast := true } tree matcher depth
    let slow := build { s with failFast := false } tree matcher depth
    ((¬ s.collecting.MeetsError tree matcher depth ∧ slow.2.report.failed = [] ∧ fast = slow) ∨
      ∃ before f after e recorded failure,
        s.collecting.met tree matcher depth = before ++ f :: after ∧
        s.Records { tree } before f e recorded ∧
        recorded.report.failed <+: slow.2.report.failed ∧
        fast.1 = .error failure ∧
        failure.compileError? = some ⟨.other (f.relativeText ++ ": " ++ e.message), none⟩ ∧
        failure.message? = some (f.relativeText ++ ": " ++ e.message) ∧
        fast.2.tree = recorded.tree) ∧
    ∀ depth', depth ≤ depth' →
      (fast.1 ≠ .error .tooDeep →
        build { s with failFast := true } tree matcher depth' = fast) ∧
      (slow.1 ≠ .error .tooDeep →
        build { s with failFast := false } tree matcher depth' = slow) := by
  intro fast slow
  refine ⟨?_, fun depth' h => ⟨build_deeper h, build_deeper h⟩⟩
  obtain ⟨ends, hcollect, hstop⟩ := buildAll_stopping s tree matcher depth
  have hslow : slow.2 = endState ((s.collecting.met tree matcher depth).forM
      (BuildM.source s.collecting) { tree }) := by
    rw [← SourceRules.endState_along ends, ← hcollect]
    exact build_snd s.collecting tree matcher depth
  rw [hslow]
  rcases BuildM.forM_stopping s { tree } (s.collecting.met tree matcher depth) with
    ⟨same, none⟩ | ⟨before, f, after, e, recorded, stopped, hmet, records, hstopped, htree⟩
  · refine .inl ⟨fun meets => failed_ne_nil_of_meetsError meets none, none, build_congr ?_⟩
    exact hstop.trans ((SourceRules.along_congr same).trans hcollect.symm)
  · have hfast : fast = (.error (.source f.relativeText e), stopped) :=
      build_of_error (hstop.trans (SourceRules.along_of_error hstopped))
    refine .inr ⟨before, f, after, e, recorded, .source f.relativeText e, hmet, records, ?_, ?_,
      rfl, rfl, ?_⟩
    · rw [hmet, List.append_cons, forM_append_of_ok records.runs]
      exact BuildM.failed_prefix_forM s recorded after
    · rw [hfast]
    · rw [hfast]
      exact htree

end Wxml
