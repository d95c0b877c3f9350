import Wxml.Proofs.Outputs

/-!
# Builds that go on behind a failure

A build that reports documents that do not compile has an entry for every source: the path of its
output, or its own path and the error (`Settings.Entered`). It still ends without a report when an
output cannot be written. Where that happens can be read off the given tree
(`Settings.Placeable`): a file is in the way of the output folder, a name holds a character that no
name can hold, or an output is to lie below another one.

**The law** (`collecting_build`): of sources that are texts, the build makes a report if their
outputs can be placed, and only then; and it has one entry for each source, in order.

**Not established**: that a disk takes every name. A name may be longer than a disk allows, a place
may not be writable, or the disk may be full. Nothing of this is in a tree, so nothing is said about
it; and sources that are no texts are only seen to end a build in one example.
-/

namespace Wxml

namespace Settings

variable {s : Settings} {tree now : Entry} {rel : Location}

/-- **An entry of a report:** an output, or a source that does not compile and its error. -/
inductive Entered (s : Settings) (tree : Entry) (rel : Location) :
    String ⊕ (String × CompileError) → Prop
  | compiled {text code : String} {below : Location} (read : s.sourceText tree rel = .ok text)
      (compiled : (compile text).1 = .ok code) (name : s.outputBelow rel = .ok below) :
      Entered s tree rel (.inl below.relativeText)
  | failed {text : String} {e : CompileError} (read : s.sourceText tree rel = .ok text)
      (refused : (compile text).1 = .error e) : Entered s tree rel (.inr (rel.relativeText, e))

/-- **Outputs that can be placed.** Nothing but folders is on the way to the output folder, the
names are possible, and no output lies below another one. -/
def Placeable (s : Settings) (tree : Entry) (sources : List Location) : Prop :=
  ∀ rel ∈ sources, s.compiles tree rel = true → ∀ below, s.outputBelow rel = .ok below →
    tree.Admits s.out ∧ (Path.ofLocation (s.out ++ below)).hasNul = false ∧
      ∀ other ∈ sources, s.compiles tree other = true →
        ∀ above, s.outputBelow other = .ok above → above <+: below → above = below

/-- **A build that can start and reports failures:** of a plain tree with a source folder and
nothing at the place of the outputs, with a possible suffix. Accepted settings give such places of
the two folders (`fresh_of_ofMapping`). -/
structure Collects (s : Settings) (tree : Entry) : Prop extends Fresh s tree where
  collects : s.failFast = false
  suffix : isSuffix s.suffix = true
  found : tree.hasFolder [] (.ofLocation s.src) = true

/-! ## Entries -/

/-- A run adds one entry for each source to the report, on its own side. The induction is on the
run. -/
theorem Runs.entries {st last : BuildState} {rels : List Location}
    (runs : s.Runs tree st rels last) :
    ∃ entries, List.Forall₂ (s.Entered tree) rels entries ∧
      last.report.compiled = st.report.compiled ++ entries.filterMap Sum.getLeft? ∧
      last.report.failed = st.report.failed ++ entries.filterMap Sum.getRight? := by
  induction runs with
  | nil st => exact ⟨[], .nil, (List.append_nil _).symm, (List.append_nil _).symm⟩
  | @cons st st' last rel rels first rest ih =>
    obtain ⟨entries, hentries, hcompiled, hfailed⟩ := ih
    cases first with
    | @reported text e read refused collects =>
      refine ⟨.inr (rel.relativeText, e) :: entries, .cons (.failed read refused) hentries, ?_, ?_⟩
      · exact hcompiled
      · exact hfailed.trans (List.append_assoc _ _ _)
    | @emitted text code below read compiled name possible free =>
      refine ⟨.inl below.relativeText :: entries, .cons (.compiled read compiled name) hentries,
        ?_, ?_⟩
      · exact hcompiled.trans (List.append_assoc _ _ _)
      · exact hfailed

/-! ## Builds with a report -/

/-- Outputs that were written are files in the end: a later output replaces a file or leaves it
alone, and never puts a folder in its place. -/
theorem Runs.written {st last : BuildState} {rels : List Location}
    (runs : s.Runs tree st rels last) {l : Location}
    (h : (∃ bytes, st.tree.get? l = some (.file bytes)) ∨
      ∃ rel ∈ rels, s.compiles tree rel = true ∧ s.outputOf rel = .ok l) :
    ∃ bytes, last.tree.get? l = some (.file bytes) := by
  induction runs with
  | nil st =>
    rcases h with h | ⟨rel, hrel, -⟩
    · exact h
    · exact absurd hrel List.not_mem_nil
  | @cons st st' last rel rels first rest ih =>
    refine ih ?_
    cases first with
    | reported read refused collects =>
      rcases h with h | ⟨rel', hrel', hcompiles, houtput⟩
      · exact .inl h
      · rcases List.mem_cons.mp hrel' with rfl | hlater
        · exact absurd hcompiles (not_compiles_of_refused read refused)
        · exact .inr ⟨rel', hlater, hcompiles, houtput⟩
    | emitted read compiled name possible free =>
      rcases h with h | ⟨rel', hrel', hcompiles, houtput⟩
      · exact .inl (free.put_file _ l h)
      · rcases List.mem_cons.mp hrel' with rfl | hlater
        · rw [outputOf, name] at houtput
          cases houtput
          exact .inl ⟨_, Entry.get?_put_self free.way _⟩
        · exact .inr ⟨rel', hlater, hcompiles, houtput⟩

/-- A whole run writes below the output folder only. The induction is on the run, with
`Handles.grown` as its step. -/
theorem Runs.grown {st last : BuildState} {rels : List Location} (runs : s.Runs tree st rels last)
    (start : s.Fresh tree) (grown : tree.Grown s.out st.tree) : tree.Grown s.out last.tree := by
  induction runs with
  | nil st => exact grown
  | cons first rest ih => exact ih (first.grown start grown)

/-- An output that was written has a possible name, as each step has asked for it. -/
theorem Runs.possible {st last : BuildState} {rels : List Location}
    (runs : s.Runs tree st rels last) (hrel : rel ∈ rels) (hcompiles : s.compiles tree rel = true)
    {below : Location} (name : s.outputBelow rel = .ok below) :
    (Path.ofLocation (s.out ++ below)).hasNul = false := by
  induction runs with
  | nil st => exact absurd hrel List.not_mem_nil
  | @cons st st' last rel' rels first rest ih =>
    rcases List.mem_cons.mp hrel with rfl | hlater
    · cases first with
      | reported read refused => exact absurd hcompiles (not_compiles_of_refused read refused)
      | emitted read compiled name' possible free =>
        cases name.symm.trans name'
        exact possible
    · exact ih hlater

/-- **A build with a report** has placed its outputs: files of one tree, none below another. -/
theorem Fresh.placeable_of_runs (start : s.Fresh tree) {last : BuildState} {rels : List Location}
    (runs : s.Runs tree { tree } rels last) : s.Placeable tree rels := by
  have written : ∀ rel ∈ rels, s.compiles tree rel = true → ∀ below, s.outputBelow rel = .ok below →
      ∃ bytes, last.tree.get? (s.out ++ below) = some (.file bytes) := by
    intro rel hrel hcompiles below name
    refine runs.written (.inr ⟨rel, hrel, hcompiles, ?_⟩)
    rw [outputOf, name]
    rfl
  intro rel hrel hcompiles below name
  obtain ⟨bytes, hfile⟩ := written rel hrel hcompiles below name
  refine ⟨(runs.grown start .start).way_of_get? start.free hfile,
    runs.possible hrel hcompiles name, ?_⟩
  rintro other hother hcompiles' above name' ⟨k, rfl⟩
  obtain ⟨bytes', hfile'⟩ := written other hother hcompiles' above name'
  cases k with
  | nil => exact (List.append_nil above).symm
  | cons part k =>
    rw [← List.append_assoc] at hfile
    obtain ⟨es, hes⟩ := Entry.folder_of_get?_append hfile
    cases hfile'.symm.trans hes

/-! ## Outputs with a place -/

/-- **The output folder of some outputs:** what it holds is one of them, or is on the way to one. -/
structure Laid (s : Settings) (tree : Entry) (outputs : List Location) (now : Entry) : Prop where
  grown : tree.Grown s.out now
  files : ∀ below bytes, now.get? (s.out ++ below) = some (.file bytes) → below ∈ outputs
  folders : ∀ below es, now.get? (s.out ++ below) = some (.folder es) → below ≠ [] →
    ∃ output ∈ outputs, below <+: output ∧ below ≠ output

/-- Before the first output there is nothing where the outputs go. -/
theorem Fresh.laid_nil (start : s.Fresh tree) : s.Laid tree [] tree := by
  have hnone : ∀ below, tree.get? (s.out ++ below) = none := by
    intro below
    rw [Entry.get?_append, start.free]
    rfl
  refine ⟨.start, ?_, ?_⟩
  · intro below bytes h
    rw [hnone below] at h
    cases h
  · intro below es h
    rw [hnone below] at h
    cases h

/-- One more output: its file, and the folders that are made for it. -/
theorem Laid.put {outputs : List Location} (laid : s.Laid tree outputs now) (start : s.Fresh tree)
    {below : Location} (hne : below ≠ []) (free : now.Free (s.out ++ below)) (bytes : List UInt8) :
    s.Laid tree (below :: outputs) (now.put (s.out ++ below) (.file bytes)) := by
  refine ⟨laid.grown.put start.free hne free.way bytes, ?_, ?_⟩
  · intro place old h
    rcases free.get?_put_cases h with hold | ⟨hplace, -⟩ | ⟨-, -, es, hes⟩
    · exact List.mem_cons_of_mem _ (laid.files place old hold)
    · rw [List.append_cancel_left hplace]
      exact List.mem_cons_self
    · cases hes
  · intro place es h hplace
    rcases free.get?_put_cases h with hold | ⟨-, hfile⟩ | ⟨hway, hneq, -⟩
    · obtain ⟨output, houtput, hbelow⟩ := laid.folders place es hold hplace
      exact ⟨output, List.mem_cons_of_mem _ houtput, hbelow⟩
    · cases hfile
    · exact ⟨below, List.mem_cons_self, (List.prefix_append_right_inj s.out).mp hway,
        fun heq => hneq (congrArg (s.out ++ ·) heq)⟩

/-- A place is free if it is neither above nor below one that is taken. -/
theorem Laid.free {outputs : List Location} (laid : s.Laid tree outputs now) (start : s.Fresh tree)
    (way : tree.Admits s.out) {below : Location} (hne : below ≠ [])
    (above : ∀ output ∈ outputs, output <+: below → output = below)
    (beneath : ∀ output ∈ outputs, below <+: output → below = output) :
    now.Free (s.out ++ below) := by
  have links := laid.grown.linkFree (Entry.linkFree_of_isPlain start.plain)
  refine ⟨(Entry.admits_append _ _ _).mpr ⟨laid.grown.admits way, ?_⟩, ?_⟩
  · intro e he
    refine Entry.admits_of_folders ?_
    intro place rest hbelow hrest e' he'
    have hplace : now.get? (s.out ++ place) = some e' := by
      rw [Entry.get?_append, he]
      exact he'
    cases e' with
    | folder es => exact ⟨es, rfl⟩
    | link target => exact absurd hplace (links _ target)
    | file bytes =>
      have heq := above place (laid.files place bytes hplace) ⟨rest, hbelow.symm⟩
      rw [heq] at hbelow
      exact absurd (List.append_cancel_left ((List.append_nil below).trans hbelow)).symm hrest
  · intro es hes
    obtain ⟨output, houtput, hprefix, hneq⟩ := laid.folders below es hes hne
    exact hneq (beneath output houtput hprefix)

/-- **Sources with a place for their outputs** can all be handled. The induction is on the sources
that are left, and `Laid` says what has been written so far; a place is free because no output lies
above or below it. -/
theorem Fresh.exists_runs (start : s.Fresh tree) (collects : s.failFast = false)
    (suffix : isSuffix s.suffix = true) {sources : List Location}
    (texts : ∀ rel ∈ sources, ∃ text, s.sourceText tree rel = .ok text)
    (placeable : s.Placeable tree sources) {rels outputs : List Location} (st : BuildState)
    (hrels : ∀ rel ∈ rels, rel ∈ sources)
    (houtputs : ∀ output ∈ outputs, ∃ rel ∈ sources, s.compiles tree rel = true ∧
      s.outputBelow rel = .ok output)
    (laid : s.Laid tree outputs st.tree) : ∃ last, s.Runs tree st rels last := by
  -- `outputs` grows along the run: what stands in the output folder is there for one of them
  induction rels generalizing outputs st with
  | nil => exact ⟨st, .nil st⟩
  | cons rel rels ih =>
    rw [List.forall_mem_cons] at hrels
    obtain ⟨text, read⟩ := texts rel hrels.1
    cases result : (compile text).1 with
    | error e =>
      obtain ⟨last, rest⟩ := ih ((st.noticed (compile text).2).recorded rel.relativeText e)
        hrels.2 houtputs laid
      exact ⟨last, .cons (.reported read result collects) rest⟩
    | ok code =>
      have hcompiles := compiles_of_compiled read result
      obtain ⟨below, name⟩ : ∃ below, s.outputBelow rel = .ok below :=
        ⟨_, outputBelow_eq_ok.mpr ⟨suffix, rfl⟩⟩
      obtain ⟨way, possible, apart⟩ := placeable rel hrels.1 hcompiles below name
      have free : st.tree.Free (s.out ++ below) := by
        refine laid.free start way (output_ne_nil name) ?_ ?_
        · intro output houtput habove
          obtain ⟨other, hother, hcompiles', name'⟩ := houtputs output houtput
          exact apart other hother hcompiles' output name' habove
        · intro output houtput hbeneath
          obtain ⟨other, hother, hcompiles', name'⟩ := houtputs output houtput
          exact (placeable other hother hcompiles' output name').2.2 rel hrels.1 hcompiles below
            name hbeneath
      obtain ⟨last, rest⟩ := ih
        ((st.noticed (compile text).2).emitted
          (st.tree.put (s.out ++ below) (.file (outputBytes code))) rel below)
        hrels.2 (List.forall_mem_cons.mpr ⟨⟨rel, hrels.1, hcompiles, name⟩, houtputs⟩)
        (laid.put start (output_ne_nil name) free (outputBytes code))
      exact ⟨last, .cons (.emitted read result name possible free) rest⟩

end Settings

/-- **A build that goes on behind failures.** Let the build be one that can start and reports
failures, let its patterns make sense in whatever way they are read, and let every source be a text.
If the outputs can be placed, the build ends with a report, which has one entry for each source, in
the order of the sources: its output among the compiled ones, or its path and error among the failed
ones. Otherwise there is no report. -/
theorem collecting_build {s : Settings} {tree : Entry} {matcher : Matcher}
    {sources : List Location} (ready : s.Collects tree)
    (hsources : sourcesOf s tree matcher = .ok sources)
    (texts : ∀ rel ∈ sources, ∀ bytes, tree.get? (s.src ++ rel) = some (.file bytes) →
      ∃ text, Text.decode bytes = .ok text) :
    (s.Placeable tree sources → ∃ report entries, (build s tree matcher).1 = .ok report ∧
      List.Forall₂ (s.Entered tree) sources entries ∧
      report.compiled = entries.filterMap Sum.getLeft? ∧
      report.failed = entries.filterMap Sum.getRight?) ∧
    ((∃ report, (build s tree matcher).1 = .ok report) → s.Placeable tree sources) := by
  have start := ready.toFresh
  cases hrules : s.sourceRules matcher with
  | error e =>
    rw [sourcesOf, hrules] at hsources
    cases hsources
  | ok rules =>
    obtain rfl : rules.sources tree = sources := by
      rw [sourcesOf, hrules] at hsources
      exact Except.ok.inj hsources
    constructor
    · intro placeable
      have read : ∀ rel ∈ rules.sources tree, ∃ text, s.sourceText tree rel = .ok text := by
        intro rel hrel
        obtain ⟨-, bytes, hfile⟩ := start.isSource_of_mem_sources hrules hrel
        obtain ⟨text, htext⟩ := texts rel hrel bytes hfile
        refine ⟨text, ?_⟩
        rw [Settings.sourceText_of_file (Entry.linkFree_of_isPlain ready.plain)
          (Entry.settled_of_get? ready.plain hfile) hfile, htext]
        rfl
      obtain ⟨last, runs⟩ := start.exists_runs ready.collects ready.suffix read placeable { tree }
        (fun _ => id) (fun _ h => absurd h List.not_mem_nil) start.laid_nil
      have hbuild := (start.build_eq_ok_iff ready.found hrules).mpr ⟨runs, rfl⟩
      obtain ⟨entries, hentries, hcompiled, hfailed⟩ := runs.entries
      exact ⟨last.report, entries, congrArg Prod.fst hbuild, hentries, hcompiled, hfailed⟩
    · rintro ⟨report, built⟩
      obtain ⟨runs, -⟩ := (start.build_eq_ok_iff ready.found hrules).mp (Prod.ext built rfl)
      exact start.placeable_of_runs runs

/-- A source that compiles, one that does not, and one beside the outputs. -/
def mixedTree : Entry :=
  .folder [("w", .folder [
    ("a.wxml", .file (Text.encode "<a/>")),
    ("b.wxml", .file (Text.encode "<b")),
    ("in", .folder [("c.wxml", .file (Text.encode "<c/>"))])])]

/-- Settings that report failures. -/
def mixedSettings : Settings := ⟨["w"], ["w", "in", "out"], [".wxml"], ".jsx", [], false⟩

/-- The outputs of the two sources that compile do not lie in one another's way. -/
theorem mixedTree_placeable :
    mixedSettings.Placeable mixedTree [["a.wxml"], ["b.wxml"], ["in", "c.wxml"]] := by
  have outputs : ∀ rel ∈ [["a.wxml"], ["b.wxml"], ["in", "c.wxml"]],
      mixedSettings.compiles mixedTree rel = true → ∀ below,
      mixedSettings.outputBelow rel = .ok below → below = ["a.jsx"] ∨ below = ["in", "c.jsx"] := by
    intro rel hrel hcompiles below name
    have hname : (mixedSettings.outputBelow rel).toOption = some below :=
      congrArg Except.toOption name
    simp only [List.mem_cons, List.not_mem_nil, or_false] at hrel
    rcases hrel with rfl | rfl | rfl
    · have hout : (mixedSettings.outputBelow ["a.wxml"]).toOption = some ["a.jsx"] := by
        decide +kernel
      exact .inl (Option.some.inj (hname.symm.trans hout))
    · exact absurd hcompiles (by decide +kernel)
    · have hout : (mixedSettings.outputBelow ["in", "c.wxml"]).toOption = some ["in", "c.jsx"] := by
        decide +kernel
      exact .inr (Option.some.inj (hname.symm.trans hout))
  intro rel hrel hcompiles below name
  have hbelow := outputs rel hrel hcompiles below name
  refine ⟨?_, ?_, ?_⟩
  · exact Entry.admits_of_folder (l := ["w", "in"]) rfl "out"
  · rcases hbelow with rfl | rfl <;> decide +kernel
  · intro other hother hcompiles' above name' hprefix
    have habove := outputs other hother hcompiles' above name'
    rcases hbelow with rfl | rfl <;> rcases habove with rfl | rfl <;> revert hprefix <;>
      decide +kernel

/-- The build of the tree has a report with three entries. -/
theorem mixedTree_entries : ∃ report entries, (build mixedSettings mixedTree).1 = .ok report ∧
    List.Forall₂ (mixedSettings.Entered mixedTree)
      [["a.wxml"], ["b.wxml"], ["in", "c.wxml"]] entries ∧
    report.compiled = entries.filterMap Sum.getLeft? ∧
    report.failed = entries.filterMap Sum.getRight? := by
  have given : Settings.ofMapping mixedTree [(.text "out", .text "in/out"),
      (.text "exclude", .list []), (.text "fail_fast", .bool false)] (.ofString "/w") =
      .ok mixedSettings := by decide +kernel
  have ready : mixedSettings.Collects mixedTree :=
    ⟨Settings.fresh_of_ofMapping (by decide +kernel) given rfl, rfl, by decide +kernel,
      by decide +kernel⟩
  have sources : sourcesOf mixedSettings mixedTree =
      .ok [["a.wxml"], ["b.wxml"], ["in", "c.wxml"]] :=
    eq_ok_of_toOption (by decide +kernel)
  refine (collecting_build ready sources ?_).1 mixedTree_placeable
  intro rel hrel bytes hfile
  simp only [List.mem_cons, List.not_mem_nil, or_false] at hrel
  rcases hrel with rfl | rfl | rfl
  · cases hfile
    exact ⟨"<a/>", eq_ok_of_toOption (by decide +kernel)⟩
  · cases hfile
    exact ⟨"<b", eq_ok_of_toOption (by decide +kernel)⟩
  · cases hfile
    exact ⟨"<c/>", eq_ok_of_toOption (by decide +kernel)⟩

/-- An output in the way of another one. -/
def blockedTree : Entry :=
  .folder [("w", .folder [
    ("a.jsx", .folder [("b.wxml", .file (Text.encode "<b/>"))]),
    ("a.wxml", .file (Text.encode "<a/>"))])]

/-- A source that is no text, and another one. -/
def binaryTree : Entry :=
  .folder [("w", .folder [
    ("a.wxml", .file [0xff]),
    ("b.wxml", .file (Text.encode "<b/>"))])]

/-- Settings that report failures and put the outputs in a new folder. -/
def plainSettings : Settings := ⟨["w"], ["w", "dist"], [".wxml"], ".jsx", [], false⟩

/-- Builds that can start and report failures can end without a report. -/
theorem collecting_build_ends :
    let raw := [(.text "exclude", .list []), (.text "fail_fast", .bool false)]
    ¬ plainSettings.out <+: plainSettings.src ∧
      (Settings.ofMapping blockedTree raw (.ofString "/w") = .ok plainSettings ∧
        plainSettings.Collects blockedTree ∧
        ∀ report, (build plainSettings blockedTree).1 ≠ .ok report) ∧
      (Settings.ofMapping binaryTree raw (.ofString "/w") = .ok plainSettings ∧
        plainSettings.Collects binaryTree ∧
        ∀ report, (build plainSettings binaryTree).1 ≠ .ok report) := by
  have noReport : ∀ tree : Entry, (build plainSettings tree).1.toOption.isNone = true →
      ∀ report, (build plainSettings tree).1 ≠ .ok report := by
    intro tree hnone report h
    rw [h] at hnone
    cases hnone
  have given : Settings.ofMapping blockedTree [(.text "exclude", .list []),
      (.text "fail_fast", .bool false)] (.ofString "/w") = .ok plainSettings := by decide +kernel
  have given' : Settings.ofMapping binaryTree [(.text "exclude", .list []),
      (.text "fail_fast", .bool false)] (.ofString "/w") = .ok plainSettings := by decide +kernel
  refine ⟨by decide +kernel, ⟨given, ⟨?_, rfl, by decide +kernel, by decide +kernel⟩,
    noReport _ (by decide +kernel)⟩, given', ⟨?_, rfl, by decide +kernel, by decide +kernel⟩,
    noReport _ (by decide +kernel)⟩
  · exact Settings.fresh_of_ofMapping (by decide +kernel) given rfl
  · exact Settings.fresh_of_ofMapping (by decide +kernel) given' rfl

end Wxml
