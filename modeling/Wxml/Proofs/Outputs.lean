import Mathlib.Data.List.Nodup
import Wxml.Proofs.FreshBuild

/-!
# What a build leaves of its sources

A build writes the code of every source that compiles to a place below the output folder. Two
sources can have the same place: names that differ in what is cut off with the suffix give one
output name. Then the later one in the order of the sources stays (`outputs_collide`).

**The law** (`outputs_of_build`): a build that ends well reports the outputs of the sources that
compile, in order; and behind it the output of a source holds the code of that source, unless a
later source that compiles has the same output.

**Not established**: what a build leaves that does not end well, and what becomes of files below the
output folder that no source has as its output. There are none of the latter where nothing was at
the place of the outputs.
-/

namespace Wxml

/-! ## Output paths -/

/-- A path tells its names apart, if none of them holds a slash. -/
theorem Location.relativeText_inj {l m : Location} (hl : l ≠ []) (hm : m ≠ [])
    (plain : ∀ name ∈ l, '/' ∉ name.toList) (plain' : ∀ name ∈ m, '/' ∉ name.toList)
    (h : l.relativeText = m.relativeText) : l = m := by
  have hsplit : ∀ k : Location, k ≠ [] → (∀ name ∈ k, '/' ∉ name.toList) →
      k.relativeText.toList.splitOn '/' = k.map String.toList := by
    intro k hk hplain
    rw [relativeText, String.toList_intercalate]
    refine List.splitOn_intercalate '/' ?_ ?_
    · simpa only [List.forall_mem_map] using hplain
    · simpa only [ne_eq, List.map_eq_nil_iff] using hk
  have hnames : l.map String.toList = m.map String.toList := by
    rw [← hsplit l hl plain, ← hsplit m hm plain', h]
  exact List.map_injective_iff.mpr (fun _ _ => String.toList_inj.mp) hnames

namespace Settings

variable {s : Settings} {tree : Entry} {rel : Location}

/-- No name of an output holds a slash, so that its path in the report tells its names apart. -/
theorem Fresh.slashless_output (start : s.Fresh tree) (source : s.IsSource tree rel)
    {below : Location} (name : s.outputBelow rel = .ok below) :
    ∀ name ∈ below, '/' ∉ name.toList := by
  obtain ⟨hne, bytes, h⟩ := source
  obtain ⟨hsuffix, rfl⟩ := outputBelow_eq_ok.mp name
  have hlegal : ∀ part ∈ rel, part ≠ "" ∧ part.toList.contains '/' = false := by
    intro part hpart
    have := (Entry.plain_of_get? start.plain h).1 part (List.mem_append_right _ hpart)
    simp only [Entry.isFileName, Bool.and_eq_true, bne_iff_ne, Bool.not_eq_true'] at this
    exact ⟨this.1.1.1.1, this.1.2⟩
  have hslash : s.suffix.toList.contains '/' = false := by
    rw [isSuffix, Bool.and_eq_true, Bool.not_eq_true'] at hsuffix
    exact hsuffix.2
  have hlast := hlegal _ (getLastD_mem hne)
  intro part hpart
  rw [← List.contains_iff_mem, Bool.not_eq_true]
  rw [List.mem_append, List.mem_singleton] at hpart
  rcases hpart with hfolder | rfl
  · exact (hlegal part ((List.dropLast_sublist rel).mem hfolder)).2
  · exact not_contains_withSuffix hlast.1 hlast.2 hslash

/-! ## Sources that compile -/

/-- The code of a source, if it has any. -/
def codeOf? (s : Settings) (tree : Entry) (rel : Location) : Option String :=
  (s.sourceText tree rel).toOption.bind fun text => (compile text).1.toOption

/-- Whether a source compiles. -/
def compiles (s : Settings) (tree : Entry) (rel : Location) : Bool := (s.codeOf? tree rel).isSome

theorem codeOf?_of_compiled {text code : String} (read : s.sourceText tree rel = .ok text)
    (compiled : (compile text).1 = .ok code) : s.codeOf? tree rel = some code := by
  rw [codeOf?, read]
  exact congrArg Except.toOption compiled

theorem codeOf?_of_refused {text : String} {e : CompileError}
    (read : s.sourceText tree rel = .ok text) (refused : (compile text).1 = .error e) :
    s.codeOf? tree rel = none := by
  rw [codeOf?, read]
  exact congrArg Except.toOption refused

theorem compiles_of_compiled {text code : String} (read : s.sourceText tree rel = .ok text)
    (compiled : (compile text).1 = .ok code) : s.compiles tree rel = true := by
  rw [compiles, codeOf?_of_compiled read compiled]
  rfl

theorem not_compiles_of_refused {text : String} {e : CompileError}
    (read : s.sourceText tree rel = .ok text) (refused : (compile text).1 = .error e) :
    ¬ s.compiles tree rel = true := by
  rw [compiles, codeOf?_of_refused read refused]
  exact Bool.false_ne_true

/-! ## Runs -/

section Runs

variable {st last : BuildState} {rels : List Location}

/-- A run can be stopped at any source, and goes on from there. -/
theorem Runs.split {more : List Location} (runs : s.Runs tree st (rels ++ more) last) :
    ∃ mid, s.Runs tree st rels mid ∧ s.Runs tree mid more last := by
  induction rels generalizing st with
  | nil => exact ⟨st, .nil st, runs⟩
  | cons rel rels ih =>
    cases runs with
    | cons first rest =>
      obtain ⟨mid, before, after⟩ := ih rest
      exact ⟨mid, .cons first before, after⟩

/-- A run reports the outputs of the sources that compile, in the order of the sources, behind what
was reported before. -/
theorem Runs.compiled_eq (runs : s.Runs tree st rels last) :
    ∃ outputs, (rels.filter (s.compiles tree)).mapM s.outputBelow = .ok outputs ∧
      last.report.compiled = st.report.compiled ++ outputs.map Location.relativeText := by
  induction runs with
  | nil st => exact ⟨[], rfl, (List.append_nil _).symm⟩
  | @cons st st' last rel rels first rest ih =>
    obtain ⟨outputs, houtputs, hlast⟩ := ih
    cases first with
    | reported read refused collects =>
      refine ⟨outputs, ?_, hlast⟩
      rw [List.filter_cons_of_neg (not_compiles_of_refused read refused)]
      exact houtputs
    | @emitted text code below read compiled name possible free =>
      refine ⟨below :: outputs, ?_, ?_⟩
      · rw [List.filter_cons_of_pos (compiles_of_compiled read compiled), List.mapM_cons, name,
          houtputs]
        rfl
      · rw [hlast, List.map_cons, List.append_cons]
        rfl

/-- Outputs at other places leave a file alone. Only an output at its own place could replace it. -/
theorem Runs.kept (runs : s.Runs tree st rels last) {l : Location} {bytes : List UInt8}
    (h : st.tree.get? l = some (.file bytes))
    (others : ∀ rel ∈ rels, s.compiles tree rel = true → s.outputOf rel ≠ .ok l) :
    last.tree.get? l = some (.file bytes) := by
  induction runs with
  | nil st => exact h
  | @cons st st' last rel rels first rest ih =>
    rw [List.forall_mem_cons] at others
    refine ih ?_ others.2
    cases first with
    | reported => exact h
    | emitted read compiled name possible free =>
      have hother := others.1 (compiles_of_compiled read compiled)
      rw [outputOf, name] at hother
      exact free.get?_put_of_file (fun heq => hother (congrArg Except.ok heq.symm)) h _

/-- **The last output stays.** The run is split at the source: there its output is written, and
nothing that is written later is at the same place. -/
theorem Runs.get?_output {before after : List Location} {code : String}
    (runs : s.Runs tree st (before ++ rel :: after) last) (hcode : s.codeOf? tree rel = some code)
    (others : ∀ later ∈ after, s.compiles tree later = true → s.outputOf later ≠ s.outputOf rel) :
    ∃ target, s.outputOf rel = .ok target ∧
      last.tree.get? target = some (.file (outputBytes code)) := by
  obtain ⟨mid, -, runs⟩ := runs.split
  cases runs with
  | cons first rest =>
    cases first with
    | reported read refused =>
      rw [codeOf?_of_refused read refused] at hcode
      cases hcode
    | @emitted text code' below read compiled name possible free =>
      rw [codeOf?_of_compiled read compiled] at hcode
      cases hcode
      have htarget : s.outputOf rel = .ok (s.out ++ below) := by
        rw [outputOf, name]
        rfl
      rw [htarget] at others
      exact ⟨_, htarget, rest.kept (Entry.get?_put_self free.way _) others⟩

end Runs

/-- The outputs of some sources are outputs of them, each of one at least. -/
theorem mem_of_mapM {rels outputs : List Location} (h : rels.mapM s.outputBelow = .ok outputs)
    {below : Location} (hbelow : below ∈ outputs) :
    ∃ rel ∈ rels, s.outputBelow rel = .ok below := by
  induction rels generalizing outputs with
  | nil =>
    cases h
    exact absurd hbelow List.not_mem_nil
  | cons rel rels ih =>
    rw [List.mapM_cons] at h
    obtain ⟨first, hfirst, h⟩ := bind_eq_ok h
    obtain ⟨rest, hrest, h⟩ := bind_eq_ok h
    cases h
    rcases List.mem_cons.mp hbelow with rfl | hrestMem
    · exact ⟨rel, List.mem_cons_self, hfirst⟩
    · obtain ⟨rel', hrel', hname⟩ := ih hrest hrestMem
      exact ⟨rel', List.mem_cons_of_mem _ hrel', hname⟩

end Settings

/-- **What a build leaves.** Take settings that are accepted and a plain tree with nothing at the
place of the outputs, read the patterns in any way, and let the build end well. Its report lists the
outputs of the sources that compile, in the order of the sources, and so holds a path twice just if
two of them have the same output. The output of a source that compiles is a file with its code and a
line feed, unless a later source that compiles has the same output. -/
theorem outputs_of_build {tree : Entry} {raw : List (Value × Value)} {base : Path} {s : Settings}
    {matcher : Matcher} {report : Report} (plain : tree.isPlain = true)
    (given : Settings.ofMapping tree raw base = .ok s)
    (fresh : tree.get? s.out = none) (built : (build s tree matcher).1 = .ok report) :
    ∃ sources outputs, sourcesOf s tree matcher = .ok sources ∧
      (sources.filter (s.compiles tree)).mapM s.outputBelow = .ok outputs ∧
      report.compiled = outputs.map Location.relativeText ∧
      (report.compiled.Nodup ↔ outputs.Nodup) ∧
      ∀ before rel after code, sources = before ++ rel :: after →
        s.codeOf? tree rel = some code →
        (∀ later ∈ after, s.compiles tree later = true → s.outputOf later ≠ s.outputOf rel) →
        ∃ target, s.outputOf rel = .ok target ∧
          (build s tree matcher).2.tree.get? target =
            some (.file (Text.encode (code ++ "\n"))) := by
  have start := Settings.fresh_of_ofMapping plain given fresh
  obtain ⟨found, rules, hrules⟩ := found_of_build built
  obtain ⟨runs, hreport⟩ := (start.build_eq_ok_iff found hrules).mp (Prod.ext built rfl)
  obtain ⟨outputs, houtputs, hcompiled⟩ := runs.compiled_eq
  have hlist : report.compiled = outputs.map Location.relativeText := by
    rw [hreport, hcompiled]
    rfl
  refine ⟨rules.sources tree, outputs, ?_, houtputs, hlist, ?_, ?_⟩
  · rw [sourcesOf, hrules]
    rfl
  · rw [hlist]
    refine ⟨List.Nodup.of_map _, List.Nodup.map_on ?_⟩
    have source : ∀ below ∈ outputs,
        ∃ rel, s.IsSource tree rel ∧ s.outputBelow rel = .ok below := by
      intro below hbelow
      obtain ⟨rel, hrel, name⟩ := Settings.mem_of_mapM houtputs hbelow
      exact ⟨rel, start.isSource_of_mem_sources hrules (List.mem_filter.mp hrel).1, name⟩
    intro x hx y hy htext
    obtain ⟨relx, sourcex, namex⟩ := source x hx
    obtain ⟨rely, sourcey, namey⟩ := source y hy
    exact Location.relativeText_inj (Settings.output_ne_nil namex) (Settings.output_ne_nil namey)
      (start.slashless_output sourcex namex) (start.slashless_output sourcey namey) htext
  · intro before rel after code hparts hcode others
    rw [hparts] at runs
    exact runs.get?_output hcode others

/-- Two sources whose names differ in the case of the suffix, and one in a folder that takes the
outputs of all three. -/
def twinTree : Entry :=
  .folder [("w", .folder [
    ("a.WXML", .file (Text.encode "<a/>")),
    ("a.wxml", .file (Text.encode "<b/>")),
    ("in", .folder [("c.wxml", .file (Text.encode "<c/>"))])])]

/-- The settings that put the outputs of the tree in its folder. -/
def twinSettings : Settings :=
  ⟨["w"], ["w", "in", "new", "out"], [".wxml"], ".jsx", [], true⟩

theorem twinTree_given : Settings.ofMapping twinTree
    [(.text "out", .text "in/new/out"), (.text "exclude", .list [])] (.ofString "/w") =
      .ok twinSettings := by decide +kernel

/-- The search finds the twins one after the other, upper case first. -/
theorem twinTree_sources :
    sourcesOf twinSettings twinTree = .ok [["a.WXML"], ["a.wxml"], ["in", "c.wxml"]] :=
  eq_ok_of_toOption (by decide +kernel)

/-- The build ends well, and its report lists one path twice. -/
theorem twinTree_built : ∃ report, (build twinSettings twinTree).1 = .ok report ∧
    report.compiled = ["a.jsx", "a.jsx", "in/c.jsx"] := by
  have hcompiled : ((build twinSettings twinTree).1.toOption.map (·.compiled)) =
      some ["a.jsx", "a.jsx", "in/c.jsx"] := by decide +kernel
  obtain ⟨report, hreport, hlist⟩ := Option.map_eq_some_iff.mp hcompiled
  exact ⟨report, eq_ok_of_toOption hreport, hlist⟩

/-- The first of the twins is lost, though the build ends well. -/
theorem outputs_collide :
    let s := twinSettings
    twinTree.isPlain = true ∧
      Settings.ofMapping twinTree [(.text "out", .text "in/new/out"), (.text "exclude", .list [])]
        (.ofString "/w") = .ok s ∧
      twinTree.get? s.out = none ∧ ¬ s.out <+: s.src ∧
      sourcesOf s twinTree = .ok [["a.WXML"], ["a.wxml"], ["in", "c.wxml"]] ∧
      s.codeOf? twinTree ["a.WXML"] = some "<A/>" ∧
      ∃ report target, (build s twinTree).1 = .ok report ∧ ¬ report.compiled.Nodup ∧
        s.outputOf ["a.WXML"] = .ok target ∧
        (build s twinTree).2.tree.get? target ≠ some (.file (Text.encode ("<A/>" ++ "\n"))) := by
  obtain ⟨report, built, hlist⟩ := twinTree_built
  refine ⟨by decide +kernel, twinTree_given, rfl, by decide +kernel, twinTree_sources,
    by decide +kernel, report, ["w", "in", "new", "out", "a.jsx"], built, ?_,
    eq_ok_of_toOption (by decide +kernel), ?_⟩
  · rw [hlist]
    decide +kernel
  · have hfiles : ((build twinSettings twinTree).2.tree.get? ["w", "in", "new", "out", "a.jsx"]).map
        (Entry.files []) = some [([], Text.encode "<B/>\n")] := by decide +kernel
    intro h
    rw [h] at hfiles
    exact absurd hfiles (by decide +kernel)

/-- The second of the twins stays, and so does the source behind it. -/
theorem twinTree_outputs : ∃ report target target',
    (build twinSettings twinTree).1 = .ok report ∧
      twinSettings.outputOf ["a.wxml"] = .ok target ∧
      (build twinSettings twinTree).2.tree.get? target =
        some (.file (Text.encode ("<B/>" ++ "\n"))) ∧
      twinSettings.outputOf ["in", "c.wxml"] = .ok target' ∧
      (build twinSettings twinTree).2.tree.get? target' =
        some (.file (Text.encode ("<C/>" ++ "\n"))) := by
  obtain ⟨report, built, -⟩ := twinTree_built
  obtain ⟨sources, -, hsources, -, -, -, kept⟩ :=
    outputs_of_build (by decide +kernel) twinTree_given rfl built
  cases twinTree_sources.symm.trans hsources
  have apart : ∀ later ∈ [["in", "c.wxml"]], twinSettings.compiles twinTree later = true →
      twinSettings.outputOf later ≠ twinSettings.outputOf ["a.wxml"] := by
    intro later hlater _ heq
    rw [List.mem_singleton.mp hlater] at heq
    exact absurd (congrArg Except.toOption heq) (by decide +kernel)
  obtain ⟨target, htarget, hfile⟩ := kept [["a.WXML"]] ["a.wxml"] [["in", "c.wxml"]] "<B/>" rfl
    (by decide +kernel) apart
  obtain ⟨target', htarget', hfile'⟩ := kept [["a.WXML"], ["a.wxml"]] ["in", "c.wxml"] [] "<C/>" rfl
    (by decide +kernel) (fun _ hlater => absurd hlater List.not_mem_nil)
  exact ⟨report, target, target', built, htarget, hfile, htarget', hfile'⟩

end Wxml
