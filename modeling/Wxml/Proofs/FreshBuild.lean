import Wxml.Proofs.FailFast
import Wxml.Proofs.OutputFolder
import Wxml.Proofs.SettledPaths

/-!
# Builds that start without outputs

A build of a plain tree that has nothing where the outputs go (`Settings.Fresh`). What it writes
does not change what it reads: it finds the sources of the tree as it was (`buildAll_eq_forM`), and
each has the text that it had. So what a build does with its sources can be said about the given
tree alone.

- With one source it does one of two things (`Settings.Handles`): the source does not compile and is
  reported, or its code is set at its place, which is free.
- A build that ends well is a row of such steps (`Settings.Runs`), and only such a build does
  (`buildAll_eq_ok_iff`).

**Not established**: builds over earlier outputs, and builds of trees with links. The second build
of a tree is none that starts without outputs.
-/

namespace Wxml

open Entry (LinkFree Grown Free)

/-! ## Reading beside the outputs -/

/-- A file that was there is there while outputs are written, as nothing was at their place. -/
theorem Entry.Grown.get?_of_file {tree now : Entry} {out l : Location} (grown : tree.Grown out now)
    (fresh : tree.get? out = none) {bytes : List UInt8} (h : tree.get? l = some (.file bytes)) :
    now.get? l = some (.file bytes) := by
  cases grown with
  | start => exact h
  | outputs way _ =>
    rw [Entry.get?_put_of_apart ?_ ?_, h]
    · rintro ⟨k, rfl⟩
      rw [Entry.get?_append, fresh] at h
      cases h
    · rintro ⟨k, rfl⟩
      obtain ⟨es, hes⟩ := Entry.folder_of_admits way fresh h
      cases hes

/-- What is found in a plain tree is at a settled location. -/
theorem Entry.settled_of_get? {tree e : Entry} {l : Location} (plain : tree.isPlain = true)
    (h : tree.get? l = some e) : l.Settled := by
  intro name hname
  have hlegal := (Entry.plain_of_get? plain h).1 name hname
  simp only [Entry.isFileName, Bool.and_eq_true, bne_iff_ne, Bool.not_eq_true'] at hlegal
  exact ⟨hlegal.1.1.2, hlegal.2⟩

namespace Settings

/-- **A build that starts without outputs**, of a plain tree. -/
structure Fresh (s : Settings) (tree : Entry) : Prop where
  plain : tree.isPlain = true
  src : s.src.Settled
  out : s.out.Settled
  free : tree.get? s.out = none

/-- Accepted settings give settled folders, so that only the tree has to be looked at. -/
theorem fresh_of_ofMapping {s : Settings} {tree : Entry} {raw : List (Value × Value)} {base : Path}
    (plain : tree.isPlain = true) (given : ofMapping tree raw base = .ok s)
    (free : tree.get? s.out = none) : s.Fresh tree :=
  have settled := settled_of_ofMapping (Entry.linkFree_of_isPlain plain) given
  ⟨plain, settled.1, settled.2, free⟩

/-- A file below the source folder. -/
def IsSource (s : Settings) (tree : Entry) (rel : Location) : Prop :=
  rel ≠ [] ∧ ∃ bytes, tree.get? (s.src ++ rel) = some (.file bytes)

variable {s : Settings} {tree now : Entry} {rel : Location} {matcher : Matcher}

/-- The text of a source is that of its file, if it is one. -/
theorem sourceText_of_file (links : now.LinkFree) (settled : (s.src ++ rel).Settled)
    {bytes : List UInt8} (h : now.get? (s.src ++ rel) = some (.file bytes)) :
    s.sourceText now rel = (Text.decode bytes).mapError .decoding := by
  rw [sourceText, links.read_of_file settled.descends settled.hasNul h]
  rfl

/-- Outputs do not change the text of a source: its file is there as it was, and is read by a path
without links. -/
theorem Fresh.sourceText_eq (start : s.Fresh tree) (grown : tree.Grown s.out now)
    (source : s.IsSource tree rel) : s.sourceText now rel = s.sourceText tree rel := by
  obtain ⟨-, bytes, h⟩ := source
  have links := Entry.linkFree_of_isPlain start.plain
  have settled := Entry.settled_of_get? start.plain h
  rw [sourceText_of_file links settled h,
    sourceText_of_file (grown.linkFree links) settled (grown.get?_of_file start.free h)]

/-- An output has the place of its source, with another suffix. This fails for an impossible suffix
only. -/
theorem outputBelow_eq_ok {below : Location} :
    s.outputBelow rel = .ok below ↔ isSuffix s.suffix = true ∧
      below = rel.dropLast ++ [withSuffix (rel.getLastD "") s.suffix] := by
  unfold outputBelow
  cases isSuffix s.suffix with
  | true =>
    rw [if_pos rfl, Except.ok.injEq]
    exact ⟨fun h => ⟨rfl, h.symm⟩, fun h => h.2.symm⟩
  | false =>
    rw [if_neg Bool.false_ne_true]
    constructor
    · intro h
      cases h
    · intro h
      cases h.1

theorem output_ne_nil {below : Location} (name : s.outputBelow rel = .ok below) : below ≠ [] := by
  rw [(outputBelow_eq_ok.mp name).2]
  exact List.append_ne_nil_of_right_ne_nil _ (List.cons_ne_nil _ _)

/-- The name of a source is one of the names on its path. -/
theorem getLastD_mem (hne : rel ≠ []) : rel.getLastD "" ∈ rel := by
  obtain ⟨parent, name, rfl⟩ : ∃ parent name, rel = parent ++ [name] :=
    ⟨_, _, (List.dropLast_concat_getLast hne).symm⟩
  rw [List.getLastD_concat]
  exact List.mem_append_right _ List.mem_cons_self

/-- The place of an output lies below the output folder: neither its folders nor its name lead
up. -/
theorem Fresh.descends_output (start : s.Fresh tree) (source : s.IsSource tree rel)
    {below : Location} (name : s.outputBelow rel = .ok below) : (s.out ++ below).Descends := by
  obtain ⟨hne, bytes, h⟩ := source
  obtain ⟨hsuffix, rfl⟩ := outputBelow_eq_ok.mp name
  have hlegal := (Entry.plain_of_get? start.plain h).1
  have settled := Entry.settled_of_get? start.plain h
  intro part hpart
  rw [List.mem_append, List.mem_append, List.mem_singleton] at hpart
  rcases hpart with hout | hfolder | rfl
  · exact (start.out part hout).1
  · exact (settled part (List.mem_append_right _ ((List.dropLast_sublist rel).mem hfolder))).1
  · refine withSuffix_ne_up ?_ hsuffix
    intro hempty
    have := hlegal _ (List.mem_append_right _ (getLastD_mem hne))
    rw [hempty] at this
    cases this

/-! ## One source -/

/-- The bytes of an output. -/
def outputBytes (code : String) : List UInt8 := Text.encode (code ++ "\n")

/-- **What a build does with a source**, unless it ends there. -/
inductive Handles (s : Settings) (tree : Entry) (rel : Location) (st : BuildState) :
    BuildState → Prop
  | reported {text : String} {e : CompileError} (read : s.sourceText tree rel = .ok text)
      (refused : (compile text).1 = .error e) (collects : s.failFast = false) :
      Handles s tree rel st ((st.noticed (compile text).2).recorded rel.relativeText e)
  | emitted {text code : String} {below : Location} (read : s.sourceText tree rel = .ok text)
      (compiled : (compile text).1 = .ok code) (name : s.outputBelow rel = .ok below)
      (possible : (Path.ofLocation (s.out ++ below)).hasNul = false)
      (free : st.tree.Free (s.out ++ below)) :
      Handles s tree rel st ((st.noticed (compile text).2).emitted
        (st.tree.put (s.out ++ below) (.file (outputBytes code))) rel below)

/-- The step: what is done with a source writes below the output folder, or not at all. -/
theorem Handles.grown {st st' : BuildState} (handles : s.Handles tree rel st st')
    (start : s.Fresh tree) (grown : tree.Grown s.out st.tree) : tree.Grown s.out st'.tree := by
  cases handles with
  | reported => exact grown
  | emitted read compiled name possible free =>
    exact grown.put start.free (output_ne_nil name) free.way _

/-- The outputs lie in a folder. A tree that is a file has no source below it. -/
theorem Fresh.folder_of_grown (start : s.Fresh tree) (grown : tree.Grown s.out now)
    (source : s.IsSource tree rel) : ∃ es, now = .folder es := by
  obtain ⟨hne, bytes, h⟩ := source
  have hnow := grown.get?_of_file start.free h
  cases hl : s.src ++ rel with
  | nil => exact absurd (List.append_eq_nil_iff.mp hl).2 hne
  | cons name rest =>
    rw [hl] at hnow
    exact Entry.folder_of_get?_cons hnow

/-- Writing an output is setting it, where its place is free. -/
theorem Fresh.emit_eq_ok_iff (start : s.Fresh tree) (source : s.IsSource tree rel)
    {st st' : BuildState} (grown : tree.Grown s.out st.tree) {code : String} :
    BuildM.emit s rel code st = .ok () st' ↔ ∃ below, s.outputBelow rel = .ok below ∧
      (Path.ofLocation (s.out ++ below)).hasNul = false ∧ st.tree.Free (s.out ++ below) ∧
      st' = st.emitted (st.tree.put (s.out ++ below) (.file (outputBytes code))) rel below := by
  have links := grown.linkFree (Entry.linkFree_of_isPlain start.plain)
  obtain ⟨es, root⟩ := start.folder_of_grown grown source
  have writes : ∀ {below written}, s.outputBelow rel = .ok below →
      ((∃ made, st.tree.makeFolders [] (s.out ++ below).dropLast = .ok made ∧
          made.write [] (.ofLocation (s.out ++ below)) (outputBytes code) = .ok written) ↔
        (Path.ofLocation (s.out ++ below)).hasNul = false ∧ st.tree.Free (s.out ++ below) ∧
          written = st.tree.put (s.out ++ below) (.file (outputBytes code))) := fun name =>
    links.writes_iff root (List.append_ne_nil_of_right_ne_nil _ (output_ne_nil name))
      (start.descends_output source name)
  have hemits := BuildM.emits s rel code st
  generalize BuildM.emit s rel code st = r at hemits
  constructor
  · rintro rfl
    cases hemits with
    | written name folders file =>
      obtain ⟨possible, free, rfl⟩ := (writes name).mp ⟨_, folders, file⟩
      exact ⟨_, name, possible, free, rfl⟩
  · rintro ⟨below, name, possible, free, rfl⟩
    obtain ⟨made, hmade, hwrite⟩ := (writes name).mpr ⟨possible, free, rfl⟩
    cases hemits with
    | unnamed hname => cases name.symm.trans hname
    | blocked hname folders =>
      cases name.symm.trans hname
      cases hmade.symm.trans folders
    | unwritten hname folders file =>
      cases name.symm.trans hname
      cases hmade.symm.trans folders
      cases hwrite.symm.trans file
    | written hname folders file =>
      cases name.symm.trans hname
      cases hmade.symm.trans folders
      cases hwrite.symm.trans file
      rfl

/-- **A source is handled in one of two ways**, or the build ends. Both ways are told from the given
tree and the place of the output alone. -/
theorem Fresh.source_eq_ok_iff (start : s.Fresh tree) (source : s.IsSource tree rel)
    {st st' : BuildState} (grown : tree.Grown s.out st.tree) :
    BuildM.source s rel st = .ok () st' ↔ s.Handles tree rel st st' := by
  have same := start.sourceText_eq grown source
  constructor
  · intro h
    cases s.sourceShape st.tree rel with
    | unreadable read =>
      rw [BuildM.source_of_unreadable read] at h
      cases h
    | refused read refused =>
      rw [BuildM.source_of_refused read refused] at h
      cases hfast : s.failFast with
      | true =>
        rw [hfast] at h
        cases h
      | false =>
        rw [hfast] at h
        cases h
        exact .reported (same ▸ read) refused hfast
    | @compiled text code read compiled =>
      have grown' : tree.Grown s.out (st.noticed (compile text).2).tree := grown
      rw [BuildM.source_of_compiled read compiled] at h
      obtain ⟨below, name, possible, free, rfl⟩ := (start.emit_eq_ok_iff source grown').mp h
      exact .emitted (same ▸ read) compiled name possible free
  · intro h
    cases h with
    | reported read refused collects =>
      rw [BuildM.source_of_refused (same.trans read) refused, collects]
      rfl
    | @emitted text code below read compiled name possible free =>
      have grown' : tree.Grown s.out (st.noticed (compile text).2).tree := grown
      rw [BuildM.source_of_compiled (same.trans read) compiled]
      exact (start.emit_eq_ok_iff source grown').mpr ⟨below, name, possible, free, rfl⟩

/-! ## Many sources -/

/-- **What a build does with its sources**, one after the other. -/
inductive Runs (s : Settings) (tree : Entry) : BuildState → List Location → BuildState → Prop
  | nil (st : BuildState) : Runs s tree st [] st
  | cons {st st' last : BuildState} {rel : Location} {rels : List Location}
      (first : s.Handles tree rel st st') (rest : Runs s tree st' rels last) :
      Runs s tree st (rel :: rels) last

/-- A loop over sources ends well when it is a row of such steps. The induction is on the sources,
with the form of the tree as its invariant. -/
theorem Fresh.forM_eq_ok_iff (start : s.Fresh tree) {rels : List Location}
    (sources : ∀ rel ∈ rels, s.IsSource tree rel) {st last : BuildState}
    (grown : tree.Grown s.out st.tree) :
    rels.forM (BuildM.source s) st = .ok () last ↔ s.Runs tree st rels last := by
  induction rels generalizing st with
  | nil =>
    constructor
    · intro h
      cases h
      exact .nil _
    · intro h
      cases h
      rfl
  | cons rel rels ih =>
    rw [List.forall_mem_cons] at sources
    constructor
    · intro h
      cases hsource : BuildM.source s rel st with
      | error e st' =>
        rw [forM_cons_of_error hsource] at h
        cases h
      | ok u st' =>
        rw [forM_cons_of_ok hsource] at h
        have first := (start.source_eq_ok_iff sources.1 grown).mp hsource
        exact .cons first ((ih sources.2 (first.grown start grown)).mp h)
    · intro h
      cases h with
      | cons first rest =>
        rw [forM_cons_of_ok ((start.source_eq_ok_iff sources.1 grown).mpr first)]
        exact (ih sources.2 (first.grown start grown)).mpr rest

/-! ## Whole builds -/

/-- The rules of a build have the folders of its settings, whatever its patterns are. -/
theorem sourceRules_eq {rules : SourceRules} (h : s.sourceRules matcher = .ok rules) :
    rules.src = s.src ∧ rules.out = s.out := by
  unfold sourceRules at h
  cases hpatterns : matcher s.exclude with
  | error pattern =>
    rw [hpatterns] at h
    cases h
  | ok excluded =>
    rw [hpatterns] at h
    cases h
    exact ⟨rfl, rfl⟩

/-- A file that the search takes in a plain tree is a source. -/
theorem Fresh.isSource_of_mem (start : s.Fresh tree) {rules : SourceRules}
    (hrules : s.sourceRules matcher = .ok rules) {file : Location}
    (hfile : file ∈ rules.filesIn tree rel) :
    s.IsSource tree file := by
  obtain ⟨name, hname, rfl, hfolder, -⟩ := SourceRules.mem_filesIn.mp hfile
  have links := Entry.linkFree_of_isPlain start.plain
  have down := SourceRules.descends_of_mem_names start.plain hname
  obtain ⟨e, he⟩ := Option.isSome_iff_exists.mp (SourceRules.mem_names.mp hname)
  rw [List.append_assoc] at he
  refine ⟨List.append_ne_nil_of_right_ne_nil _ (List.cons_ne_nil _ _), ?_⟩
  rw [← (sourceRules_eq hrules).1]
  cases e with
  | file bytes => exact ⟨bytes, he⟩
  | link target => exact absurd he (links _ target)
  | folder es =>
    have := (SourceRules.leadsToFolder_iff links down).mpr ⟨es, he⟩
    rw [hfolder] at this
    cases this

/-- **A build is the loop over the sources of the given tree.** It has room for more folders than
there are outside the output folder, so it never comes too deep. -/
theorem Fresh.buildAll_eq_forM (start : s.Fresh tree) {rules : SourceRules}
    (found : tree.hasFolder [] (.ofLocation s.src) = true)
    (hrules : s.sourceRules matcher = .ok rules) :
    buildAll s matcher (SourceRules.depthLimit tree s.out) { tree } =
      (rules.sources tree).forM (BuildM.source s) { tree } := by
  obtain ⟨hsrc, hout⟩ := sourceRules_eq hrules
  have links := Entry.linkFree_of_isPlain start.plain
  have hreach : rules.Reach tree [] := by
    refine ⟨?_, ?_, Nat.zero_le _⟩
    · -- the outputs would be in the way of the source folder, and nothing is there
      rw [List.append_nil, hsrc, hout]
      rintro ⟨rest, hrest⟩
      obtain ⟨es, hes⟩ := (links.hasFolder_ofLocation start.src.descends).mp found
      rw [← hrest, Entry.get?_append, start.free] at hes
      cases hes
    · rw [List.append_nil, hsrc]
      exact start.src.descends
  have loops : SourceRules.Loops (fun st => tree.Grown s.out st.tree) (BuildM.source s)
      (rules.walk BuildState.tree (BuildM.source s) .tooDeep (SourceRules.depthLimit tree s.out) [])
      (rules.listed tree (SourceRules.depthLimit tree s.out) []) := by
    refine SourceRules.walk_loops_listed ?_ ?_ (fun rel hrel => Nat.lt_succ_of_le hrel.near) ?_
      hreach
    · intro st grown
      rw [← hout] at grown
      exact SourceRules.shows_of_grown start.plain (hout ▸ start.out.descends) (hout ▸ start.free)
        grown
    · intro rel _ file hfile st st' grown h
      have source := start.isSource_of_mem hrules hfile
      exact ((start.source_eq_ok_iff source grown).mp h).grown start grown
    · rw [SourceRules.depthLimit, List.length_nil, hout]
      omega
  rw [buildAll_of_rules found hrules, rules.sources_eq_listed tree, hout]
  exact (loops { tree } .start).1

theorem Fresh.isSource_of_mem_sources (start : s.Fresh tree) {rules : SourceRules}
    (hrules : s.sourceRules matcher = .ok rules) (hrel : rel ∈ rules.sources tree) :
    s.IsSource tree rel := by
  rw [rules.sources_eq_listed tree] at hrel
  obtain ⟨folder, hfile⟩ := SourceRules.mem_filesIn_of_mem_listed hrel
  exact start.isSource_of_mem hrules hfile

/-- **Builds that end well** are the runs along the sources of the given tree, and their reports are
those of the last state. -/
theorem Fresh.build_eq_ok_iff (start : s.Fresh tree) {rules : SourceRules}
    (found : tree.hasFolder [] (.ofLocation s.src) = true)
    (hrules : s.sourceRules matcher = .ok rules) {report : Report} {last : BuildState} :
    build s tree matcher = (.ok report, last) ↔
      s.Runs tree { tree } (rules.sources tree) last ∧ report = last.report := by
  have hruns : (rules.sources tree).forM (BuildM.source s) { tree } = .ok () last ↔ _ :=
    start.forM_eq_ok_iff (fun rel => start.isSource_of_mem_sources hrules) .start
  rw [build, start.buildAll_eq_forM found hrules, ← hruns]
  cases (rules.sources tree).forM (BuildM.source s) { tree } with
  | ok u st =>
    simp only [Prod.mk.injEq, Except.ok.injEq, EStateM.Result.ok.injEq, true_and]
    constructor
    · rintro ⟨rfl, rfl⟩
      exact ⟨rfl, rfl⟩
    · rintro ⟨rfl, rfl⟩
      exact ⟨rfl, rfl⟩
  | error e st =>
    simp only [Prod.mk.injEq, reduceCtorEq, false_and]

end Settings

/-- A build that ends well has found its source folder, and its patterns are rules. This holds of
every tree and however deep a build may get. -/
theorem found_of_build {s : Settings} {tree : Entry} {matcher : Matcher} {depth : Nat}
    {report : Report} (h : (build s tree matcher depth).1 = .ok report) :
    tree.hasFolder [] (.ofLocation s.src) = true ∧ ∃ rules, s.sourceRules matcher = .ok rules := by
  cases found : tree.hasFolder [] (.ofLocation s.src) with
  | false =>
    rw [build_of_error (buildAll_of_missing found)] at h
    cases h
  | true =>
    cases hrules : s.sourceRules matcher with
    | error e =>
      rw [build_of_error (buildAll_of_noRules found hrules)] at h
      cases h
    | ok rules => exact ⟨rfl, rules, rfl⟩

end Wxml
