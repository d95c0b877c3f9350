import Wxml.Build
import Wxml.Proofs.SourceWalk

/-!
# What handling one source can do

A build handles a source in one of a few ways, which its text decides. Each has its law here, so
that what is said about builds later never opens the step again.

- A source that is no text ends the build (`BuildM.source_of_unreadable`).
- A source that does not compile ends the build or is reported, as the settings say
  (`BuildM.source_of_refused`).
- All others have an output to write (`BuildM.source_of_compiled`), and what can come of that does
  not depend on how failures are treated (`BuildM.Emits`).

**Not established**: which of the ways a given source takes. That an output can be written depends
on the tree at that moment, and `Emits` only says what follows in each case.
-/

namespace Wxml

/-- The text of a source in a tree. -/
def Settings.sourceText (s : Settings) (tree : Entry) (rel : Location) : Except Failure String :=
  ((tree.read [] (.ofLocation (s.src ++ rel))).mapError .file).bind fun octets =>
    (Text.decode octets).mapError .decoding

/-- **The cases of a source**, by what the tree holds for it. -/
inductive Settings.SourceShape (s : Settings) (tree : Entry) (rel : Location) : Prop
  | unreadable {e : Failure} (read : s.sourceText tree rel = .error e)
  | refused {text : String} {e : CompileError} (read : s.sourceText tree rel = .ok text)
      (refused : (compile text).1 = .error e)
  | compiled {text code : String} (read : s.sourceText tree rel = .ok text)
      (compiled : (compile text).1 = .ok code)

/-- The three cases are all there are, so that what is said about one source is said case by
case. -/
theorem Settings.sourceShape (s : Settings) (tree : Entry) (rel : Location) :
    s.SourceShape tree rel := by
  cases read : s.sourceText tree rel with
  | error e => exact .unreadable read
  | ok text =>
    cases result : (compile text).1 with
    | error e => exact .refused read result
    | ok code => exact .compiled read result

/-- The state with more notices. -/
def BuildState.noticed (st : BuildState) (ns : List Notice) : BuildState :=
  { st with notices := st.notices ++ ns }

/-- The state with one more source that does not compile. -/
def BuildState.recorded (st : BuildState) (path : String) (e : CompileError) : BuildState :=
  { st.noticed [.sourceFailed path e] with
    report := { st.report with failed := st.report.failed ++ [(path, e)] } }

/-- The state with one more output, in a tree that has it. -/
def BuildState.emitted (st : BuildState) (tree : Entry) (rel below : Location) : BuildState :=
  { st.noticed [.sourceCompiled rel.relativeText] with
    tree
    report := { st.report with compiled := st.report.compiled ++ [below.relativeText] } }

namespace BuildM

variable {s : Settings} {rel : Location} {st : BuildState}

/-! ## Reading -/

/-- Reading a source leaves the state alone, and its answer depends on the tree only. -/
theorem readSource_eq (s : Settings) (rel : Location) (st : BuildState) :
    readSource s.src rel st = ofExcept (s.sourceText st.tree rel) st := by
  unfold Settings.sourceText
  show (ofExcept ((st.tree.read [] (.ofLocation (s.src ++ rel))).mapError .file) >>= fun octets =>
    ofExcept ((Text.decode octets).mapError .decoding)) st = _
  cases st.tree.read [] (.ofLocation (s.src ++ rel)) with
  | error e => rfl
  | ok octets => rfl

/-- A source that cannot be read, or is no text, ends a build of either kind. Nothing is noticed and
nothing is written. -/
theorem source_of_unreadable {e : Failure} (h : s.sourceText st.tree rel = .error e) :
    source s rel st = .error e st := by
  have hread := readSource_eq s rel st
  rw [h] at hread
  exact bind_of_error hread

/-! ## Compiling -/

/-- A source that does not compile: the notices of its compilation are kept in both kinds of
build. -/
theorem source_of_refused {text : String} {e : CompileError}
    (h : s.sourceText st.tree rel = .ok text) (refused : (compile text).1 = .error e) :
    source s rel st =
      if s.failFast then .error (.source rel.relativeText e) (st.noticed (compile text).2)
      else .ok () ((st.noticed (compile text).2).recorded rel.relativeText e) := by
  have hread := readSource_eq s rel st
  rw [h] at hread
  unfold source
  rw [bind_of_ok hread]
  dsimp only
  rw [refused]
  dsimp only
  cases s.failFast with
  | false => rfl
  | true => rfl

/-- Writes the output of a source and reports it. -/
def emit (s : Settings) (rel : Location) (code : String) : BuildM Unit := do
  let below ← ofExcept (s.outputBelow rel)
  writeOutput (s.out ++ below) code
  reportCompiled below.relativeText
  notice [.sourceCompiled rel.relativeText]

/-- A source that compiles: what is left to do is to write, which does not depend on how failures
are treated. -/
theorem source_of_compiled {text code : String} (h : s.sourceText st.tree rel = .ok text)
    (compiled : (compile text).1 = .ok code) :
    source s rel st = emit s rel code (st.noticed (compile text).2) := by
  have hread := readSource_eq s rel st
  rw [h] at hread
  unfold source
  rw [bind_of_ok hread]
  dsimp only
  rw [compiled]
  rfl

/-! ## Writing -/

/-- **What can come of writing an output.** The name may be impossible, the folders may not be made,
the file may not be written in them, or there is an output. -/
inductive Emits (s : Settings) (rel : Location) (code : String) (st : BuildState) :
    EStateM.Result Failure BuildState Unit → Prop
  | unnamed {e : Failure} (name : s.outputBelow rel = .error e) : Emits s rel code st (.error e st)
  | blocked {below : Location} {e : FileError} (name : s.outputBelow rel = .ok below)
      (folders : st.tree.makeFolders [] (s.out ++ below).dropLast = .error e) :
      Emits s rel code st (.error (.file e) st)
  | unwritten {below : Location} {e : FileError} {tree : Entry}
      (name : s.outputBelow rel = .ok below)
      (folders : st.tree.makeFolders [] (s.out ++ below).dropLast = .ok tree)
      (file : tree.write [] (.ofLocation (s.out ++ below)) (Text.encode (code ++ "\n")) =
        .error e) :
      Emits s rel code st (.error (.file e) { st with tree })
  | written {below : Location} {tree tree' : Entry} (name : s.outputBelow rel = .ok below)
      (folders : st.tree.makeFolders [] (s.out ++ below).dropLast = .ok tree)
      (file : tree.write [] (.ofLocation (s.out ++ below)) (Text.encode (code ++ "\n")) =
        .ok tree') :
      Emits s rel code st (.ok () (st.emitted tree' rel below))

/-- Writing an output, or failing to, reports no source as failed. -/
theorem Emits.failed_eq {code : String} {r : EStateM.Result Failure BuildState Unit}
    (h : Emits s rel code st r) : (endState r).report.failed = st.report.failed := by
  cases h <;> rfl

/-- Writing an output takes one of the four ways. Later proofs go through these and do not open
`emit`. -/
theorem emits (s : Settings) (rel : Location) (code : String) (st : BuildState) :
    Emits s rel code st (emit s rel code st) := by
  unfold emit
  cases name : s.outputBelow rel with
  | error e => exact .unnamed name
  | ok below =>
    have hname : ofExcept (.ok below) st = .ok below st := rfl
    rw [bind_of_ok hname]
    cases folders : st.tree.makeFolders [] (s.out ++ below).dropLast with
    | error e =>
      have hwrite : writeOutput (s.out ++ below) code st = .error (.file e) st := by
        show (ofExcept ((st.tree.makeFolders [] _).mapError .file) >>= _) st = _
        rw [folders]
        rfl
      rw [bind_of_error hwrite]
      exact .blocked name folders
    | ok tree =>
      have hfolders : writeOutput (s.out ++ below) code st =
          (do
            let tree ← ofExcept ((tree.write [] (.ofLocation (s.out ++ below))
              (Text.encode (code ++ "\n"))).mapError .file)
            set { st with tree }) { st with tree } := by
        show (ofExcept ((st.tree.makeFolders [] _).mapError .file) >>= _) st = _
        rw [folders]
        rfl
      cases file : tree.write [] (.ofLocation (s.out ++ below)) (Text.encode (code ++ "\n")) with
      | error e =>
        rw [file] at hfolders
        rw [bind_of_error hfolders]
        exact .unwritten name folders file
      | ok tree' =>
        rw [file] at hfolders
        rw [bind_of_ok hfolders]
        exact .written name folders file

end BuildM

end Wxml
