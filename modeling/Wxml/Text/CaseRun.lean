/-!
# Runs of a case mapping

A simple case mapping moves a character by a fixed distance. Characters that move by the same
distance, and stand at every code point or at every second one, form a run.
-/

namespace Wxml.Text

/-- The characters `first`, `first + step`, ... up to `last`, each of which moves by `shift`. -/
structure CaseRun where
  first : Nat
  last : Nat
  step : Nat
  shift : Int

/-- Whether the run lists the code point. -/
def CaseRun.holds (run : CaseRun) (n : Nat) : Bool :=
  run.first ≤ n && n ≤ run.last && (n - run.first) % run.step == 0

/-- The image of a character under the first run that lists it, and the character itself when
none does. -/
def mapByRuns (runs : List CaseRun) (c : Char) : Char :=
  match runs.find? (·.holds c.toNat) with
  | some run => Char.ofNat (c.toNat + run.shift).toNat
  | none => c

end Wxml.Text
