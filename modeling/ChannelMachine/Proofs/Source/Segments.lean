import ChannelMachine.Machine.Scope
import ChannelMachine.Proofs.Source.Enclosing

/-!
# Segments of code

A segment is what stands between two indices of a program when the compiler has put it there.
`Segment` has one constructor for each way in which the compiler puts code together, and says where
the jumps of each of them go.  It counts indices and does not look at lists of instructions, so that
what is true of a segment follows by induction and arithmetic.
-/

namespace ChannelMachine

/-- Whether an instruction stands for itself: it is no jump, opens and closes nothing, and belongs
to none of the groups of instructions. -/
def Instruction.isStraight : Instruction → Bool
  | .closure .. | .enterScope _ | .exitScope | .jumpUnless _ | .jump _ | .loopEnd _ | .breakLoop
  | .continueLoop | .spawn _ | .endThread | .halt => false
  | _ => true

namespace Source

/-- The code between two indices of a program, in a loop or in none.  For each instruction of the
program it is given in which loop it is. -/
inductive Segment (p : Program) (loops : Nat → Option (Option Inside)) :
    Option LoopPlace → Nat → Nat → Prop where
  /-- No code. -/
  | nil (w : Option LoopPlace) (s : Nat) : Segment p loops w s s
  /-- An instruction that stands for itself. -/
  | straight {w : Option LoopPlace} {s : Nat} {i : Instruction} (here : p.at? s = some i)
      (straight : i.isStraight = true) : Segment p loops w s (s + 1)
  /-- Two segments, one after the other. -/
  | append {w : Option LoopPlace} {s t u : Nat} (first : Segment p loops w s t)
      (second : Segment p loops w t u) : Segment p loops w s u
  /-- Code that is jumped over if a test fails. -/
  | skipped {w : Option LoopPlace} {s t : Nat} (here : p.at? s = some (.jumpUnless t))
      (code : Segment p loops w (s + 1) t) : Segment p loops w s t
  /-- Two pieces of code of which one is executed. -/
  | branches {w : Option LoopPlace} {s t u : Nat} (here : p.at? s = some (.jumpUnless (t + 1)))
      (first : Segment p loops w (s + 1) t) (across : p.at? t = some (.jump u))
      (second : Segment p loops w (t + 1) u) : Segment p loops w s u
  /-- A scope around code. -/
  | scope {w : Option LoopPlace} {s t slots : Nat} (opens : p.at? s = some (.enterScope slots))
      (code : Segment p loops w (s + 1) t) (closes : p.at? t = some .exitScope) :
      Segment p loops w s (t + 1)
  /-- A function, and a jump over its body, which ends with a return. -/
  | function {w : Option LoopPlace} {s t arity : Nat}
      (closure : p.at? s = some (.closure arity (s + 2)))
      (across : p.at? (s + 1) = some (.jump (t + 1))) (body : Segment p loops none (s + 2) t)
      (returns : p.at? t = some .ret) : Segment p loops w s (t + 1)
  /-- A new thread is started. -/
  | spawn {w : Option LoopPlace} {s n : Nat} (spawns : p.at? s = some (.spawn n))
      (calls : p.at? (s + 1) = some (.call n)) (ends : p.at? (s + 2) = some .endThread) :
      Segment p loops w s (s + 3)
  /-- A loop is left. -/
  | breakLoop {w : Option LoopPlace} {s : Nat} (here : p.at? s = some .breakLoop)
      (inside : (loops s).map (Option.map Inside.loop) = some w) : Segment p loops w s (s + 1)
  /-- A loop goes on. -/
  | continueLoop {w : Option LoopPlace} {s : Nat} (here : p.at? s = some .continueLoop)
      (inside : (loops s).map (Option.map Inside.loop) = some w) : Segment p loops w s (s + 1)
  /-- The jump to the end of the loop around, if its test fails. -/
  | test {place : LoopPlace} {s : Nat} (here : p.at? s = some (.jumpUnless place.marker)) :
      Segment p loops (some place) s (s + 1)
  /-- A loop: what comes first, the test and the body, and what follows each round. -/
  | loop {w : Option LoopPlace} {s t u v slots : Nat} (opens : p.at? s = some (.enterScope slots))
      (first : Segment p loops (some ⟨s, u, v + 1⟩) (s + 1) t)
      (round : Segment p loops (some ⟨s, u, v + 1⟩) t u)
      (after : Segment p loops (some ⟨s, u, v + 1⟩) u v) (again : p.at? v = some (.jump t))
      (ends : p.at? (v + 1) = some (.loopEnd u))
      (inside : loops (v + 1) = some (some ⟨⟨s, u, v + 1⟩, 0⟩))
      (closes : p.at? (v + 2) = some .exitScope) : Segment p loops w s (v + 3)

end Source

end ChannelMachine
