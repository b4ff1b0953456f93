import WordMachine.Machine.Basic

/-! # Views of a machine

What a machine shows of itself: its registers by name, its line of status, and the summary of what it
has done so far.
-/

namespace WordMachine

/-- What a machine has done so far, and where it stands. -/
structure Summary where
  bytesLoaded : Nat
  cycles : Int
  halted : Bool
  haltReason : Option HaltReason
  /-- The registers by name. -/
  registers : List (String × Word)
  pc : Datum
  stackDepth : Nat
  outputBytes : Nat
  /-- The text of the fatal condition, if there was one. -/
  fault : Option String
  deriving DecidableEq, Repr

namespace Machine

/-- The registers by name, in order. -/
def namedRegisters (m : Machine) : List (String × Word) :=
  m.registers.toList.zipIdx.map fun (w, i) => (s!"R{i}", w)

/-- The line of status. -/
def text (m : Machine) : String :=
  let registers := " ".intercalate (m.namedRegisters.map fun (name, w) => s!"{name}={w.toNat}")
  let status := match m.halt with
    | some h => s!" HALTED({h.reason.text})"
    | none => ""
  s!"[Cycle {m.cycles}] PC={m.pc.shown} {registers} SP={m.stackDepth}{status}"

/-- The summary of a machine. -/
def summary (m : Machine) : Summary where
  bytesLoaded := m.bytesLoaded
  cycles := m.cycles
  halted := m.isHalted
  haltReason := m.haltReason
  registers := m.namedRegisters
  pc := m.pc
  stackDepth := m.stackDepth
  outputBytes := m.console.bytesWritten
  fault := m.fault.map Fault.text

end Machine

end WordMachine
