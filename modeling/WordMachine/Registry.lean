import WordMachine.Primitive

/-! # Registries

Which primitive each opcode is executed by. A registry is filled one opcode at a time and then frozen;
construction succeeds only if every opcode has been registered exactly once.

* `Registry.build` names the first opcode that repeats an earlier one, else all that are missing.
* A frozen registry accepts nothing more.
-/

namespace WordMachine

/-- Why a registry refused. -/
inductive RegistryError where
  /-- The registry accepts no more primitives. -/
  | frozen
  /-- The opcode has a primitive already. -/
  | duplicate (opcode : Opcode)
  /-- These opcodes have no primitive. -/
  | missing (opcodes : List Opcode)
  deriving DecidableEq, Repr

/-- The message of a registry's refusal; missing opcodes are listed by name in alphabetical order. -/
def RegistryError.message : RegistryError → String
  | .frozen => "Cannot register primitives: registry is frozen"
  | .duplicate opcode => s!"Primitive already registered: {opcode.name}"
  | .missing opcodes =>
    "Opcodes without a primitive: " ++ ", ".intercalate (opcodes.map Opcode.name).mergeSort

/-- A table of primitives. -/
structure Registry where
  /-- The opcodes registered so far, in order, each with its primitive. -/
  entries : List (Opcode × Primitive) := []
  /-- Whether the table is closed. -/
  frozen : Bool := false

namespace Registry

/-- The opcodes registered so far. -/
def keys (r : Registry) : List Opcode := r.entries.map (·.1)

/-- The primitive of an opcode. -/
def find? (r : Registry) (opcode : Opcode) : Option Primitive :=
  (r.entries.find? fun entry => entry.1 == opcode).map (·.2)

/-- Adds a primitive. -/
def register (r : Registry) (opcode : Opcode) (primitive : Primitive) :
    Except RegistryError Registry :=
  if r.frozen then .error .frozen
  else if opcode ∈ r.keys then .error (.duplicate opcode)
  else .ok { r with entries := r.entries ++ [(opcode, primitive)] }

/-- Closes the table. -/
def freeze (r : Registry) : Registry := { r with frozen := true }

/-- The opcodes without a primitive. -/
def missing (r : Registry) : List Opcode := Opcode.all.filter fun opcode => opcode ∉ r.keys

/-- Adds primitives one after the other, up to the first refusal. -/
def registerAll (r : Registry) : List (Opcode × Primitive) → Except RegistryError Registry
  | [] => .ok r
  | (opcode, primitive) :: rest =>
    match r.register opcode primitive with
    | .ok r' => r'.registerAll rest
    | .error e => .error e

/-- A closed registry of the given primitives, which have to cover every opcode. -/
def build (entries : List (Opcode × Primitive)) : Except RegistryError Registry :=
  match ({} : Registry).registerAll entries with
  | .error e => .error e
  | .ok r => if r.missing = [] then .ok r.freeze else .error (.missing r.missing)

/-- Executes an instruction. A cycle is counted even if the instruction fails. -/
def execute (r : Registry) (i : Instruction) (m : Machine) : Outcome Bool :=
  match r.find? i.opcode with
  | none => .failed (.noPrimitive i.opcode) m
  | some primitive => primitive i { m with cycles := m.cycles + 1 }

/-! ## The two registries -/

/-- Every opcode with what it does. -/
def standardEntries : List (Opcode × Primitive) := Opcode.all.map fun op => (op, op.primitive)

/-- The registry of the instruction set. -/
def standard : Registry := { entries := standardEntries, frozen := true }

/-- A registry in which every opcode, the invalid one included, does nothing. -/
def passThrough : Registry :=
  { entries := Opcode.all.map fun op => (op, Primitive.noop), frozen := true }

/-! ## Small facts -/

/-- Registering opcodes that are new and different succeeds and keeps their order. -/
theorem registerAll_ok (entries : List (Opcode × Primitive)) (r : Registry)
    (hf : r.frozen = false) (hn : (r.keys ++ entries.map (·.1)).Nodup) :
    r.registerAll entries = .ok { r with entries := r.entries ++ entries } := by
  induction entries generalizing r with
  | nil => simp [registerAll]
  | cons e rest ih =>
    obtain ⟨op, p⟩ := e
    have hnew : op ∉ r.keys := by
      intro h
      have := (List.nodup_append.1 hn).2.2 op h op (by simp)
      exact this rfl
    have hreg : r.register op p = .ok { r with entries := r.entries ++ [(op, p)] } := by
      simp [register, hf, hnew]
    rw [registerAll, hreg]
    simp only
    rw [ih]
    · simp
    · exact hf
    · simpa [keys] using hn

/-- The standard registry has every opcode, in the order of their numbers. -/
theorem keys_standard : standard.keys = Opcode.all := by
  simp [keys, standard, standardEntries, Function.comp_def]

/-- The standard registry is what construction gives. -/
theorem build_standardEntries : build standardEntries = .ok standard := by
  have hall : ({} : Registry).registerAll standardEntries =
      .ok { entries := standardEntries, frozen := false } := by
    apply registerAll_ok standardEntries {} rfl
    have hk : ({} : Registry).keys ++ standardEntries.map (·.1) = Opcode.all := keys_standard
    rw [hk]
    exact Opcode.nodup_all
  have hm : ({ entries := standardEntries, frozen := false } : Registry).missing = [] := by
    have hk : ({ entries := standardEntries, frozen := false } : Registry).keys = Opcode.all :=
      keys_standard
    simp [missing, hk]
  simp [build, hall, hm, freeze, standard]

/-- The standard registry executes each opcode by its primitive. -/
@[simp] theorem find?_standard (op : Opcode) : standard.find? op = some op.primitive := by
  cases op <;> rfl

end Registry

end WordMachine
