import WordMachine.Proofs.FailedInstructions

/-! # Sources are known by their values

How a source is given makes no difference: a literal does the same as a register that holds it. The
roles of the operands say which of them are sources, and no primitive looks at more of a source than
its value, not even where it overwrites the register that the source selects.

* `Instruction.Alike`: two instructions that may differ in how their sources are given.
* For each shape of operands there is a lemma that says what they have in common, and for each family
  of primitives one that says that nothing else matters.
* `execute_eq_of_alike` puts them together.
-/

namespace WordMachine

/-- The instructions differ at most in their addresses and in their sources, and in the machine `m`
every source of the one resolves to the same as that of the other in its place. -/
structure Instruction.Alike (m : Machine) (i j : Instruction) : Prop where
  opcode : j.opcode = i.opcode
  raw : j.raw = i.raw
  length : j.operands.length = i.operands.length
  destinations : ∀ k : Nat, i.opcode.roles[k]? = some .destination →
    j.operands[k]? = i.operands[k]?
  sources : ∀ (k : Nat) (a b : Int), i.opcode.roles[k]? = some .source →
    i.operands[k]? = some a → j.operands[k]? = some b → m.resolve b = m.resolve a

variable {m : Machine} {i j : Instruction} {d a b a' b' : Int}

/-! ## Shapes of operands -/

namespace Instruction.Alike

/-- An operand in the place of a destination is the same in both instructions. -/
theorem destination_eq (h : i.Alike m j) {k : Nat} (role : i.opcode.roles[k]? = some .destination)
    (hi : i.operands[k]? = some a) (hj : j.operands[k]? = some b) : b = a := by
  have hsame := h.destinations k role
  rw [hi, hj] at hsame
  exact Option.some.inj hsame

theorem one_source (h : i.Alike m j) (roles : i.opcode.roles = [.source])
    (hcount : i.operands.length = 1) :
    ∃ a b, i.operands = [a] ∧ j.operands = [b] ∧ m.resolve b = m.resolve a := by
  obtain ⟨a, hi⟩ := List.length_eq_one_iff.1 hcount
  obtain ⟨b, hj⟩ := List.length_eq_one_iff.1 (h.length.trans hcount)
  refine ⟨a, b, hi, hj, ?_⟩
  exact h.sources 0 a b (by rw [roles]; rfl) (by rw [hi]; rfl) (by rw [hj]; rfl)

theorem one_destination (h : i.Alike m j) (roles : i.opcode.roles = [.destination])
    (hcount : i.operands.length = 1) : j.operands = i.operands := by
  obtain ⟨a, hi⟩ := List.length_eq_one_iff.1 hcount
  obtain ⟨b, hj⟩ := List.length_eq_one_iff.1 (h.length.trans hcount)
  have hd : b = a := h.destination_eq (k := 0) (by rw [roles]; rfl) (by rw [hi]; rfl)
    (by rw [hj]; rfl)
  rw [hi, hj, hd]

theorem two_sources (h : i.Alike m j) (roles : i.opcode.roles = [.source, .source])
    (hcount : i.operands.length = 2) :
    ∃ a a' b b', i.operands = [a, a'] ∧ j.operands = [b, b'] ∧
      m.resolve b = m.resolve a ∧ m.resolve b' = m.resolve a' := by
  obtain ⟨a, a', hi⟩ := List.length_eq_two.1 hcount
  obtain ⟨b, b', hj⟩ := List.length_eq_two.1 (h.length.trans hcount)
  refine ⟨a, a', b, b', hi, hj, ?_, ?_⟩
  · exact h.sources 0 a b (by rw [roles]; rfl) (by rw [hi]; rfl) (by rw [hj]; rfl)
  · exact h.sources 1 a' b' (by rw [roles]; rfl) (by rw [hi]; rfl) (by rw [hj]; rfl)

theorem destination_and_source (h : i.Alike m j)
    (roles : i.opcode.roles = [.destination, .source]) (hcount : i.operands.length = 2) :
    ∃ d a b, i.operands = [d, a] ∧ j.operands = [d, b] ∧ m.resolve b = m.resolve a := by
  obtain ⟨d, a, hi⟩ := List.length_eq_two.1 hcount
  obtain ⟨d', b, hj⟩ := List.length_eq_two.1 (h.length.trans hcount)
  obtain rfl : d' = d := h.destination_eq (k := 0) (by rw [roles]; rfl) (by rw [hi]; rfl)
    (by rw [hj]; rfl)
  refine ⟨d', a, b, hi, hj, ?_⟩
  exact h.sources 1 a b (by rw [roles]; rfl) (by rw [hi]; rfl) (by rw [hj]; rfl)

theorem destination_and_sources (h : i.Alike m j)
    (roles : i.opcode.roles = [.destination, .source, .source])
    (hcount : i.operands.length = 3) :
    ∃ d a a' b b', i.operands = [d, a, a'] ∧ j.operands = [d, b, b'] ∧
      m.resolve b = m.resolve a ∧ m.resolve b' = m.resolve a' := by
  obtain ⟨d, a, a', hi⟩ := List.length_eq_three.1 hcount
  obtain ⟨d', b, b', hj⟩ := List.length_eq_three.1 (h.length.trans hcount)
  obtain rfl : d' = d := h.destination_eq (k := 0) (by rw [roles]; rfl) (by rw [hi]; rfl)
    (by rw [hj]; rfl)
  refine ⟨d', a, a', b, b', hi, hj, ?_, ?_⟩
  · exact h.sources 1 a b (by rw [roles]; rfl) (by rw [hi]; rfl) (by rw [hj]; rfl)
  · exact h.sources 2 a' b' (by rw [roles]; rfl) (by rw [hi]; rfl) (by rw [hj]; rfl)

end Instruction.Alike

/-! ## Families of primitives -/

namespace Primitive

theorem single_congr {f : Word → Outcome Bool} (hi : i.operands = [a]) (hj : j.operands = [b])
    (h : m.resolve b = m.resolve a) :
    (m.given j.one fun b => m.given (m.resolve b) f) =
      m.given i.one fun a => m.given (m.resolve a) f := by
  rw [Instruction.one_eq_ok_iff.2 hi, Instruction.one_eq_ok_iff.2 hj]
  simp only [Machine.given_ok, h]

theorem unary_congr (f : Machine → Word → Except Error Word) (hi : i.operands = [d, a])
    (hj : j.operands = [d, b]) (h : m.resolve b = m.resolve a) : unary f j m = unary f i m := by
  rw [unary, unary, Instruction.two_eq_ok_iff.2 hi, Instruction.two_eq_ok_iff.2 hj]
  simp only [Machine.given_ok, h]

theorem binary_congr (f : Word → Word → Word) (hi : i.operands = [d, a, a'])
    (hj : j.operands = [d, b, b']) (h : m.resolve b = m.resolve a)
    (h' : m.resolve b' = m.resolve a') : binary f j m = binary f i m := by
  rw [binary, binary, Instruction.three_eq_ok_iff.2 hi, Instruction.three_eq_ok_iff.2 hj]
  simp only [Machine.given_ok, h, h']

theorem modulo_congr (hi : i.operands = [d, a, a']) (hj : j.operands = [d, b, b'])
    (h : m.resolve b = m.resolve a) (h' : m.resolve b' = m.resolve a') :
    modulo j m = modulo i m := by
  rw [modulo, modulo, Instruction.three_eq_ok_iff.2 hi, Instruction.three_eq_ok_iff.2 hj]
  simp only [Machine.given_ok, h, h']

theorem branch_congr (test : Word → Bool) (hi : i.operands = [a, a']) (hj : j.operands = [b, b'])
    (h : m.resolve b = m.resolve a) (h' : m.resolve b' = m.resolve a') :
    branch test j m = branch test i m := by
  rw [branch, branch, Instruction.two_eq_ok_iff.2 hi, Instruction.two_eq_ok_iff.2 hj]
  simp only [Machine.given_ok, h, h']

theorem writeMemory_congr (hi : i.operands = [a, a']) (hj : j.operands = [b, b'])
    (h : m.resolve b = m.resolve a) (h' : m.resolve b' = m.resolve a') :
    writeMemory j m = writeMemory i m := by
  rw [writeMemory, writeMemory, Instruction.two_eq_ok_iff.2 hi, Instruction.two_eq_ok_iff.2 hj]
  simp only [Machine.given_ok, h, h']

end Primitive

/-! ## All opcodes -/

/-- Opcodes that take no operands do not look at any that are there. -/
theorem primitive_of_unread (h : i.Alike m j)
    (hlooks : i.opcode ∈ [Opcode.halt, .noop, .ret, .invalid]) :
    j.opcode.primitive j m = i.opcode.primitive i m := by
  rw [h.opcode]
  simp only [List.mem_cons, List.not_mem_nil, or_false] at hlooks
  rcases hlooks with op | op | op | op
  · rw [op, Opcode.primitive, Primitive.halt, Primitive.halt]
  · rw [op, Opcode.primitive, Primitive.noop, Primitive.noop]
  · rw [op, Opcode.primitive, Primitive.ret, Primitive.ret]
  · rw [op, Opcode.primitive, Primitive.invalid, Primitive.invalid, h.raw]

/-- Where both instructions have as many operands as the opcode takes, they do the same. -/
theorem primitive_of_alike (h : i.Alike m j) (hcount : i.operands.length = i.opcode.operandCount) :
    j.opcode.primitive j m = i.opcode.primitive i m := by
  by_cases hlooks : i.opcode ∈ [Opcode.halt, .noop, .ret, .invalid]
  · exact primitive_of_unread h hlooks
  rw [h.opcode]
  cases op : i.opcode with
  | halt | noop | ret | invalid => simp [op] at hlooks
  | push | jump | call | output =>
    rw [op] at hcount
    obtain ⟨a, b, hi, hj, hsource⟩ := h.one_source (by rw [op]; rfl) hcount
    exact Primitive.single_congr hi hj hsource
  | pop | input =>
    rw [op] at hcount
    have hsame := h.one_destination (by rw [op]; rfl) hcount
    have hone : j.one = i.one := by rw [Instruction.one, Instruction.one, hsame]
    simp only [Opcode.primitive, Primitive.pop, Primitive.input, hone]
  | set | not | readMemory =>
    rw [op] at hcount
    obtain ⟨d, a, b, hi, hj, hsource⟩ := h.destination_and_source (by rw [op]; rfl) hcount
    simp only [Opcode.primitive, Primitive.set, Primitive.not, Primitive.readMemory]
    exact Primitive.unary_congr _ hi hj hsource
  | eq | gt | add | multiply | and | or =>
    rw [op] at hcount
    obtain ⟨d, a, a', b, b', hi, hj, hfirst, hsecond⟩ :=
      h.destination_and_sources (by rw [op]; rfl) hcount
    exact Primitive.binary_congr _ hi hj hfirst hsecond
  | modulo =>
    rw [op] at hcount
    obtain ⟨d, a, a', b, b', hi, hj, hfirst, hsecond⟩ :=
      h.destination_and_sources (by rw [op]; rfl) hcount
    exact Primitive.modulo_congr hi hj hfirst hsecond
  | jumpIfTrue | jumpIfFalse =>
    rw [op] at hcount
    obtain ⟨a, a', b, b', hi, hj, hfirst, hsecond⟩ := h.two_sources (by rw [op]; rfl) hcount
    exact Primitive.branch_congr _ hi hj hfirst hsecond
  | writeMemory =>
    rw [op] at hcount
    obtain ⟨a, a', b, b', hi, hj, hfirst, hsecond⟩ := h.two_sources (by rw [op]; rfl) hcount
    exact Primitive.writeMemory_congr hi hj hfirst hsecond

namespace Registry

/-- An instruction does the same for every source with the same value: it returns or fails alike and
leaves the same machine, also where its destination is a register that a source selects, and also
where it has too many or too few operands. -/
theorem execute_eq_of_alike (h : i.Alike m j) : standard.execute j m = standard.execute i m := by
  have hcounted : i.Alike m.counted j :=
    ⟨h.opcode, h.raw, h.length, h.destinations, h.sources⟩
  rw [execute_standard, execute_standard]
  by_cases hcount : i.operands.length = i.opcode.operandCount
  · exact primitive_of_alike hcounted hcount
  by_cases hlooks : i.opcode ∈ [Opcode.halt, .noop, .ret, .invalid]
  · exact primitive_of_unread hcounted hlooks
  · -- Both fail before they have looked at any source.
    have hi : i.Miscounted := ⟨hcount, hlooks⟩
    have hj : j.Miscounted := by
      constructor
      · rwa [h.opcode, h.length]
      · rwa [h.opcode]
    rw [primitive_of_miscount hi, primitive_of_miscount hj, h.opcode, h.length]

/-- The sum goes to a register that is one of its sources in the one instruction and none of them in
the other. -/
theorem execute_eq_of_alike_doubled :
    let m : Machine := { registers := #[40000, 40000, 7, 0, 0, 0, 0, 0] }
    let i : Instruction := ⟨.add, [32768, 32768, 32770], .number 0, 9⟩
    let j : Instruction := ⟨.add, [32768, 32769, 7], .number 0, 9⟩
    i.Alike m j ∧ standard.execute j m = standard.execute i m := by
  intro m i j
  have halike : i.Alike m j :=
    { opcode := rfl
      raw := rfl
      length := rfl
      destinations := by
        intro k role
        match k with
        | 0 => rfl
        | 1 | 2 | k + 3 => cases role
      sources := by
        intro k a b role ha hb
        match k with
        | 0 | k + 3 => cases role
        | 1 =>
          cases ha
          cases hb
          decide
        | 2 =>
          cases ha
          cases hb
          decide }
  exact ⟨halike, execute_eq_of_alike halike⟩

end Registry

end WordMachine
