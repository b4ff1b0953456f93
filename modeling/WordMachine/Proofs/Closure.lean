import WordMachine.Proofs.Bounds

/-! # Programs that stay within 15 bits

A machine whose registers and stack hold words of 15 bits goes on like that for ever, unless a step
copies a wider word from memory, or a call in the last two cells saves the end of memory as its
return address.

* `wideAt_of_step`: memory gets no wider words from such a machine.
* `decode_of_addressOutOfRange`: of all addresses, only the end of memory is ever refused, and only
  where it cuts an instruction off.
* `bounded_closed` is the account of runs of any length.
-/

namespace WordMachine.Machine

variable {m m' : Machine} {i : Instruction} {bits k : Nat}

/-! ## One step -/

/-- A cell with a wide word had it before the step: what a bounded machine writes is not wide. -/
theorem wideAt_of_step (h : m.Bounded bits) (hbits : 15 ≤ bits)
    (hk : (Registry.standard.step m).machine.WideAt bits k) : m.WideAt bits k := by
  have hstep : (Registry.standard.step m).machine.WideAt bits k → m.WideAt bits k := by
    apply Registry.machine_step (P := fun m' => m'.WideAt bits k → m.WideAt bits k) id
    · intro e pc _ _ hwide
      exact hwide
    · intro i pc b m₂ _ hd hx hwide
      have hsource : ∀ {a w}, ({ m with pc := pc } : Machine).counted.resolve a = .ok w →
          w.toNat < 2 ^ bits :=
        (h.decode_done hbits hd).counted.resolve hbits
      cases hx with
      | @store a c x y j op operands address source cell inside =>
        rcases hwide with ⟨w, hw, hle⟩
        have hy : y.toNat < 2 ^ bits := hsource source
        rw [Array.getElem?_setIfInBounds] at hw
        by_cases hjk : j = k
        · -- What is in the written cell is not wide.
          rw [if_pos hjk, if_pos inside] at hw
          cases hw
          omega
        · rw [if_neg hjk] at hw
          exact ⟨w, hw, hle⟩
      | _ => exact hwide
    · intro i pc e m₂ _ _ hx hwide
      rw [hx.frame] at hwide
      exact hwide
    · intro m₁ f h₁
      exact h₁
  exact hstep hk

/-- What a store puts into a cell is a word of 15 bits. -/
theorem stored_of_takes (h : m.Bounded 15) (htakes : Registry.Takes m i m')
    (op : i.opcode = .writeMemory) :
    ∃ k y, m'.memory = m.memory.setIfInBounds k y ∧ k < 32768 ∧ y.toNat ≤ 32767 := by
  obtain ⟨-, m₁, hd, hx⟩ := Registry.takes_iff.1 htakes
  obtain ⟨a, c, x, y, k, -, -, hy, hk, rfl⟩ := hx.of_store op
  have hlt : y.toNat < 2 ^ 15 :=
    (h.decode_done (Nat.le_refl 15) hd).counted.resolve (Nat.le_refl 15) hy
  have hcell : k < memorySize := (cellNumber_eq_ok_iff.1 hk).2
  obtain ⟨pc, rfl⟩ := frame_of_decode_done hd
  exact ⟨k, y, rfl, hcell, by omega⟩

/-- The only address that is ever refused is the end of memory, and decoding refuses it. -/
theorem decode_of_addressOutOfRange (h : m.Bounded 15) {f : Fault} {d : Datum}
    (hs : Registry.standard.step m = .failed (.fault f) m')
    (hf : f.cause = .addressOutOfRange d) :
    d = .number memorySize ∧ ∃ m₁, m.decode = .failed (.ofCause (.addressOutOfRange d)) m₁ := by
  rcases Registry.step_eq_failed hs with ⟨-, he, -⟩ | ⟨-, e₀, m₀, hfail, hcut⟩
  · cases he
  obtain ⟨f₀, rfl, rfl, -⟩ := fault_of_fail hfail
  rw [Fault.cause_locate] at hf
  rcases hcut with hd | ⟨i, m₁, hd, hx⟩
  · -- The counter itself is at most at the end of memory.
    obtain ⟨p, hp, hbound⟩ := h.counter
    obtain ⟨q, hq, -, hcases⟩ := h.decode_eq_failed hp hd
    have hend : q = memorySize := by
      have hsize : memorySize = 2 ^ 15 := rfl
      omega
    rcases Error.naming_eq_fault_iff.1 hq.symm with ⟨-, rfl⟩
    cases hf
    rw [hend] at hd ⊢
    exact ⟨rfl, m₀, hd⟩
  · -- No operand of a bounded machine has a value that is out of range.
    obtain ⟨a, x, -, source, outside, -⟩ := hx.address_of_cause hf
    have hx' : x.toNat < 2 ^ 15 :=
      (h.decode_done (Nat.le_refl 15) hd).counted.resolve (Nat.le_refl 15) source
    have hsize : memorySize = 2 ^ 15 := rfl
    omega

/-- What saves a return address of more than 15 bits is a call in the last two cells. -/
theorem not_letsIn_of_closed (h : m.Bounded 15) (hload : ¬ m.LoadsWide 15)
    (hcall : ¬ m.CallsAt 32766) : ¬ m.LetsIn 15 := by
  intro hin
  rcases hin with hwide | ⟨p, ⟨hp, i, m', htakes, op⟩, hle⟩
  · exact hload hwide
  have hlast : p = 32766 := by
    obtain ⟨m₁, hd⟩ := htakes.1
    have hend := (h.decode_call hp hd op).2.1
    have hsize : memorySize = 2 ^ 15 := rfl
    omega
  rw [hlast] at hp
  exact hcall ⟨hp, i, m', htakes, op⟩

/-! ## Runs -/

/-- No step of the first `n` copies a wide word from memory or is a call in the last two cells. -/
def Closed (n : Nat) (m : Machine) : Prop :=
  ∀ k, k < n → ¬ (Registry.standard.after k m).LoadsWide 15 ∧
    ¬ (Registry.standard.after k m).CallsAt 32766

theorem bounded_after (h : m.Bounded 15) {n : Nat} (hclosed : m.Closed n) :
    (Registry.standard.after n m).Bounded 15 := by
  apply Registry.after_induction (P := fun _ m => m.Bounded 15) h
  intro k hk hb
  exact hb.step (Nat.le_refl 15) (not_letsIn_of_closed hb (hclosed k hk).1 (hclosed k hk).2)

/-- Cells with wide words have had them since any earlier moment of the run. -/
theorem wideAt_of_after (h : m.Bounded 15) {n j : Nat} (hclosed : m.Closed n) (hj : j ≤ n)
    (hk : (Registry.standard.after n m).WideAt 15 k) :
    (Registry.standard.after j m).WideAt 15 k := by
  induction n with
  | zero =>
    rw [Nat.le_zero.1 hj]
    exact hk
  | succ n ih =>
    rcases Nat.lt_or_ge n j with hlt | hge
    · rw [Nat.le_antisymm hj hlt]
      exact hk
    · have hrest : m.Closed n := fun k hk => hclosed k (Nat.lt_succ_of_lt hk)
      rw [Registry.after_succ'] at hk
      exact ih hrest hge (wideAt_of_step (bounded_after h hrest) (Nat.le_refl 15) hk)

/-- A machine whose registers and stack hold words of 15 bits, such as a fresh one with any image,
stays like that as long as no step copies a wider word from memory and none is a call at 32766.

It always passes the checks, and the cells with wider words never become more: nothing that it
stores is wide. Nor does a step find any address out of range, except that of an instruction that
the end of memory cuts off. -/
theorem bounded_closed :
    (∀ (m : Machine) files source, m.Fresh → (m.load files source).machine.Bounded 15) ∧
    ∀ m : Machine, m.Bounded 15 → ∀ n, m.Closed n →
      let m' := Registry.standard.after n m
      m'.Bounded 15 ∧ m'.validate = .ok true ∧
      (∀ j k, j ≤ n → m'.WideAt 15 k → (Registry.standard.after j m).WideAt 15 k) ∧
      (∀ i m'', Registry.Takes m' i m'' → i.opcode = .writeMemory →
        ∃ k y, m''.memory = m'.memory.setIfInBounds k y ∧ k < 32768 ∧ y.toNat ≤ 32767) ∧
      ∀ f m'' d, Registry.standard.step m' = .failed (.fault f) m'' →
        f.cause = .addressOutOfRange d →
        d = .number 32768 ∧ ∃ m₁, m'.decode = .failed (.ofCause (.addressOutOfRange d)) m₁ := by
  constructor
  · intro m files source hm
    exact (Bounded.of_fresh hm).load files source
  · intro m h n hclosed m'
    have hb : m'.Bounded 15 := bounded_after h hclosed
    refine ⟨hb, ?_, ?_, ?_, ?_⟩
    · rcases hb.counter with ⟨p, hp, hbound⟩
      have hle : p ≤ memorySize := by
        have hsize : memorySize = 2 ^ 15 := rfl
        omega
      rw [hb.validate hp, decide_eq_true hle]
    · intro j k hj hk
      exact wideAt_of_after h hclosed hj hk
    · intro i m'' htakes op
      exact stored_of_takes hb htakes op
    · intro f m'' d hs hf
      exact decode_of_addressOutOfRange hb hs hf

/-- A fresh machine with an image of one `noop` has taken its first step within 15 bits. -/
theorem bounded_closed_noop :
    let m := (({} : Machine).load (fun _ => .ok []) (.bytes [21, 0])).machine
    m.Bounded 15 ∧ m.Closed 1 ∧ (Registry.standard.after 1 m).validate = .ok true := by
  intro m
  have hb : m.Bounded 15 := bounded_closed.1 {} (fun _ => .ok []) (.bytes [21, 0]) rfl
  have hcells : m.memory = overlay (Array.replicate memorySize 0) [21] := rfl
  have hread : m.readMemory 0 = .ok 21 := readMemory_of_overlay hcells (k := 0) rfl (by decide)
  have hnoop : ∀ i m', Registry.Takes m i m' → i.opcode = .noop := by
    intro i m' htakes
    obtain ⟨m₁, hd⟩ := htakes.1
    rw [hb.decode_of_fits (p := 0) rfl (Int.le_refl 0) hread (by decide)] at hd
    cases hd
    rfl
  have hclosed : m.Closed 1 := by
    intro k hk
    rw [Nat.lt_one_iff.1 hk]
    constructor
    · intro hwide
      rcases hwide with ⟨i, m', a, c, x, w, htakes, op, -⟩
      cases (hnoop i m' htakes).symm.trans op
    · intro hcall
      rcases hcall with ⟨-, i, m', htakes, op⟩
      cases (hnoop i m' htakes).symm.trans op
  exact ⟨hb, hclosed, (bounded_closed.2 m hb 1 hclosed).2.1⟩

end WordMachine.Machine
