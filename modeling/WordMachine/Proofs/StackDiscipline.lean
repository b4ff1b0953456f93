import Mathlib.Data.List.DropRight
import WordMachine.Proofs.Bounds

/-! # What programs leave on the stack

Programs share one stack for data and return addresses, and reach no deeper into it than its top.

* `stack_of_step`: a step puts one entry on the stack, or takes one off, or does neither.
* `bottom_of_after`: so entries stay as they are for as long as the stack is at least as deep as
  they.
* `stack_discipline`: what was put on the stack is what is taken off it when the stack has become
  as deep again, whatever has happened above it.
-/

namespace WordMachine.Machine

variable {m m₁ m' : Machine} {i : Instruction} {b : Bool} {n d : Nat}

/-- The lowest `d` entries of the stack, all of them if it has no more. -/
def bottom (d : Nat) (m : Machine) : List Datum := m.stack.rtake d

/-! ## One step -/

/-- The stacks of the two machines differ by an entry on top of one of them, if at all. -/
def OneApart (m m' : Machine) : Prop :=
  m'.stack = m.stack ∨ (∃ top, m'.stack = top :: m.stack) ∨ ∃ top, m.stack = top :: m'.stack

theorem oneApart_of_executes (h : Executes i m b m') : OneApart m m' := by
  cases h with
  | push op operands source => exact .inr (.inl ⟨_, rfl⟩)
  | call op operands target => exact .inr (.inl ⟨_, rfl⟩)
  | pop op operands stack entry word dest => exact .inr (.inr ⟨_, stack⟩)
  | ret op stack entry => exact .inr (.inr ⟨_, stack⟩)
  | @underflow rest op stack =>
    -- What is taken off is nothing, or a blank.
    rcases stack with ⟨hnil, rfl⟩ | hblank
    · exact .inl hnil.symm
    · exact .inr (.inr ⟨_, hblank⟩)
  | _ => exact .inl rfl

theorem oneApart_of_aborts {e : Error} (h : Aborts i m e m') : OneApart m m' := by
  cases h with
  | popped op operands stack entry reason => exact .inr (.inr ⟨_, stack⟩)
  | _ => exact .inl rfl

/-- A step moves the stack by one entry at most, whether it succeeds or not. -/
theorem stack_of_step (m : Machine) : OneApart m (Registry.standard.step m).machine := by
  apply Registry.machine_step (P := OneApart m) (.inl rfl)
  · intro e pc _ _
    exact .inl rfl
  · intro i pc b m₂ _ _ hx
    have hone : OneApart ({ m with pc := pc } : Machine).counted m₂ := oneApart_of_executes hx
    exact hone
  · intro i pc e m₂ _ _ hx
    have hone : OneApart ({ m with pc := pc } : Machine).counted m₂ := oneApart_of_aborts hx
    exact hone
  · intro m₁ f h₁
    exact h₁

/-- An entry on top of at least `d` others is not one of the lowest `d`. -/
theorem rtake_cons {top : Datum} {rest : List Datum} (h : d ≤ rest.length) :
    (top :: rest).rtake d = rest.rtake d := by
  rw [List.rtake, List.rtake, List.length_cons, Nat.succ_sub h, List.drop_succ_cons]

/-- The lowest entries are the same where both stacks have them. -/
theorem OneApart.bottom (h : OneApart m m') (hd : d ≤ m.stackDepth) (hd' : d ≤ m'.stackDepth) :
    m'.bottom d = m.bottom d := by
  rcases h with heq | ⟨top, heq⟩ | ⟨top, heq⟩
  · rw [Machine.bottom, heq]
    rfl
  · rw [Machine.bottom, heq, rtake_cons hd]
    rfl
  · rw [Machine.bottom, Machine.bottom, heq, rtake_cons hd']

/-! ## Many steps -/

/-- In the first `n` steps the stack is never less than `d` deep. -/
def StaysAbove (d n : Nat) (m : Machine) : Prop :=
  ∀ k, k ≤ n → d ≤ (Registry.standard.after k m).stackDepth

/-- As long as the stack is never less than `d` deep, its lowest `d` entries stay as they are. -/
theorem bottom_of_after (h : m.StaysAbove d n) :
    (Registry.standard.after n m).bottom d = m.bottom d := by
  apply Registry.after_induction (P := fun _ m' => m'.bottom d = m.bottom d) rfl
  intro k hk heq
  have hbefore : d ≤ (Registry.standard.after k m).stackDepth := h k (Nat.le_of_lt hk)
  have hafter : d ≤ (Registry.standard.step (Registry.standard.after k m)).machine.stackDepth := by
    rw [← Registry.after_succ']
    exact h (k + 1) hk
  exact ((stack_of_step _).bottom hbefore hafter).trans heq

/-- When the stack is as deep again as it was, it is the same. -/
theorem stack_of_after (h : m.StaysAbove m.stackDepth n)
    (hdepth : (Registry.standard.after n m).stackDepth = m.stackDepth) :
    (Registry.standard.after n m).stack = m.stack := by
  -- As many entries as there are is all of them.
  have hall : ∀ m' : Machine, m'.bottom m'.stackDepth = m'.stack := by
    intro m'
    rw [Machine.bottom, stackDepth, List.rtake, Nat.sub_self, List.drop_zero]
  have hbottom : (Registry.standard.after n m).bottom m.stackDepth = m.bottom m.stackDepth :=
    bottom_of_after h
  rwa [← hdepth, hall, hdepth, hall] at hbottom

/-! ## What is put on the stack and what is taken off -/

/-- A call saves the address behind its two words. -/
theorem stack_of_call (h : m.Sized) {a : Int} (hp : m.pc = .number a)
    (htakes : Registry.Takes m i m₁) (op : i.opcode = .call) :
    m₁.stack = .number (a + 2) :: m.stack := by
  obtain ⟨-, m₀, hd, hx⟩ := Registry.takes_iff.1 htakes
  obtain ⟨c, t, -, -, rfl⟩ := hx.of_call op
  obtain ⟨-, -, rfl⟩ := h.decode_call hp hd op
  rfl

/-- A push saves the value of its operand. -/
theorem stack_of_push (htakes : Registry.Takes m i m₁) (op : i.opcode = .push) :
    ∃ c v, i.operands = [c] ∧ m.resolve c = .ok v ∧ m₁.stack = .number v.toInt :: m.stack := by
  obtain ⟨-, m₀, hd, hx⟩ := Registry.takes_iff.1 htakes
  obtain ⟨c, v, operands, source, rfl⟩ := hx.of_push op
  rw [resolve_counted, resolve_of_decode hd] at source
  obtain ⟨pc, rfl⟩ := frame_of_decode_done hd
  exact ⟨c, v, operands, source, rfl⟩

/-- A return goes to the number on top of the stack. -/
theorem takes_ret (hnext : m.Next i) (op : i.opcode = .ret) {q : Int} {rest : List Datum}
    (hs : m.stack = .number q :: rest) :
    ∃ m', Registry.Takes m i m' ∧ m'.pc = .number q ∧ m'.stack = rest := by
  rcases hnext with ⟨hm, m₀, hd⟩
  have hs₀ : m₀.counted.stack = .number q :: rest := by
    obtain ⟨pc, rfl⟩ := frame_of_decode_done hd
    exact hs
  have hx : Executes i m₀.counted true { m₀.counted with stack := rest, pc := .number q } :=
    .ret op hs₀ (fun h => by cases h)
  exact ⟨_, Registry.takes_iff.2 ⟨hm, m₀, hd, hx⟩, rfl, rfl⟩

/-- A pop moves the word on top of the stack to the register that its operand selects. -/
theorem takes_pop (h : m.Sized) (hnext : m.Next i) (op : i.opcode = .pop) {c : Int} {r : Nat}
    (operands : i.operands = [c]) (hr : registerNumber c = .ok r) {v : Word} {rest : List Datum}
    (hs : m.stack = .number v.toInt :: rest) :
    ∃ m', Registry.Takes m i m' ∧ m'.register r = .ok v ∧ m'.stack = rest := by
  rcases hnext with ⟨hm, m₀, hd⟩
  have hlt : r < registerCount := (registerNumber_eq_ok_iff.1 hr).2
  have hword : (Datum.number v.toInt).word = .ok v := by
    simp [Datum.word, wordOf]
  have hframe : m₀.counted.stack = .number v.toInt :: rest ∧ r < m₀.counted.registers.size := by
    obtain ⟨pc, rfl⟩ := frame_of_decode_done hd
    refine ⟨hs, ?_⟩
    have hsize : m.registers.size = registerCount := h.registers
    exact hsize ▸ hlt
  rcases hframe with ⟨hs₀, hsize⟩
  have hx : Executes i m₀.counted true { m₀.counted with
      stack := rest
      registers := m₀.counted.registers.setIfInBounds r v } :=
    .pop op operands hs₀ (fun h => by cases h) hword ⟨hr, hsize⟩
  refine ⟨_, Registry.takes_iff.2 ⟨hm, m₀, hd, hx⟩, ?_, rfl⟩
  have hindex : (0 : Int) ≤ r ∧ (r : Int) < registerCount := by omega
  rw [register, if_pos hindex]
  simp [hsize]

/-- The stack keeps what is put on it until it has become as deep again.

The lowest entries are the same throughout any run in which the stack is deep enough to hold them.
So a return that finds the stack as deep as a call has left it goes to the instruction behind the
call, and a pop that finds it as deep as a push has left it gets the value that was pushed, and
both restore the stack, whatever calls, pushes, pops and changes of the program there were in
between. -/
theorem stack_discipline :
    (∀ (m : Machine) d n, m.StaysAbove d n →
      ∀ k, k ≤ n → (Registry.standard.after k m).bottom d = m.bottom d) ∧
    ∀ (m : Machine) i m₁ n, m.Bounded 16 → Registry.Takes m i m₁ →
      m₁.StaysAbove (m.stackDepth + 1) n →
      let m₂ := Registry.standard.after n m₁
      m₂.stackDepth = m.stackDepth + 1 →
      (∀ (a : Int) j, m.pc = .number a → i.opcode = .call → m₂.Next j → j.opcode = .ret →
        ∃ m₃, Registry.Takes m₂ j m₃ ∧ m₃.pc = .number (a + 2) ∧ m₃.stack = m.stack) ∧
      ∀ j c r, i.opcode = .push → m₂.Next j → j.opcode = .pop → j.operands = [c] →
        registerNumber c = .ok r →
        ∃ b v m₃, i.operands = [b] ∧ m.resolve b = .ok v ∧ Registry.Takes m₂ j m₃ ∧
          m₃.register r = .ok v ∧ m₃.stack = m.stack := by
  constructor
  · intro m d n h k hk
    exact bottom_of_after fun j hj => h j (Nat.le_trans hj hk)
  · intro m i m₁ n hb htakes habove m₂ hdepth
    -- An entry that the step has put on the stack is on top again.
    have hagain : ∀ top, m₁.stack = top :: m.stack → m₂.stack = top :: m.stack := by
      intro top hs
      have hdepth₁ : m₁.stackDepth = m.stackDepth + 1 := by
        rw [stackDepth, hs]
        rfl
      rw [← hdepth₁] at habove hdepth
      rw [← hs]
      exact stack_of_after habove hdepth
    constructor
    · intro a j hp op hnext hret
      have hs : m₂.stack = .number (a + 2) :: m.stack :=
        hagain _ (stack_of_call hb.toSized hp htakes op)
      exact takes_ret hnext hret hs
    · intro j c r op hnext hpop operands hr
      obtain ⟨b, v, hoperands, source, hs₁⟩ := stack_of_push htakes op
      have hb₁ : m₁.Bounded 16 := by
        have hstep : (Registry.standard.step m).machine.Bounded 16 :=
          hb.step_of_le (Nat.le_refl 16)
        rwa [htakes.2] at hstep
      have hb₂ : m₂.Bounded 16 := hb₁.after_of_le (Nat.le_refl 16) n
      rcases takes_pop hb₂.toSized hnext hpop operands hr (hagain _ hs₁) with
        ⟨m₃, htakes₃, hregister, hs₃⟩
      exact ⟨b, v, m₃, hoperands, source, htakes₃, hregister, hs₃⟩

/-- A procedure of one `noop` returns to the instruction behind the call, and leaves an empty
stack. -/
theorem stack_discipline_noop :
    let m := ({} : Machine).install (Image.ofWords [17, 3, 0, 21, 18])
    m.Bounded 16 ∧ ∃ i m₁ j m₃, Registry.Takes m i m₁ ∧ m₁.StaysAbove 1 1 ∧
      Registry.Takes (Registry.standard.after 1 m₁) j m₃ ∧ m₃.pc = .number 2 ∧ m₃.stack = [] := by
  intro m
  have hb : m.Bounded 16 := (Bounded.of_fresh (m := {}) rfl).install (by decide)
  have hcells : m.memory = overlay (Array.replicate memorySize 0) [17, 3, 0, 21, 18] := rfl
  let call : Instruction := ⟨.call, [3], .number 0, 17⟩
  let m₁ : Machine := { m with pc := .number 3, stack := [.number 2], cycles := 1 }
  let m₂ : Machine := { m₁ with pc := .number 4, cycles := 2 }
  have hsized₁ : m₁.Sized := ⟨hb.memory, hb.registers⟩
  have hsized₂ : m₂.Sized := ⟨hb.memory, hb.registers⟩
  have hcall : Registry.Takes m call m₁ := by
    have hd := hb.decode_one (p := 0) rfl (by decide)
      (readMemory_of_overlay hcells (k := 0) rfl (by decide)) rfl
      (readMemory_of_overlay hcells (k := 1) rfl (by decide))
    exact Registry.takes_iff.2 ⟨rfl, _, hd, .call (a := 3) (t := 3) rfl rfl rfl⟩
  have hnoop : Registry.standard.step m₁ = .done .running m₂ := by
    have hd := hsized₁.decode_of_fits (p := 3) rfl (by decide)
      (readMemory_of_overlay (m := m₁) hcells (k := 3) rfl (by decide)) (by decide)
    exact Registry.step_eq_running_iff.2 ⟨rfl, _, _, hd, .noop rfl⟩
  have hafter : Registry.standard.after 1 m₁ = m₂ := by
    rw [Registry.after_succ, hnoop]
    rfl
  have habove : m₁.StaysAbove 1 1 := by
    intro k hk
    rcases Nat.le_one_iff_eq_zero_or_eq_one.1 hk with rfl | rfl
    · exact Nat.le_refl 1
    · rw [hafter]
      exact Nat.le_refl 1
  have hd := hsized₂.decode_of_fits (p := 4) rfl (by decide)
    (readMemory_of_overlay (m := m₂) hcells (k := 4) rfl (by decide)) (by decide)
  have hdepth : (Registry.standard.after 1 m₁).stackDepth = m.stackDepth + 1 := by
    rw [hafter]
    rfl
  have hreturns := (stack_discipline.2 m call m₁ 1 hb hcall habove hdepth).1 0
  rw [hafter] at hreturns
  obtain ⟨m₃, htakes, hpc, hs⟩ := hreturns _ rfl rfl ⟨rfl, _, hd⟩ rfl
  rw [← hafter] at htakes
  exact ⟨hb, call, m₁, _, m₃, hcall, habove, htakes, hpc, hs⟩

end WordMachine.Machine
