import WordMachine.Proofs.Reachability
import WordMachine.Proofs.Surroundings
import WordMachine.Proofs.Turns

/-! # What goes in and what comes out

The console accounts for a program's input and output byte by byte, whatever is asked of the machine.

* `Machine.wrote?` and `Machine.read?` are the bytes that the next step writes and reads.
* `Accounts m vs m'`: on the way from `m` to `m'` these are what was attempted, and the console has
  changed by what the attempts wrote and read, in order.
* `Console.Orderly`: what is not yet flushed has no line end in it, and the counts are right.
* `streams` is the account of a machine from its first call to its last.
-/

namespace WordMachine

/-! ## Flushing -/

namespace Console

variable {c : Console}

/-- What was written since the last flush. -/
def pending (c : Console) : Bytes := c.output.toList.drop (c.flushes.back?.getD 0)

@[simp] theorem pending_flush (c : Console) : c.flush.pending = [] := by
  simp only [pending, flushes_flush, output_flush, Array.back?_push, Option.getD_some]
  rw [← Array.length_toList, List.drop_length]

/-- The counts are right, and no line that has ended is left unflushed. -/
structure Orderly (c : Console) : Prop where
  written : c.bytesWritten = c.output.size
  flushed : c.flushes.back?.getD 0 ≤ c.output.size
  lines : newline ∉ c.pending

theorem Orderly.flush (h : c.Orderly) : c.flush.Orderly where
  written := h.written
  flushed := by
    rw [flushes_flush, Array.back?_push]
    exact Nat.le_refl _
  lines := by simp

theorem Orderly.write (h : c.Orderly) (byte : UInt8) : (c.write byte).Orderly := by
  have hwritten : c.bytesWritten + 1 = (c.output.push byte).size := by
    rw [Array.size_push, h.written]
  unfold Console.write
  split
  · constructor
    · exact hwritten
    · rw [flushes_flush, Array.back?_push]
      exact Nat.le_refl _
    · simp
  · rename_i hbyte
    constructor
    · exact hwritten
    · exact Nat.le_trans h.flushed (by simp)
    · -- The byte is behind everything that was pending.
      have hpending : (c.output.push byte).toList.drop (c.flushes.back?.getD 0) =
          c.pending ++ [byte] := by
        rw [Array.toList_push, List.drop_append_of_le_length]
        · rfl
        · rw [Array.length_toList]
          exact h.flushed
      simp only [pending, hpending, List.mem_append, List.mem_singleton, not_or]
      exact ⟨h.lines, fun heq => hbyte heq.symm⟩

theorem Orderly.serve (h : c.Orderly) (request : Request) : (c.serve request).Orderly := by
  cases request with
  | nothing => exact h
  | write byte => exact h.write byte
  | read dest =>
    cases hunread : c.unread with
    | nil =>
      rw [serve_of_nil hunread]
      exact h.flush
    | cons b rest =>
      rw [serve_of_cons hunread]
      exact ⟨h.flush.written, h.flush.flushed, h.flush.lines⟩

end Console

/-! ## Bytes -/

namespace Machine

variable {m m' : Machine} {b : UInt8}

/-- The byte that the next step writes, if it writes one. -/
def wrote? (m : Machine) : Option UInt8 :=
  match m.request with
  | .write b => some b
  | _ => none

/-- The byte that the next step reads, if it reads one. -/
def read? (m : Machine) : Option UInt8 :=
  match m.request with
  | .read _ => m.console.unread.head?
  | _ => none

/-- A step writes a byte exactly if it is an output and succeeds: the low byte of its operand. -/
theorem wrote?_eq_some_iff :
    m.wrote? = some b ↔
      ∃ i m' a x, Registry.Takes m i m' ∧ i.opcode = .output ∧ i.operands = [a] ∧
        m.resolve a = .ok x ∧ b.toNat = x.toNat % 256 := by
  have hwrote : m.wrote? = some b ↔ m.request = .write b := by
    unfold wrote?
    cases m.request <;> simp
  have hbyte : ∀ x : Word, b = x.lowByte ↔ b.toNat = x.toNat % 256 := by
    intro x
    rw [← UInt8.toNat_inj, Word.lowByte, UInt16.toNat_toUInt8]
  rw [hwrote]
  constructor
  · intro h
    obtain ⟨i, a, x, hnext, op, operands, hx, hb⟩ := Registry.request_eq_write_iff.1 h
    exact ⟨i, _, a, x, ⟨hnext.2, Registry.step_of_write h⟩, op, operands, hx, (hbyte x).1 hb⟩
  · intro h
    obtain ⟨i, m', a, x, htakes, op, operands, hx, hb⟩ := h
    have hm : m.halt = none := (Registry.step_eq_running_iff.1 htakes.2).1
    exact Registry.request_eq_write_iff.2
      ⟨i, a, x, ⟨hm, htakes.1⟩, op, operands, hx, (hbyte x).2 hb⟩

/-- A step reads a byte exactly if it is an input and there is one, whatever becomes of it. -/
theorem read?_eq_some_iff :
    m.read? = some b ↔
      ∃ i, m.Next i ∧ i.opcode = .input ∧ m.console.unread.head? = some b := by
  constructor
  · intro h
    unfold read? at h
    split at h
    · rename_i a hrequest
      obtain ⟨i, hnext, op, -⟩ := Registry.request_eq_read_iff.1 hrequest
      exact ⟨i, hnext, op, h⟩
    · cases h
  · intro h
    obtain ⟨i, hnext, op, hhead⟩ := h
    obtain ⟨a, operands⟩ := operands_of_next hnext (by rw [op]; rfl)
    have hrequest : m.request = .read a := Registry.request_eq_read_iff.2 ⟨i, hnext, op, operands⟩
    rw [read?, hrequest]
    exact hhead

end Machine

/-! ## Accounts -/

variable {m m' m'' : Machine} {vs ws : List Machine}

/-- What was attempted from `vs`, on the way from `m` to `m'`, accounts for the console: it has
gained the bytes that were written, and lost those that were read. -/
structure Accounts (m : Machine) (vs : List Machine) (m' : Machine) : Prop where
  output : m'.console.output.toList = m.console.output.toList ++ vs.filterMap Machine.wrote?
  unread : m.console.unread = vs.filterMap Machine.read? ++ m'.console.unread
  bytesRead : m'.console.bytesRead = m.console.bytesRead + (vs.filterMap Machine.read?).length

namespace Accounts

/-- Nothing was attempted, and nothing but the flushes has changed. -/
theorem of_flushes {flushes : Array Nat}
    (h : m'.console = { m.console with flushes := flushes }) : Accounts m [] m' := by
  constructor
  · rw [h]
    simp
  · rw [h]
    rfl
  · rw [h]
    rfl

theorem refl (m : Machine) : Accounts m [] m := .of_flushes rfl

theorem trans (h₁ : Accounts m vs m') (h₂ : Accounts m' ws m'') : Accounts m (vs ++ ws) m'' where
  output := by
    rw [h₂.output, h₁.output, List.filterMap_append, List.append_assoc]
  unread := by
    rw [h₁.unread, h₂.unread, List.filterMap_append, List.append_assoc]
  bytesRead := by
    rw [h₂.bytesRead, h₁.bytesRead, List.filterMap_append, List.length_append, Nat.add_assoc]

/-- Flushing changes no account. -/
theorem flush (h : Accounts m vs m') : Accounts m vs m'.flush :=
  ⟨h.output, h.unread, h.bytesRead⟩

theorem step (m : Machine) : Accounts m [m] (Registry.standard.step m).machine := by
  have hconsole := Registry.console_of_step m
  cases hrequest : m.request with
  | nothing =>
    have hwrote : m.wrote? = none := by rw [Machine.wrote?, hrequest]
    have hread : m.read? = none := by rw [Machine.read?, hrequest]
    constructor
    · simp [hconsole, hrequest, hwrote, Console.serve]
    · simp [hconsole, hrequest, hread, Console.serve]
    · simp [hconsole, hrequest, hread, Console.serve]
  | write b =>
    have hwrote : m.wrote? = some b := by rw [Machine.wrote?, hrequest]
    have hread : m.read? = none := by rw [Machine.read?, hrequest]
    constructor
    · simp [hconsole, hrequest, hwrote, Console.serve]
    · simp [hconsole, hrequest, hread, Console.serve]
    · simp [hconsole, hrequest, hread, Console.serve]
  | read a =>
    have hwrote : m.wrote? = none := by rw [Machine.wrote?, hrequest]
    have hread : m.read? = m.console.unread.head? := by rw [Machine.read?, hrequest]
    rw [hrequest] at hconsole
    cases hunread : m.console.unread with
    | nil =>
      rw [Console.serve_of_nil hunread] at hconsole
      constructor
      · simp [hconsole, hwrote]
      · simp [hconsole, hread, hunread]
      · simp [hconsole, hread, hunread]
    | cons b rest =>
      rw [Console.serve_of_cons hunread] at hconsole
      constructor
      · simp [hconsole, hwrote]
      · simp [hconsole, hread, hunread]
      · simp [hconsole, hread, hunread]

/-- A run accounts for what it attempts, whatever it comes to. -/
theorem of_runsTo {limit : Option Int} {fuel : Nat} {o : Outcome (Option Ending)}
    (h : Registry.standard.RunsTo limit fuel m o) :
    Accounts m (Registry.standard.attempts limit fuel m) o.machine := by
  induction h with
  | @halted fuel m h halt =>
    rw [Registry.attempts_of_ended (o := .done ⟨h.reason, none⟩ m.flush)
      fun k => (Registry.RunsTo.halted halt).run_eq]
    exact (refl m).flush
  | @asked fuel m running asked =>
    rw [Registry.attempts_of_ended (o := .done ⟨.stopped, none⟩ (m.haltWith .stopped none).flush)
      fun k => (Registry.RunsTo.asked running asked).run_eq]
    exact of_flushes rfl
  | @exceeded fuel m l running unasked limited reached =>
    rw [Registry.attempts_of_ended (o := m.flush.exceed l) fun k => ?_]
    · obtain ⟨halt, hmachine⟩ := m.flush.machine_exceed (α := Option Ending) l
      rw [hmachine]
      exact of_flushes rfl
    · rw [Machine.map_exceed]
      exact (Registry.RunsTo.exceeded running unasked limited reached).run_eq
  | spent ready => exact refl _
  | @failed fuel m m' e ready step =>
    have haccounts := Accounts.step m
    rw [step] at haccounts
    rw [Registry.attempts_of_last (o := .failed e m'.flush) ready
      fun k => (Registry.RunsTo.failed ready step).run_eq]
    exact haccounts.flush
  | @stopped fuel m m' a reason ready step halt =>
    have haccounts := Accounts.step m
    rw [step] at haccounts
    rw [Registry.attempts_of_last (o := .done ⟨reason, some a⟩ m'.flush) ready
      fun k => (Registry.RunsTo.stopped ready step halt).run_eq]
    exact haccounts.flush
  | @next fuel m m' o ready step rest ih =>
    have haccounts := Accounts.step m
    rw [step] at haccounts
    rw [Registry.attempts_of_running ready step]
    exact haccounts.trans ih

end Accounts

/-! ## Calls -/

namespace Call

/-- The machines from which a call attempts a step, in order. -/
def attempts : Call → Machine → List Machine
  | .step, m => [m]
  | .run limit fuel, m => Registry.standard.attempts (m.effectiveLimit limit) fuel m
  | _, _ => []

/-- The machines from which they attempt a step. -/
def attemptsAll : List Call → Machine → List Machine
  | [], _ => []
  | c :: cs, m => c.attempts m ++ attemptsAll cs (c.perform m)

end Call

theorem Accounts.perform (c : Call) (m : Machine) : Accounts m (c.attempts m) (c.perform m) := by
  cases c with
  | load files source =>
    obtain ⟨memory, size, hload⟩ := m.machine_load files source
    rw [Call.perform, hload]
    exact .of_flushes rfl
  | loadWords values =>
    obtain ⟨memory, size, hload⟩ := m.machine_loadWords values
    rw [Call.perform, hload]
    exact .of_flushes rfl
  | step => exact .step m
  | run limit fuel =>
    exact .of_runsTo (Registry.lawful_standard.runsTo_run (m.effectiveLimit limit) fuel m)
  | stop => exact .of_flushes rfl

theorem Accounts.performAll (cs : List Call) (m : Machine) :
    Accounts m (Call.attemptsAll cs m) (Call.performAll cs m) := by
  induction cs generalizing m with
  | nil => exact .refl m
  | cons c cs ih => exact (Accounts.perform c m).trans (ih (c.perform m))

/-! ## Lines -/

namespace Registry

variable {limit : Option Int} {fuel : Nat}

theorem orderly_of_step (h : m.console.Orderly) : (standard.step m).machine.console.Orderly := by
  rw [console_of_step]
  exact h.serve m.request

theorem orderly_of_run (h : m.console.Orderly) :
    (standard.run limit fuel m).machine.console.Orderly := by
  have hrun := lawful_standard.runsTo_run limit fuel m
  apply hrun.machine (P := fun m => m.console.Orderly) h
  · intro m₁ h₁
    exact orderly_of_step h₁
  · intro m₁ h₁
    exact h₁
  · intro m₁ f h₁
    exact h₁
  · intro m₁ h₁
    exact h₁.flush

/-- A machine that a run attempts a step from is one that a shorter run hands back. -/
theorem orderly_of_attempts (h : m.console.Orderly) {v : Machine}
    (hv : v ∈ standard.attempts limit fuel m) : v.console.Orderly := by
  obtain ⟨k, -, hk⟩ := List.mem_filterMap.1 hv
  have horderly : (standard.run limit k m).machine.console.Orderly := orderly_of_run h
  unfold unended? at hk
  split at hk
  · rename_i m₁ hrun
    cases hk
    rwa [hrun] at horderly
  · cases hk

/-- However a run ends, nothing is left pending. -/
theorem RunsTo.pending {o : Outcome (Option Ending)} (h : standard.RunsTo limit fuel m o)
    (hended : unended? o = none) : o.machine.console.pending = [] := by
  induction h with
  | spent ready => cases hended
  | next ready step rest ih => exact ih hended
  | @exceeded fuel m l running unasked limited reached =>
    obtain ⟨halt, hmachine⟩ := m.flush.machine_exceed (α := Option Ending) l
    rw [hmachine]
    exact Console.pending_flush _
  | _ => exact Console.pending_flush _

end Registry

theorem orderly_perform (h : m.console.Orderly) (c : Call) : (c.perform m).console.Orderly := by
  apply c.keeps (P := fun m => m.console.Orderly) h
  · intro m₁ h₁
    exact Registry.orderly_of_step h₁
  · intro m₁ h₁
    exact h₁
  · intro m₁ f h₁
    exact h₁
  · intro m₁ h₁
    exact h₁.flush
  · intro m₁ memory size h₁
    exact h₁
  · intro m₁ h₁
    exact h₁

/-- No line that has ended is left unflushed after a call, nor was one when it attempted a step. -/
theorem orderly_performAll (h : m.console.Orderly) (cs : List Call) :
    (Call.performAll cs m).console.Orderly ∧
      ∀ v ∈ Call.attemptsAll cs m, v.console.Orderly := by
  induction cs generalizing m with
  | nil =>
    constructor
    · exact h
    · intro v hv
      cases hv
  | cons c cs ih =>
    obtain ⟨hlast, hrest⟩ := ih (orderly_perform h c)
    constructor
    · exact hlast
    · intro v hv
      rcases List.mem_append.1 hv with hv | hv
      · cases c with
        | step =>
          cases List.mem_singleton.1 hv
          exact h
        | run limit fuel => exact Registry.orderly_of_attempts h hv
        | load files source => cases hv
        | loadWords values => cases hv
        | stop => cases hv
      · exact hrest v hv

/-! ## From the first call to the last -/

/-- Whatever is asked of a machine with a new console, its output is the bytes that its steps have
written, and its input the bytes that they have read with those that are left behind them. Each byte
is counted once.

A read is from a console whose output has been flushed, and at the end of the input it does nothing
else. Between two steps no line is unflushed that has ended, and after a run nothing is. -/
theorem streams {m₀ : Machine} {input : Bytes} {device : InputEnd}
    (hnew : m₀.console = { unread := input, inputEnd := device }) (cs : List Call) :
    let vs := Call.attemptsAll cs m₀
    let m := Call.performAll cs m₀
    (m.console.output.toList = vs.filterMap Machine.wrote? ∧
      m.console.bytesWritten = m.console.output.size ∧
      ∀ v b, Machine.wrote? v = some b ↔
        ∃ i m' a x, Registry.Takes v i m' ∧ i.opcode = .output ∧ i.operands = [a] ∧
          v.resolve a = .ok x ∧ b.toNat = x.toNat % 256) ∧
    (input = vs.filterMap Machine.read? ++ m.console.unread ∧
      m.console.bytesRead = (vs.filterMap Machine.read?).length ∧
      ∀ v b, Machine.read? v = some b ↔
        ∃ i, v.Next i ∧ i.opcode = .input ∧ v.console.unread.head? = some b) ∧
    (Console.newline ∉ m.console.pending ∧ ∀ v ∈ vs, Console.newline ∉ v.console.pending) ∧
    (∀ v i, v.Next i → i.opcode = .input →
      let c := v.console.flush
      c.pending = [] ∧
        (Registry.standard.step v).machine.console =
          match c.read? with
          | some (_, c') => c'
          | none => c) ∧
    ∀ limit fuel (o : Outcome Ending),
      Registry.standard.run limit fuel m = o.map some → o.machine.console.pending = [] := by
  intro vs m
  have haccounts : Accounts m₀ vs m := .performAll cs m₀
  have horderly₀ : m₀.console.Orderly := by
    rw [hnew]
    constructor
    · rfl
    · exact Nat.le_refl 0
    · simp [Console.pending]
  obtain ⟨horderly, hattempts⟩ := orderly_performAll horderly₀ cs
  refine ⟨⟨?_, horderly.written, fun v b => Machine.wrote?_eq_some_iff⟩,
    ⟨?_, ?_, fun v b => Machine.read?_eq_some_iff⟩,
    ⟨horderly.lines, fun v hv => (hattempts v hv).lines⟩, ?_, ?_⟩
  · have houtput := haccounts.output
    rwa [hnew] at houtput
  · have hunread := haccounts.unread
    rwa [hnew] at hunread
  · have hread := haccounts.bytesRead
    rwa [hnew, Nat.zero_add] at hread
  · intro v i hnext op c
    refine ⟨Console.pending_flush v.console, ?_⟩
    obtain ⟨a, operands⟩ := Machine.operands_of_next hnext (by rw [op]; rfl)
    have hrequest : v.request = .read a := Registry.request_eq_read_iff.2 ⟨i, hnext, op, operands⟩
    rw [Registry.console_of_step, hrequest]
    cases hunread : v.console.unread with
    | nil => rw [Console.serve_of_nil hunread, Console.read?, Console.unread_flush, hunread]
    | cons b rest =>
      rw [Console.serve_of_cons hunread, Console.read?, Console.unread_flush, hunread]
      rfl
  · intro limit fuel o hrun
    have hends := Registry.lawful_standard.runsTo_run limit fuel m
    rw [hrun] at hends
    have hpending := hends.pending (Registry.unended?_map_some o)
    cases o with
    | done ending m' => exact hpending
    | failed e m' => exact hpending

/-- A program that reads a byte and writes it has read and written that one byte. -/
theorem streams_echo :
    let m₀ : Machine :=
      { memory := #[20, 32768, 19, 32768, 0], console := { unread := [65, 66] } }
    let cs : List Call := [.run none 3]
    let m := Call.performAll cs m₀
    m₀.console = { unread := [65, 66], inputEnd := .exhausted } ∧
      m.console.output.toList = [65] ∧ m.console.bytesWritten = m.console.output.size ∧
      [65, 66] = [65] ++ m.console.unread ∧ m.console.bytesRead = 1 := by
  intro m₀ cs
  have hwrote : (Call.attemptsAll cs m₀).filterMap Machine.wrote? = [65] := by decide +kernel
  have hread : (Call.attemptsAll cs m₀).filterMap Machine.read? = [65] := by decide +kernel
  have hnew : m₀.console = { unread := [65, 66], inputEnd := .exhausted } := rfl
  obtain ⟨⟨houtput, hwritten, -⟩, ⟨hunread, hcount, -⟩, -⟩ := streams hnew cs
  rw [hwrote] at houtput
  rw [hread] at hunread hcount
  dsimp only
  exact ⟨rfl, houtput, hwritten, hunread, hcount⟩

end WordMachine
