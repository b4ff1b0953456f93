import Mathlib.Data.Int.Interval
import Mathlib.Data.Nat.Bitwise
import Mathlib.Data.Nat.ModEq
import Mathlib.Logic.Function.Basic
import WordMachine.Proofs.Faults
import WordMachine.Proofs.InstructionTable

/-! # Arithmetic in registers

Rows of instructions compute with registers, of 16 bits each, by operations most of which look at 15 of
them only. What a row computes is an expression in the sources as they were before it, and any row that
computes an expression leaves the same number.

* `TracksAll` follows a row of instructions and says which expression each operand stands for after it.
  Something that is overwritten can no longer be used, so rows may use registers as they like.
* `Machine.Sized.yields`: every row that computes an expression runs to its end, and leaves its value.
* `Machine.Arithmetic` are the laws that follow, and hold for all contents of registers.
-/

namespace WordMachine

variable {m m₁ : Machine} {i : Instruction} {op : Opcode} {d : Int} {w : Word}

/-! ## Rows of instructions -/

/-- Executes instructions one after the other, until one of them fails or stops the machine. -/
def Registry.executeAll (r : Registry) : List Instruction → Machine → Outcome Bool
  | [], m => .done true m
  | i :: code, m =>
    (r.execute i m).andThen fun running m =>
      if running then r.executeAll code m else .done false m

/-! ## Expressions -/

/-- The number that an opcode with two sources makes of their numbers. -/
def Opcode.combine : Opcode → Nat → Nat → Nat
  | .eq, x, y => if x = y then 1 else 0
  | .gt, x, y => if y < x then 1 else 0
  | .add, x, y => (x + y) % 32768
  | .multiply, x, y => x * y % 32768
  | .modulo, x, y => x % y
  | .and, x, y => x &&& y
  | .or, x, y => x ||| y
  | _, _, _ => 0

theorem Opcode.combine_of_binary? {f : Word → Word → Word} (h : op.binary? = some f) (x y : Word) :
    op.combine x.toNat y.toNat = (f x y).toNat := by
  cases op with
  | eq =>
    cases h
    simp only [combine, Word.toNat_ofBool, beq_iff_eq, UInt16.toNat_inj]
  | gt =>
    cases h
    simp only [combine, Word.toNat_ofBool, decide_eq_true_eq, UInt16.lt_iff_toNat_lt]
  | add =>
    cases h
    rw [combine, Word.toNat_add]
  | multiply =>
    cases h
    rw [combine, Word.toNat_multiply]
  | and =>
    cases h
    rw [combine, UInt16.toNat_and]
  | or =>
    cases h
    rw [combine, UInt16.toNat_or]
  | _ => cases h

/-- What instructions can compute from sources. -/
inductive Expression where
  | source (a : Int)
  | complement (s : Expression)
  | binary (op : Opcode) (s t : Expression)

namespace Expression

-- Opcodes that have a sign of their own are written with it; comparisons have none.

instance : Add Expression := ⟨binary .add⟩

instance : Mul Expression := ⟨binary .multiply⟩

instance : Mod Expression := ⟨binary .modulo⟩

instance : AndOp Expression := ⟨binary .and⟩

instance : OrOp Expression := ⟨binary .or⟩

instance : Complement Expression := ⟨complement⟩

/-- The value of an expression whose sources stand for what they do in `m`. -/
def value (m : Machine) : Expression → Nat
  | source a => m.value a
  | complement s => 32767 - s.value m % 32768
  | binary op s t => op.combine (s.value m) (t.value m)

variable (s t : Expression)

@[simp] theorem value_source (a : Int) : (source a).value m = m.value a := rfl

@[simp] theorem value_add : (s + t).value m = (s.value m + t.value m) % 32768 := rfl

@[simp] theorem value_mul : (s * t).value m = s.value m * t.value m % 32768 := rfl

@[simp] theorem value_mod : (s % t).value m = s.value m % t.value m := rfl

@[simp] theorem value_and : (s &&& t).value m = s.value m &&& t.value m := rfl

@[simp] theorem value_or : (s ||| t).value m = s.value m ||| t.value m := rfl

@[simp] theorem value_complement : (~~~s).value m = 32767 - s.value m % 32768 := rfl

end Expression

/-! ## What a row computes -/

/-- The expression that each operand stands for. -/
abbrev Contents := Int → Expression

/-- The opcode makes a number of two others, of which `y` is the second. -/
def Opcode.Combines (op : Opcode) (y : Nat) : Prop :=
  op.binary?.isSome ∨ (op = .modulo ∧ y ≠ 0)

/-- After the instruction its destination stands for what was computed from its sources, one of which
it may be, and every other operand for what it did before. -/
inductive Tracks (m : Machine) (env : Contents) (i : Instruction) : Contents → Prop where
  | set {d a : Int} (op : i.opcode = .set) (operands : i.operands = [d, a])
      (dest : 32768 ≤ d ∧ d ≤ 32775) (source : 0 ≤ a ∧ a ≤ 32775) :
      Tracks m env i (Function.update env d (env a))
  | complement {d a : Int} (op : i.opcode = .not) (operands : i.operands = [d, a])
      (dest : 32768 ≤ d ∧ d ≤ 32775) (source : 0 ≤ a ∧ a ≤ 32775) :
      Tracks m env i (Function.update env d (~~~env a))
  | binary {d a b : Int} (op : i.opcode.Combines ((env b).value m))
      (operands : i.operands = [d, a, b]) (dest : 32768 ≤ d ∧ d ≤ 32775)
      (first : 0 ≤ a ∧ a ≤ 32775) (second : 0 ≤ b ∧ b ≤ 32775) :
      Tracks m env i (Function.update env d (.binary i.opcode (env a) (env b)))

/-- What operands stand for before and after a row of instructions. -/
inductive TracksAll (m : Machine) : Contents → List Instruction → Contents → Prop where
  | nil {env : Contents} : TracksAll m env [] env
  | cons {env env₁ env₂ : Contents} {i : Instruction} {code : List Instruction}
      (first : Tracks m env i env₁) (rest : TracksAll m env₁ code env₂) :
      TracksAll m env (i :: code) env₂

namespace Machine

/-- The row of instructions computes the expression from the sources of `m`, and leaves it in `d`. A
source that is still needed has not been overwritten, or it would stand for something else. -/
def Computes (m : Machine) (code : List Instruction) (d : Int) (s : Expression) : Prop :=
  ∃ env, TracksAll m .source code env ∧ env d = s

/-- Rows of instructions can compute the expression, and every one that does runs to its end and leaves
the number. -/
structure Yields (m : Machine) (s : Expression) (n : Nat) : Prop where
  some_row : ∃ code d, m.Computes code d s
  every_row : ∀ code d, m.Computes code d s →
    ∃ m', Registry.standard.executeAll code m = .done true m' ∧ m'.value d = n

/-- Rows of instructions that compute the one or the other expression leave the same number. -/
def Equates (m : Machine) (s t : Expression) : Prop := ∃ n, m.Yields s n ∧ m.Yields t n

/-! ## Rows do what they compute -/

/-- The contents say what the sources of `m₁` stand for, a machine of full size. -/
structure Reflects (m : Machine) (env : Contents) (m₁ : Machine) : Prop where
  sized : m₁.Sized
  value : ∀ a, m₁.value a = (env a).value m

theorem Sized.selects (hm : m.Sized) (hd : 32768 ≤ d ∧ d ≤ 32775) :
    m.Selects d (d - 32768).toNat := by
  have hbase : (registerBase : Int) = 32768 := rfl
  have hcount : registerCount = 8 := rfl
  constructor
  · rw [registerNumber_eq_ok_iff]
    omega
  · rw [hm.registers]
    omega

/-- A register that is written stands for what was written, and every other source for what it did
before. -/
theorem value_setRegister {r : Nat} (hr : m.Selects d r) (a : Int) :
    ({ m with registers := m.registers.setIfInBounds r w } : Machine).value a =
      if a = d then w.toNat else m.value a := by
  obtain ⟨hselector, hsize⟩ := hr
  obtain ⟨hd, -⟩ := registerNumber_eq_ok_iff.1 hselector
  have hbase : (registerBase : Int) = 32768 := rfl
  by_cases ha : a < 32768
  · rw [value, value, if_pos ha, if_pos ha, if_neg (by omega)]
  rw [value, value, if_neg ha, if_neg ha]
  by_cases had : a = d
  · have hnumber : (a - 32768).toNat = r := by omega
    rw [if_pos had, hnumber, Array.getElem?_setIfInBounds_self_of_lt hsize, Option.getD_some]
  · have hnumber : r ≠ (a - 32768).toNat := by omega
    rw [if_neg had, Array.getElem?_setIfInBounds_ne hnumber]

/-- Writing the value of an expression to a register makes the register stand for it. -/
theorem Reflects.write {env : Contents} {s : Expression} {r : Nat} (h : m.Reflects env m₁)
    (hr : m₁.Selects d r) (hw : w.toNat = s.value m) :
    m.Reflects (Function.update env d s)
      { m₁.counted with registers := m₁.registers.setIfInBounds r w } where
  sized :=
    have hset := h.sized.setRegister r w
    ⟨hset.memory, hset.registers⟩
  value := by
    intro a
    have hvalue := value_setRegister (m := m₁) (w := w) hr a
    rw [Function.update_apply]
    by_cases ha : a = d
    · rw [if_pos ha] at hvalue ⊢
      exact hvalue.trans hw
    · rw [if_neg ha] at hvalue ⊢
      exact hvalue.trans (h.value a)

/-- A source of a machine of full size has a word, whose number is that of its expression. -/
theorem Reflects.resolve {env : Contents} (h : m.Reflects env m₁) {a : Int}
    (ha : 0 ≤ a ∧ a ≤ 32775) : ∃ x, m₁.resolve a = .ok x ∧ x.toNat = (env a).value m := by
  obtain ⟨x, hx⟩ := h.sized.resolve ha.1 ha.2
  exact ⟨x, hx, (value_of_resolve hx).symm.trans (h.value a)⟩

/-- One instruction succeeds, and what it leaves is reflected by the contents after it. -/
theorem Reflects.tracks {env env' : Contents} (h : m.Reflects env m₁) (ht : Tracks m env i env') :
    ∃ m₂, Registry.standard.execute i m₁ = .done true m₂ ∧ m.Reflects env' m₂ := by
  rw [Registry.execute_standard]
  cases ht with
  | @set d a op operands dest source =>
    obtain ⟨x, hx, hvalue⟩ := h.resolve source
    have hr := h.sized.selects dest
    have hop : i.opcode.unary? = some id := by rw [op, Opcode.unary?]
    exact ⟨_, primitive_of_executes (.unary hop operands hx hr), h.write hr hvalue⟩
  | @complement d a op operands dest source =>
    obtain ⟨x, hx, hvalue⟩ := h.resolve source
    have hr := h.sized.selects dest
    have hop : i.opcode.unary? = some Word.complement := by rw [op, Opcode.unary?]
    have hw : x.complement.toNat = (~~~env a).value m := by
      rw [Word.toNat_complement, hvalue, Expression.value_complement]
    exact ⟨_, primitive_of_executes (.unary hop operands hx hr), h.write hr hw⟩
  | @binary d a b op operands dest first second =>
    obtain ⟨x, hx, hxvalue⟩ := h.resolve first
    obtain ⟨y, hy, hyvalue⟩ := h.resolve second
    have hr := h.sized.selects dest
    have hvalue : (Expression.binary i.opcode (env a) (env b)).value m =
        i.opcode.combine x.toNat y.toNat := by
      rw [Expression.value, hxvalue, hyvalue]
    -- A remainder is no function of two words like the others: its divisor was checked.
    rcases op with op | ⟨op, nonzero⟩
    · obtain ⟨f, hf⟩ := Option.isSome_iff_exists.1 op
      rw [Opcode.combine_of_binary? hf] at hvalue
      exact ⟨_, primitive_of_executes (.binary hf operands hx hy hr), h.write hr hvalue.symm⟩
    · have hy₀ : y ≠ 0 := by
        rwa [← hyvalue, ne_eq, Word.toNat_eq_zero_iff] at nonzero
      rw [op, Opcode.combine, ← UInt16.toNat_mod, ← op] at hvalue
      exact ⟨_, primitive_of_executes (.modulo op operands hx hy hy₀ hr),
        h.write hr hvalue.symm⟩

/-- So does a row of instructions. -/
theorem Reflects.tracksAll {env env' : Contents} {code : List Instruction} (h : m.Reflects env m₁)
    (ht : TracksAll m env code env') :
    ∃ m₂, Registry.standard.executeAll code m₁ = .done true m₂ ∧ m.Reflects env' m₂ := by
  -- The machine changes from instruction to instruction; expressions refer to `m` throughout.
  induction ht generalizing m₁ with
  | nil => exact ⟨m₁, rfl, h⟩
  | cons first rest ih =>
    obtain ⟨m₂, hx, hreflects⟩ := h.tracks first
    obtain ⟨m₃, hrest, hlast⟩ := ih hreflects
    refine ⟨m₃, ?_, hlast⟩
    rw [Registry.executeAll, hx, Outcome.andThen_done, if_pos rfl, hrest]

/-- Every row that computes an expression leaves its value. -/
theorem Sized.executeAll_of_computes (hm : m.Sized) {code : List Instruction} {s : Expression}
    (h : m.Computes code d s) :
    ∃ m', Registry.standard.executeAll code m = .done true m' ∧ m'.value d = s.value m := by
  obtain ⟨env, htracks, rfl⟩ := h
  -- To begin with every operand stands for itself.
  have hstart : m.Reflects .source m := ⟨hm, fun a => (Expression.value_source a).symm⟩
  obtain ⟨m', hx, hreflects⟩ := hstart.tracksAll htracks
  exact ⟨m', hx, hreflects.value d⟩

end Machine

/-! ## There are such rows -/

namespace TracksAll

variable {env env₁ env₂ : Contents} {code code' : List Instruction}

theorem append (h : TracksAll m env code env₁) (h' : TracksAll m env₁ code' env₂) :
    TracksAll m env (code ++ code') env₂ := by
  induction h with
  | nil => exact h'
  | cons first rest ih => exact .cons first (ih h')

theorem snoc (h : TracksAll m env code env₁) (last : Tracks m env₁ i env₂) :
    TracksAll m env (code ++ [i]) env₂ :=
  h.append (.cons last .nil)

end TracksAll

/-- The expression can be computed from the sources in `used` with one register for its value and `n`
more for what is needed in between. -/
inductive Expression.Fits (m : Machine) (used : Finset Int) : Nat → Expression → Prop where
  | source {a : Int} {n : Nat} (mem : a ∈ used) (valid : 0 ≤ a ∧ a ≤ 32775) :
      Fits m used n (.source a)
  | complement {s : Expression} {n : Nat} (inner : Fits m used n s) : Fits m used n (~~~s)
  | binary {op : Opcode} {s t : Expression} {n : Nat} (combines : op.Combines (t.value m))
      (left : Fits m used (n + 1) s) (right : Fits m used n t) :
      Fits m used (n + 1) (.binary op s t)

namespace Expression.Fits

variable {used : Finset Int} {n : Nat} {s t : Expression}

theorem add (hs : s.Fits m used (n + 1)) (ht : t.Fits m used n) : (s + t).Fits m used (n + 1) :=
  .binary (.inl rfl) hs ht

theorem mul (hs : s.Fits m used (n + 1)) (ht : t.Fits m used n) : (s * t).Fits m used (n + 1) :=
  .binary (.inl rfl) hs ht

theorem and (hs : s.Fits m used (n + 1)) (ht : t.Fits m used n) : (s &&& t).Fits m used (n + 1) :=
  .binary (.inl rfl) hs ht

theorem or (hs : s.Fits m used (n + 1)) (ht : t.Fits m used n) : (s ||| t).Fits m used (n + 1) :=
  .binary (.inl rfl) hs ht

theorem mod (hs : s.Fits m used (n + 1)) (ht : t.Fits m used n) (hpos : 0 < t.value m) :
    (s % t).Fits m used (n + 1) :=
  .binary (.inr ⟨rfl, Nat.ne_of_gt hpos⟩) hs ht

end Expression.Fits

/-- The first of some registers gets the value, and no register but these is written. -/
theorem Expression.Fits.exists_tracksAll {used : Finset Int} {n : Nat} {s : Expression}
    (h : s.Fits m used n) {env : Contents} {free : List Int} (hroom : n ≤ free.length)
    (hdistinct : (d :: free).Nodup) (hfree : ∀ r ∈ d :: free, 32768 ≤ r ∧ r ≤ 32775 ∧ r ∉ used)
    (hused : ∀ a ∈ used, env a = .source a) :
    ∃ code env', TracksAll m env code env' ∧ env' d = s ∧ ∀ a, a ∉ d :: free → env' a = env a := by
  induction h generalizing env d free with
  | @source a n mem valid =>
    obtain ⟨h₀, h₁, -⟩ := hfree d List.mem_cons_self
    refine ⟨[⟨.set, [d, a], .blank, 1⟩], Function.update env d (env a), ?_, ?_, ?_⟩
    · exact .cons (.set rfl rfl ⟨h₀, h₁⟩ valid) .nil
    · rw [Function.update_self, hused a mem]
    · intro a' ha'
      exact Function.update_of_ne (List.ne_of_not_mem_cons ha') _ _
  | @complement s n inner ih =>
    obtain ⟨h₀, h₁, -⟩ := hfree d List.mem_cons_self
    obtain ⟨code, env₁, hcode, hd, hsame⟩ := ih hroom hdistinct hfree hused
    refine ⟨code ++ [⟨.not, [d, d], .blank, 14⟩], Function.update env₁ d (~~~env₁ d), ?_, ?_, ?_⟩
    · exact hcode.snoc (.complement rfl rfl ⟨h₀, h₁⟩ ⟨by omega, h₁⟩)
    · rw [Function.update_self, hd]
    · intro a ha
      rw [Function.update_of_ne (List.ne_of_not_mem_cons ha), hsame a ha]
  | @binary op s t n hop left right ihs iht =>
    cases free with
    | nil => cases hroom
    | cons e free =>
      obtain ⟨h₀, h₁, -⟩ := hfree d List.mem_cons_self
      obtain ⟨k₀, k₁, -⟩ := hfree e (List.mem_cons_of_mem d List.mem_cons_self)
      obtain ⟨hd, hdistinct'⟩ := List.nodup_cons.1 hdistinct
      -- The second operand is computed in the registers that the first is not in.
      obtain ⟨code, env₁, hcode, hs, hsame⟩ := ihs hroom hdistinct hfree hused
      have hused₁ : ∀ a ∈ used, env₁ a = .source a := by
        intro a ha
        have hout : a ∉ d :: e :: free := fun hmem => (hfree a hmem).2.2 ha
        rw [hsame a hout, hused a ha]
      obtain ⟨code', env₂, hcode', ht, hsame'⟩ :=
        iht (Nat.le_of_succ_le_succ hroom) hdistinct'
          (fun r hr => hfree r (List.mem_cons_of_mem d hr)) hused₁
      have hs₂ : env₂ d = s := (hsame' d hd).trans hs
      refine ⟨code ++ code' ++ [⟨op, [d, d, e], .blank, op.number⟩],
        Function.update env₂ d (.binary op (env₂ d) (env₂ e)), ?_, ?_, ?_⟩
      · refine (hcode.append hcode').snoc (.binary ?_ rfl ⟨h₀, h₁⟩ ⟨by omega, h₁⟩ ⟨by omega, k₁⟩)
        rwa [ht]
      · rw [Function.update_self, hs₂, ht]
      · intro a ha
        rw [Function.update_of_ne (List.ne_of_not_mem_cons ha),
          hsame' a (List.not_mem_of_not_mem_cons ha), hsame a ha]

/-- Of the eight registers enough are free. -/
theorem exists_free {used : Finset Int} {n : Nat} (h : used.card + n < 8) :
    ∃ d free, n ≤ free.length ∧ (d :: free).Nodup ∧
      ∀ r ∈ d :: free, 32768 ≤ r ∧ r ≤ 32775 ∧ r ∉ used := by
  let rest : Finset Int := Finset.Icc 32768 32775 \ used
  have hcard : 8 - used.card ≤ rest.toList.length := by
    rw [Finset.length_toList]
    exact Finset.le_card_sdiff used (Finset.Icc 32768 32775)
  have hmem : ∀ r ∈ rest.toList, 32768 ≤ r ∧ r ≤ 32775 ∧ r ∉ used := by
    intro r hr
    rw [Finset.mem_toList, Finset.mem_sdiff, Finset.mem_Icc] at hr
    exact ⟨hr.1.1, hr.1.2, hr.2⟩
  have hnodup : rest.toList.Nodup := rest.nodup_toList
  cases hrest : rest.toList with
  | nil =>
    rw [hrest, List.length_nil] at hcard
    omega
  | cons d free =>
    rw [hrest] at hcard hmem hnodup
    rw [List.length_cons] at hcard
    exact ⟨d, free, by omega, hnodup, hmem⟩

namespace Machine

variable {used : Finset Int} {n v : Nat} {s t : Expression}

theorem exists_computes (h : s.Fits m used n) (hroom : used.card + n < 8) :
    ∃ code d, m.Computes code d s := by
  obtain ⟨d, free, hlength, hdistinct, hfree⟩ := exists_free hroom
  obtain ⟨code, env, hcode, hd, -⟩ := h.exists_tracksAll hlength hdistinct hfree fun _ _ => rfl
  exact ⟨code, d, env, hcode, hd⟩

/-- An expression that can be computed yields its value. -/
theorem Sized.yields (hm : m.Sized) (h : s.Fits m used n) (hroom : used.card + n < 8)
    (hvalue : s.value m = v) : m.Yields s v where
  some_row := exists_computes h hroom
  every_row := by
    intro code d hcode
    rw [← hvalue]
    exact hm.executeAll_of_computes hcode

theorem Sized.equates (hm : m.Sized) (hs : s.Fits m used n) (ht : t.Fits m used n)
    (hroom : used.card + n < 8) (hvalue : s.value m = t.value m) : m.Equates s t :=
  ⟨t.value m, hm.yields hs hroom hvalue, hm.yields ht hroom rfl⟩

end Machine

/-! ## Numbers of 15 bits -/

/-- A complement has exactly the lower bits that the number has not. -/
theorem testBit_complement (x k : Nat) :
    (32767 - x % 32768).testBit k = (decide (k < 15) && !x.testBit k) := by
  have hlt : x % 2 ^ 15 < 2 ^ 15 := Nat.mod_lt _ (by decide)
  have hpower : 32767 - x % 32768 = 2 ^ 15 - (x % 2 ^ 15 + 1) := by omega
  rw [hpower, Nat.testBit_two_pow_sub_succ hlt, Nat.testBit_mod_two_pow]
  by_cases hk : k < 15
  · simp [hk]
  · simp [hk]

theorem complement_and (x y : Nat) :
    32767 - (x &&& y) % 32768 = (32767 - x % 32768) ||| (32767 - y % 32768) := by
  apply Nat.eq_of_testBit_eq
  intro k
  rw [testBit_complement, Nat.testBit_or, testBit_complement, testBit_complement,
    Nat.testBit_and, Bool.not_and, Bool.and_or_distrib_left]

theorem complement_or (x y : Nat) :
    32767 - (x ||| y) % 32768 = (32767 - x % 32768) &&& (32767 - y % 32768) := by
  apply Nat.eq_of_testBit_eq
  intro k
  rw [testBit_complement, Nat.testBit_and, testBit_complement, testBit_complement,
    Nat.testBit_or, Bool.not_or]
  by_cases hk : k < 15
  · simp [hk]
  · simp [hk]

/-- Adding the complement and one is subtracting. -/
theorem add_complement_add_one (x y : Nat) :
    (((x + (32767 - y % 32768 + 1) % 32768) % 32768 : Nat) : Int) = ((x : Int) - y) % 32768 := by
  omega

/-! ## Laws -/

namespace Machine

/-- The laws of arithmetic for what the sources `a`, `b` and `c` stand for, which may be any contents
of registers. -/
structure Arithmetic (m : Machine) (a b c : Int) : Prop where
  add : m.Yields (.source a + .source b) ((m.value a + m.value b) % 32768)
  mul : m.Yields (.source a * .source b) (m.value a * m.value b % 32768)
  /-- Sums and products look at 15 bits only. -/
  low_bits : ∀ (m' : Machine) (a' b' : Int), m'.Sized →
    0 ≤ a' ∧ a' ≤ 32775 → m'.value a' % 32768 = m.value a % 32768 →
    0 ≤ b' ∧ b' ≤ 32775 → m'.value b' % 32768 = m.value b % 32768 →
      (∃ n, m.Yields (.source a + .source b) n ∧ m'.Yields (.source a' + .source b') n) ∧
        ∃ n, m.Yields (.source a * .source b) n ∧ m'.Yields (.source a' * .source b') n
  add_comm : m.Equates (.source a + .source b) (.source b + .source a)
  mul_comm : m.Equates (.source a * .source b) (.source b * .source a)
  add_assoc : m.Equates (.source a + .source b + .source c) (.source a + (.source b + .source c))
  mul_assoc : m.Equates (.source a * .source b * .source c) (.source a * (.source b * .source c))
  mul_add : m.Equates (.source a * (.source b + .source c))
    (.source a * .source b + .source a * .source c)
  add_mul : m.Equates ((.source a + .source b) * .source c)
    (.source a * .source c + .source b * .source c)
  complement : m.Yields (~~~.source a) (32767 - m.value a % 32768)
  complement_complement : m.Yields (~~~(~~~.source a)) (m.value a % 32768)
  /-- Only numbers of 15 bits come back. -/
  complement_complement_iff : m.Yields (~~~(~~~.source a)) (m.value a) ↔ m.value a < 32768
  /-- The difference, computed by adding the complement and one. -/
  sub : ∃ n : Nat, (n : Int) = ((m.value a : Int) - m.value b) % 32768 ∧
    m.Yields (.source a + (~~~.source b + .source 1)) n
  complement_and : m.Equates (~~~(.source a &&& .source b)) (~~~.source a ||| ~~~.source b)
  complement_or : m.Equates (~~~(.source a ||| .source b)) (~~~.source a &&& ~~~.source b)
  /-- The remainder, which may have all 16 bits. -/
  mod : 0 < m.value b → ∃ r, m.Yields (.source a % .source b) r ∧
    r < m.value b ∧ r ≤ m.value a ∧ m.value b ∣ m.value a - r
  eq : m.Yields (.binary .eq (.source a) (.source b)) (if m.value a = m.value b then 1 else 0)
  gt : m.Yields (.binary .gt (.source a) (.source b)) (if m.value b < m.value a then 1 else 0)
  /-- Exactly one of the three comparisons holds. -/
  trichotomy : ∃ p q r, m.Yields (.binary .eq (.source a) (.source b)) p ∧
    m.Yields (.binary .gt (.source a) (.source b)) q ∧
    m.Yields (.binary .gt (.source b) (.source a)) r ∧
      (p, q, r) ∈ [(1, 0, 0), (0, 1, 0), (0, 0, 1)]

/-- An expression yields one number only. -/
theorem Yields.unique {s : Expression} {n k : Nat} (h : m.Yields s n) (h' : m.Yields s k) :
    n = k := by
  obtain ⟨code, d, hcode⟩ := h.some_row
  obtain ⟨m₁, hx, hvalue⟩ := h.every_row code d hcode
  obtain ⟨m₂, hx', hvalue'⟩ := h'.every_row code d hcode
  cases hx.symm.trans hx'
  exact hvalue.symm.trans hvalue'

/-! ### Laws of expressions -/

namespace Sized

variable {s t u : Expression} {used : Finset Int} (hm : m.Sized) (hroom : used.card + 2 < 8)
  (hs : ∀ n, s.Fits m used n) (ht : ∀ n, t.Fits m used n) (hu : ∀ n, u.Fits m used n)

include hm hroom hs

theorem yields_complement_complement : m.Yields (~~~(~~~s)) (s.value m % 32768) := by
  apply hm.yields (hs 2).complement.complement hroom
  simp only [Expression.value_complement]
  omega

theorem yields_complement_complement_iff : m.Yields (~~~(~~~s)) (s.value m) ↔ s.value m < 32768 := by
  have hlow := yields_complement_complement hm hroom hs
  constructor
  · intro hself
    have hsame : s.value m % 32768 = s.value m := hlow.unique hself
    omega
  · intro hlt
    rwa [Nat.mod_eq_of_lt hlt] at hlow

include ht

theorem equates_add_comm : m.Equates (s + t) (t + s) := by
  apply hm.equates ((hs 2).add (ht 1)) ((ht 2).add (hs 1)) hroom
  simp only [Expression.value_add, Nat.add_comm]

theorem equates_mul_comm : m.Equates (s * t) (t * s) := by
  apply hm.equates ((hs 2).mul (ht 1)) ((ht 2).mul (hs 1)) hroom
  simp only [Expression.value_mul, Nat.mul_comm]

theorem yields_sub (hone : ∀ n, (Expression.source 1).Fits m used n) :
    ∃ n : Nat, (n : Int) = ((s.value m : Int) - t.value m) % 32768 ∧
      m.Yields (s + (~~~t + .source 1)) n := by
  have hvalue : (Expression.source 1).value m = 1 := rfl
  refine ⟨_, ?_, hm.yields ((hs 2).add ((ht 1).complement.add (hone 0))) hroom rfl⟩
  simp only [Expression.value_add, Expression.value_complement, hvalue]
  exact add_complement_add_one (s.value m) (t.value m)

theorem equates_complement_and : m.Equates (~~~(s &&& t)) (~~~s ||| ~~~t) := by
  apply hm.equates ((hs 2).and (ht 1)).complement ((hs 2).complement.or (ht 1).complement) hroom
  simp only [Expression.value_complement, Expression.value_and, Expression.value_or]
  exact WordMachine.complement_and (s.value m) (t.value m)

theorem equates_complement_or : m.Equates (~~~(s ||| t)) (~~~s &&& ~~~t) := by
  apply hm.equates ((hs 2).or (ht 1)).complement ((hs 2).complement.and (ht 1).complement) hroom
  simp only [Expression.value_complement, Expression.value_and, Expression.value_or]
  exact WordMachine.complement_or (s.value m) (t.value m)

theorem yields_mod (hpos : 0 < t.value m) :
    ∃ r, m.Yields (s % t) r ∧ r < t.value m ∧ r ≤ s.value m ∧ t.value m ∣ s.value m - r := by
  refine ⟨s.value m % t.value m, hm.yields ((hs 2).mod (ht 1) hpos) hroom rfl, ?_, ?_, ?_⟩
  · exact Nat.mod_lt _ hpos
  · exact Nat.mod_le _ _
  · exact Nat.dvd_sub_mod _

/-- A comparison yields one where it holds, and zero where it does not. -/
theorem yields_comparison {op : Opcode} (hop : op = .eq ∨ op = .gt) :
    m.Yields (.binary op s t) (op.combine (s.value m) (t.value m)) := by
  have hcombines : op.Combines (t.value m) := by
    rcases hop with rfl | rfl
    · exact .inl rfl
    · exact .inl rfl
  exact hm.yields (.binary hcombines (hs 2) (ht 1)) hroom rfl

theorem yields_trichotomy :
    ∃ p q r, m.Yields (.binary .eq s t) p ∧ m.Yields (.binary .gt s t) q ∧
      m.Yields (.binary .gt t s) r ∧ (p, q, r) ∈ [(1, 0, 0), (0, 1, 0), (0, 0, 1)] := by
  refine ⟨_, _, _, yields_comparison hm hroom hs ht (.inl rfl),
    yields_comparison hm hroom hs ht (.inr rfl), yields_comparison hm hroom ht hs (.inr rfl), ?_⟩
  simp only [Opcode.combine]
  rcases Nat.lt_trichotomy (s.value m) (t.value m) with hlt | heq | hgt
  · simp [hlt, Nat.ne_of_lt hlt, Nat.lt_asymm hlt]
  · simp [heq]
  · simp [hgt, Nat.ne_of_gt hgt, Nat.lt_asymm hgt]

include hu

theorem equates_add_assoc : m.Equates (s + t + u) (s + (t + u)) := by
  apply hm.equates (((hs 2).add (ht 1)).add (hu 1)) ((hs 2).add ((ht 1).add (hu 0))) hroom
  simp only [Expression.value_add, Nat.mod_add_mod, Nat.add_mod_mod, Nat.add_assoc]

theorem equates_mul_assoc : m.Equates (s * t * u) (s * (t * u)) := by
  apply hm.equates (((hs 2).mul (ht 1)).mul (hu 1)) ((hs 2).mul ((ht 1).mul (hu 0))) hroom
  simp only [Expression.value_mul, Nat.mod_mul_mod, Nat.mul_mod_mod, Nat.mul_assoc]

theorem equates_mul_add : m.Equates (s * (t + u)) (s * t + s * u) := by
  apply hm.equates ((hs 2).mul ((ht 1).add (hu 0))) (((hs 2).mul (ht 1)).add ((hs 1).mul (hu 0)))
    hroom
  simp only [Expression.value_mul, Expression.value_add, Nat.mul_mod_mod, Nat.mod_add_mod,
    Nat.add_mod_mod, Nat.mul_add]

theorem equates_add_mul : m.Equates ((s + t) * u) (s * u + t * u) := by
  apply hm.equates (((hs 2).add (ht 1)).mul (hu 1)) (((hs 2).mul (hu 1)).add ((ht 1).mul (hu 0)))
    hroom
  simp only [Expression.value_mul, Expression.value_add, Nat.mod_mul_mod, Nat.mod_add_mod,
    Nat.add_mod_mod, Nat.add_mul]

end Sized

/-- Numbers with the same lower 15 bits have the same sums and products. -/
theorem Sized.low_bits (hm : m.Sized) {s t s' t' : Expression} {used used' : Finset Int}
    (hroom : used.card + 2 < 8) (hs : ∀ n, s.Fits m used n) (ht : ∀ n, t.Fits m used n)
    (hm₁ : m₁.Sized) (hroom' : used'.card + 2 < 8) (hs' : ∀ n, s'.Fits m₁ used' n)
    (ht' : ∀ n, t'.Fits m₁ used' n) (hlow : s'.value m₁ % 32768 = s.value m % 32768)
    (hlow' : t'.value m₁ % 32768 = t.value m % 32768) :
    (∃ n, m.Yields (s + t) n ∧ m₁.Yields (s' + t') n) ∧
      ∃ n, m.Yields (s * t) n ∧ m₁.Yields (s' * t') n := by
  have hsum : (s' + t').value m₁ = (s + t).value m := by
    rw [Expression.value_add, Expression.value_add]
    exact Nat.ModEq.add hlow hlow'
  have hproduct : (s' * t').value m₁ = (s * t).value m := by
    rw [Expression.value_mul, Expression.value_mul]
    exact Nat.ModEq.mul hlow hlow'
  constructor
  · exact ⟨_, hm.yields ((hs 2).add (ht 1)) hroom rfl,
      hm₁.yields ((hs' 2).add (ht' 1)) hroom' hsum⟩
  · exact ⟨_, hm.yields ((hs 2).mul (ht 1)) hroom rfl,
      hm₁.yields ((hs' 2).mul (ht' 1)) hroom' hproduct⟩

/-! ### Laws of sources -/

/-- The laws hold on every machine of full size, whatever rows of instructions compute the
expressions. -/
theorem Sized.arithmetic (hm : m.Sized) {a b c : Int} (ha : 0 ≤ a ∧ a ≤ 32775)
    (hb : 0 ≤ b ∧ b ≤ 32775) (hc : 0 ≤ c ∧ c ≤ 32775) : m.Arithmetic a b c := by
  -- No law needs more than three registers besides those of its sources.
  let used : Finset Int := {a, b, c, 1}
  have hroom : used.card + 2 < 8 := by
    have hcard : used.card ≤ 4 := Finset.card_le_four
    omega
  have hfits : ∀ k ∈ used, 0 ≤ k ∧ k ≤ 32775 → ∀ n, (Expression.source k).Fits m used n :=
    fun k hk hvalid n => .source hk hvalid
  have hx := hfits a (by simp [used]) ha
  have hy := hfits b (by simp [used]) hb
  have hz := hfits c (by simp [used]) hc
  have hone := hfits 1 (by simp [used]) (by decide)
  exact
    { add := hm.yields ((hx 2).add (hy 1)) hroom rfl
      mul := hm.yields ((hx 2).mul (hy 1)) hroom rfl
      low_bits := by
        intro m' a' b' hm' ha' hlow hb' hlow'
        let used' : Finset Int := {a', b'}
        have hroom' : used'.card + 2 < 8 := by
          have hcard : used'.card ≤ 2 := Finset.card_le_two
          omega
        exact hm.low_bits hroom hx hy hm' hroom' (fun n => .source (by simp [used']) ha')
          (fun n => .source (by simp [used']) hb') hlow hlow'
      add_comm := hm.equates_add_comm hroom hx hy
      mul_comm := hm.equates_mul_comm hroom hx hy
      add_assoc := hm.equates_add_assoc hroom hx hy hz
      mul_assoc := hm.equates_mul_assoc hroom hx hy hz
      mul_add := hm.equates_mul_add hroom hx hy hz
      add_mul := hm.equates_add_mul hroom hx hy hz
      complement := hm.yields (hx 2).complement hroom rfl
      complement_complement := hm.yields_complement_complement hroom hx
      complement_complement_iff := hm.yields_complement_complement_iff hroom hx
      sub := hm.yields_sub hroom hx hy hone
      complement_and := hm.equates_complement_and hroom hx hy
      complement_or := hm.equates_complement_or hroom hx hy
      mod := fun hpos => hm.yields_mod hroom hx hy hpos
      eq := hm.yields_comparison hroom hx hy (.inl rfl)
      gt := hm.yields_comparison hroom hx hy (.inr rfl)
      trichotomy := hm.yields_trichotomy hroom hx hy }

/-- A product is distributed over a sum of registers that hold more than 15 bits. Both rows leave it
in the register that held the factor. -/
theorem Sized.arithmetic_distributed :
    let m : Machine := { registers := #[40000, 65535, 32770, 0, 0, 0, 0, 0] }
    let code : List Instruction :=
      [⟨.add, [32771, 32769, 32770], .number 0, 9⟩, ⟨.multiply, [32768, 32768, 32771], .number 4, 10⟩]
    let code' : List Instruction :=
      [⟨.multiply, [32771, 32768, 32769], .number 0, 10⟩,
        ⟨.multiply, [32768, 32768, 32770], .number 4, 10⟩,
        ⟨.add, [32768, 32771, 32768], .number 8, 9⟩]
    m.Sized ∧ ∃ n m₁ m₂, Registry.standard.executeAll code m = .done true m₁ ∧
      Registry.standard.executeAll code' m = .done true m₂ ∧
        m₁.value 32768 = n ∧ m₂.value 32768 = n := by
  intro m code code'
  have hm : m.Sized := ⟨Array.size_replicate, rfl⟩
  have hcode : m.Computes code 32768 (.source 32768 * (.source 32769 + .source 32770)) := by
    refine ⟨_, .cons (.binary (.inl rfl) rfl ?_ ?_ ?_)
      (.cons (.binary (.inl rfl) rfl ?_ ?_ ?_) .nil), rfl⟩
    all_goals decide
  have hcode' : m.Computes code' 32768
      (.source 32768 * .source 32769 + .source 32768 * .source 32770) := by
    refine ⟨_, .cons (.binary (.inl rfl) rfl ?_ ?_ ?_) (.cons (.binary (.inl rfl) rfl ?_ ?_ ?_)
      (.cons (.binary (.inl rfl) rfl ?_ ?_ ?_) .nil)), rfl⟩
    all_goals decide
  have hlaws : m.Arithmetic 32768 32769 32770 :=
    Sized.arithmetic hm (by decide) (by decide) (by decide)
  obtain ⟨n, hleft, hright⟩ := hlaws.mul_add
  obtain ⟨m₁, hx₁, hvalue₁⟩ := hleft.every_row code 32768 hcode
  obtain ⟨m₂, hx₂, hvalue₂⟩ := hright.every_row code' 32768 hcode'
  exact ⟨hm, n, m₁, m₂, hx₁, hx₂, hvalue₁, hvalue₂⟩

end Machine

end WordMachine
