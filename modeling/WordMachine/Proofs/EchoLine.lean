import WordMachine.Proofs.InstructionTable
import WordMachine.Proofs.Running
import WordMachine.Report

/-! # The program that echoes a line

The bundled program reads a byte, writes it, and begins again unless it was a newline. Every byte takes
it four cycles, and one more cycle ends it: the halt behind a newline, or the read that finds no input.

* `read_byte`, `write_byte`, `compare_byte`, `branch_byte`, `halt_behind` and `starve` are its
  instructions, on a machine of which nothing is left open but the console (`machine`).
* `leadsTo_turn` is a turn of its loop, and `leadsTo_place` says where it is after any number of cycles
  before its end, by induction over the input.
* `summaryText_eq` and `registersText_eq` are the texts of a report on it, line by line.
* `report_of_echo` is what is reported of it, whatever text and limit it is given.
-/

namespace WordMachine

/-! ## Texts and bytes -/

namespace Text

/-- The characters of a text after those that have no byte were replaced. -/
def replaced (text : String) : List Char :=
  text.toList.map fun c => if c.toNat < 256 then c else '?'

/-- They are what the bytes of the text stand for. -/
theorem map_charOf_toBytes (text : String) : (toBytes text).map charOf = replaced text := by
  rw [toBytes, replaced, List.map_map]
  apply List.map_congr_left
  intro c _
  rw [Function.comp_apply, byteOf]
  by_cases h : c.toNat < 256
  · rw [if_pos h, if_pos h, charOf, UInt8.toNat_ofNat', Nat.mod_eq_of_lt h, Char.ofNat_toNat]
  · rw [if_neg h, if_neg h]
    rfl

theorem charOf_eq_newline_iff {b : UInt8} : charOf b = '\n' ↔ b = Console.newline := by
  constructor
  · intro h
    have hnumber := toNat_charOf b
    rw [h] at hnumber
    exact UInt8.toNat_inj.1 hnumber.symm
  · rintro rfl
    rfl

end Text

/-! ## Cycles and places -/

namespace EchoLine

section Counting

variable {α β : Type} [BEq α] [LawfulBEq α] [BEq β] [LawfulBEq β]

/-- How many cycles the program takes for an input: four for each item up to and including the first
newline, and one more. -/
def span (newline : α) (items : List α) : Nat :=
  if newline ∈ items then 4 * items.idxOf newline + 5 else 4 * items.length + 1

/-- Where the program is within a turn of its loop. -/
def address (c : Nat) : Int :=
  match c % 4 with
  | 0 => 0
  | 1 => 2
  | 2 => 4
  | _ => 8

/-- Where the program is after so many cycles, unless it has ended by then: within a turn, or behind the
last one and about to halt. -/
def place (newline : α) (items : List α) (c : Nat) : Int :=
  if newline ∈ items ∧ c + 1 = span newline items then 11 else address c

variable {newline item : α} {items : List α} {c : Nat}

theorem span_cons_newline : span newline (newline :: items) = 5 := by
  rw [span, if_pos List.mem_cons_self, List.idxOf_cons_self]

theorem span_cons (h : item ≠ newline) : span newline (item :: items) = span newline items + 4 := by
  have hmem : newline ∈ item :: items ↔ newline ∈ items := by
    rw [List.mem_cons, or_iff_right (Ne.symm h)]
  simp only [span, hmem, List.idxOf_cons_ne items h, List.length_cons]
  split
  · omega
  · omega

theorem place_cons (h : item ≠ newline) (c : Nat) :
    place newline (item :: items) (c + 4) = place newline items c := by
  have hmem : newline ∈ item :: items ↔ newline ∈ items := by
    rw [List.mem_cons, or_iff_right (Ne.symm h)]
  have hend : c + 4 + 1 = span newline items + 4 ↔ c + 1 = span newline items := by omega
  simp only [place, address, span_cons h, hmem, hend, Nat.add_mod_right]

theorem five_le_span_cons (item : α) (items : List α) : 5 ≤ span newline (item :: items) := by
  by_cases h : item = newline
  · rw [h]
    exact Nat.le_of_eq span_cons_newline.symm
  · rw [span_cons h, span]
    split
    · omega
    · omega

theorem address_ne (c : Nat) : address c ≠ 11 := by
  unfold address
  split
  · decide
  · decide
  · decide
  · decide

theorem place_of_lt (h : c + 1 < span newline items) : place newline items c = address c := by
  rw [place, if_neg]
  omega

theorem place_cons_newline : place newline (newline :: items) 4 = 11 := by
  rw [place, if_pos ⟨List.mem_cons_self, by rw [span_cons_newline]⟩]

/-- Both depend only on where the newlines are. -/
theorem idxOf_map {f : α → β} {newline' : β} (h : ∀ a, f a = newline' ↔ a = newline) :
    (items.map f).idxOf newline' = items.idxOf newline := by
  induction items with
  | nil => rfl
  | cons item items ih =>
    rw [List.map_cons, List.idxOf_cons, List.idxOf_cons, ih]
    have hitem : (f item == newline') = (item == newline) := by
      rw [Bool.eq_iff_iff, beq_iff_eq, beq_iff_eq]
      exact h item
    rw [hitem]

omit [BEq α] [LawfulBEq α] [BEq β] [LawfulBEq β] in
theorem mem_map_newline {f : α → β} {newline' : β} (h : ∀ a, f a = newline' ↔ a = newline) :
    newline' ∈ items.map f ↔ newline ∈ items := by
  rw [List.mem_map]
  constructor
  · rintro ⟨a, ha, hf⟩
    rwa [(h a).1 hf] at ha
  · intro hmem
    exact ⟨newline, hmem, (h newline).2 rfl⟩

theorem span_map {f : α → β} {newline' : β} (h : ∀ a, f a = newline' ↔ a = newline) :
    span newline' (items.map f) = span newline items := by
  simp only [span, mem_map_newline h, idxOf_map h, List.length_map]

theorem place_map {f : α → β} {newline' : β} (h : ∀ a, f a = newline' ↔ a = newline) (c : Nat) :
    place newline' (items.map f) c = place newline items c := by
  simp only [place, mem_map_newline h, span_map h]

end Counting

/-! ## Instructions -/

/-- A console between what was written and what is still to be read. -/
structure Between (written unread : Bytes) (console : Console) : Prop where
  output : console.output.toList = written
  count : console.bytesWritten = written.length
  unread : console.unread = unread
  inputEnd : console.inputEnd = .exhausted

/-- The machine when the program is at `p` and has taken `c` cycles. -/
def machine (memory : Array Word) (limit : Int) (p : Int) (r₀ r₁ : Word) (c : Nat)
    (console : Console) : Machine where
  memory := memory
  registers := #[r₀, r₁, 0, 0, 0, 0, 0, 0]
  pc := .number p
  cycles := c
  console := console
  bytesLoaded := 24
  maxCycles := some limit

/-- The machine when the program begins. -/
def start (memory : Array Word) (limit : Int) (input : Bytes) : Machine :=
  machine memory limit 0 0 0 0 (.ofInput input)

variable {memory : Array Word} {limit : Int} {r₀ r₁ : Word} {c : Nat} {console : Console}
  {written unread : Bytes} {b : UInt8}

/-- Where the words of the program are. -/
theorem code_of_holds {m : Machine} (h : m.Holds 0 Gallery.echoLine) :
    m.Holds 0 [20, 32768] ∧ m.Holds 2 [19, 32768] ∧ m.Holds 4 [4, 32769, 32768, 10] ∧
      m.Holds 8 [8, 32769, 0] ∧ m.Holds 11 [0] := by
  obtain ⟨h₀, h₁, h₂, h₃, h₄, h₅, h₆, h₇, h₈, h₉, h₁₀, h₁₁, -⟩ := h
  exact ⟨⟨h₀, h₁, trivial⟩, ⟨h₂, h₃, trivial⟩, ⟨h₄, h₅, h₆, h₇, trivial⟩, ⟨h₈, h₉, h₁₀, trivial⟩,
    ⟨h₁₁, trivial⟩⟩

/-- What the second register says of a byte: one for a newline, and zero for any other. -/
def flag (b : UInt8) : Word := if b = Console.newline then 1 else 0

theorem ofBool_eq_flag (b : UInt8) : Word.ofBool (b.toUInt16 == 10) = flag b := by
  have hnewline : b.toUInt16 = 10 ↔ b = Console.newline := by
    rw [← UInt16.toNat_inj, ← UInt8.toNat_inj, UInt8.toNat_toUInt16]
    rfl
  simp only [Word.ofBool, flag, beq_iff_eq, hnewline]

/-- The console after a byte was read. -/
def consumed (console : Console) (rest : Bytes) : Console :=
  { console.flush with unread := rest, bytesRead := console.bytesRead + 1 }

theorem Between.consume (h : Between written (b :: unread) console) :
    Between written unread (consumed console unread) where
  output := h.output
  count := h.count
  unread := rfl
  inputEnd := h.inputEnd

theorem Between.flush (h : Between written unread console) :
    Between written unread console.flush where
  output := h.output
  count := h.count
  unread := h.unread
  inputEnd := h.inputEnd

theorem Between.write (h : Between written unread console) (b : UInt8) :
    Between (written ++ [b]) unread (console.write b) where
  output := by rw [Console.output_write, Array.toList_push, h.output]
  count := by rw [Console.bytesWritten_write, h.count, List.length_append, List.length_singleton]
  unread := by rw [Console.unread_write, h.unread]
  inputEnd := by rw [write_eq]; exact h.inputEnd

section Instructions

variable (hcode : ∀ m : Machine, m.memory = memory → m.Holds 0 Gallery.echoLine)

include hcode

theorem read_byte (h : Between written (b :: unread) console) :
    Registry.standard.step (machine memory limit 0 r₀ r₁ c console) =
      .done .running (machine memory limit 2 b.toUInt16 r₁ (c + 1) (consumed console unread)) := by
  have hwords := (code_of_holds (hcode (machine memory limit 0 r₀ r₁ c console) rfl)).1
  have hread : console.flush.read? = some (b, consumed console unread) :=
    Console.read?_eq_some_iff.2 ⟨unread, h.unread, rfl⟩
  exact Registry.step_of_input rfl rfl hwords hread (Nat.succ_pos 7)

theorem write_byte :
    Registry.standard.step (machine memory limit 2 b.toUInt16 r₁ c console) =
      .done .running (machine memory limit 4 b.toUInt16 r₁ (c + 1) (console.write b)) := by
  have hwords := (code_of_holds (hcode (machine memory limit 2 b.toUInt16 r₁ c console) rfl)).2.1
  exact Registry.step_of_output rfl rfl hwords rfl

theorem compare_byte :
    Registry.standard.step (machine memory limit 4 b.toUInt16 r₁ c console) =
      .done .running (machine memory limit 8 b.toUInt16 (flag b) (c + 1) console) := by
  have hwords := (code_of_holds (hcode (machine memory limit 4 b.toUInt16 r₁ c console) rfl)).2.2.1
  have hrule := Executes.binary (i := ⟨.eq, [32769, 32768, 10], .number 4, 4⟩)
    (m := (machine memory limit 4 b.toUInt16 r₁ c console).passed 8) (x := b.toUInt16) (y := 10)
    (r := 1) rfl rfl rfl rfl ⟨rfl, Nat.lt_of_sub_eq_succ rfl⟩
  rw [ofBool_eq_flag] at hrule
  exact Registry.step_of_holds .eq rfl rfl hwords rfl hrule

/-- The program goes back to its beginning unless the byte was a newline. -/
theorem branch_byte :
    Registry.standard.step (machine memory limit 8 r₀ (flag b) c console) =
      .done .running
        (machine memory limit (if b = Console.newline then 11 else 0) r₀ (flag b) (c + 1) console) := by
  have hwords := (code_of_holds (hcode (machine memory limit 8 r₀ (flag b) c console) rfl)).2.2.2.1
  by_cases hb : b = Console.newline
  · have hflag : flag b = 1 := if_pos hb
    rw [hflag] at hwords ⊢
    rw [if_pos hb]
    have hrule := Executes.pass (i := ⟨.jumpIfFalse, [32769, 0], .number 8, 8⟩)
      (m := (machine memory limit 8 r₀ 1 c console).passed 11) (x := 1) rfl rfl rfl rfl
    exact Registry.step_of_holds .jumpIfFalse rfl rfl hwords rfl hrule
  · have hflag : flag b = 0 := if_neg hb
    rw [hflag] at hwords ⊢
    rw [if_neg hb]
    have hrule := Executes.branch (i := ⟨.jumpIfFalse, [32769, 0], .number 8, 8⟩)
      (m := (machine memory limit 8 r₀ 0 c console).passed 11) (x := 0) (t := 0) rfl rfl rfl rfl rfl
    exact Registry.step_of_holds .jumpIfFalse rfl rfl hwords rfl hrule

theorem halt_behind :
    Registry.standard.step (machine memory limit 11 r₀ r₁ c console) =
      .done (.halted (.number 11))
        ((machine memory limit 12 r₀ r₁ (c + 1) console).haltWith .halt none) := by
  have hwords := (code_of_holds (hcode (machine memory limit 11 r₀ r₁ c console) rfl)).2.2.2.2
  have hdecode := Machine.decode_of_holds .halt rfl hwords rfl
  exact Registry.step_eq_halted_iff.2 ⟨rfl, rfl, _, _, hdecode, .halt rfl⟩

/-- At the end of input the read is the end of the program. -/
theorem starve (h : Between written [] console) :
    Registry.standard.step (machine memory limit 0 r₀ r₁ c console) =
      .failed (.fault ⟨.inputExhausted, .number 0⟩)
        ((machine memory limit 2 r₀ r₁ (c + 1) console.flush).haltWith .fault
          (some ⟨.inputExhausted, .number 0⟩)) := by
  have hwords := (code_of_holds (hcode (machine memory limit 0 r₀ r₁ c console) rfl)).1
  have hdecode : (machine memory limit 0 r₀ r₁ c console).decode =
      .done ⟨.input, [32768], .number 0, 20⟩ (machine memory limit 2 r₀ r₁ c console) :=
    Machine.decode_of_holds .input rfl hwords rfl
  have hread : (machine memory limit 2 r₀ r₁ (c + 1) console).readByte =
      .failed (.ofCause .inputExhausted) (machine memory limit 2 r₀ r₁ (c + 1) console.flush) := by
    have hnone := Machine.readByte_of_nil (m := machine memory limit 2 r₀ r₁ (c + 1) console) h.unread
    have hend : (machine memory limit 2 r₀ r₁ (c + 1) console).console.inputEnd = .exhausted :=
      h.inputEnd
    rw [hend] at hnone
    exact hnone
  have hexecute : Registry.standard.execute ⟨.input, [32768], .number 0, 20⟩
      (machine memory limit 2 r₀ r₁ c console) =
        .failed (.ofCause .inputExhausted) (machine memory limit 2 r₀ r₁ (c + 1) console.flush) := by
    rw [Registry.execute_standard]
    exact congrArg (Outcome.andThen · fun byte m => m.assign 32768 byte.toUInt16) hread
  rw [Registry.step_of_running _ rfl]
  simp only [hdecode, hexecute]
  rfl

/-! ## Turns of the loop -/

/-- The four cycles of a turn, in front of what comes after them. -/
theorem leadsTo_turn (h : Between written (b :: unread) console) {n : Nat} {m' : Machine}
    (hrest : Registry.LeadsTo n
      (machine memory limit (if b = Console.newline then 11 else 0) b.toUInt16 (flag b) (c + 4)
        ((consumed console unread).write b)) m') :
    Registry.LeadsTo (n + 4) (machine memory limit 0 r₀ r₁ c console) m' := by
  refine .step (read_byte hcode h) ?_
  refine .step (write_byte hcode) ?_
  refine .step (compare_byte hcode) ?_
  exact .step (branch_byte hcode) hrest

variable (limit r₀ r₁ c) in
/-- Less than a turn. -/
theorem leadsTo_address (h : Between written (b :: unread) console) {i : Nat} (hi : i < 4) :
    ∃ r₀' r₁' console', Registry.LeadsTo i (machine memory limit 0 r₀ r₁ c console)
        (machine memory limit (address i) r₀' r₁' (c + i) console') ∧
      Between (written ++ (b :: unread).take ((i + 2) / 4)) ((b :: unread).drop ((i + 3) / 4))
        console' := by
  have hread : Registry.standard.step (machine memory limit 0 r₀ r₁ c console) = _ :=
    read_byte hcode h
  match i, hi with
  | 0, _ =>
    refine ⟨r₀, r₁, console, .refl _, ?_⟩
    show Between (written ++ []) (b :: unread) console
    rwa [List.append_nil]
  | 1, _ =>
    refine ⟨b.toUInt16, r₁, _, .step hread (.refl _), ?_⟩
    show Between (written ++ []) unread (consumed console unread)
    rw [List.append_nil]
    exact h.consume
  | 2, _ =>
    refine ⟨b.toUInt16, r₁, _, .step hread (.step (write_byte hcode) (.refl _)), ?_⟩
    exact h.consume.write b
  | 3, _ =>
    refine ⟨b.toUInt16, flag b, _,
      .step hread (.step (write_byte hcode) (.step (compare_byte hcode) (.refl _))), ?_⟩
    exact h.consume.write b

/-- After any number of cycles before its end the program is where it should be, has written the
bytes of the turns that are so far, and has read the bytes that were to be written next. -/
theorem leadsTo_place {input : Bytes} (h : Between written input console) {i : Nat}
    (hi : i < span Console.newline input) :
    ∃ r₀' r₁' console', Registry.LeadsTo i (machine memory limit 0 r₀ r₁ c console)
        (machine memory limit (place Console.newline input i) r₀' r₁' (c + i) console') ∧
      Between (written ++ input.take ((i + 2) / 4)) (input.drop ((i + 3) / 4)) console' ∧
      (place Console.newline input i = 11 → r₀' = 10 ∧ r₁' = 1) := by
  -- The induction is over the input, since a turn consumes its first byte.
  induction input generalizing written r₀ r₁ c console i with
  | nil =>
    have hzero : i = 0 := Nat.lt_one_iff.1 hi
    subst hzero
    refine ⟨r₀, r₁, console, .refl _, ?_, fun h => absurd h (by decide)⟩
    show Between (written ++ []) [] console
    rwa [List.append_nil]
  | cons b rest ih =>
    by_cases hturn : i < 4
    · have hlong : 5 ≤ span Console.newline (b :: rest) := five_le_span_cons b rest
      have hplace : place Console.newline (b :: rest) i = address i := place_of_lt (by omega)
      obtain ⟨r₀', r₁', console', hleads, hbetween⟩ := leadsTo_address limit r₀ r₁ c hcode h hturn
      rw [hplace]
      exact ⟨r₀', r₁', console', hleads, hbetween, fun h => absurd h (address_ne i)⟩
    · obtain ⟨j, rfl⟩ : ∃ j, i = j + 4 := ⟨i - 4, by omega⟩
      have hwritten : (j + 4 + 2) / 4 = (j + 2) / 4 + 1 := by omega
      have hread : (j + 4 + 3) / 4 = (j + 3) / 4 + 1 := by omega
      have hcycles : c + (j + 4) = c + 4 + j := by omega
      have hnext := h.consume.write b
      rw [hwritten, hread, hcycles, List.take_succ_cons, List.drop_succ_cons, List.append_cons]
      by_cases hb : b = Console.newline
      · subst hb
        -- All that is left is the halt.
        rw [span_cons_newline] at hi
        obtain rfl : j = 0 := by omega
        refine ⟨10, 1, (consumed console rest).write Console.newline, leadsTo_turn hcode h ?_, ?_,
          fun _ => ⟨rfl, rfl⟩⟩
        · rw [if_pos rfl, Nat.zero_add, place_cons_newline]
          exact .refl _
        · rw [List.take_zero, List.append_nil]
          exact hnext
      · rw [span_cons hb] at hi
        rw [place_cons hb]
        obtain ⟨r₀', r₁', console', hleads, hbetween, hlast⟩ := ih hnext (Nat.lt_of_add_lt_add_right hi)
        refine ⟨r₀', r₁', console', leadsTo_turn hcode h ?_, hbetween, hlast⟩
        rw [if_neg hb]
        exact hleads

/-! ## The end -/

variable (limit) in
/-- Where the program is when it has begun with nothing written. -/
theorem leadsTo_start (input : Bytes) {i : Nat} (hi : i < span Console.newline input) :
    ∃ r₀ r₁ console, Registry.LeadsTo i (start memory limit input)
        (machine memory limit (place Console.newline input i) r₀ r₁ i console) ∧
      Between (input.take ((i + 2) / 4)) (input.drop ((i + 3) / 4)) console ∧
      (place Console.newline input i = 11 → r₀ = 10 ∧ r₁ = 1) := by
  have hstart : Between [] input (.ofInput input) := ⟨rfl, rfl, rfl, rfl⟩
  have hplace : ∃ r₀ r₁ console, Registry.LeadsTo i (start memory limit input)
        (machine memory limit (place Console.newline input i) r₀ r₁ (0 + i) console) ∧
      Between ([] ++ input.take ((i + 2) / 4)) (input.drop ((i + 3) / 4)) console ∧
      (place Console.newline input i = 11 → r₀ = 10 ∧ r₁ = 1) := leadsTo_place hcode hstart hi
  rwa [Nat.zero_add, List.nil_append] at hplace

/-- With cycles enough, a newline ends the program as it should. -/
theorem runWithin_of_newline {input : Bytes} (hmem : Console.newline ∈ input)
    (hroom : span Console.newline input ≤ limit.toNat) :
    ∃ console, Registry.standard.runWithin limit (start memory limit input) =
        .done ⟨.halt, some (.number 11)⟩
          ((machine memory limit 12 10 1 (span Console.newline input) console).haltWith .halt none) ∧
      Between (input.take (input.idxOf Console.newline + 1))
        (input.drop (input.idxOf Console.newline + 1)) console := by
  generalize hk : input.idxOf Console.newline = k
  have hspan : span Console.newline input = 4 * k + 4 + 1 := by rw [span, if_pos hmem, hk]
  have hplace : place Console.newline input (4 * k + 4) = 11 := if_pos ⟨hmem, hspan.symm⟩
  have hlast : 4 * k + 4 < span Console.newline input := by omega
  obtain ⟨r₀, r₁, console, hleads, hbetween, hregisters⟩ := leadsTo_start limit hcode input hlast
  obtain ⟨rfl, rfl⟩ := hregisters hplace
  rw [hplace] at hleads
  have hwritten : (4 * k + 4 + 2) / 4 = k + 1 := by omega
  have hread : (4 * k + 4 + 3) / 4 = k + 1 := by omega
  rw [hwritten, hread] at hbetween
  refine ⟨console.flush, ?_, hbetween.flush⟩
  apply hleads.runWithin rfl (Registry.undisturbed_of_unwatched rfl rfl)
  · rw [halt_behind hcode, hspan]
    exact .halted (h := ⟨.halt, none⟩) rfl
  · have hzero : (start memory limit input).cycles = 0 := rfl
    omega

/-- With cycles enough and no newline, the end of input ends it. -/
theorem runWithin_of_exhausted {input : Bytes} (hmem : Console.newline ∉ input)
    (hroom : span Console.newline input ≤ limit.toNat) :
    ∃ r₀ r₁ console, Registry.standard.runWithin limit (start memory limit input) =
        .failed (.fault ⟨.inputExhausted, .number 0⟩)
          ((machine memory limit 2 r₀ r₁ (span Console.newline input) console).haltWith .fault
            (some ⟨.inputExhausted, .number 0⟩)) ∧
      Between input [] console := by
  generalize hn : input.length = n
  have hspan : span Console.newline input = 4 * n + 1 := by rw [span, if_neg hmem, hn]
  have hplace : place Console.newline input (4 * n) = 0 := by
    have haddress : address (4 * n) = 0 := by
      rw [address, Nat.mul_mod_right]
      rfl
    rw [place, if_neg (fun h => hmem h.1), haddress]
  have hlast : 4 * n < span Console.newline input := by omega
  obtain ⟨r₀, r₁, console, hleads, hbetween, -⟩ := leadsTo_start limit hcode input hlast
  rw [hplace] at hleads
  have hwritten : (4 * n + 2) / 4 = input.length := by omega
  have hread : (4 * n + 3) / 4 = input.length := by omega
  rw [hwritten, hread, List.take_length, List.drop_length] at hbetween
  refine ⟨r₀, r₁, console.flush.flush, ?_, hbetween.flush.flush⟩
  apply hleads.runWithin rfl (Registry.undisturbed_of_unwatched rfl rfl)
  · rw [starve hcode hbetween, hspan]
    exact .failed
  · have hzero : (start memory limit input).cycles = 0 := rfl
    omega

/-- With fewer cycles, the limit ends it wherever it is. -/
theorem runWithin_of_cut {input : Bytes} (hroom : limit.toNat < span Console.newline input) :
    ∃ r₀ r₁ console, Registry.standard.runWithin limit (start memory limit input) =
        (machine memory limit (place Console.newline input limit.toNat) r₀ r₁ limit.toNat
          console).exceed limit ∧
      Between (input.take ((limit.toNat + 2) / 4)) (input.drop ((limit.toNat + 3) / 4))
        console := by
  obtain ⟨r₀, r₁, console, hleads, hbetween, -⟩ := leadsTo_start limit hcode input hroom
  have hzero : limit - (start memory limit input).cycles = limit := Int.sub_zero limit
  refine ⟨r₀, r₁, console.flush, ?_, hbetween.flush⟩
  exact hleads.runWithin_cut (by rw [hzero]) rfl (Registry.undisturbed_of_unwatched rfl rfl)

end Instructions

/-! ## The texts of a report -/

/-- A number at the right edge of a column of six characters. -/
def padded (n : Int) : String := String.ofList ((toString n).toList.leftpad 6 ' ')

/-- The line of a register, with a mark unless it is zero. -/
def registerLine (label : String) (n : Nat) : String :=
  "  " ++ label ++ ": " ++ padded n ++ (if n = 0 then "" else " *")

/-- The lines about the registers of the program, which uses two of them. -/
def registerLines (r₀ r₁ : Word) (p : Int) : List String := [
  "FINAL REGISTERS",
  "==============================",
  registerLine "R0" r₀.toNat,
  registerLine "R1" r₁.toNat,
  "  R2:      0",
  "  R3:      0",
  "  R4:      0",
  "  R5:      0",
  "  R6:      0",
  "  R7:      0",
  "  PC: " ++ padded p]

/-- The lines of a summary of the program when it has written so many bytes in `c` cycles. -/
def summaryLines (c : Nat) (reason : String) (written : Nat) (fault : Option String) :
    List String := [
  "EXECUTION SUMMARY",
  "========================================",
  "Bytes loaded: 24",
  "Cycles:       " ++ toString c,
  "Halt reason:  " ++ reason,
  "Output bytes: " ++ toString written,
  "Stack depth:  0"] ++ (fault.map ("\nFault: " ++ ·)).toList

theorem column_eq (s : String) : Report.column s = String.ofList (s.toList.leftpad 6 ' ') := by
  rw [Report.column, List.leftpad, String.ofList_append, String.ofList_toList, String.length_toList]

theorem registersText_eq {s : Summary} {p : Int} (hregisters : s.registers =
      [("R0", r₀), ("R1", r₁), ("R2", 0), ("R3", 0), ("R4", 0), ("R5", 0), ("R6", 0), ("R7", 0)])
    (hpc : s.pc = .number p) :
    Report.registersText s = "\n".intercalate (registerLines r₀ r₁ p) := by
  have hself : ∀ s : String, toString s = s := fun _ => rfl
  have hline : ∀ label (w : Word), s!"  {label}: {Report.column (toString w.toNat)}" ++
      (if w = 0 then "" else " *") = registerLine label w.toNat := by
    intro label w
    have hzero : w = 0 ↔ w.toNat = 0 := UInt16.toNat_inj.symm
    simp only [registerLine, padded, column_eq, hself, hzero]
    rfl
  have hcounter : s!"  PC: {Report.column (Datum.number p).shown}" = "  PC: " ++ padded p := by
    rw [column_eq, hself, hself]
    rfl
  have hrule : Report.rule 30 = "==============================" := by decide
  rw [Report.registersText, hregisters, hpc, hcounter, hrule]
  simp only [List.map_cons, List.map_nil, hline]
  rfl

theorem summaryText_eq {s : Summary} {n : Nat} {reason : HaltReason} (hloaded : s.bytesLoaded = 24)
    (hcycles : s.cycles = c) (hreason : s.haltReason = some reason) (hwritten : s.outputBytes = n)
    (hdepth : s.stackDepth = 0) (fault : Option Fault) :
    Report.summaryText s fault =
      "\n".intercalate (summaryLines c reason.text n (fault.map Fault.text)) := by
  have hrule : Report.rule 40 = "========================================" := by decide
  have hcount : s!"Cycles:       {(c : Int)}" = "Cycles:       " ++ toString c := rfl
  unfold Report.summaryText
  rw [hloaded, hcycles, hreason, hwritten, hdepth, hrule, hcount]
  cases fault with
  | none => rfl
  | some f => rfl

/-- What is reported when the program has written `output` in `c` cycles, is at `p` and has halted. -/
def reported (output : List Char) (p : Int) (r₀ r₁ : Word) (c : Nat) (reason : String)
    (fault : Option String) : Report where
  output := String.ofList output
  summary := "\n".intercalate (summaryLines c reason output.length fault)
  registers := "\n".intercalate (registerLines r₀ r₁ p)

theorem ofMachine_haltWith (h : Between written unread console) (p : Int) (reason : HaltReason)
    (fault : Option Fault) :
    Report.ofMachine ((machine memory limit p r₀ r₁ c console).haltWith reason fault) fault =
      reported (written.map Text.charOf) p r₀ r₁ c reason.text (fault.map Fault.text) := by
  have hsummary := summaryText_eq
    (s := ((machine memory limit p r₀ r₁ c console).haltWith reason fault).summary)
    rfl rfl rfl h.count rfl fault
  have hregisters := registersText_eq
    (s := ((machine memory limit p r₀ r₁ c console).haltWith reason fault).summary) rfl rfl
  have houtput : ((machine memory limit p r₀ r₁ c console).haltWith reason fault).console.output.toList =
      written := h.output
  rw [Report.ofMachine, hsummary, hregisters, houtput, reported, List.length_map, Text.ofBytes]

/-! ## The report -/

/-- The message of a limit that was reached. -/
theorem text_of_limit (limit p : Int) :
    Fault.text ⟨.cycleLimit (.number limit), .number p⟩ =
      s!"Max cycles ({limit}) exceeded (at pc={p})" := by
  have hmiddle : (") exceeded (at pc=" : String) = ") exceeded" ++ " (at pc=" := by
    rw [← String.toList_inj, String.toList_append]
    decide
  have htext : Fault.text ⟨.cycleLimit (.number limit), .number p⟩ =
      "Max cycles (" ++ toString limit ++ ") exceeded" ++ " (at pc=" ++ toString p ++ ")" := rfl
  show _ = "Max cycles (" ++ toString limit ++ ") exceeded (at pc=" ++ toString p ++ ")"
  rw [htext, hmiddle]
  simp only [String.append_assoc]

/-- The program is loaded, and run from its beginning. -/
theorem exists_run (files : FileSystem) (text : String) (limit : Int) :
    ∃ memory : Array Word, (∀ m : Machine, m.memory = memory → m.Holds 0 Gallery.echoLine) ∧
      Report.run files (.bundled "Echo line") text (.whole limit) =
        Report.ofRun limit (start memory limit (Text.toBytes text)) := by
  have hvalues : ∀ v ∈ Gallery.echoLine, 0 ≤ v ∧ v ≤ 65535 := by decide
  obtain ⟨memory, hload, -, hcode⟩ := Machine.holds_of_loadWords
    (m := { console := .ofInput (Text.toBytes text), maxCycles := some limit }) hvalues (by decide)
  refine ⟨memory, hcode, ?_⟩
  have hloaded : Report.load files (.bundled "Echo line")
      { console := .ofInput (Text.toBytes text), maxCycles := some limit } =
        .ok (.done 24 (start memory limit (Text.toBytes text))) := congrArg Except.ok hload
  simp only [Report.run, Amount.toInt, bind, Except.bind, hloaded]

/-- A limit that cuts the program off is its fault, or is refused if it cannot be named. -/
theorem run_of_cut (files : FileSystem) {text : String}
    (hroom : limit.toNat < span Console.newline (Text.toBytes text)) :
    (Text.isWritable limit = true → ∃ r₀ r₁,
      Report.run files (.bundled "Echo line") text (.whole limit) =
        let stop := place Console.newline (Text.toBytes text) limit.toNat
        .ok (reported ((Text.replaced text).take ((limit.toNat + 2) / 4)) stop r₀ r₁ limit.toNat
          "fault" (some s!"Max cycles ({limit}) exceeded (at pc={stop})"))) ∧
    (Text.isWritable limit = false →
      Report.run files (.bundled "Echo line") text (.whole limit) =
        .error (.machine .tooManyDigits)) := by
  obtain ⟨memory, hcode, hrun⟩ := exists_run files text limit
  obtain ⟨r₀, r₁, console, hwithin, hbetween⟩ := runWithin_of_cut hcode hroom
  rw [hrun, Report.ofRun, hwithin]
  constructor
  · intro h
    refine ⟨r₀, r₁, ?_⟩
    rw [Machine.exceed_of_isWritable h]
    refine congrArg Except.ok ((ofMachine_haltWith hbetween _ .fault (some _)).trans ?_)
    rw [List.map_take, Text.map_charOf_toBytes, Option.map_some]
    exact congrArg (reported _ _ _ _ _ _ <| some ·) (text_of_limit limit _)
  · intro h
    rw [Machine.exceed_of_not_isWritable h]

/-- Whatever text and limit it is given, the program writes the text up to and including the first
newline, as far as the limit lets it. A character that has no byte counts as a question mark.

It takes `total` cycles for that. Given so many, it halts behind the newline, or for want of input if
there is none. Given fewer, it has written a character for every four cycles, for the last of which two
are enough, and the limit is its fault wherever it has come to a stop; but there is no report if that
limit has too many digits to be named. -/
theorem report_of_echo (files : FileSystem) (text : String) (limit : Int) :
    let line := Text.replaced text
    let total := if '\n' ∈ line then 4 * line.idxOf '\n' + 5 else 4 * line.length + 1
    let allowed := limit.toNat
    let stop := place '\n' line allowed
    let result := Report.run files (.bundled "Echo line") text (.whole limit)
    ('\n' ∈ line → total ≤ allowed →
      result = .ok (reported (line.take (line.idxOf '\n' + 1)) 12 10 1 total "halt" none)) ∧
    ('\n' ∉ line → total ≤ allowed → ∃ r₀ r₁,
      result = .ok (reported line 2 r₀ r₁ total "fault"
        (some "End of input while waiting for a byte (at pc=0)"))) ∧
    (allowed < total →
      if Text.isWritable limit then ∃ r₀ r₁,
        result = .ok (reported (line.take ((allowed + 2) / 4)) stop r₀ r₁ allowed "fault"
          (some s!"Max cycles ({limit}) exceeded (at pc={stop})"))
      else result = .error (.machine .tooManyDigits)) := by
  intro line total allowed stop result
  have hline : (Text.toBytes text).map Text.charOf = line := Text.map_charOf_toBytes text
  have hmem : '\n' ∈ line ↔ Console.newline ∈ Text.toBytes text := by
    rw [← hline]
    exact mem_map_newline fun b => Text.charOf_eq_newline_iff
  have hindex : line.idxOf '\n' = (Text.toBytes text).idxOf Console.newline := by
    rw [← hline]
    exact idxOf_map fun b => Text.charOf_eq_newline_iff
  have htotal : total = span Console.newline (Text.toBytes text) := by
    rw [← span_map fun b => Text.charOf_eq_newline_iff, hline]
    rfl
  have hstop : stop = place Console.newline (Text.toBytes text) allowed := by
    show place '\n' line allowed = _
    rw [← hline]
    exact place_map (fun b => Text.charOf_eq_newline_iff) allowed
  refine ⟨fun hnewline hroom => ?_, fun hnewline hroom => ?_, fun hroom => ?_⟩
  · obtain ⟨memory, hcode, hrun⟩ := exists_run files text limit
    rw [hmem] at hnewline
    rw [htotal] at hroom ⊢
    obtain ⟨console, hwithin, hbetween⟩ := runWithin_of_newline hcode hnewline hroom
    show Report.run files (.bundled "Echo line") text (.whole limit) = _
    rw [hrun, Report.ofRun, hwithin]
    simp only [ofMachine_haltWith hbetween, List.map_take, hline, hindex]
    rfl
  · obtain ⟨memory, hcode, hrun⟩ := exists_run files text limit
    rw [hmem] at hnewline
    rw [htotal] at hroom ⊢
    obtain ⟨r₀, r₁, console, hwithin, hbetween⟩ := runWithin_of_exhausted hcode hnewline hroom
    have htext : Fault.text ⟨.inputExhausted, .number 0⟩ =
      "End of input while waiting for a byte (at pc=0)" := by decide
    refine ⟨r₀, r₁, ?_⟩
    show Report.run files (.bundled "Echo line") text (.whole limit) = _
    rw [hrun, Report.ofRun, hwithin]
    simp only [ofMachine_haltWith hbetween, hline, Option.map_some, htext]
    rfl
  · rw [htotal] at hroom
    obtain ⟨hnamed, hunnamed⟩ := run_of_cut files hroom
    rw [hstop]
    split
    · exact hnamed ‹_›
    · exact hunnamed (Bool.eq_false_iff.2 ‹_›)

/-- Just cycles enough for a line, one too few, and a text that is no line. -/
theorem report_of_echo_greeting :
    let files : FileSystem := fun _ => .ok []
    let summary := ["EXECUTION SUMMARY", "========================================",
      "Bytes loaded: 24", "Cycles:       13", "Halt reason:  halt", "Output bytes: 3",
      "Stack depth:  0"]
    let registers := ["FINAL REGISTERS", "==============================", "  R0:     10 *",
      "  R1:      1 *", "  R2:      0", "  R3:      0", "  R4:      0", "  R5:      0",
      "  R6:      0", "  R7:      0", "  PC:     12"]
    Report.run files (.bundled "Echo line") "hi\nthere" (.whole 13) =
        .ok ⟨"hi\n", "\n".intercalate summary, "\n".intercalate registers⟩ ∧
      (∃ r₀ r₁, Report.run files (.bundled "Echo line") "hi\nthere" (.whole 12) =
        .ok (reported ['h', 'i', '\n'] 11 r₀ r₁ 12 "fault"
          (some "Max cycles (12) exceeded (at pc=11)"))) ∧
      ∃ r₀ r₁, Report.run files (.bundled "Echo line") "hi" (.whole 9) =
        .ok (reported ['h', 'i'] 2 r₀ r₁ 9 "fault"
          (some "End of input while waiting for a byte (at pc=0)")) := by
  intro files summary registers
  refine ⟨?_, ?_, ?_⟩
  · have houtput : String.ofList ['h', 'i', '\n'] = "hi\n" := rfl
    have hsummary : summaryLines 13 "halt" 3 none = summary := by decide
    have hregisters : registerLines 10 1 12 = registers := by decide
    rw [← houtput, ← hsummary, ← hregisters]
    exact (report_of_echo files "hi\nthere" 13).1 (by decide) (by decide)
  · exact (report_of_echo files "hi\nthere" 12).2.2 (by decide)
  · exact (report_of_echo files "hi" 9).2.1 (by decide) (by decide)

/-- A limit below zero that has too many digits, and a text that the program has not begun to read. -/
theorem report_of_echo_exceptions :
    let files : FileSystem := fun _ => .ok []
    Report.run files (.bundled "Echo line") "" (.whole (-Text.overlong)) =
      .error (.machine .tooManyDigits) := by
  intro files
  have hnone : (-Text.overlong).toNat = 0 := Int.toNat_of_nonpos Text.neg_overlong_nonpos
  have hroom : (-Text.overlong).toNat < span Console.newline (Text.toBytes "") := by
    rw [hnone]
    decide
  exact (run_of_cut files hroom).2 Text.isWritable_neg_overlong

end EchoLine

end WordMachine
