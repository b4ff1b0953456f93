import Mathlib.Data.List.Induction
import Mathlib.Data.List.Nodup
import WordMachine.Proofs.Stepping

/-! # Which registries can be built

Opcodes are registered in the order of a list, and then the registry is looked over and closed.

* `Registry.FirstRepeat`: an opcode of a list is the first that repeats an earlier one.
* `build_of_firstRepeat` and `build_of_nodup` say what becomes of a list in which an opcode is repeated,
  and of one in which none is.
* `missing_eq_nil_iff`: nothing is missing from a list without repetitions exactly if it has the
  opcodes of the instruction set in some order, so `build_eq_ok_iff`.
* `build_outcome` is the account of all lists, and of what a registry does that was built.
-/

namespace WordMachine

/-! ## Messages -/

/-- The message about missing opcodes has the name of each of them once, in alphabetical order. -/
theorem RegistryError.message_missing {ops : List Opcode} (h : ops.Nodup) :
    ∃ names, (RegistryError.missing ops).message =
        "Opcodes without a primitive: " ++ ", ".intercalate names ∧
      names.Pairwise (· < ·) ∧ ∀ name, name ∈ names ↔ ∃ op ∈ ops, op.name = name := by
  let names := (ops.map Opcode.name).mergeSort
  have hperm : names.Perm (ops.map Opcode.name) := List.mergeSort_perm _ _
  have hsorted : names.Pairwise (· ≤ ·) := by
    have htrans : ∀ a b c : String, decide (a ≤ b) = true → decide (b ≤ c) = true →
        decide (a ≤ c) = true := fun a b c => by simpa using String.le_trans
    have htotal : ∀ a b : String, (decide (a ≤ b) || decide (b ≤ a)) = true :=
      fun a b => by simpa using String.le_total a b
    simpa using List.pairwise_mergeSort htrans htotal (ops.map Opcode.name)
  have hnodup : names.Nodup := hperm.nodup_iff.2 (h.map Opcode.name_injective)
  refine ⟨names, rfl, ?_, fun name => ?_⟩
  · -- Names that are in order and differ are strictly in order.
    apply (hsorted.and hnodup).imp
    intro a b hab
    exact String.not_le.1 fun hba => hab.2 (String.le_antisymm hab.1 hba)
  · rw [hperm.mem_iff, List.mem_map]

namespace Registry

variable {r r' : Registry} {op : Opcode} {ops : List Opcode}
  {entries before after : List (Opcode × Primitive)}

/-! ## The first opcode that repeats another -/

/-- The opcode repeats an earlier one of the list, and none before it does. -/
def FirstRepeat (op : Opcode) (ops : List Opcode) : Prop :=
  ∃ before after, ops = before ++ op :: after ∧ before.Nodup ∧ op ∈ before

theorem FirstRepeat.not_nodup (h : FirstRepeat op ops) : ¬ ops.Nodup := by
  obtain ⟨before, after, rfl, -, hmem⟩ := h
  intro hnodup
  exact (List.nodup_append.1 hnodup).2.2 op hmem op List.mem_cons_self rfl

/-- A list in which some opcode is repeated has a first one that repeats another. -/
theorem exists_firstRepeat (h : ¬ ops.Nodup) : ∃ op, FirstRepeat op ops := by
  -- The last opcode is taken off: it counts only if those before it all differ.
  induction ops using List.reverseRecOn with
  | nil => exact absurd List.nodup_nil h
  | append_singleton earlier last ih =>
    by_cases hearlier : earlier.Nodup
    · have hmem : last ∈ earlier := by
        apply Classical.byContradiction
        intro hnew
        rw [← List.concat_eq_append] at h
        exact h (hearlier.concat hnew)
      exact ⟨last, earlier, [], rfl, hearlier, hmem⟩
    · obtain ⟨op, before, after, hsplit, hnodup, hmem⟩ := ih hearlier
      exact ⟨op, before, after ++ [last], by rw [hsplit]; simp, hnodup, hmem⟩

/-! ## Registration -/

/-- What is registered after other opcodes is registered where these have led. -/
theorem registerAll_append (h : r.registerAll before = .ok r') :
    r.registerAll (before ++ after) = r'.registerAll after := by
  induction before generalizing r with
  | nil =>
    cases h
    rfl
  | cons entry rest ih =>
    obtain ⟨op, primitive⟩ := entry
    rw [registerAll] at h
    rw [List.cons_append, registerAll]
    cases hfirst : r.register op primitive with
    | error e =>
      rw [hfirst] at h
      cases h
    | ok r₁ =>
      rw [hfirst] at h
      exact ih h

/-- An open registry takes all opcodes of a list without repetitions. -/
theorem registerAll_of_nodup (h : (entries.map (·.1)).Nodup) :
    ({} : Registry).registerAll entries = .ok { entries } :=
  registerAll_ok entries {} rfl h

/-- The first opcode that repeats another is refused, whatever is missing by then. -/
theorem build_of_firstRepeat (h : FirstRepeat op (entries.map (·.1))) :
    build entries = .error (.duplicate op) := by
  obtain ⟨earlier, later, hsplit, hnodup, hmem⟩ := h
  obtain ⟨before, rest, rfl, rfl, hrest⟩ := List.map_eq_append_iff.1 hsplit
  obtain ⟨⟨op, primitive⟩, after, rfl, rfl, -⟩ := List.map_eq_cons_iff.1 hrest
  have hkeys : ({ entries := before } : Registry).keys = before.map (·.1) := rfl
  have hrefused : ({ entries := before } : Registry).register op primitive =
      .error (.duplicate op) := by
    rw [register, if_neg Bool.false_ne_true, hkeys, if_pos hmem]
  rw [build, registerAll_append (registerAll_of_nodup hnodup), registerAll, hrefused]

/-- If no opcode repeats another, only missing ones keep the registry from being built. -/
theorem build_of_nodup (h : (entries.map (·.1)).Nodup) :
    build entries =
      if ({ entries } : Registry).missing = [] then .ok { entries, frozen := true }
      else .error (.missing ({ entries } : Registry).missing) := by
  rw [build, registerAll_of_nodup h]
  rfl

theorem mem_missing_iff : op ∈ r.missing ↔ op ∉ r.keys := by
  simp [missing]

theorem nodup_missing (r : Registry) : r.missing.Nodup := Opcode.nodup_all.filter _

/-- Nothing is missing from opcodes that differ exactly if they are all there, in whatever order. -/
theorem missing_eq_nil_iff (h : (entries.map (·.1)).Nodup) :
    ({ entries } : Registry).missing = [] ↔ (entries.map (·.1)).Perm Opcode.all := by
  rw [List.perm_ext_iff_of_nodup h Opcode.nodup_all, List.eq_nil_iff_forall_not_mem]
  simp [mem_missing_iff, keys]

/-! ## Look-up -/

/-- A registered opcode is found with a primitive that it was registered with. -/
theorem exists_find? (h : op ∈ r.keys) :
    ∃ primitive, (op, primitive) ∈ r.entries ∧ r.find? op = some primitive := by
  obtain ⟨entry, hentry, hop⟩ := List.mem_map.1 h
  have hsome : (r.entries.find? fun entry => entry.1 == op).isSome = true := by
    rw [List.find?_isSome]
    exact ⟨entry, hentry, beq_iff_eq.2 hop⟩
  obtain ⟨⟨op', primitive⟩, hfind⟩ := Option.isSome_iff_exists.1 hsome
  have hfound := List.find?_some hfind
  cases beq_iff_eq.1 hfound
  exact ⟨primitive, List.mem_of_find?_eq_some hfind, by rw [find?, hfind, Option.map_some]⟩

/-! ## What is built of a list, and what is not -/

/-- A registry is built of the opcodes of the instruction set, in whatever order, and of nothing
else. -/
theorem build_eq_ok_iff :
    build entries = .ok r ↔
      (entries.map (·.1)).Perm Opcode.all ∧ r = { entries, frozen := true } := by
  constructor
  · intro h
    by_cases hnodup : (entries.map (·.1)).Nodup
    · rw [build_of_nodup hnodup] at h
      split at h
      · rename_i hnone
        cases h
        exact ⟨(missing_eq_nil_iff hnodup).1 hnone, rfl⟩
      · cases h
    · obtain ⟨op, hop⟩ := exists_firstRepeat hnodup
      rw [build_of_firstRepeat hop] at h
      cases h
  · rintro ⟨hperm, rfl⟩
    have hnodup : (entries.map (·.1)).Nodup := hperm.nodup_iff.2 Opcode.nodup_all
    rw [build_of_nodup hnodup, if_pos ((missing_eq_nil_iff hnodup).2 hperm)]

/-- An opcode is refused exactly if it is the first that repeats another. -/
theorem build_eq_duplicate_iff :
    build entries = .error (.duplicate op) ↔ FirstRepeat op (entries.map (·.1)) := by
  constructor
  · intro h
    by_cases hnodup : (entries.map (·.1)).Nodup
    · rw [build_of_nodup hnodup] at h
      split at h <;> cases h
    · obtain ⟨op', hop'⟩ := exists_firstRepeat hnodup
      cases h.symm.trans (build_of_firstRepeat hop')
      exact hop'
  · exact build_of_firstRepeat

/-- Opcodes that differ, but are not all, are refused for those that are missing. -/
theorem build_of_incomplete (hnodup : (entries.map (·.1)).Nodup)
    (h : ¬ (entries.map (·.1)).Perm Opcode.all) :
    build entries = .error (.missing ({ entries } : Registry).missing) := by
  rw [build_of_nodup hnodup, if_neg (mt (missing_eq_nil_iff hnodup).1 h)]

/-- A registry that was built executes every instruction, by a primitive of the list. -/
theorem execute_of_build (h : build entries = .ok r) (i : Instruction) :
    ∃ primitive, (i.opcode, primitive) ∈ entries ∧
      ∀ m, r.execute i m = primitive i m.counted := by
  obtain ⟨hperm, rfl⟩ := build_eq_ok_iff.1 h
  obtain ⟨primitive, hmem, hfind⟩ := exists_find? (r := { entries, frozen := true })
    (hperm.mem_iff.2 i.opcode.mem_all)
  exact ⟨primitive, hmem, execute_of_find? hfind⟩

/-! ## All lists -/

/-- A registry is built of a list of opcodes exactly if these are the opcodes of the instruction set,
in some order. Otherwise the first that repeats an earlier one is refused by its name, whatever is
missing; only if none does, those that are missing are told, by their names in alphabetical order.

What was built has the opcodes of the list, takes no others, and has a primitive for every
instruction. -/
theorem build_outcome (entries : List (Opcode × Primitive)) :
    let ops := entries.map (·.1)
    ((∃ r, build entries = .ok r) ↔ ops.Perm Opcode.all) ∧
    ((∃ op, FirstRepeat op ops) ↔ ¬ ops.Nodup) ∧
    (∀ op, (build entries = .error (.duplicate op) ↔ FirstRepeat op ops) ∧
      (RegistryError.duplicate op).message = "Primitive already registered: " ++ op.name) ∧
    (ops.Nodup → ¬ ops.Perm Opcode.all →
      ∃ absent names, build entries = .error (.missing absent) ∧
        (RegistryError.missing absent).message =
          "Opcodes without a primitive: " ++ ", ".intercalate names ∧
        names.Pairwise (· < ·) ∧ ∀ name, name ∈ names ↔ ∃ op, op ∉ ops ∧ op.name = name) ∧
    ∀ r, build entries = .ok r →
      r.frozen = true ∧ r.keys = ops ∧
      (∀ op primitive, r.register op primitive = .error .frozen) ∧
      ∀ i : Instruction, ∃ primitive, (i.opcode, primitive) ∈ entries ∧
        ∀ m, r.execute i m = primitive i m.counted := by
  intro ops
  refine ⟨⟨?_, fun hperm => ⟨_, build_eq_ok_iff.2 ⟨hperm, rfl⟩⟩⟩, ⟨?_, exists_firstRepeat⟩,
    fun op => ⟨build_eq_duplicate_iff, rfl⟩, ?_, ?_⟩
  · rintro ⟨r, hr⟩
    exact (build_eq_ok_iff.1 hr).1
  · rintro ⟨op, hop⟩
    exact hop.not_nodup
  · intro hnodup hperm
    obtain ⟨names, hmessage, hsorted, hnames⟩ :=
      RegistryError.message_missing (nodup_missing { entries })
    refine ⟨_, names, build_of_incomplete hnodup hperm, hmessage, hsorted, fun name => ?_⟩
    rw [hnames]
    exact exists_congr fun op => and_congr_left' mem_missing_iff
  · intro r hr
    have hexecute := execute_of_build hr
    obtain ⟨-, rfl⟩ := build_eq_ok_iff.1 hr
    exact ⟨rfl, rfl, fun op primitive => rfl, hexecute⟩

/-- Of four opcodes that are two, the third is refused; one alone leaves others missing; and the order
in which all of them are registered does not matter. -/
theorem build_outcome_incomplete_and_reversed :
    build [(.add, Primitive.noop), (.halt, Primitive.noop), (.halt, Primitive.noop),
      (.add, Primitive.noop)] = .error (.duplicate .halt) ∧
    ([Opcode.halt].Nodup ∧ ¬ [Opcode.halt].Perm Opcode.all ∧
      ∃ absent names, build [(.halt, Primitive.noop)] = .error (.missing absent) ∧
        (RegistryError.missing absent).message =
          "Opcodes without a primitive: " ++ ", ".intercalate names ∧
        "ADD" ∈ names ∧ "HALT" ∉ names) ∧
    ∃ r, build standardEntries.reverse = .ok r ∧
      r.register .halt Primitive.noop = .error .frozen := by
  refine ⟨?_, ⟨by decide, ?_, ?_⟩, ?_⟩
  · exact ((build_outcome _).2.2.1 .halt).1.2 ⟨[.add, .halt], [.add], rfl, by decide, by decide⟩
  · intro hperm
    exact absurd hperm.length_eq (by decide)
  · have hlone := (build_outcome [(.halt, Primitive.noop)]).2.2.2.1
    obtain ⟨absent, names, hbuild, hmessage, -, hnames⟩ :=
      hlone (by decide) fun hperm => absurd hperm.length_eq (by decide)
    have hadd : Opcode.add.name = "ADD" := String.toList_inj.1 (Opcode.toList_name .add)
    have hhalt : Opcode.halt.name = "HALT" := String.toList_inj.1 (Opcode.toList_name .halt)
    refine ⟨absent, names, hbuild, hmessage, (hnames _).2 ⟨.add, by decide, hadd⟩, ?_⟩
    rw [hnames]
    rintro ⟨op, hop, hname⟩
    cases Opcode.name_injective (hname.trans hhalt.symm)
    exact hop (by decide)
  · have hperm : (standardEntries.reverse.map (·.1)).Perm Opcode.all := by
      rw [← keys_standard]
      exact (List.reverse_perm standardEntries).map _
    obtain ⟨hbuild, -, -, -, hafter⟩ := build_outcome standardEntries.reverse
    obtain ⟨r, hr⟩ := hbuild.2 hperm
    exact ⟨r, hr, (hafter r hr).2.2.1 .halt Primitive.noop⟩

end Registry

end WordMachine
