import WordMachine.Report
import WordMachine.Proofs.Numerals
import WordMachine.Proofs.Verdicts

/-! # Reports and verdicts

A report says the same about a program as the command line does when it is quiet.

* `summaryText_reason`, `summaryText_fault` and `not_mem_summaryText`: what a summary says about how
  the machine halted, and that it says nothing of faults if there was none.
* `Agrees`: a report and a verdict say the same about a run.
* `exists_agreement`: they do so for every program that can be loaded, because both run the same
  machine under the same limit.
* `agrees_with_verdict` is the account of all programs, those included that cannot be loaded.
-/

namespace WordMachine

/-- What is in none of the lines is not in the text that they make. -/
theorem Text.not_mem_intercalate {c : Char} {sep : String} {lines : List String}
    (hsep : c ∉ sep.toList) (h : ∀ line ∈ lines, c ∉ line.toList) :
    c ∉ (sep.intercalate lines).toList := by
  induction lines with
  | nil => simp
  | cons line rest ih =>
    have hline : c ∉ line.toList := h line List.mem_cons_self
    have hrest : c ∉ (sep.intercalate rest).toList :=
      ih fun line' hline' => h line' (List.mem_cons_of_mem line hline')
    by_cases hnil : rest = []
    · rw [hnil, String.intercalate_singleton]
      exact hline
    · rw [String.intercalate_cons_of_ne_nil hnil]
      simp only [String.toList_append, List.mem_append, not_or]
      exact ⟨⟨hline, hsep⟩, hrest⟩

namespace Report

open Registry (standard)
open CommandLine (Arguments Verdict classify)

variable {name : String} {files : FileSystem} {s : Summary} {f : Fault} {reason : HaltReason}
  {m m' : Machine} {limit : Int} {bytes : Nat}

/-! ## Summaries -/

/-- The line of a summary that says why the machine halted, with both its ends. -/
def reasonLine (reason : String) : String := "\nHalt reason:  " ++ reason ++ "\n"

/-- What stands below a summary if the machine met a fault. -/
def faultLine (text : String) : String := "\nFault: " ++ text

theorem summaryText_fault (s : Summary) (f : Fault) :
    summaryText s (some f) = summaryText s none ++ "\n" ++ faultLine f.text := by
  simp only [summaryText, faultLine]
  rfl

theorem summaryText_reason (h : s.haltReason = some reason) :
    ∃ before after, summaryText s none = before ++ reasonLine reason.text ++ after := by
  let top := ["EXECUTION SUMMARY", rule 40, s!"Bytes loaded: {s.bytesLoaded}",
    s!"Cycles:       {s.cycles}"]
  let bottom := [s!"Output bytes: {s.outputBytes}", s!"Stack depth:  {s.stackDepth}"]
  -- Four lines stand above the one that counts, and two below it.
  refine ⟨"\n".intercalate top, "\n".intercalate bottom, ?_⟩
  have hlines : summaryText s none =
      "\n".intercalate (top ++ ([s!"Halt reason:  {reason.text}"] ++ bottom)) := by
    rw [summaryText, h]
    rfl
  rw [hlines, String.intercalate_append_of_ne_nil (by simp [top]) (by simp),
    String.intercalate_append_of_ne_nil (by simp) (by simp [bottom]), String.intercalate_singleton]
  have hlabel : reasonLine reason.text = "\n" ++ s!"Halt reason:  {reason.text}" ++ "\n" := by
    cases reason <;> decide
  rw [hlabel]
  simp only [String.append_assoc]

/-- The reason has its line, whether a fault stands below or not. -/
theorem reasonLine_occurs (h : s.haltReason = some reason) (fault : Option Fault) :
    (reasonLine reason.text).toList <:+: (summaryText s fault).toList := by
  obtain ⟨before, after, hnone⟩ := summaryText_reason h
  cases fault with
  | none =>
    refine ⟨before.toList, after.toList, ?_⟩
    rw [hnone, String.toList_append, String.toList_append]
  | some f =>
    refine ⟨before.toList, (after ++ "\n" ++ faultLine f.text).toList, ?_⟩
    rw [summaryText_fault, hnone]
    simp only [String.toList_append, List.append_assoc]

/-- Nothing in a summary starts like a fault does, except the fault below it. -/
theorem not_mem_summaryText (s : Summary) : 'F' ∉ (summaryText s none).toList := by
  have hnat : ∀ n : Nat, 'F' ∉ (toString n).toList := Text.not_mem_toString rfl
  have hint : ∀ z : Int, 'F' ∉ (toString z).toList := Text.not_mem_toString_int rfl (by decide)
  have hreason : 'F' ∉ ((s.haltReason.map HaltReason.text).getD "None").toList := by
    rcases s.haltReason with - | reason
    · decide
    · cases reason <;> decide
  have hentry : ∀ label value : String, 'F' ∉ label.toList → 'F' ∉ value.toList →
      'F' ∉ (label ++ value).toList := by
    intro label value hlabel hvalue
    rw [String.toList_append, List.mem_append, not_or]
    exact ⟨hlabel, hvalue⟩
  apply Text.not_mem_intercalate (by decide)
  intro line hline
  simp only [List.append_nil, List.mem_cons, List.not_mem_nil, or_false] at hline
  rcases hline with rfl | rfl | rfl | rfl | rfl | rfl | rfl
  · decide
  · decide
  · exact hentry _ _ (by decide) (hnat _)
  · exact hentry _ _ (by decide) (hint _)
  · exact hentry _ _ (by decide) hreason
  · exact hentry _ _ (by decide) (hnat _)
  · exact hentry _ _ (by decide) (hnat _)

/-- A text without that letter does not speak of a fault. -/
theorem free_of_fault {text : String} (h : 'F' ∉ text.toList) :
    ¬ "Fault".toList <:+: text.toList := by
  intro hfault
  exact h (List.IsInfix.subset hfault (by decide))

/-! ## Agreement -/

/-- A report and a verdict say the same about a run, whether it returned or met a fault. A fault has
the same message in both, and the same address. -/
inductive Agrees (report : Report) (v : Verdict) : Prop where
  | returned {reason : String} (code : v.code = 0) (stderr : v.stderr = "")
      (fine : reason ∈ ["halt", "empty_stack", "stopped"])
      (halted : (reasonLine reason).toList <:+: report.summary.toList)
      (faultless : ¬ "Fault".toList <:+: report.summary.toList)
  | faulted {text message : String} {address : Int} (code : v.code = 1)
      (located : text = s!"{message} (at pc={address})")
      (stderr : v.stderr = "\nExecution error: " ++ text ++ "\n")
      (halted : (reasonLine "fault").toList <:+: report.summary.toList)
      (fault : ∃ rest, report.summary = rest ++ faultLine text ∧
        ¬ "Fault".toList <:+: rest.toList)

/-- A run that ends within the cycles that are left ends as it does without a limit on steps. -/
theorem runWithin_of_run {o : Outcome Ending} {fuel : Nat}
    (h : standard.run (some limit) fuel m = o.map some) (hfuel : fuel ≤ (limit - m.cycles).toNat) :
    standard.runWithin limit m = o := by
  have hrun := Registry.lawful_standard.run_add_fuel h ((limit - m.cycles).toNat - fuel)
  rw [Nat.add_sub_cancel' hfuel] at hrun
  rw [Registry.runWithin, hrun]
  cases o <;> rfl

/-- What is reported of a run agrees with the verdict on it, if it can only have failed with a fault. -/
theorem agrees_of_ended {o : Outcome Ending} {a : Arguments} (hquiet : a.quiet = true)
    (hsilent : a.verbose = false) (hrun : standard.runWithin limit m = o)
    (hrecorded : Registry.Recorded (some limit) (o.map some)) (hdigits : Text.isWritable limit = true)
    (hlocated : ∀ f m', o = .failed (.fault f) m' → ∃ address, f.pc = .number address) :
    ∃ report v, ofRun limit m = .ok report ∧ CommandLine.runVerdict name a bytes o = .ok v ∧
      report.output = Text.ofBytes v.stdout ∧ Agrees report v := by
  have hbanner : CommandLine.banner a bytes = [] := by rw [CommandLine.banner, if_pos hquiet]
  have hlog : ∀ lines, CommandLine.logText name a lines = "" := by
    intro lines
    rw [CommandLine.logText, if_neg (by simp [hsilent])]
  cases o with
  | done ending m' =>
    cases hrecorded with
    | ended halt reason =>
      have hreason : m'.summary.haltReason = some ending.reason :=
        congrArg (Option.map Halt.reason) halt
      have hfine : ending.reason.text ∈ ["halt", "empty_stack", "stopped"] := by
        cases hr : ending.reason with
        | fault => exact absurd hr reason
        | halt => decide
        | emptyStack => decide
        | stopped => decide
      refine ⟨ofMachine m' none, _, by rw [ofRun, hrun], rfl, ?_, ?_⟩
      · rw [hbanner]
        rfl
      · exact .returned rfl (hlog _) hfine (reasonLine_occurs hreason none)
          (free_of_fault (not_mem_summaryText _))
  | failed e m' =>
    cases hrecorded with
    | @failed f _ halt =>
      have hreason : m'.summary.haltReason = some .fault :=
        congrArg (Option.map Halt.reason) halt
      obtain ⟨address, haddress⟩ := hlocated f m' rfl
      have htext : f.text = s!"{f.cause.message} (at pc={address})" := by
        rw [Fault.text, haddress]
        rfl
      refine ⟨ofMachine m' (some f), _, by rw [ofRun, hrun], rfl, ?_, ?_⟩
      · rw [hbanner]
        rfl
      · refine .faulted rfl htext ?_ (reasonLine_occurs hreason (some f)) ?_
        · rw [hlog]
          exact String.empty_append
        · refine ⟨_, summaryText_fault m'.summary f, free_of_fault ?_⟩
          rw [String.toList_append, List.mem_append, not_or]
          exact ⟨not_mem_summaryText _, by decide⟩
    | @refused l _ limited long running =>
      cases limited
      rw [hdigits] at long
      cases long

/-- What is loaded is run under the limit, and that ends. -/
theorem exists_agreement {path : String} {input : Bytes} (hdigits : Text.isWritable limit = true)
    (hload : CommandLine.load files (.ofInput input) ⟨path, some limit, true, false⟩ =
      .done bytes m) :
    ∃ report v, ofRun limit m = .ok report ∧
      (∀ fuel, limit.toNat ≤ fuel → ∃ o : Outcome Ending,
        standard.run (some limit) fuel m = o.map some ∧
        CommandLine.runVerdict name ⟨path, some limit, true, false⟩ bytes o = .ok v) ∧
      report.output = Text.ofBytes v.stdout ∧ Agrees report v := by
  obtain ⟨hb, memory, hm⟩ := CommandLine.loaded_of_load hload
  have hzero : (limit - m.cycles).toNat = limit.toNat := by
    rw [hm]
    exact congrArg Int.toNat (Int.sub_zero limit)
  -- The report allows as many steps as there are cycles left, the command line perhaps more.
  obtain ⟨o, hends⟩ := Registry.lawful_standard.ends_of_limit limit m
  have hrun := hends _ (Nat.le_refl _)
  have hwithin : standard.runWithin limit m = o := runWithin_of_run hrun (Nat.le_refl _)
  have hruns := Registry.lawful_standard.runsTo_run (some limit) (limit - m.cycles).toNat m
  rw [hrun] at hruns
  have hrecorded : Registry.Recorded (some limit) (o.map some) := by
    apply hruns.recorded hb
    · rw [hm]
      rfl
    · rw [hm]
  have hlocated : ∀ f m', o = .failed (.fault f) m' → ∃ address, f.pc = .number address := by
    rintro f m' rfl
    rcases hruns.error hb with ⟨c, p, hf⟩ | hinterrupted | ⟨hlong, -⟩
    · cases hf
      exact ⟨p, rfl⟩
    · cases hinterrupted
    · cases hlong
  obtain ⟨report, v, hreport, hv, houtput, hagrees⟩ :=
    agrees_of_ended (a := ⟨path, some limit, true, false⟩) rfl rfl
      hwithin hrecorded hdigits hlocated
  refine ⟨report, v, hreport, fun fuel hfuel => ⟨o, hends fuel ?_, hv⟩, houtput, hagrees⟩
  rw [hzero]
  exact hfuel

/-- A report is about the machine that the command line loads when it is told the same. -/
theorem run_upload (files : FileSystem) (path text : String) (limit : Int) :
    run files (.upload path) text (.whole limit) =
      match CommandLine.load files (.ofInput (Text.toBytes text))
        ⟨path, some limit, true, false⟩ with
      | .done _ m => ofRun limit m
      | .failed (.fault f) _ => .ok (ofLoadFault f)
      | .failed e _ => .error (.machine e) :=
  rfl

/-! ## All programs -/

/-- Whatever path, text and limit somebody gives to both, the report and the quiet command line agree,
if the limit has no more digits than the command line reads. If nothing can be loaded, then both say
why, and nothing else. Otherwise both end, and what is reported as output is what the command line
prints, byte for byte; if a fault ends the run, then both tell the same fault with the same address.

The command line reads the text as bytes, with a question mark for each character that has none. Its
arguments may be any that name the path and the limit. There are such arguments for every path, and
the obvious ones do for a path that is not taken for an option. -/
theorem agrees_with_verdict (name : String) (files : FileSystem) (path text : String) (limit : Int)
    (hclean : Char.ofNat 0 ∉ path.toList) (hlimit : 0 < limit)
    (hdigits : Text.isWritable limit = true) :
    let input : Bytes := text.toList.map fun c => if c.toNat < 256 then UInt8.ofNat c.toNat else 63
    let a : Arguments := ⟨path, some limit, true, false⟩
    ∃ report v, run files (.upload path) text (.whole limit) = .ok report ∧
      (∀ argv, Arguments.read argv = .ok a → ∀ fuel, limit.toNat ≤ fuel →
        CommandLine.run name files { unread := input } argv fuel = some (.ok v)) ∧
      Arguments.read ["--max-cycles", toString limit, "--quiet", "--", path] = .ok a ∧
      (classify path = .ok (.operand path) →
        Arguments.read [path, "--max-cycles", toString limit, "--quiet"] = .ok a) ∧
      (∀ e, (Source.path path).read files = .error e → ∃ f, e = .fault f ∧
        v.code = 1 ∧ v.stdout = [] ∧ v.stderr = s!"Error: {f.text}\n" ∧
        report = ⟨"", s!"Error: {f.text}", ""⟩) ∧
      ∀ data, (Source.path path).read files = .ok data →
        report.output.toList.map Char.toNat = v.stdout.map UInt8.toNat ∧ Agrees report v := by
  intro input a
  have hinput : Console.ofInput (Text.toBytes text) = { unread := input } := rfl
  let fresh : Machine := { console := { unread := input }, maxCycles := some limit }
  have hrefusal : a.refusal? = none := by
    rw [CommandLine.refusal?_eq_none_iff]
    rintro l ⟨⟩
    exact hlimit
  obtain ⟨n, rfl⟩ := Int.eq_ofNat_of_zero_le (Int.le_of_lt hlimit)
  have hnumeral : classify (toString (n : Int)) = .ok (.operand (toString (n : Int))) :=
    CommandLine.classify_toString n
  have hvalue : Text.readInt (toString (n : Int)) = .ok (n : Int) :=
    Text.readInt_toString (Text.length_toString_le_iff.2 hdigits)
  have hmarked : Arguments.read ["--max-cycles", toString (n : Int), "--quiet", "--", path] = .ok a :=
    CommandLine.read_marked path hnumeral hvalue
  have hobvious : classify path = .ok (.operand path) →
      Arguments.read [path, "--max-cycles", toString (n : Int), "--quiet"] = .ok a :=
    fun hpath => CommandLine.read_limited hpath hnumeral hvalue
  cases hsource : (Source.path path).read files with
  | error e =>
    have hload : CommandLine.load files { unread := input } a = .failed e fresh := by
      rw [CommandLine.load, Machine.load, hsource, Machine.given_error]
    obtain ⟨l, rfl⟩ := CommandLine.error_of_load hclean hload
    let f : Fault := { cause := .unloadable l }
    refine ⟨ofLoadFault f, CommandLine.loadVerdict f, ?_, ?_, hmarked, hobvious, ?_, ?_⟩
    · rw [run_upload, hinput, hload]
    · intro argv hargv fuel hfuel
      rw [CommandLine.run_of_read hargv, CommandLine.execute_of_unloadable hrefusal hload]
    · intro e he
      cases he
      exact ⟨f, rfl, rfl, rfl, rfl, rfl⟩
    · intro data hdata
      cases hdata
  | ok data =>
    have hload : CommandLine.load files { unread := input } a =
        .done data.length (fresh.install data) := by
      rw [CommandLine.load, Machine.load, hsource, Machine.given_ok]
    obtain ⟨report, v, hreport, hverdict, houtput, hagrees⟩ := exists_agreement hdigits hload
    refine ⟨report, v, ?_, ?_, hmarked, hobvious, ?_, ?_⟩
    · rw [run_upload, hinput, hload]
      exact hreport
    · intro argv hargv fuel hfuel
      obtain ⟨o, hrun, hv⟩ := hverdict fuel hfuel
      rw [CommandLine.run_of_read hargv, CommandLine.execute_of_ended hrefusal hload hrun, hv]
    · intro e he
      cases he
    · intro data' hdata
      refine ⟨?_, hagrees⟩
      rw [houtput, Text.ofBytes, String.toList_ofList, List.map_map]
      exact List.map_congr_left fun b _ => Text.toNat_charOf b

/-- A program that copies a byte, on a character that has none. -/
theorem agrees_with_verdict_copier :
    let files : FileSystem := fun _ => .ok CommandLine.copier
    let argv := ["a.bin", "--max-cycles", "9", "--quiet"]
    ∃ report v, Char.ofNat 0 ∉ "a.bin".toList ∧ (0 : Int) < 9 ∧ Text.isWritable 9 = true ∧
      Arguments.read argv = .ok ⟨"a.bin", some 9, true, false⟩ ∧
      run files (.upload "a.bin") "€" (.whole 9) = .ok report ∧
      CommandLine.run CommandLine.logName files { unread := [63] } argv 9 = some (.ok v) ∧
      v.stdout = [63] ∧ report.output = "?" ∧ Agrees report v := by
  intro files argv
  let a : Arguments := ⟨"a.bin", some 9, true, false⟩
  have hclean : Char.ofNat 0 ∉ "a.bin".toList := by decide
  have hlimit : (0 : Int) < 9 := by decide
  have hdigits : Text.isWritable 9 = true := by decide
  obtain ⟨report, v, hreport, hverdict, -, hobvious, -, hloaded⟩ :=
    agrees_with_verdict CommandLine.logName files "a.bin" "€" 9 hclean hlimit hdigits
  have hread : Arguments.read argv = .ok a := hobvious rfl
  have hv : CommandLine.run CommandLine.logName files { unread := [63] } argv 9 = some (.ok v) :=
    hverdict argv hread 9 (by decide)
  have hroom : ∀ l ∈ a.maxCycles, 3 ≤ l := by
    rintro l ⟨⟩
    decide
  have hunread : ({ unread := [63] } : Console).unread = 63 :: [] := rfl
  obtain ⟨m, m', hload, hrun, hwritten⟩ := CommandLine.run_copier hunread hclean hroom
  have hstdout : v.stdout = [63] := by
    have hlater := Registry.lawful_standard.run_add_fuel (o := .done _ m') hrun 6
    rw [CommandLine.run_of_read hread, CommandLine.execute_of_ended rfl hload hlater] at hv
    cases hv
    exact congrArg Array.toList hwritten
  obtain ⟨houtput, hagrees⟩ := hloaded CommandLine.copier rfl
  have hquestion : report.output = "?" := by
    rw [hstdout, List.map_singleton, List.map_eq_singleton_iff] at houtput
    obtain ⟨c, hlist, hc⟩ := houtput
    have hmark : c = '?' := Char.toNat_inj.1 hc
    rw [← String.toList_inj, hlist, hmark]
    rfl
  exact ⟨report, v, hclean, hlimit, hdigits, hread, hreport, hv, hstdout, hquestion, hagrees⟩

/-- A limit of too many digits is no integer to the command line, which then runs nothing. -/
theorem agrees_with_verdict_exceptions :
    let files : FileSystem := fun _ => .ok CommandLine.copier
    let limit : Int := Text.overlong
    0 < limit ∧
      (∃ report, run files (.upload "a.bin") "A" (.whole limit) = .ok report ∧
        report.output = "A") ∧
      ∀ fuel, ∃ v, CommandLine.run CommandLine.logName files { unread := [65] }
        ["a.bin", "--max-cycles", toString limit, "--quiet"] fuel = some (.ok v) ∧
        v.code = 2 ∧ v.stdout = [] := by
  intro files limit
  have hlong : Text.isWritable limit = false := Text.isWritable_overlong
  have hpositive : 0 < limit := Text.overlong_pos
  have hlarge := Text.natAbs_of_not_isWritable hlong
  obtain ⟨n, hn⟩ : ∃ n : Nat, limit = n := Int.eq_ofNat_of_zero_le (Int.le_of_lt hpositive)
  rw [hn] at hlong hlarge hpositive ⊢
  refine ⟨hpositive, ?_, fun fuel => ?_⟩
  · have hclean : Char.ofNat 0 ∉ "a.bin".toList := by decide
    have hroom : ∀ l ∈ some (n : Int), 3 ≤ l := by
      rintro l ⟨⟩
      omega
    have hunread : ({ unread := [65] } : Console).unread = 65 :: [] := rfl
    obtain ⟨m, m', hload, hrun, hwritten⟩ :=
      CommandLine.run_copier (a := ⟨"a.bin", some n, true, false⟩) hunread hclean hroom
    obtain ⟨-, memory, hm⟩ := CommandLine.loaded_of_load hload
    have hcycles : m.cycles = 0 := by rw [hm]
    have hwithin : standard.runWithin n m = .done ⟨.halt, some (.number 4)⟩ m' :=
      runWithin_of_run hrun (by omega)
    have hinput : Console.ofInput (Text.toBytes "A") = { unread := [65] } := rfl
    refine ⟨ofMachine m' none, ?_, ?_⟩
    · rw [run_upload, hinput, hload]
      simp only [ofRun, hwithin]
    · rw [ofMachine, hwritten]
      rfl
  · have hrefused : Arguments.read ["a.bin", "--max-cycles", toString (n : Int), "--quiet"] =
        .error (.refused (.invalidInteger .maxCycles (toString n))) := by
      have hshort : ¬ (toString n).length ≤ Text.maxDigits := by
        rw [Text.length_toString_le_iff, hlong]
        decide
      have hpath : classify "a.bin" = .ok (.operand "a.bin") := rfl
      have hread := CommandLine.read_operand hpath (CommandLine.classify_toString n)
      rw [Text.readInt_of_long (Nat.not_le.1 hshort)] at hread
      exact hread
    exact ⟨_, by rw [CommandLine.run, hrefused]; rfl, rfl, rfl⟩

end Report

end WordMachine
