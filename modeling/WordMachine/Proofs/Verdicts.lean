import WordMachine.CommandLine.Verdict
import WordMachine.Proofs.InstructionTable
import WordMachine.Proofs.Lifecycle
import WordMachine.Proofs.Numerals
import WordMachine.Proofs.Streams

/-! # Verdicts

What the command line tells about a program, and what its flags change about that.

* `refusal?_eq_none_iff`, `error_of_load` and `loaded_of_load`: the arguments are refused, or there is
  no program to be loaded, or it is loaded into a machine that is otherwise new.
* `banner_eq`: what is announced before a program runs, byte for byte.
* `Verdict.Reflects` and `reflects_of_ended`: the code says how the run ended, and behind the
  announcement is what the program wrote.
* `IsLogged`: what a line of the log looks like.
* `execute_quiet` and `execute_verbose`: what flags add is put in front of what is told without them.
* `verdicts` is the account of all command lines that can be read.
-/

namespace WordMachine

namespace CommandLine

open Registry (standard)

variable {name : String} {files : FileSystem} {console : Console} {argv : List String}
  {a : Arguments} {bytes fuel : Nat} {m m' : Machine} {o : Outcome Ending} {e : Error}

/-! ## Before the program runs -/

/-- Arguments that can be read are refused for a limit that is not positive, and for nothing else. -/
theorem refusal?_eq_none_iff : a.refusal? = none ↔ ∀ l, a.maxCycles = some l → 0 < l := by
  unfold Arguments.refusal?
  cases a.maxCycles with
  | none => simp
  | some l => simp [Option.any]

theorem refusal?_of_nonpositive {l : Int} (h : a.maxCycles = some l) (hl : l ≤ 0) :
    a.refusal? = some .limitNotPositive := by
  have hany : a.maxCycles.any (· ≤ 0) = true := by simpa [h] using hl
  rw [Arguments.refusal?, if_pos hany]

/-- There is one reason for a program not to be loaded that anybody could find: its image is too
large, or nothing can be read where it should be. -/
theorem error_of_load (hclean : Char.ofNat 0 ∉ a.program.toList)
    (h : load files console a = .failed e m) : ∃ l, e = .ofCause (.unloadable l) := by
  rcases (Load.source files (.path a.program)).offers_or_lacks with ⟨data, hoffers⟩ | ⟨e', hlacks⟩
  · by_cases hsize : data.length ≤ maxImageBytes
    · cases h.symm.trans (Load.perform_of_fits hoffers hsize)
    · cases h.symm.trans (Load.perform_of_oversized hoffers (Nat.not_le.1 hsize))
      exact ⟨_, rfl⟩
  · cases h.symm.trans (Load.perform_of_lacks hlacks)
    cases hlacks with
    | unclean nul => exact absurd nul hclean
    | path clean found => exact ⟨_, rfl⟩

/-- A program is loaded into a machine that is otherwise new. -/
theorem loaded_of_load (h : load files console a = .done bytes m) :
    m.Bounded 16 ∧
      ∃ memory, m = { console, maxCycles := a.maxCycles, memory, bytesLoaded := bytes } := by
  let fresh : Machine := { console, maxCycles := a.maxCycles }
  have hmachine : (Call.load files (.path a.program)).perform fresh = m :=
    congrArg Outcome.machine h
  constructor
  · have hfresh : fresh.Fresh := rfl
    have hreach : Reaches fresh m := hmachine ▸ .perform .refl _
    exact Machine.bounded_of_reaches hfresh hreach
  · rcases fresh.load_eq files (.path a.program) with ⟨data, hdata⟩ | ⟨e, he⟩
    · cases h.symm.trans hdata
      exact ⟨_, rfl⟩
    · cases h.symm.trans he

/-! ## Command lines -/

theorem run_of_read (h : Arguments.read argv = .ok a) :
    run name files console argv fuel = execute name files console a fuel := by
  rw [run, h]

theorem execute_of_refused {error : UsageError} (h : a.refusal? = some error) :
    execute name files console a fuel = some (.ok (refusal error)) := by
  rw [execute, h]

theorem execute_of_unloadable {f : Fault} (h : a.refusal? = none)
    (hload : load files console a = .failed (.fault f) m) :
    execute name files console a fuel = some (.ok (loadVerdict f)) := by
  rw [execute, h]
  simp only [hload]

theorem execute_of_unended (h : a.refusal? = none) (hload : load files console a = .done bytes m)
    (hrun : standard.run a.maxCycles fuel m = .done none m') :
    execute name files console a fuel = none := by
  rw [execute, h]
  simp only [hload, hrun]

theorem execute_of_ended (h : a.refusal? = none) (hload : load files console a = .done bytes m)
    (hrun : standard.run a.maxCycles fuel m = o.map some) :
    execute name files console a fuel = some (runVerdict name a bytes o) := by
  rw [execute, h]
  cases o with
  | done ending m' =>
    rw [Outcome.map, Outcome.andThen_done] at hrun
    simp only [hload, hrun]
  | failed e m' =>
    rw [Outcome.map, Outcome.andThen_failed] at hrun
    simp only [hload, hrun]

/-! ## What a verdict says -/

/-- The bytes that announce a program of the given size. -/
def announcement (bytes : Nat) : Bytes :=
  let text := "Read " ++ toString bytes ++ " bytes, executing.\n" ++ "=========================\n"
  text.toList.map fun c => UInt8.ofNat c.toNat

/-- What is announced under the given arguments: nothing if they ask for quiet. -/
def announced (a : Arguments) (bytes : Nat) : Bytes := if a.quiet then [] else announcement bytes

/-- The banner is that, since all its characters have a byte. -/
theorem banner_eq (a : Arguments) (bytes : Nat) : banner a bytes = announced a bytes := by
  have hself : ∀ s : String, toString s = s := fun _ => rfl
  have hrule : String.ofList (List.replicate 25 '=') ++ "\n" = "=========================\n" := by
    decide
  have hdigits : ∀ c ∈ (toString bytes).toList, c.toNat < 256 := by
    obtain ⟨d, rest, hlist, -, hall⟩ := Text.toList_toString bytes
    rw [hlist]
    intro c hc
    have hrange := Text.toNat_of_isDigit (hall c hc)
    omega
  have hfixed : ∀ s : String, s.toList.all (·.toNat < 256) = true →
      ∀ c ∈ s.toList, c.toNat < 256 := by
    intro s h c hc
    simpa using List.all_eq_true.1 h c hc
  have hbytes : ∀ c ∈ ("Read " ++ toString bytes ++ " bytes, executing.\n" ++
      "=========================\n").toList, c.toNat < 256 := by
    intro c hc
    simp only [String.toList_append, List.mem_append] at hc
    rcases hc with ((hc | hc) | hc) | hc
    · exact hfixed _ (by decide) c hc
    · exact hdigits c hc
    · exact hfixed _ (by decide) c hc
    · exact hfixed _ (by decide) c hc
  rw [banner, announced, announcement, hself, hself, String.append_assoc, hrule,
    Text.toBytes_of_forall_lt hbytes]

/-- The bytes that a program writes in a run of at most `fuel` steps. -/
def written (a : Arguments) (fuel : Nat) (m : Machine) : Bytes :=
  (standard.attempts a.maxCycles fuel m).filterMap Machine.wrote?

/-- The verdict says how the run from `m` ended, and what the program wrote until then. -/
structure Verdict.Reflects (v : Verdict) (a : Arguments) (bytes fuel : Nat) (m : Machine) : Prop where
  returned : v.code = 0 ↔
    ∃ ending m', standard.run a.maxCycles fuel m = .done (some ending) m'
  faulted : v.code = 1 ↔ ∃ f m', standard.run a.maxCycles fuel m = .failed (.fault f) m'
  interrupted : v.code = 130 ↔
    ∃ m', standard.run a.maxCycles fuel m = .failed .interrupted m'
  stdout : v.stdout = announced a bytes ++ written a fuel m

/-- What is on the console after a run is what the program wrote, if there was nothing before. -/
theorem output_of_run (houtput : m.console.output = #[]) (fuel : Nat) :
    (standard.run a.maxCycles fuel m).machine.console.output.toList = written a fuel m := by
  have haccounts : Accounts m (standard.attempts a.maxCycles fuel m)
      (standard.run a.maxCycles fuel m).machine :=
    .of_runsTo (Registry.lawful_standard.runsTo_run a.maxCycles fuel m)
  rw [haccounts.output, houtput]
  rfl

/-- Every end of a run has a verdict that reflects it, if its limit can be named. -/
theorem reflects_of_ended (hb : m.Bounded 16) (houtput : m.console.output = #[])
    (hwritable : ∀ l, a.maxCycles = some l → Text.isWritable l = true)
    (hrun : standard.run a.maxCycles fuel m = o.map some) :
    ∃ v, runVerdict name a bytes o = .ok v ∧ v.Reflects a bytes fuel m := by
  have hprinted : banner a bytes ++ o.machine.console.output.toList =
      announced a bytes ++ written a fuel m := by
    have hwritten := output_of_run (a := a) houtput fuel
    rw [hrun] at hwritten
    rw [banner_eq]
    cases o <;> exact congrArg (announced a bytes ++ ·) hwritten
  cases o with
  | done ending m' =>
    rw [Outcome.map, Outcome.andThen_done] at hrun
    exact ⟨_, rfl, by simp [hrun], by simp [hrun], by simp [hrun], hprinted⟩
  | failed e m' =>
    rw [Outcome.map, Outcome.andThen_failed] at hrun
    have hruns := Registry.lawful_standard.runsTo_run a.maxCycles fuel m
    rw [hrun] at hruns
    rcases hruns.error hb with ⟨c, p, rfl⟩ | rfl | ⟨-, l, hlimit, hl⟩
    · exact ⟨_, rfl, by simp [hrun], by simp [hrun], by simp [hrun], hprinted⟩
    · exact ⟨_, rfl, by simp [hrun], by simp [hrun], by simp [hrun], hprinted⟩
    · rw [hwritable l hlimit] at hl
      cases hl

/-- A run that is interrupted before it has ended has a verdict as well. -/
theorem interrupted_of_unended (houtput : m.console.output = #[])
    (hrun : standard.run a.maxCycles fuel m = .done none m') :
    ∃ v, runVerdict name a bytes (.failed .interrupted m'.flush) = .ok v ∧ v.code = 130 ∧
      v.stdout = announced a bytes ++ written a fuel m := by
  have hwritten := output_of_run (a := a) houtput fuel
  rw [hrun] at hwritten
  rw [← banner_eq]
  exact ⟨_, rfl, rfl, congrArg (banner a bytes ++ ·) hwritten⟩

/-- A program that is loaded has no verdict as long as it runs, and one for good when it has ended. -/
theorem execute_of_loaded (name : String) (h : a.refusal? = none)
    (hwritable : ∀ l, a.maxCycles = some l → Text.isWritable l = true)
    (hload : load files console a = .done bytes m) (hnew : console.output = #[]) (fuel : Nat) :
    (∃ m', standard.run a.maxCycles fuel m = .done none m' ∧
      execute name files console a fuel = none) ∨
    ∃ v, v.Reflects a bytes fuel m ∧
      (∀ m', standard.run a.maxCycles fuel m ≠ .done none m') ∧
      ∀ k, execute name files console a (fuel + k) = some (.ok v) := by
  obtain ⟨hb, memory, hm⟩ := loaded_of_load hload
  have houtput : m.console.output = #[] := by rw [hm, hnew]
  rcases Registry.unended_or_ended (standard.run a.maxCycles fuel m) with ⟨m', hrun⟩ | ⟨o, hrun⟩
  · exact .inl ⟨m', hrun, execute_of_unended h hload hrun⟩
  · obtain ⟨v, hv, hreflects⟩ : ∃ v, runVerdict name a bytes o = .ok v ∧
        v.Reflects a bytes fuel m := reflects_of_ended hb houtput hwritable hrun
    refine .inr ⟨v, hreflects, ?_, ?_⟩
    · intro m' hrun'
      have hunended := Registry.unended?_map_some o
      rw [← hrun, hrun'] at hunended
      cases hunended
    · intro k
      rw [execute_of_ended h hload (Registry.lawful_standard.run_add_fuel hrun k), hv]

/-! ## The log -/

/-- The text begins a line of the log, with how much it matters and who says so. -/
def Opens (name text : String) : Prop :=
  ∃ level ∈ ["DEBUG", "INFO"], ∃ logger ∈ ["synacor_vm.loader", "synacor_vm.machine", name],
    ∃ said, text = level ++ " " ++ logger ++ ": " ++ said

/-- The text is a line in the log of a command line that logs under the given name. -/
def IsLogged (name line : String) : Prop := ∃ text, Opens name text ∧ line = text ++ "\n"

theorem Opens.append {text : String} (h : Opens name text) (more : String) :
    Opens name (text ++ more) := by
  obtain ⟨level, hlevel, logger, hlogger, said, rfl⟩ := h
  exact ⟨level, hlevel, logger, hlogger, said ++ more, by rw [String.append_assoc]⟩

theorem Opens.close {text last : String} (h : Opens name text) (said : String)
    (hlast : last = said ++ "\n") : IsLogged name (text ++ last) :=
  ⟨text ++ said, h.append said, by rw [hlast, String.append_assoc]⟩

theorem isLogged_text (name : String) (line : LogLine) : IsLogged name (line.text name) := by
  have hdebug : "DEBUG" ∈ ["DEBUG", "INFO"] := .head _
  have hinfo : "INFO" ∈ ["DEBUG", "INFO"] := .tail _ (.head _)
  have hmachine : "synacor_vm.machine" ∈ ["synacor_vm.loader", "synacor_vm.machine", name] :=
    .tail _ (.head _)
  cases line with
  | loaded bytes words =>
    have hopens : Opens name "DEBUG synacor_vm.loader: Loaded " :=
      ⟨_, hdebug, _, .head _, "Loaded ", by decide⟩
    exact (((hopens.append _).append _).append _).close " words)" (by decide)
  | read bytes =>
    have hopens : Opens name "INFO synacor_vm.machine: Read " :=
      ⟨_, hinfo, _, hmachine, "Read ", by decide⟩
    exact (hopens.append _).close " bytes" (by decide)
  | fault f =>
    have hopens : Opens name "DEBUG synacor_vm.machine: Fault: " :=
      ⟨_, hdebug, _, hmachine, "Fault: ", by decide⟩
    exact (hopens.append _).close "" (by decide)
  | halted reason address cycles =>
    have hopens : Opens name "DEBUG synacor_vm.machine: Halted (" :=
      ⟨_, hdebug, _, hmachine, "Halted (", by decide⟩
    exact (((((hopens.append _).append _).append _).append _).append _).close " cycles" (by decide)
  | stopped pc =>
    have hopens : Opens name "INFO synacor_vm.machine: Stopped at pc=" :=
      ⟨_, hinfo, _, hmachine, "Stopped at pc=", by decide⟩
    exact (hopens.append _).close "" (by decide)
  | finished reason =>
    have hopens : Opens name ("INFO " ++ name ++ ": Finished: ") :=
      ⟨_, hinfo, _, .tail _ (.tail _ (.head _)), "Finished: ", by simp [← String.toList_inj]⟩
    exact (hopens.append _).close "" (by decide)

/-! ## Flags -/

/-- What is printed before the program runs, if it comes to that. -/
def heading (files : FileSystem) (console : Console) (a : Arguments) : Bytes :=
  match a.refusal?, load files console a with
  | none, .done bytes _ => announced a bytes
  | _, _ => []

theorem heading_of_loaded (h : a.refusal? = none) (hload : load files console a = .done bytes m) :
    heading files console a = announced a bytes := by
  rw [heading, h, hload]

/-- The answer with more printed before the rest, and more said before the other errors. -/
def addBefore (printed : Bytes) (said : String) (answer : Option (Except Error Verdict)) :
    Option (Except Error Verdict) :=
  answer.map <| Except.map fun v =>
    { v with stdout := printed ++ v.stdout, stderr := said ++ v.stderr }

theorem addBefore_none (printed : Bytes) (said : String) : addBefore printed said none = none := rfl

theorem addBefore_nothing (answer : Option (Except Error Verdict)) :
    addBefore [] "" answer = answer := by
  rcases answer with - | (e | v) <;> simp [addBefore, Except.map]

theorem addBefore_addBefore (printed printed' : Bytes) (said said' : String)
    (answer : Option (Except Error Verdict)) :
    addBefore printed' said' (addBefore printed said answer) =
      addBefore (printed' ++ printed) (said' ++ said) answer := by
  rcases answer with - | (e | v) <;> simp [addBefore, Except.map, String.append_assoc]

theorem logText_nil (name : String) (a : Arguments) : logText name a [] = "" := by
  unfold logText
  split <;> rfl

theorem logText_eq_join (name : String) (a : Arguments) (lines : List LogLine) :
    logText name a lines =
      String.join ((if a.verbose then lines else []).map (LogLine.text name)) := by
  unfold logText
  split <;> rfl

theorem heading_of_quiet (files : FileSystem) (console : Console) (a : Arguments) :
    heading files console { a with quiet := true } = [] := by
  unfold heading
  split <;> rfl

/-- What is told without the flags that add to it. -/
abbrev Arguments.plain (a : Arguments) : Arguments := { a with quiet := true, verbose := false }

/-- What there is to be put in a log about a run, if a log is wanted. -/
def runLog (bytes : Nat) : Outcome Ending → List LogLine
  | .done ending m => loadLog bytes ++ endingLog ending m
  | .failed (.fault f) _ => loadLog bytes ++ faultLog f
  | .failed _ _ => loadLog bytes

theorem runVerdict_eq_addBefore (name : String) (a : Arguments) (bytes : Nat)
    (o : Outcome Ending) :
    some (runVerdict name a bytes o) =
      addBefore (banner a bytes) (logText name a (runLog bytes o))
        (some (runVerdict name a.plain bytes o)) := by
  have hquiet : banner a.plain bytes = [] := rfl
  have hsilent : ∀ lines, logText name a.plain lines = "" := fun _ => rfl
  cases o with
  | done ending m => simp [runVerdict, addBefore, Except.map, hquiet, hsilent, runLog]
  | failed e m =>
    cases e with
    | fault f => simp [runVerdict, addBefore, Except.map, hquiet, hsilent, runLog]
    | interrupted => simp [runVerdict, addBefore, Except.map, hquiet, hsilent, runLog]
    | _ => rfl

/-- Whatever the flags are, the heading is printed before the rest, and the log before the other
errors. They have no influence on what is in the log. -/
theorem execute_flagged (name : String) (files : FileSystem) (console : Console)
    (hclean : Char.ofNat 0 ∉ a.program.toList) (fuel : Nat) :
    ∃ lines, ∀ quiet verbose, let b : Arguments := { a with quiet, verbose }
      execute name files console b fuel =
        addBefore (heading files console b) (logText name b lines)
          (execute name files console a.plain fuel) := by
  -- Neither the refusal nor the load nor the run looks at the flags, so that all arguments that differ
  -- in nothing else go the same way.
  cases hrefusal : a.refusal? with
  | some error =>
    refine ⟨[], fun quiet verbose => ?_⟩
    intro b
    have hb : b.refusal? = some error := hrefusal
    have hplain : a.plain.refusal? = some error := hrefusal
    have hheading : heading files console b = [] := by rw [heading, hb]
    rw [hheading, logText_nil, addBefore_nothing, execute_of_refused hb, execute_of_refused hplain]
  | none =>
    have hplain : a.plain.refusal? = none := hrefusal
    cases hload : load files console a with
    | failed e m =>
      obtain ⟨l, rfl⟩ := error_of_load hclean hload
      refine ⟨[], fun quiet verbose => ?_⟩
      intro b
      have hb : b.refusal? = none := hrefusal
      have hloadb : load files console b = .failed _ m := hload
      have hloadp : load files console a.plain = .failed _ m := hload
      have hheading : heading files console b = [] := by rw [heading, hb, hloadb]
      rw [hheading, logText_nil, addBefore_nothing, execute_of_unloadable hb hloadb,
        execute_of_unloadable hplain hloadp]
    | done bytes m =>
      have hloadp : load files console a.plain = .done bytes m := hload
      rcases Registry.unended_or_ended (standard.run a.maxCycles fuel m) with ⟨m', hrun⟩ | ⟨o, hrun⟩
      · refine ⟨[], fun quiet verbose => ?_⟩
        intro b
        have hb : b.refusal? = none := hrefusal
        have hloadb : load files console b = .done bytes m := hload
        rw [execute_of_unended hb hloadb hrun, execute_of_unended hplain hloadp hrun,
          addBefore_none]
      · refine ⟨runLog bytes o, fun quiet verbose => ?_⟩
        intro b
        have hb : b.refusal? = none := hrefusal
        have hloadb : load files console b = .done bytes m := hload
        rw [execute_of_ended hb hloadb hrun, execute_of_ended hplain hloadp hrun,
          heading_of_loaded hb hloadb, ← banner_eq]
        exact runVerdict_eq_addBefore name b bytes o

theorem execute_quiet (name : String) (files : FileSystem) (console : Console)
    (hclean : Char.ofNat 0 ∉ a.program.toList) (fuel : Nat) :
    execute name files console a fuel =
      addBefore (heading files console a) ""
        (execute name files console { a with quiet := true } fuel) := by
  obtain ⟨lines, hlines⟩ := execute_flagged name files console hclean fuel
  have hloud : execute name files console a fuel =
      addBefore (heading files console a) (logText name a lines)
        (execute name files console a.plain fuel) := hlines a.quiet a.verbose
  have hquiet : execute name files console { a with quiet := true } fuel =
      addBefore [] (logText name a lines) (execute name files console a.plain fuel) := by
    rw [← heading_of_quiet files console a]
    exact hlines true a.verbose
  rw [hloud, hquiet, addBefore_addBefore, List.append_nil, String.empty_append]

theorem execute_verbose (name : String) (files : FileSystem) (console : Console)
    (hclean : Char.ofNat 0 ∉ a.program.toList) (fuel : Nat) :
    ∃ lines : List String, (∀ line ∈ lines, IsLogged name line) ∧
      execute name files console a fuel =
        addBefore [] (String.join lines)
          (execute name files console { a with verbose := false } fuel) := by
  obtain ⟨lines, hlines⟩ := execute_flagged name files console hclean fuel
  have hlogged : execute name files console a fuel =
      addBefore (heading files console a) (logText name a lines)
        (execute name files console a.plain fuel) := hlines a.quiet a.verbose
  have hsilent : execute name files console { a with verbose := false } fuel =
      addBefore (heading files console a) "" (execute name files console a.plain fuel) :=
    hlines a.quiet false
  refine ⟨(if a.verbose then lines else []).map (LogLine.text name), ?_, ?_⟩
  · intro line hline
    obtain ⟨entry, -, rfl⟩ := List.mem_map.1 hline
    exact isLogged_text name entry
  · rw [hlogged, hsilent, addBefore_addBefore, List.nil_append, String.append_empty,
      logText_eq_join]

/-! ## A program that copies a byte -/

/-- The image of a program that reads a byte, writes it and halts. -/
def copier : Bytes := [20, 0, 0, 128, 19, 0, 0, 128, 0, 0]

/-- It does so in three steps, if it is given as many cycles. -/
theorem run_copier {b : UInt8} {rest : Bytes} (hunread : console.unread = b :: rest)
    (hclean : Char.ofNat 0 ∉ a.program.toList) (hlimit : ∀ l ∈ a.maxCycles, 3 ≤ l) :
    ∃ m m', load (fun _ => .ok copier) console a = .done 10 m ∧
      standard.run a.maxCycles 3 m = .done (some ⟨.halt, some (.number 4)⟩) m' ∧
      m'.console.output = console.output.push b := by
  obtain ⟨memory, hload, hcode⟩ : ∃ memory : Array Word,
      load (fun _ => .ok copier) console a =
        .done 10 { console, maxCycles := a.maxCycles, memory, bytesLoaded := 10 } ∧
      ∀ m : Machine, m.memory = memory → m.Holds 0 [20, 32768, 19, 32768, 0] := by
    have hoffers : (Load.source (fun _ => .ok copier) (.path a.program)).Offers copier :=
      .path hclean rfl
    refine ⟨_, Load.perform_of_fits hoffers (by decide), fun m hm => ?_⟩
    have hwords : Image.decode copier = [20, 32768, 19, 32768, 0] := by decide
    have hholds := Machine.holds_of_overlay hm (by decide)
    rwa [hwords] at hholds
  let m : Machine := { console, maxCycles := a.maxCycles, memory, bytesLoaded := 10 }
  let read : Console := { console.flush with unread := rest, bytesRead := console.bytesRead + 1 }
  let m₁ : Machine :=
    { m with pc := .number 2, cycles := 1, console := read,
             registers := m.registers.setIfInBounds 0 b.toUInt16 }
  have hread : standard.step m = .done .running m₁ := by
    have hnext : console.flush.read? = some (b, read) :=
      Console.read?_eq_some_iff.2 ⟨rest, hunread, rfl⟩
    have hwords : m.Holds 0 [20, 32768] := by
      obtain ⟨h₀, h₁, -⟩ := hcode m rfl
      exact ⟨h₀, h₁, trivial⟩
    exact Registry.step_of_input rfl rfl hwords hnext (Nat.succ_pos 7)
  let m₂ : Machine := (m₁.passed 4).emit b
  have hwrite : standard.step m₁ = .done .running m₂ := by
    have hwords : m₁.Holds 2 [19, 32768] := by
      obtain ⟨-, -, h₂, h₃, -⟩ := hcode m₁ rfl
      exact ⟨h₂, h₃, trivial⟩
    exact Registry.step_of_output rfl rfl hwords rfl
  obtain ⟨m', hhalt, hreason, hconsole⟩ : ∃ m', standard.step m₂ = .done (.halted (.number 4)) m' ∧
      m'.halt = some ⟨.halt, none⟩ ∧ m'.console = m₂.console := by
    have hwords : m₂.Holds 4 [0] := by
      obtain ⟨-, -, -, -, h₄, -⟩ := hcode m₂ rfl
      exact ⟨h₄, trivial⟩
    have hd := Machine.decode_of_holds .halt rfl hwords rfl
    exact ⟨_, Registry.step_eq_halted_iff.2 ⟨rfl, rfl, _, _, hd, .halt rfl⟩, rfl, rfl⟩
  have hruns : standard.RunsTo a.maxCycles 3 m
      (.done (some ⟨.halt, some (.number 4)⟩) m'.flush) := by
    have hready : ∀ m' : Machine, m'.halt = none → m'.stopRequested = false → m'.cycles ≤ 2 →
        Registry.Ready a.maxCycles m' := by
      intro m' hrunning hunasked hcycles
      refine ⟨hrunning, hunasked, fun l hl => ?_⟩
      have hthree := hlimit l hl
      omega
    refine .next (hready m rfl rfl (Int.le.intro 2 rfl)) hread ?_
    refine .next (hready m₁ rfl rfl (Int.le.intro 1 rfl)) hwrite ?_
    exact .stopped (hready m₂ rfl rfl (Int.le_refl 2)) hhalt hreason
  refine ⟨m, m'.flush, hload, hruns.run_eq, ?_⟩
  have houtput : m'.flush.console.output = m'.console.output := rfl
  rw [houtput, hconsole]
  exact Console.output_write read b

/-! ## All command lines -/

/-- Arguments that can be read are refused with code 2 if their limit is not positive, whatever the
files are. Otherwise a program that cannot be loaded ends with code 1, and neither of them prints
anything.

A program that is loaded has no verdict as long as it runs, and one verdict for good once it has ended.
Its code says whether the run returned, met a fault or was interrupted, and what is printed is the
announcement, unless it should be quiet, and the bytes that the program wrote until then. That is so
for an interruption between two steps as well.

`--quiet` and `--verbose` have no influence on anything but what is told: without `--quiet` the heading
is printed first, and with `--verbose` lines of the log come before the other errors. -/
theorem verdicts (name : String) (files : FileSystem) (input : Bytes) (device : InputEnd)
    (argv : List String) (a : Arguments) (hread : Arguments.read argv = .ok a)
    (hclean : Char.ofNat 0 ∉ a.program.toList) :
    let console : Console := { unread := input, inputEnd := device }
    (∀ l, a.maxCycles = some l → l ≤ 0 → ∀ files console fuel, ∃ v,
      run name files console argv fuel = some (.ok v) ∧ v.code = 2 ∧ v.stdout = []) ∧
    ((∀ l, a.maxCycles = some l → 0 < l) →
      (∀ e m, load files console a = .failed e m →
        ∃ l, e = .ofCause (.unloadable l) ∧ ∀ fuel, ∃ v,
          run name files console argv fuel = some (.ok v) ∧ v.code = 1 ∧ v.stdout = []) ∧
      ∀ bytes m, load files console a = .done bytes m → ∀ fuel,
        (run name files console argv fuel = none ↔
          ∃ m', standard.run a.maxCycles fuel m = .done none m') ∧
        (∀ answer, run name files console argv fuel = some answer →
          (∃ v, answer = .ok v ∧ v.Reflects a bytes fuel m) ∧
          ∀ k, run name files console argv (fuel + k) = some answer) ∧
        ∀ m', standard.run a.maxCycles fuel m = .done none m' →
          ∃ v, runVerdict name a bytes (.failed .interrupted m'.flush) = .ok v ∧ v.code = 130 ∧
            v.stdout = announced a bytes ++ written a fuel m) ∧
    (∀ quietly, Arguments.read quietly = .ok { a with quiet := true } → ∀ fuel,
      run name files console argv fuel =
        addBefore (heading files console a) "" (run name files console quietly fuel)) ∧
    ∀ silently, Arguments.read silently = .ok { a with verbose := false } → ∀ fuel,
      ∃ lines : List String, (∀ line ∈ lines, IsLogged name line) ∧
        run name files console argv fuel =
          addBefore [] (String.join lines) (run name files console silently fuel) := by
  intro console
  refine ⟨?_, ?_, ?_, ?_⟩
  · intro l hlimit hl files console fuel
    rw [run_of_read hread, execute_of_refused (refusal?_of_nonpositive hlimit hl)]
    exact ⟨_, rfl, rfl, rfl⟩
  · intro hpositive
    have hrefusal : a.refusal? = none := refusal?_eq_none_iff.2 hpositive
    have hwritable : ∀ l, a.maxCycles = some l → Text.isWritable l = true :=
      fun l hl => isWritable_of_read hread hl
    constructor
    · intro e m hload
      obtain ⟨l, rfl⟩ := error_of_load hclean hload
      refine ⟨l, rfl, fun fuel => ?_⟩
      rw [run_of_read hread, execute_of_unloadable hrefusal hload]
      exact ⟨_, rfl, rfl, rfl⟩
    · intro bytes m hload fuel
      have houtput : m.console.output = #[] := by
        obtain ⟨-, memory, hm⟩ := loaded_of_load hload
        rw [hm]
      refine ⟨?_, ?_, fun m' hrun => interrupted_of_unended houtput hrun⟩
      · rw [run_of_read hread]
        rcases execute_of_loaded name hrefusal hwritable hload rfl fuel with
          ⟨m', hrun, hnone⟩ | ⟨v, -, hended, hsome⟩
        · exact iff_of_true hnone ⟨m', hrun⟩
        · refine iff_of_false ?_ ?_
          · intro hnone
            cases (hsome 0).symm.trans hnone
          · rintro ⟨m', hrun⟩
            exact hended m' hrun
      · intro answer hanswer
        rw [run_of_read hread] at hanswer
        rcases execute_of_loaded name hrefusal hwritable hload rfl fuel with
          ⟨m', -, hnone⟩ | ⟨v, hreflects, -, hsome⟩
        · cases hnone.symm.trans hanswer
        · cases (hsome 0).symm.trans hanswer
          refine ⟨⟨v, rfl, hreflects⟩, fun k => ?_⟩
          rw [run_of_read hread, hsome]
  · intro quietly hquietly fuel
    rw [run_of_read hread, run_of_read hquietly]
    exact execute_quiet name files console hclean fuel
  · intro silently hsilently fuel
    obtain ⟨lines, hlogged, hlines⟩ := execute_verbose name files console hclean fuel
    refine ⟨lines, hlogged, ?_⟩
    rw [run_of_read hread, run_of_read hsilently]
    exact hlines

/-- A program that copies a byte, not quietly. -/
theorem verdicts_copier :
    let files : FileSystem := fun _ => .ok copier
    let argv := ["a.bin", "-v", "--max-cycles", "9"]
    let quietly := ["a.bin", "-v", "--max-cycles", "9", "-q"]
    let a : Arguments := ⟨"a.bin", some 9, false, true⟩
    let heading := "Read 10 bytes, executing.\n=========================\n"
    Arguments.read argv = .ok a ∧ Char.ofNat 0 ∉ a.program.toList ∧
      (∃ v, run logName files { unread := [65] } argv 3 = some (.ok v) ∧ v.code = 0 ∧
        v.stdout = (heading ++ "A").toList.map fun c => UInt8.ofNat c.toNat) ∧
      run logName files { unread := [65] } argv 3 =
        addBefore (heading.toList.map fun c => UInt8.ofNat c.toNat) ""
          (run logName files { unread := [65] } quietly 3) := by
  intro files argv quietly a heading
  have hread : Arguments.read argv = .ok a := by decide
  have hquietly : Arguments.read quietly = .ok { a with quiet := true } := by decide
  have hclean : Char.ofNat 0 ∉ a.program.toList := by decide
  have hpositive : ∀ l, a.maxCycles = some l → 0 < l := by
    rintro l ⟨⟩
    decide
  have hroom : ∀ l ∈ a.maxCycles, 3 ≤ l := by
    rintro l ⟨⟩
    decide
  have hunread : ({ unread := [65] } : Console).unread = 65 :: [] := rfl
  obtain ⟨m, m', hload, hrun, houtput⟩ := run_copier hunread hclean hroom
  obtain ⟨-, hrest, hflag, -⟩ := verdicts logName files [65] .exhausted argv a hread hclean
  obtain ⟨-, hloaded⟩ := hrest hpositive
  obtain ⟨hunended, hended, -⟩ := hloaded 10 m hload 3
  have hwritten : written a 3 m = [65] := by
    have hnew : m.console.output = #[] := by
      obtain ⟨-, memory, rfl⟩ := loaded_of_load hload
      rfl
    rw [← output_of_run hnew, hrun]
    exact congrArg Array.toList houtput
  obtain ⟨answer, hanswer⟩ := Option.ne_none_iff_exists'.1 fun hnone => by
    obtain ⟨m'', hrun'⟩ := hunended.1 hnone
    cases hrun.symm.trans hrun'
  obtain ⟨⟨v, rfl, hreflects⟩, -⟩ := hended answer hanswer
  have hheading : CommandLine.heading files { unread := [65] } a = announced a 10 :=
    heading_of_loaded (refusal?_eq_none_iff.2 hpositive) hload
  have hannounced : announced a 10 = heading.toList.map fun c => UInt8.ofNat c.toNat := by decide
  refine ⟨hread, hclean, ⟨v, hanswer, hreflects.returned.2 ⟨_, _, hrun⟩, ?_⟩, ?_⟩
  · rw [hreflects.stdout, hwritten, hannounced, String.toList_append, List.map_append]
    rfl
  · rw [← hannounced, ← hheading]
    exact hflag quietly hquietly 3

end CommandLine

end WordMachine
