import WordMachine.CommandLine.Arguments

/-! # Numerals that are written

A number in decimal digits is read as that number, as long as it does not have too many of them, and
whatever is read can be written again.

* `digit?_of_isDigit`: the digits of numbers are digits to the reader, with the same values.
* `spanDigits_of_digits` and `ofDigits_map`: a row of them is read as a whole, and as its value.
* `readInt_toString` is the round trip for numbers, and `read_limited` that of a limit among the
  arguments of the command line.
* `isWritable_of_readInt` and `isWritable_of_read`: neither gives an integer of too many digits.
* `not_mem_toString` says what is not in a number, and `toString_int_inj` that no two integers are
  written alike.
-/

namespace WordMachine

namespace Text

variable {c : Char} {cs : List Char} {n : Nat}

/-! ## Digits -/

theorem toNat_of_isDigit (h : c.isDigit = true) : 48 ≤ c.toNat ∧ c.toNat ≤ 57 :=
  Char.isDigit_iff_toNat.1 h

/-- The value of a digit is how far it is from zero. -/
theorem digit?_of_isDigit (h : c.isDigit = true) : digit? c = some (c.toNat - 48) := by
  obtain ⟨hlow, hhigh⟩ := toNat_of_isDigit h
  have hfind : zeros.find? (fun z => z ≤ c.toNat && c.toNat < z + 10) = some 48 := by
    apply List.find?_cons_of_pos
    simp only [Bool.and_eq_true, decide_eq_true_eq]
    omega
  rw [digit?, hfind]
  rfl

theorem isDigit_of_isDigit (h : c.isDigit = true) : isDigit c = true := by
  rw [isDigit, digit?_of_isDigit h]
  rfl

theorem not_isBlank_of_isDigit (h : c.isDigit = true) : isBlank c = false := by
  obtain ⟨hlow, hhigh⟩ := toNat_of_isDigit h
  simp only [isBlank, Bool.or_eq_false_iff, Bool.and_eq_false_iff, beq_eq_false_iff_ne,
    decide_eq_false_iff_not]
  omega

/-- A row of digits is taken as a whole. -/
theorem spanDigits_of_digits (h : ∀ c ∈ cs, c.isDigit = true) :
    spanDigits cs = (cs.map (·.toNat - 48), []) := by
  fun_induction spanDigits cs with
  | case1 => rfl
  -- An underscore is no digit, whatever stands behind it.
  | case2 c rest d hd ds rest' hrest ih => cases h '_' List.mem_cons_self
  | case3 c rest hd => cases h '_' List.mem_cons_self
  | case4 c rest hne d hd ds rest' hrest ih =>
    have hvalue : d = c.toNat - 48 :=
      Option.some.inj (hd.symm.trans (digit?_of_isDigit (h c List.mem_cons_self)))
    have htail := ih fun c' hc' => h c' (List.mem_cons_of_mem c hc')
    obtain ⟨rfl, rfl⟩ := Prod.mk.inj (hrest.symm.trans htail)
    rw [hvalue, List.map_cons]
  | case5 c rest hne hd =>
    rw [digit?_of_isDigit (h c List.mem_cons_self)] at hd
    cases hd

/-- What the digits of a number write is the number. -/
theorem ofDigits_map (n : Nat) : ofDigits ((Nat.toDigits 10 n).map (·.toNat - 48)) = n := by
  have hvalue : Nat.ofDigitChars 10 (Nat.toDigits 10 n) 0 = n :=
    Nat.ofDigitChars_toDigits (by decide) (by decide)
  rw [ofDigits, List.foldl_map]
  exact hvalue

/-! ## Numbers -/

/-- A number is written as a digit and perhaps more of them. -/
theorem toList_toString (n : Nat) :
    ∃ c rest, (toString n).toList = c :: rest ∧ Nat.toDigits 10 n = c :: rest ∧
      ∀ c' ∈ c :: rest, c'.isDigit = true := by
  obtain ⟨c, rest, hdigits⟩ := List.exists_cons_of_ne_nil (Nat.toDigits_ne_nil (n := n) (b := 10))
  refine ⟨c, rest, ?_, hdigits, ?_⟩
  · rw [Nat.toString_eq_repr, Nat.toList_repr, hdigits]
  · intro c' hc'
    rw [← hdigits] at hc'
    exact Nat.isDigit_of_mem_toDigits (by decide) (by decide) hc'

/-- What is no digit is not in a number. -/
theorem not_mem_toString (hc : c.isDigit = false) (n : Nat) : c ∉ (toString n).toList := by
  obtain ⟨d, rest, hlist, -, hall⟩ := toList_toString n
  rw [hlist]
  intro hmem
  rw [hall c hmem] at hc
  cases hc

/-- A negative number has a sign in front of its digits. -/
theorem toString_negSucc (n : Nat) : toString (Int.negSucc n) = "-" ++ toString (n + 1) := rfl

theorem not_mem_toString_int (hc : c.isDigit = false) (hsign : c ≠ '-') (z : Int) :
    c ∉ (toString z).toList := by
  cases z with
  | ofNat n => exact not_mem_toString hc n
  | negSucc n =>
    rw [toString_negSucc, String.toList_append, List.mem_append, not_or]
    exact ⟨by simpa using hsign, not_mem_toString hc (n + 1)⟩

/-- Different numbers are written differently. -/
theorem toString_inj {m n : Nat} : toString m = toString n ↔ m = n := by
  refine ⟨fun h => ?_, congrArg toString⟩
  have hdigits : Nat.toDigits 10 m = Nat.toDigits 10 n := by
    rw [← Nat.toList_repr, ← Nat.toList_repr]
    exact congrArg String.toList h
  rw [← ofDigits_map m, hdigits, ofDigits_map]

/-- So are different integers: only negative ones have a sign. -/
theorem toString_int_inj {y z : Int} : toString y = toString z ↔ y = z := by
  refine ⟨fun h => ?_, congrArg toString⟩
  have hsign : ∀ m n : Nat, toString (Int.ofNat m) ≠ toString (Int.negSucc n) := by
    intro m n heq
    have hminus : '-' ∈ (toString (Int.negSucc n)).toList := by
      rw [toString_negSucc, String.toList_append]
      exact List.mem_append_left _ (by decide)
    rw [← heq] at hminus
    exact not_mem_toString rfl m hminus
  cases y with
  | ofNat m =>
    cases z with
    | ofNat n => exact congrArg Int.ofNat (toString_inj.1 h)
    | negSucc n => exact absurd h (hsign m n)
  | negSucc m =>
    cases z with
    | ofNat n => exact absurd h.symm (hsign n m)
    | negSucc n =>
      have hsucc : m + 1 = n + 1 := toString_inj.1 ((String.append_right_inj "-").1 h)
      exact congrArg Int.negSucc (Nat.succ.inj hsucc)

/-- A number is read as itself, unless it has too many digits. -/
theorem readInt_eq (n : Nat) :
    readInt (toString n) =
      if maxDigits < (toString n).length then .error (.tooLong (toString n).length) else .ok n := by
  obtain ⟨c, rest, hlist, hdigits, hall⟩ := toList_toString n
  have hc := hall c List.mem_cons_self
  have hblank : (c :: rest).dropWhile isBlank = c :: rest :=
    List.dropWhile_cons_of_neg (by simp [not_isBlank_of_isDigit hc])
  have hsign : splitSign (c :: rest) = (false, c :: rest) := by
    unfold splitSign
    split
    · rename_i heq
      cases heq
      cases hc
    · rename_i heq
      cases heq
      cases hc
    · rfl
  have hlength : ((c :: rest).map (·.toNat - 48)).length = (toString n).length := by
    rw [List.length_map, ← hlist, String.length_toList]
  have hhead : (c :: rest).head?.any isDigit = true := isDigit_of_isDigit hc
  rw [readInt, hlist, hblank, hsign]
  simp only [hhead, spanDigits_of_digits hall, hlength]
  rw [← hdigits, ofDigits_map]
  rfl

theorem readInt_toString (h : (toString n).length ≤ maxDigits) : readInt (toString n) = .ok n := by
  rw [readInt_eq, if_neg (Nat.not_lt.2 h)]

theorem readInt_of_long (h : maxDigits < (toString n).length) :
    readInt (toString n) = .error (.tooLong (toString n).length) := by
  rw [readInt_eq, if_pos h]

/-! ## What was read -/

theorem lt_of_digit? {d : Nat} (h : digit? c = some d) : d < 10 := by
  rw [digit?, Option.map_eq_some_iff] at h
  obtain ⟨z, hfind, rfl⟩ := h
  have hz := List.find?_some hfind
  simp only [Bool.and_eq_true, decide_eq_true_eq] at hz
  omega

theorem lt_of_mem_spanDigits {d : Nat} (h : d ∈ (spanDigits cs).1) : d < 10 := by
  fun_induction spanDigits cs with
  | case1 => cases h
  | case2 c rest d' hd ds rest' hrest ih =>
    rw [hrest] at ih
    cases h with
    | head => exact lt_of_digit? hd
    | tail _ h => exact ih h
  | case3 c rest hd => cases h
  | case4 c rest hne d' hd ds rest' hrest ih =>
    rw [hrest] at ih
    cases h with
    | head => exact lt_of_digit? hd
    | tail _ h => exact ih h
  | case5 c rest hne hd => cases h

/-- A row of digits writes a number that has no more of them. -/
theorem ofDigits_lt {ds : List Nat} (h : ∀ d ∈ ds, d < 10) :
    ofDigits ds < Nat.pow 10 ds.length := by
  -- The induction needs any number in front of the digits, and not only zero.
  have hfold : ∀ n, ds.foldl (fun n d => 10 * n + d) n < (n + 1) * 10 ^ ds.length := by
    induction ds with
    | nil => simp
    | cons d ds ih =>
      intro n
      have hd : d < 10 := h d List.mem_cons_self
      have hrest := ih (fun d' hd' => h d' (List.mem_cons_of_mem d hd')) (10 * n + d)
      rw [List.foldl_cons, List.length_cons, Nat.pow_succ']
      calc _ < (10 * n + d + 1) * 10 ^ ds.length := hrest
        _ ≤ ((n + 1) * 10) * 10 ^ ds.length := Nat.mul_le_mul_right _ (by omega)
        _ = (n + 1) * (10 * 10 ^ ds.length) := Nat.mul_assoc _ _ _
  have hzero := hfold 0
  rwa [Nat.zero_add, Nat.one_mul] at hzero

/-- What was read can be written. -/
theorem isWritable_of_readInt {s : String} {z : Int} (h : readInt s = .ok z) :
    isWritable z = true := by
  unfold readInt at h
  split at h
  rename_i negative body hsign
  split at h
  · cases h
  split at h
  rename_i digits rest hspan
  split at h
  · cases h
  split at h
  · cases h
  rename_i hlength
  split at h
  · cases h
  have hdigits : ∀ d ∈ digits, d < 10 := by
    intro d hd
    have hmem : d ∈ (spanDigits body).1 := by rwa [hspan]
    exact lt_of_mem_spanDigits hmem
  have hvalue : isWritable (ofDigits digits) = true :=
    isWritable_of_lt (Nat.le_of_not_lt hlength) (ofDigits_lt hdigits)
  cases negative with
  | true =>
    cases h
    rw [if_pos rfl, isWritable_neg]
    exact hvalue
  | false =>
    cases h
    exact hvalue

/-- An integer that can be written has so many characters at most. -/
theorem length_toString_le_iff {n : Nat} :
    (toString n).length ≤ maxDigits ↔ isWritable n = true := by
  rw [isWritable, decide_eq_true_eq, Int.natAbs_natCast, ← String.length_toList,
    Nat.toString_eq_repr, Nat.toList_repr]

end Text

namespace CommandLine

variable {path numeral : String} {limit : Int}

/-! ## Arguments -/

/-- The mark that ends options is no operand. -/
theorem ne_mark_of_operand (h : classify path = .ok (.operand path)) : path ≠ "--" := by
  rintro rfl
  have hmark : (classify "--").toOption = none := by decide +kernel
  rw [h] at hmark
  cases hmark

/-- A number is an operand. -/
theorem classify_toString (n : Nat) : classify (toString n) = .ok (.operand (toString n)) := by
  obtain ⟨c, rest, hlist, -, hall⟩ := Text.toList_toString n
  have hc := hall c List.mem_cons_self
  unfold classify
  rw [hlist]
  split
  · rename_i heq
    cases heq
    cases hc
  · rfl

/-- A path that is an operand, a limit and `--quiet` are read as they are meant, if the limit can be
read. -/
theorem read_operand (hpath : classify path = .ok (.operand path))
    (hnumeral : classify numeral = .ok (.operand numeral)) :
    Arguments.read [path, "--max-cycles", numeral, "--quiet"] =
      match Text.readInt numeral with
      | .ok limit => .ok ⟨path, some limit, true, false⟩
      | .error _ => .error (.refused (.invalidInteger .maxCycles numeral)) := by
  have hp := ne_mark_of_operand hpath
  have hn := ne_mark_of_operand hnumeral
  have htake : [path, "--max-cycles", numeral, "--quiet"].takeWhile (· ≠ "--") =
      [path, "--max-cycles", numeral, "--quiet"] := by
    simp [List.takeWhile, hp, hn]
  have hdrop : [path, "--max-cycles", numeral, "--quiet"].dropWhile (· ≠ "--") = [] := by
    simp [List.dropWhile, hp, hn]
  have hoption : classify "--max-cycles" = .ok (.option .maxCycles .nothing) := rfl
  have hflag : classify "--quiet" = .ok (.option .quiet .nothing) := rfl
  have harguments : [path, "--max-cycles", numeral, "--quiet"].mapM classify =
      .ok [.operand path, .option .maxCycles .nothing, .operand numeral,
        .option .quiet .nothing] := by
    simp only [List.mapM_cons, List.mapM_nil, hpath, hoption, hnumeral, hflag]
    rfl
  rw [Arguments.read, htake, harguments, hdrop]
  cases hlimit : Text.readInt numeral with
  | ok limit =>
    simp [Draft.take, Draft.takeLimit, Draft.takeFlag, Draft.takeFlags, Draft.finish, hn, hlimit]
  | error e => simp [Draft.take, Draft.takeLimit, hn, hlimit]

theorem read_limited (hpath : classify path = .ok (.operand path))
    (hnumeral : classify numeral = .ok (.operand numeral))
    (hlimit : Text.readInt numeral = .ok limit) :
    Arguments.read [path, "--max-cycles", numeral, "--quiet"] =
      .ok ⟨path, some limit, true, false⟩ := by
  rw [read_operand hpath hnumeral, hlimit]

/-- Behind the mark that ends options, anything is a path. -/
theorem read_marked (path : String) (hnumeral : classify numeral = .ok (.operand numeral))
    (hlimit : Text.readInt numeral = .ok limit) :
    Arguments.read ["--max-cycles", numeral, "--quiet", "--", path] =
      .ok ⟨path, some limit, true, false⟩ := by
  have hn := ne_mark_of_operand hnumeral
  have htake : ["--max-cycles", numeral, "--quiet", "--", path].takeWhile (· ≠ "--") =
      ["--max-cycles", numeral, "--quiet"] := by
    simp [List.takeWhile, hn]
  have hdrop : ["--max-cycles", numeral, "--quiet", "--", path].dropWhile (· ≠ "--") =
      ["--", path] := by
    simp [List.dropWhile, hn]
  have hoption : classify "--max-cycles" = .ok (.option .maxCycles .nothing) := rfl
  have hflag : classify "--quiet" = .ok (.option .quiet .nothing) := rfl
  have harguments : ["--max-cycles", numeral, "--quiet"].mapM classify =
      .ok [.option .maxCycles .nothing, .operand numeral, .option .quiet .nothing] := by
    simp only [List.mapM_cons, List.mapM_nil, hoption, hnumeral, hflag]
    rfl
  rw [Arguments.read, htake, harguments, hdrop]
  simp [Draft.take, Draft.takeLimit, Draft.takeFlag, Draft.takeFlags, Draft.takeTail, Draft.finish,
    hn, hlimit]

/-! ## Limits that were read -/

/-- A limit that was taken can be written. -/
def Draft.Limited (d : Draft) : Prop := ∀ l, d.limit = .cycles l → Text.isWritable l = true

theorem Draft.limited_takeLimit {d d' : Draft} {text : String} (h : d.takeLimit text = .ok d') :
    d'.Limited := by
  unfold takeLimit at h
  split at h
  · cases h
    intro l hl
    cases hl
  · split at h
    · rename_i hread
      cases h
      rintro l ⟨⟩
      exact Text.isWritable_of_readInt hread
    · cases h

theorem Draft.limit_takeFlags {d d' : Draft} {flags : List Flag} (h : d.takeFlags flags = .ok d') :
    d'.limit = d.limit := by
  fun_induction takeFlags d flags with
  | case1 d =>
    cases h
    rfl
  | case2 => cases h
  | case3 d rest ih => exact ih h
  | case4 d rest ih => exact ih h
  | case5 => cases h

theorem Draft.limit_takeFlag {d d' : Draft} {flag : Flag} {attached : Attached}
    (h : d.takeFlag flag attached = .ok d') : d'.limit = d.limit := by
  unfold takeFlag at h
  split at h
  · exact limit_takeFlags h
  · cases h
  · split at h
    · cases h
    · exact limit_takeFlags h

/-- Arguments are taken one by one, and only a limit changes the limit. -/
theorem Draft.limited_take {d : Draft} {named : Bool} {arguments : List Argument}
    {taken : Draft × Bool} (hd : d.Limited) (h : d.take named arguments = .ok taken) :
    taken.1.Limited := by
  fun_induction take d named arguments with
  | case1 d named =>
    cases h
    exact hd
  | case2 d named text rest hprogram ih => exact ih hd h
  | case3 d named text rest program hprogram ih => exact ih hd h
  | case4 d named text rest ih => exact ih hd h
  | case5 d named text rest d' htake ih => exact ih (limited_takeLimit htake) h
  | case6 => cases h
  | case7 d named text rest attached hattached d' htake ih => exact ih (limited_takeLimit htake) h
  | case8 => cases h
  | case9 => cases h
  | case10 d named flag attached rest _ _ _ d' htake ih =>
    refine ih (fun l hl => hd l ?_) h
    rwa [limit_takeFlag htake] at hl
  | case11 => cases h

theorem Draft.limit_takeTail (d : Draft) (named : Bool) (tail : List String) :
    (d.takeTail named tail).limit = d.limit := by
  unfold takeTail
  split <;> rfl

theorem Draft.isWritable_of_finish {d : Draft} {a : Arguments} {l : Int} (hd : d.Limited)
    (h : d.finish = .ok a) (hl : a.maxCycles = some l) : Text.isWritable l = true := by
  unfold finish at h
  split at h
  · cases h
  split at h
  · cases h
  split at h
  · cases h
    cases hl
  · rename_i hlimit
    cases h
    cases hl
    exact hd _ hlimit
  · cases h

/-- A limit that was read can be written. -/
theorem isWritable_of_read {argv : List String} {a : Arguments} {l : Int}
    (h : Arguments.read argv = .ok a) (hl : a.maxCycles = some l) : Text.isWritable l = true := by
  unfold Arguments.read at h
  split at h
  · cases h
  split at h
  · cases h
  rename_i d named htake
  have hnew : ({} : Draft).Limited := fun l hl => by cases hl
  have hd : d.Limited := Draft.limited_take hnew htake
  split at h
  · exact Draft.isWritable_of_finish hd h hl
  · rename_i tail _
    refine Draft.isWritable_of_finish (fun l hl => hd l ?_) h hl
    rwa [Draft.limit_takeTail] at hl

end CommandLine

end WordMachine
