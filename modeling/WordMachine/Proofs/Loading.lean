import WordMachine.Proofs.Bounds
import WordMachine.Proofs.Encoding

/-! # Loading

Loading copies a whole image to memory, or does nothing at all.

* `Load.Offers` and `Load.Lacks` say what there is to be loaded, or why there is nothing.
* `Load.perform_of_fits`, `Load.perform_of_oversized` and `Load.perform_of_lacks` are the three ways in
  which a load can go.
* `Load.Covers`: the load succeeds, and its image has a word for the cell. One load after the other,
  a cell has the word of the last that covers it (`Load.cell_performAll`).
* `Load.whole_or_nothing` is the account of single loads and of rows of them.
-/

namespace WordMachine

/-! ## Cells under an image -/

namespace Machine

variable {memory : Array Word} {words : List Word} {i : Nat}

theorem getElem?_overlay_of_lt (h : i < words.length) : (overlay memory words)[i]? = words[i]? := by
  rw [overlay, Array.getElem?_append_left (by simpa using h), List.getElem?_toArray]

/-- Cells behind the words that are laid over memory keep their content. -/
theorem getElem?_overlay_of_le (h : words.length ≤ i) :
    (overlay memory words)[i]? = memory[i]? := by
  have hsize : words.toArray.size = words.length := List.size_toArray
  have hsum : words.length + (i - words.length) = i := Nat.add_sub_cancel' h
  rw [overlay, Array.getElem?_append_right (by omega), hsize, Array.getElem?_extract, hsum,
    Nat.min_self]
  by_cases hi : i < memory.size
  · rw [if_pos (by omega)]
  · rw [if_neg (by omega), Array.getElem?_eq_none (by omega)]

end Machine

/-! ## What there is to be loaded -/

/-- What a machine can be asked to load: what a source gives, or a row of integers. -/
inductive Load where
  | source (files : FileSystem) (origin : Source)
  | words (values : List Int)

namespace Load

/-- Loads it. -/
def perform : Load → Machine → Outcome Nat
  | .source files origin, m => m.load files origin
  | .words values, m => m.loadWords values

/-- There is an image to be loaded, whatever its size. -/
inductive Offers : Load → Bytes → Prop where
  | bytes {files : FileSystem} {data : Bytes} : Offers (.source files (.bytes data)) data
  | stream {files : FileSystem} {data : Bytes} : Offers (.source files (.stream (.ok data))) data
  | path {files : FileSystem} {text : String} {data : Bytes} (clean : Char.ofNat 0 ∉ text.toList)
      (found : files (Path.ofText text) = .ok data) : Offers (.source files (.path text)) data
  | words {values : List Int} {data : Bytes} (image : Image.encode? values = some data) :
      Offers (.words values) data

/-- There is no image, and this is why. -/
inductive Lacks : Load → Error → Prop where
  | stream {files : FileSystem} {text : String} :
      Lacks (.source files (.stream (.error text))) (.ofCause (.unloadable (.streamFailed text)))
  | unclean {files : FileSystem} {text : String} (nul : Char.ofNat 0 ∈ text.toList) :
      Lacks (.source files (.path text)) .nulInPath
  | path {files : FileSystem} {text : String} {reason : AccessError}
      (clean : Char.ofNat 0 ∉ text.toList) (found : files (Path.ofText text) = .error reason) :
      Lacks (.source files (.path text)) (.ofCause (.unloadable (.unreadable text reason)))
  /-- One integer that is no word is enough, however many there are. -/
  | words {values : List Int} {v : Int} (listed : v ∈ values) (wide : v < 0 ∨ 65535 < v) :
      Lacks (.words values) .unencodable

variable {l : Load} {ls : List Load} {data : Bytes} {e : Error} {m : Machine} {i : Nat} {w : Word}

/-- There always is the one or the other. -/
theorem offers_or_lacks (l : Load) : (∃ data, l.Offers data) ∨ ∃ e, l.Lacks e := by
  cases l with
  | source files origin =>
    cases origin with
    | bytes data => exact .inl ⟨data, .bytes⟩
    | stream answer =>
      cases answer with
      | ok data => exact .inl ⟨data, .stream⟩
      | error text => exact .inr ⟨_, .stream⟩
    | path text =>
      by_cases hnul : Char.ofNat 0 ∈ text.toList
      · exact .inr ⟨_, .unclean hnul⟩
      · cases hfound : files (Path.ofText text) with
        | ok data => exact .inl ⟨data, .path hnul hfound⟩
        | error reason => exact .inr ⟨_, .path hnul hfound⟩
  | words values =>
    by_cases hwords : ∀ v ∈ values, 0 ≤ v ∧ v ≤ 65535
    · obtain ⟨data, hdata⟩ := Option.isSome_iff_exists.1 (Image.encode?_isSome_iff.2 hwords)
      exact .inl ⟨data, .words hdata⟩
    · simp only [not_forall] at hwords
      obtain ⟨v, hv, hrange⟩ := hwords
      exact .inr ⟨_, .words hv (by omega)⟩

/-- A load offers one image. -/
theorem Offers.unique {data' : Bytes} (h : l.Offers data) (h' : l.Offers data') : data = data' := by
  cases h with
  | bytes => cases h'; rfl
  | stream => cases h'; rfl
  | path clean found =>
    cases h' with
    | path clean' found' => exact Except.ok.inj (found.symm.trans found')
  | words image =>
    cases h' with
    | words image' => exact Option.some.inj (image.symm.trans image')

theorem Lacks.not_offers (h : l.Lacks e) : ¬ l.Offers data := by
  intro hoffers
  cases hoffers with
  | bytes => cases h
  | stream => cases h
  | path clean found =>
    cases h with
    | unclean nul => exact clean nul
    | path clean' found' => cases found.symm.trans found'
  | words image =>
    cases h with
    | words listed wide =>
      have hrange := Image.encode?_isSome_iff.1 (Option.isSome_of_eq_some image) _ listed
      omega

/-! ## The three ways -/

/-- What is offered is loaded unless it is too large. -/
theorem perform_of_offers (h : l.Offers data) (m : Machine) :
    l.perform m = m.given (checkSize data) fun data => .done data.length (m.install data) := by
  cases h with
  | bytes => rfl
  | stream => rfl
  | @path files text data clean found =>
    have hclean : ¬ text.toList.contains (Char.ofNat 0) = true := by
      simpa only [List.contains_iff_mem] using clean
    rw [perform, Machine.load, Source.read, if_neg hclean, found]
  | words image => rw [perform, Machine.loadWords, image]

theorem perform_of_fits (h : l.Offers data) (hsize : data.length ≤ maxImageBytes) :
    l.perform m = .done data.length (m.install data) := by
  rw [perform_of_offers h, checkSize, if_neg (Nat.not_lt.2 hsize), Machine.given_ok]

theorem perform_of_oversized (h : l.Offers data) (hsize : maxImageBytes < data.length) :
    l.perform m = .failed (.ofCause (.unloadable (.tooLarge data.length))) m := by
  rw [perform_of_offers h, checkSize, if_pos hsize, Machine.given_error]

/-- What is not there does not change the machine. -/
theorem perform_of_lacks (h : l.Lacks e) : l.perform m = .failed e m := by
  cases h with
  | stream => rfl
  | @unclean files text nul =>
    have hnul : text.toList.contains (Char.ofNat 0) = true := List.contains_iff_mem.2 nul
    rw [perform, Machine.load, Source.read, if_pos hnul, Machine.given_error]
  | @path files text reason clean found =>
    have hclean : ¬ text.toList.contains (Char.ofNat 0) = true := by
      simpa only [List.contains_iff_mem] using clean
    rw [perform, Machine.load, Source.read, if_neg hclean, found, Machine.given_error]
  | @words values v listed wide =>
    have hlacks : (words values).Lacks .unencodable := .words listed wide
    have hnone : Image.encode? values = none :=
      Option.eq_none_iff_forall_ne_some.2 fun data image => hlacks.not_offers (.words image)
    rw [perform, Machine.loadWords, hnone]

/-! ## One cell -/

/-- The load succeeds, and word `i` of its image is `w`. -/
def Covers (l : Load) (i : Nat) (w : Word) : Prop :=
  ∃ data, l.Offers data ∧ data.length ≤ maxImageBytes ∧ Image.WordAt data i w

/-- Memory gets the words of an image that is copied to it. -/
theorem cell_install_of_wordAt (h : Image.WordAt data i w) : (m.install data).memory[i]? = some w := by
  have hword := Image.wordAt_iff.1 h
  have hlt : i < (Image.decode data).length := (List.getElem?_eq_some_iff.1 hword).1
  rw [Machine.install, Machine.getElem?_overlay_of_lt hlt, hword]

theorem cell_install_of_le (h : data.length / 2 ≤ i) :
    (m.install data).memory[i]? = m.memory[i]? := by
  rw [← Image.length_decode] at h
  rw [Machine.install, Machine.getElem?_overlay_of_le h]

theorem size_install (hm : m.memory.size = memorySize) (hsize : data.length ≤ maxImageBytes) :
    (m.install data).memory.size = memorySize := by
  have hwords : (Image.decode data).length ≤ m.memory.size := by
    rw [Image.length_decode, hm]
    exact Nat.div_le_div_right hsize
  rw [Machine.install, Machine.size_overlay hwords, hm]

theorem cell_perform_of_covers (h : l.Covers i w) :
    (l.perform m).machine.memory[i]? = some w := by
  obtain ⟨data, hoffers, hsize, hword⟩ := h
  rw [perform_of_fits hoffers hsize]
  exact cell_install_of_wordAt hword

/-- A load that does not cover a cell leaves it alone, whether it succeeds or not. -/
theorem cell_perform_of_not_covers (h : ∀ w, ¬ l.Covers i w) :
    (l.perform m).machine.memory[i]? = m.memory[i]? := by
  rcases l.offers_or_lacks with ⟨data, hoffers⟩ | ⟨e, hlacks⟩
  · by_cases hsize : data.length ≤ maxImageBytes
    · -- It is copied, but ends before the cell.
      have hbehind : ¬ i < data.length / 2 := by
        intro hlt
        obtain ⟨w, hw⟩ := Image.exists_wordAt_iff.2 hlt
        exact h w ⟨data, hoffers, hsize, hw⟩
      rw [perform_of_fits hoffers hsize]
      exact cell_install_of_le (Nat.not_lt.1 hbehind)
    · rw [perform_of_oversized hoffers (Nat.not_le.1 hsize)]
      rfl
  · rw [perform_of_lacks hlacks]
    rfl

theorem size_perform (hm : m.memory.size = memorySize) (l : Load) :
    (l.perform m).machine.memory.size = memorySize := by
  rcases l.offers_or_lacks with ⟨data, hoffers⟩ | ⟨e, hlacks⟩
  · by_cases hsize : data.length ≤ maxImageBytes
    · rw [perform_of_fits hoffers hsize]
      exact size_install hm hsize
    · rw [perform_of_oversized hoffers (Nat.not_le.1 hsize)]
      exact hm
  · rw [perform_of_lacks hlacks]
    exact hm

/-! ## One load after the other -/

/-- The machine after some loads, one after the other, whatever each of them comes to. -/
def performAll : List Load → Machine → Machine
  | [], m => m
  | l :: ls, m => performAll ls (l.perform m).machine

theorem performAll_append (ls ls' : List Load) (m : Machine) :
    performAll (ls ++ ls') m = performAll ls' (performAll ls m) := by
  induction ls generalizing m with
  | nil => rfl
  | cons l ls ih => exact ih _

theorem size_performAll (hm : m.memory.size = memorySize) (ls : List Load) :
    (performAll ls m).memory.size = memorySize := by
  induction ls generalizing m with
  | nil => exact hm
  | cons l ls ih => exact ih (size_perform hm l)

/-- A cell that none of the loads covers keeps its content. -/
theorem cell_performAll_of_not_covers (h : ∀ l ∈ ls, ∀ w, ¬ l.Covers i w) :
    (performAll ls m).memory[i]? = m.memory[i]? := by
  induction ls generalizing m with
  | nil => rfl
  | cons l ls ih =>
    rw [performAll, ih fun l' hl' => h l' (List.mem_cons_of_mem l hl')]
    exact cell_perform_of_not_covers (h l List.mem_cons_self)

/-- A cell has the word of the last load that covers it. -/
theorem cell_performAll (before after : List Load) (h : l.Covers i w)
    (hlast : ∀ l' ∈ after, ∀ w', ¬ l'.Covers i w') :
    (performAll (before ++ l :: after) m).memory[i]? = some w := by
  -- What was loaded before does not matter, and what is loaded after leaves the cell alone.
  rw [performAll_append, performAll, cell_performAll_of_not_covers hlast]
  exact cell_perform_of_covers h

/-- An image of no more than 65536 bytes, wherever it comes from, is copied to the first cells of
memory, two bytes to a cell. Its size is the answer and is remembered, and nothing else changes: not
the other cells, nor how many there are. An image that is larger or that cannot be had at all, and a
row of integers of which one is no word, are refused and change nothing.

After any loads a cell holds the word of the last image that was loaded and has one for it, and
what it held before if there was no such image. -/
theorem whole_or_nothing (m : Machine) (hm : m.memory.size = 32768) :
    (∀ l : Load,
      (∀ data, l.Offers data → data.length ≤ 65536 → ∃ memory,
        l.perform m = .done data.length { m with memory := memory, bytesLoaded := data.length } ∧
        memory.size = 32768 ∧
        (∀ i, i < data.length / 2 → ∃ w, memory[i]? = some w ∧ Image.WordAt data i w) ∧
        ∀ i, data.length / 2 ≤ i → memory[i]? = m.memory[i]?) ∧
      (∀ data, l.Offers data → 65536 < data.length →
        l.perform m = .failed (.ofCause (.unloadable (.tooLarge data.length))) m) ∧
      (∀ e, l.Lacks e → l.perform m = .failed e m) ∧
      ((∃ data, l.Offers data) ∨ ∃ e, l.Lacks e)) ∧
    ∀ (ls : List Load) (i : Nat),
      let m' := performAll ls m
      m'.memory.size = 32768 ∧
      (∀ before l after w, ls = before ++ l :: after → l.Covers i w →
        (∀ l' ∈ after, ∀ w', ¬ l'.Covers i w') → m'.memory[i]? = some w) ∧
      ((∀ l ∈ ls, ∀ w, ¬ l.Covers i w) → m'.memory[i]? = m.memory[i]?) := by
  constructor
  · intro l
    refine ⟨?_, ?_, ?_, l.offers_or_lacks⟩
    · intro data hoffers hsize
      refine ⟨(m.install data).memory, perform_of_fits hoffers hsize, size_install hm hsize, ?_, ?_⟩
      · intro i hi
        obtain ⟨w, hw⟩ := Image.exists_wordAt_iff.2 hi
        exact ⟨w, cell_install_of_wordAt hw, hw⟩
      · intro i hi
        exact cell_install_of_le hi
    · intro data hoffers hsize
      exact perform_of_oversized hoffers hsize
    · intro e hlacks
      exact perform_of_lacks hlacks
  · intro ls i
    refine ⟨size_performAll hm ls, ?_, cell_performAll_of_not_covers⟩
    rintro before l after w rfl hcovers hlast
    exact cell_performAll before after hcovers hlast

/-- Three words, the first of which is replaced by the only whole one of three bytes; a row that is
refused changes nothing. -/
theorem whole_or_nothing_overlapping :
    let first : Load := .words [21, 0, 65535]
    let second : Load := .source (fun _ => .ok []) (.bytes [1, 2, 3])
    let third : Load := .words [70000]
    let m := performAll [first, second, third] {}
    ({} : Machine).memory.size = 32768 ∧ m.memory.size = 32768 ∧
      m.memory[0]? = some 513 ∧ m.memory[2]? = some 65535 ∧
      third.perform m = .failed .unencodable m := by
  intro first second third m
  have hsize : ({} : Machine).memory.size = 32768 := Array.size_replicate
  obtain ⟨-, hrow⟩ := whole_or_nothing {} hsize
  obtain ⟨hm, hfirst, -⟩ := hrow [first, second, third] 0
  obtain ⟨-, hthird, -⟩ := hrow [first, second, third] 2
  have hrefused : third.Lacks .unencodable := .words (v := 70000) (by simp) (by decide)
  have hsecond : second.Offers [1, 2, 3] := .bytes
  refine ⟨hsize, hm, ?_, ?_, ?_⟩
  · apply hfirst [first] second [third] 513 rfl
    · exact ⟨[1, 2, 3], hsecond, by decide, 1, 2, rfl, rfl, rfl⟩
    · intro l hl w hcovers
      obtain ⟨data, hoffers, -⟩ := hcovers
      rw [List.mem_singleton.1 hl] at hoffers
      exact hrefused.not_offers hoffers
  · apply hthird [] first [second, third] 65535 rfl
    · exact ⟨[21, 0, 0, 0, 255, 255], .words (by decide), by decide, 255, 255, rfl, rfl, rfl⟩
    · intro l hl w hcovers
      obtain ⟨data, hoffers, -, hword⟩ := hcovers
      rcases List.mem_pair.1 hl with rfl | rfl
      · have hshort := Image.exists_wordAt_iff.1 ⟨w, hword⟩
        rw [← hsecond.unique hoffers] at hshort
        exact absurd hshort (by decide)
      · exact hrefused.not_offers hoffers
  · exact ((whole_or_nothing m hm).1 third).2.2.1 _ hrefused

end Load

end WordMachine
