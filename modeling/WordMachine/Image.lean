import WordMachine.Machine.Storage

/-! # Program images

An image is a row of words, each written as two bytes, the low one first. It is copied to memory from
address zero on; an odd last byte is counted but not stored.

* `Image.decode` takes back what `Image.encode?` made.
* Loading is all or nothing: what can go wrong is noticed before memory is touched.
-/

namespace WordMachine

namespace Image

/-- The two bytes of a word, the low one first. -/
def bytesOf (w : Word) : Bytes := [UInt8.ofNat (w.toNat % 256), UInt8.ofNat (w.toNat / 256)]

/-- The word of two bytes, the low one first. -/
def wordOf (low high : UInt8) : Word := UInt16.ofNat (low.toNat + 256 * high.toNat)

/-- The image of a row of words. -/
def ofWords (words : List Word) : Bytes := words.flatMap bytesOf

/-- The image of a row of integers, if all of them are words. -/
def encode? (values : List Int) : Option Bytes := (values.mapM Word.ofInt?).map ofWords

/-- The words of an image; an odd last byte is dropped. -/
def decode : Bytes → List Word
  | low :: high :: rest => wordOf low high :: decode rest
  | _ => []

/-! ## Small facts -/

@[simp] theorem bytesOf_wordOf (low high : UInt8) : bytesOf (wordOf low high) = [low, high] := by
  have hl := low.toNat_lt
  have hh := high.toNat_lt
  have hw : (wordOf low high).toNat = low.toNat + 256 * high.toNat := by
    simp only [wordOf, UInt16.toNat_ofNat']
    omega
  simp only [bytesOf, hw, List.cons.injEq, and_true]
  constructor
  · apply UInt8.toNat_inj.1
    simp only [UInt8.toNat_ofNat']
    omega
  · apply UInt8.toNat_inj.1
    simp only [UInt8.toNat_ofNat']
    omega

@[simp] theorem decode_bytesOf_append (w : Word) (rest : Bytes) :
    decode (bytesOf w ++ rest) = w :: decode rest := by
  have hw := w.toNat_lt
  have : wordOf (UInt8.ofNat (w.toNat % 256)) (UInt8.ofNat (w.toNat / 256)) = w := by
    apply UInt16.toNat_inj.1
    simp only [wordOf, UInt16.toNat_ofNat', UInt8.toNat_ofNat']
    omega
  simp [bytesOf, decode, this]

/-- Words are read back from their image. -/
@[simp] theorem decode_ofWords (words : List Word) : decode (ofWords words) = words := by
  induction words with
  | nil => rfl
  | cons w rest ih =>
    rw [ofWords, List.flatMap_cons, decode_bytesOf_append]
    exact congrArg (w :: ·) ih

/-- Two bytes are stored as one word. -/
theorem length_decode (bytes : Bytes) : (decode bytes).length = bytes.length / 2 := by
  fun_induction decode bytes with
  | case1 low high rest ih => simp only [List.length_cons, ih]; omega
  | case2 bytes h =>
    match bytes, h with
    | [], _ => rfl
    | [_], _ => simp
    | a :: b :: rest, h => exact absurd rfl (h a b rest)

end Image

/-! ## Sources -/

/-- Where an image comes from. -/
inductive Source where
  | bytes (data : Bytes)
  /-- A stream, which gives all its bytes or fails with a text. -/
  | stream (data : Except String Bytes)
  | path (text : String)

/-- Refuses an image that memory cannot hold. -/
def checkSize (data : Bytes) : Except Error Bytes :=
  if maxImageBytes < data.length then .error (.ofCause (.unloadable (.tooLarge data.length)))
  else .ok data

/-- The bytes of an image. -/
def Source.read (files : FileSystem) : Source → Except Error Bytes
  | .bytes data => checkSize data
  | .stream (.ok data) => checkSize data
  | .stream (.error text) => .error (.ofCause (.unloadable (.streamFailed text)))
  | .path text =>
    if text.toList.contains (Char.ofNat 0) then .error .nulInPath
    else match files (Path.ofText text) with
      | .ok data => checkSize data
      | .error reason => .error (.ofCause (.unloadable (.unreadable text reason)))

namespace Machine

/-- Memory with the first cells replaced by the given words. -/
def overlay (memory : Array Word) (words : List Word) : Array Word :=
  words.toArray ++ memory.extract words.length memory.size

/-- Copies an image to memory. -/
def install (m : Machine) (data : Bytes) : Machine :=
  { m with memory := overlay m.memory (Image.decode data), bytesLoaded := data.length }

/-- Loads a program image and answers with its size. -/
def load (m : Machine) (files : FileSystem) (source : Source) : Outcome Nat :=
  m.given (source.read files) fun data => .done data.length (m.install data)

/-- Loads a program given as a row of words. -/
def loadWords (m : Machine) (values : List Int) : Outcome Nat :=
  match Image.encode? values with
  | some data => m.given (checkSize data) fun data => .done data.length (m.install data)
  | none => .failed .unencodable m

end Machine

end WordMachine
