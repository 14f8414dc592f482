import Ugc.LineTexts
import Mathlib.Data.List.Lex
import Mathlib.Data.List.Sort
import Mathlib.Order.Fin.Basic

/-!
Python's strings: sequences of code points, among them the surrogates, which UTF-8
cannot encode. With them the codec, the order of `sorted`, `str.splitlines` and the
functions of `os.path` on paths of POSIX systems.
-/
namespace PythonStrings
open LineTexts

abbrev CodePoint := Fin 0x110000

abbrev PyStr := List CodePoint

abbrev Bytes := List UInt8

/-- What ends a script early. -/
inductive Raised where
  | systemExit (printed : PyStr)
  | osError (strerror : PyStr)
  | unicodeEncodeError
  | unicodeDecodeError
  | valueError
  deriving DecidableEq

theorem char_lt (c : Char) : c.toNat < 0x110000 := by
  have valid : c.toNat.isValidChar := c.valid
  rcases valid with low | ⟨_, high⟩
  · omega
  · exact high

def ofChar (c : Char) : CodePoint := ⟨c.toNat, char_lt c⟩

/-- A string given by its characters. -/
def text (s : String) : PyStr := s.toList.map ofChar

def scalar? (c : CodePoint) : Option Char :=
  if valid : c.val.isValidChar then some (Char.ofNatAux c.val valid) else none

/-- `str.encode("utf-8")` -/
def encode (s : PyStr) : Except Raised Bytes :=
  match s.mapM scalar? with
  | some chars => .ok (chars.flatMap String.utf8EncodeChar)
  | none => .error .unicodeEncodeError

/-- `bytes.decode("utf-8")` -/
def decode (data : Bytes) : Except Raised PyStr :=
  match data.toByteArray.utf8Decode? with
  | some chars => .ok (chars.toList.map ofChar)
  | none => .error .unicodeDecodeError

def sorted (names : List PyStr) : List PyStr := names.insertionSort (· ≤ ·)

def lineFeed : CodePoint := 0x0A

def carriageReturn : CodePoint := 0x0D

/-- The characters that `str.splitlines` takes for the end of a line. -/
def isLineBreak (c : CodePoint) : Bool :=
  decide (0x0A ≤ c.val ∧ c.val ≤ 0x0D) || decide (0x1C ≤ c.val ∧ c.val ≤ 0x1E) ||
    c.val == 0x85 || c.val == 0x2028 || c.val == 0x2029

/-- A line feed after a carriage return does not end a second line. -/
def splitlinesFrom (returned : Bool) : PyStr → List PyStr
  | [] => []
  | c :: rest =>
    if returned = true ∧ c = lineFeed then splitlinesFrom false rest
    else if isLineBreak c = true then [] :: splitlinesFrom (c == carriageReturn) rest
    else prepended c (splitlinesFrom false rest)

def splitlines (s : PyStr) : List PyStr := splitlinesFrom false s

def slash : CodePoint := 0x2F

def basename (path : PyStr) : PyStr := (path.reverse.takeWhile fun c => c != slash).reverse

def join (path name : PyStr) : PyStr :=
  if name.head? = some slash ∨ path = [] then name
  else if path.getLast? = some slash then path ++ name
  else path ++ slash :: name

theorem of_scalar {c : CodePoint} {char : Char} (scalar : scalar? c = some char) :
    ofChar char = c := by
  by_cases valid : c.val.isValidChar
  · rw [scalar?, dif_pos valid] at scalar
    cases scalar
    exact Fin.ext rfl
  · rw [scalar?, dif_neg valid] at scalar
    cases scalar

theorem of_scalars {s : PyStr} {chars : List Char} (scalars : s.mapM scalar? = some chars) :
    chars.map ofChar = s := by
  induction s generalizing chars with
  | nil =>
    cases scalars
    rfl
  | cons c s ih =>
    rw [List.mapM_cons] at scalars
    obtain ⟨char, first, others⟩ := Option.bind_eq_some_iff.mp scalars
    obtain ⟨tail, later, same⟩ := Option.bind_eq_some_iff.mp others
    cases same
    rw [List.map_cons, of_scalar first, ih later]

theorem scalars_some_iff {s : PyStr} :
    (s.mapM scalar?).isSome = true ↔ ∀ c ∈ s, (scalar? c).isSome = true := by
  induction s with
  | nil => simp
  | cons c s ih =>
    rw [List.mapM_cons, List.forall_mem_cons, ← ih]
    cases scalar? c with
    | none => simp
    | some char => cases s.mapM scalar? <;> simp

theorem encode_ok_iff {s : PyStr} {data : Bytes} :
    encode s = .ok data ↔
      ∃ chars, s.mapM scalar? = some chars ∧ data = chars.flatMap String.utf8EncodeChar := by
  unfold encode
  cases s.mapM scalar? with
  | none => simp
  | some chars => simp [eq_comm]

/-- A string without surrogates can be encoded, and no other. -/
theorem encodes_iff {s : PyStr} :
    (∃ data, encode s = .ok data) ↔ ∀ c ∈ s, (scalar? c).isSome = true := by
  rw [← scalars_some_iff, encode]
  cases s.mapM scalar? <;> simp

theorem decode_encode {s : PyStr} {data : Bytes} (encoded : encode s = .ok data) :
    decode data = .ok s := by
  obtain ⟨chars, scalars, rfl⟩ := encode_ok_iff.mp encoded
  have decoded : (chars.flatMap String.utf8EncodeChar).toByteArray.utf8Decode? =
      some chars.toArray := List.utf8Decode?_utf8Encode
  simp only [decode, decoded, of_scalars scalars]

theorem encode_inj {s t : PyStr} {data : Bytes} (one : encode s = .ok data)
    (other : encode t = .ok data) : s = t :=
  Except.ok.inj ((decode_encode one).symm.trans (decode_encode other))

theorem sorted_perm {names others : List PyStr} (perm : names.Perm others) :
    sorted names = sorted others := by
  have same : (sorted names).Perm (sorted others) :=
    (List.perm_insertionSort _ names).trans (perm.trans (List.perm_insertionSort _ others).symm)
  exact same.eq_of_sortedLE List.sortedLE_insertionSort List.sortedLE_insertionSort

theorem splitlines_plain {s : PyStr} (plain : carriageReturn ∉ s) :
    splitlines s = brokenLines isLineBreak s := by
  unfold splitlines
  induction s with
  | nil => rfl
  | cons c rest ih =>
    obtain ⟨here, later⟩ := not_or.mp (List.mem_cons.not.mp plain)
    have single : (c == carriageReturn) = false := beq_false_of_ne (Ne.symm here)
    simp only [splitlinesFrom, brokenLines, Bool.false_eq_true, false_and, if_false, single,
      ih later]

end PythonStrings
