import Ugc.PythonStrings
import Ugc.KeyedFolds

/-!
The lists of `sign_package.py`: the text of a list of digests, the digests of files,
the lists of several jobs merged into one, and files checked against a list. A
function that ends the script answers with what was raised.
-/
namespace UgcSignPackage
open LineTexts PythonStrings KeyedFolds

def listName : PyStr := text "bflat-signature.sha256"

def signatureName : PyStr := text "bflat-signature.sha256.sig"

/-- `[0-9a-f]` -/
def isHexDigit (c : CodePoint) : Bool :=
  decide (0x30 ≤ c.val ∧ c.val ≤ 0x39) || decide (0x61 ≤ c.val ∧ c.val ≤ 0x66)

/-- A SHA-256 digest as `hexdigest` writes it. -/
@[ext] structure Digest where
  hex : PyStr
  size : hex.length = 64
  digits : ∀ c ∈ hex, isHexDigit c = true
  deriving DecidableEq

abbrev Entry := Sigma fun _ : PyStr => Digest

/-- A `dict` from names to digests, the name set last in front. No name is set twice. -/
abbrev Hashes := AList fun _ : PyStr => Digest

/-- What the script takes from its surroundings: files, digests, the `repr` of a string,
    the trusted keys and the verdict of openssl on a key, a signature and the signed data. -/
structure Host where
  openRead : PyStr → Except Raised Bytes
  sha256 : Bytes → Digest
  repr : PyStr → PyStr
  publicKeys : Except Raised (List Bytes)
  verifies : Bytes → Bytes → Bytes → Bool

/-- A digest and a host that holds the given files, for runs on fixed inputs. -/
def zeroDigest : Digest :=
  { hex := List.replicate 64 (ofChar '0')
    size := List.length_replicate
    digits := fun c member => by
      rw [List.eq_of_mem_replicate member]
      decide }

def fixedHost (files : PyStr → Except Raised Bytes) : Host :=
  { openRead := files
    sha256 := fun _ => zeroDigest
    repr := id
    publicKeys := .ok []
    verifies := fun _ _ _ => false }

/-- What a command writes and what it prints then. -/
structure Written where
  path : PyStr
  data : Bytes
  printed : PyStr
  deriving DecidableEq

def fail {A : Type} (message : PyStr) : Except Raised A :=
  .error (.systemExit (text "sign_package.py: " ++ message))

def number (n : Nat) : PyStr := text (toString n)

def names (hashes : Hashes) : List PyStr := hashes.keys.reverse

def entryLine (entry : Entry) : PyStr := entry.2.hex ++ text "  " ++ entry.1

def listedEntries (hashes : Hashes) : List Entry :=
  (sorted (names hashes)).filterMap fun name =>
    (hashes.lookup name).map fun digest => ⟨name, digest⟩

def listing (hashes : Hashes) : PyStr :=
  terminated lineFeed ((listedEntries hashes).map entryLine)

/-- The bytes that a file is read in, a block at a time, until a block is empty. -/
def readChunks (size : Nat) (data : Bytes) : List Bytes :=
  if data.take size = [] then []
  else data.take size :: readChunks size (data.drop size)
termination_by data.length
decreasing_by
  rename_i some
  obtain ⟨positive, nonempty⟩ := not_or.mp (List.take_eq_nil_iff.not.mp some)
  have longer := List.length_pos_of_ne_nil nonempty
  rw [List.length_drop]
  omega

/-- A regular expression: 64 hex digits, two spaces, and a name on one line. -/
def matchEntry (line : PyStr) : Option Entry :=
  if found : (line.take 64).length = 64 ∧ (∀ c ∈ line.take 64, isHexDigit c = true) ∧
      (line.drop 64).take 2 = text "  " ∧ line.drop 66 ≠ [] ∧ lineFeed ∉ line.drop 66 then
    some ⟨line.drop 66, line.take 64, found.1, found.2.1⟩
  else none

section Script
variable (host : Host)

def checkName (name : PyStr) : Except Raised Unit :=
  if lineFeed ∈ name ∨ carriageReturn ∈ name then
    fail (text "a file name has a line break: " ++ host.repr name)
  else .ok ()

def listText (hashes : Hashes) : Except Raised Bytes := do
  (names hashes).forM (checkName host)
  encode (listing hashes)

def hexdigest (content : Bytes) : Digest :=
  host.sha256 ((readChunks (1 <<< 20) content).foldl (· ++ ·) [])

def hashFile (hashes : Hashes) (path : PyStr) : Except Raised Hashes :=
  let name := basename path
  if name ∈ hashes then fail (text "two files have the name " ++ name)
  else do
    let content ← host.openRead path
    return hashes.insert name (hexdigest host content)

def fileHashes (paths : List PyStr) : Except Raised Hashes := paths.foldlM (hashFile host) ∅

def read (path : PyStr) : Except Raised Bytes :=
  match host.openRead path with
  | .ok data => .ok data
  | .error (.osError strerror) => fail (text "cannot read " ++ path ++ text ": " ++ strerror)
  | .error raised => .error raised

def listFiles (outDir : PyStr) (paths : List PyStr) : Except Raised Written := do
  let out := join outDir listName
  let hashes ← fileHashes host paths
  let data ← listText host hashes
  return ⟨out, data, text "listed " ++ number paths.length ++ text " files in " ++ out⟩

def mergeLine (listPath : PyStr) (hashes : Hashes) (line : PyStr) : Except Raised Hashes :=
  match matchEntry line with
  | none =>
    fail (listPath ++ text " has a line that is not '<sha256>  <name>': " ++ host.repr line)
  | some ⟨name, digest⟩ =>
    if name ∈ hashes then fail (text "two lists name " ++ name)
    else .ok (hashes.insert name digest)

def mergeList (hashes : Hashes) (listPath : PyStr) : Except Raised Hashes := do
  let data ← read host listPath
  let listing ← decode data
  (splitlines listing).foldlM (mergeLine host listPath) hashes

/-- What `merge` writes and prints. -/
def merged (outDir : PyStr) (listPaths : List PyStr) (hashes : Hashes) (data : Bytes) : Written :=
  let out := join outDir listName
  ⟨out, data, text "merged " ++ number listPaths.length ++ text " lists (" ++
    number (names hashes).length ++ text " files) into " ++ out⟩

def merge (outDir : PyStr) (listPaths : List PyStr) : Except Raised Written := do
  let hashes ← listPaths.foldlM (mergeList host) ∅
  let data ← listText host hashes
  return merged outDir listPaths hashes data

def checkSignature (data signature : Bytes) (what : PyStr) : Except Raised PyStr := do
  let keys ← host.publicKeys
  if keys = [] then
    return text "BFLAT_SIGNING_PUBLIC_KEY is not set: the signature of " ++ what ++
      text " is not checked"
  else if (keys.any fun key => host.verifies key signature data) = true then
    return text "the signature of " ++ what ++ text " is valid"
  else fail (text "the signature of " ++ what ++ text " is not valid for a trusted key")

/-- `check_files` up to the check of the signature: the list and the signature read. -/
def compareFiles (sigDir : PyStr) (paths : List PyStr) : Except Raised (Bytes × Bytes) := do
  let listPath := join sigDir listName
  let data ← read host listPath
  let signature ← read host (join sigDir signatureName)
  let hashes ← fileHashes host paths
  let listed ← listText host hashes
  if listed ≠ data then fail (text "the files do not agree with " ++ listPath)
  else return (data, signature)

def checkFiles (sigDir : PyStr) (paths : List PyStr) : Except Raised (List PyStr) := do
  let listPath := join sigDir listName
  let (data, signature) ← compareFiles host sigDir paths
  let checked ← checkSignature host data signature listPath
  return [checked, number paths.length ++ text " files agree with " ++ listPath]

/-- The digest is that of the whole content, however it is read. -/
theorem flatten_chunks {size : Nat} (positive : 0 < size) (data : Bytes) :
    (readChunks size data).flatten = data := by
  induction data using readChunks.induct size with
  | case1 data empty =>
    rw [readChunks, if_pos empty]
    have either := List.take_eq_nil_iff.mp empty
    exact (either.resolve_left (Nat.ne_of_gt positive)).symm
  | case2 data some ih =>
    rw [readChunks, if_neg some, List.flatten_cons, ih, List.take_append_drop]

theorem hexdigest_eq (content : Bytes) : hexdigest host content = host.sha256 content := by
  have joined : ∀ (chunks : List Bytes) (start : Bytes),
      chunks.foldl (· ++ ·) start = start ++ chunks.flatten := by
    intro chunks
    induction chunks with
    | nil => simp
    | cons chunk chunks ih => simp [ih]
  rw [hexdigest, joined, List.nil_append, flatten_chunks (by decide)]

theorem check_name_ok_iff (name : PyStr) :
    checkName host name = .ok () ↔ lineFeed ∉ name ∧ carriageReturn ∉ name := by
  rw [← not_or, checkName]
  by_cases broken : lineFeed ∈ name ∨ carriageReturn ∈ name
  · simp [broken, fail]
  · simp [broken]

theorem list_text_ok_iff {hashes : Hashes} {data : Bytes} :
    listText host hashes = .ok data ↔
      (∀ name ∈ hashes, lineFeed ∉ name ∧ carriageReturn ∉ name) ∧
        encode (listing hashes) = .ok data := by
  have checks : (∀ name ∈ names hashes, checkName host name = .ok ()) ↔
      ∀ name ∈ hashes, lineFeed ∉ name ∧ carriageReturn ∉ name := by
    simp only [names, List.mem_reverse, check_name_ok_iff, AList.mem_keys]
  rw [listText, bind_ok_iff, ← checks]
  constructor
  · rintro ⟨_, checked, encoded⟩
    exact ⟨forM_ok_iff.mp checked, encoded⟩
  · rintro ⟨checked, encoded⟩
    exact ⟨(), forM_ok_iff.mpr checked, encoded⟩

/-- What `file_hashes` records of a file. -/
def Recorded (path : PyStr) (entry : Entry) : Prop :=
  entry.1 = basename path ∧ ∃ content, host.openRead path = .ok content ∧
    entry.2 = host.sha256 content

theorem hash_file_collects :
    Collects (Single (Recorded host)) (hashFile host) := by
  intro hashes path filled
  constructor
  · intro done
    by_cases old : basename path ∈ hashes
    · rw [hashFile, if_pos old] at done
      cases done
    · rw [hashFile, if_neg old, bind_ok_iff] at done
      obtain ⟨content, opened, inserted⟩ := done
      cases inserted
      refine ⟨_, ⟨⟨basename path, host.sha256 content⟩, ⟨rfl, content, opened, rfl⟩, rfl⟩, ?_⟩
      rw [hexdigest_eq]
      exact AList.entries_insert_of_notMem old
  · rintro ⟨added, ⟨⟨name, digest⟩, ⟨rfl, content, opened, rfl⟩, rfl⟩, same⟩
    obtain ⟨fresh, rfl⟩ := entries_cons_iff.mp same
    rw [hashFile, if_neg fresh, opened, ← hexdigest_eq]
    rfl

theorem merge_line_collects (listPath : PyStr) :
    Collects (Single fun line entry => matchEntry line = some entry)
      (mergeLine host listPath) := by
  intro hashes line filled
  cases found : matchEntry line with
  | none =>
    simp only [mergeLine, found, fail]
    constructor
    · intro failed
      cases failed
    · rintro ⟨added, ⟨entry, matched, _⟩, _⟩
      exact nomatch found.symm.trans matched
  | some entry =>
    simp only [mergeLine, found, fail, insert_new_ok_iff]
    constructor
    · intro same
      exact ⟨[entry], ⟨entry, found, rfl⟩, same⟩
    · rintro ⟨added, ⟨other, matched, rfl⟩, same⟩
      cases found.symm.trans matched
      exact same

/-- What the loop of `merge` takes from a list. -/
def ReadsList (listPath : PyStr) (added : List Entry) : Prop :=
  ∃ data listing, host.openRead listPath = .ok data ∧ decode data = .ok listing ∧
    List.Forall₂ (fun line entry => matchEntry line = some entry) (splitlines listing) added

theorem read_ok_iff {path : PyStr} {data : Bytes} :
    read host path = .ok data ↔ host.openRead path = .ok data := by
  unfold read
  cases host.openRead path with
  | ok found => rfl
  | error raised => cases raised <;> simp [fail]

theorem merge_list_collects : Collects (ReadsList host) (mergeList host) := by
  intro hashes listPath filled
  have lines := fun listing =>
    collects_each (merge_line_collects host listPath) hashes (splitlines listing) filled
  simp only [reads_each_single] at lines
  simp only [mergeList, bind_ok_iff, read_ok_iff, lines, ReadsList]
  constructor
  · rintro ⟨data, opened, listing, decoded, added, matched, same⟩
    exact ⟨added, ⟨data, listing, opened, decoded, matched⟩, same⟩
  · rintro ⟨added, ⟨data, listing, opened, decoded, matched⟩, same⟩
    exact ⟨data, opened, listing, decoded, added, matched, same⟩

theorem file_hashes_ok_iff {paths : List PyStr} {hashes : Hashes} :
    fileHashes host paths = .ok hashes ↔
      ∃ added, List.Forall₂ (Recorded host) paths added ∧ hashes.entries = added.reverse := by
  rw [fileHashes, collects_fresh (collects_each (hash_file_collects host))]
  simp only [reads_each_single]

theorem list_files_ok_iff {outDir : PyStr} {paths : List PyStr} {written : Written} :
    listFiles host outDir paths = .ok written ↔
      ∃ hashes data, fileHashes host paths = .ok hashes ∧ listText host hashes = .ok data ∧
        written = ⟨join outDir listName, data, text "listed " ++ number paths.length ++
          text " files in " ++ join outDir listName⟩ := by
  simp only [listFiles, bind_ok_iff]
  constructor
  · rintro ⟨hashes, hashed, data, made, done⟩
    exact ⟨hashes, data, hashed, made, (Except.ok.inj done).symm⟩
  · rintro ⟨hashes, data, hashed, made, rfl⟩
    exact ⟨hashes, hashed, data, made, rfl⟩

theorem merge_ok_iff {outDir : PyStr} {listPaths : List PyStr} {written : Written} :
    merge host outDir listPaths = .ok written ↔
      ∃ hashes parts data, List.Forall₂ (ReadsList host) listPaths parts ∧
        hashes.entries = parts.flatten.reverse ∧ listText host hashes = .ok data ∧
        written = merged outDir listPaths hashes data := by
  have lists : ∀ hashes, listPaths.foldlM (mergeList host) ∅ = .ok hashes ↔
      ∃ added, ReadsEach (ReadsList host) listPaths added ∧ hashes.entries = added.reverse :=
    fun hashes => collects_fresh (collects_each (merge_list_collects host))
  simp only [merge, bind_ok_iff, lists]
  constructor
  · rintro ⟨hashes, ⟨added, ⟨parts, each, rfl⟩, same⟩, data, listed, done⟩
    exact ⟨hashes, parts, data, each, same, listed, (Except.ok.inj done).symm⟩
  · rintro ⟨hashes, parts, data, each, same, listed, rfl⟩
    exact ⟨hashes, ⟨_, ⟨parts, each, rfl⟩, same⟩, data, listed, rfl⟩

theorem compare_files_ok_iff {sigDir : PyStr} {paths : List PyStr} {data signature : Bytes} :
    compareFiles host sigDir paths = .ok (data, signature) ↔
      host.openRead (join sigDir listName) = .ok data ∧
      host.openRead (join sigDir signatureName) = .ok signature ∧
      ∃ hashes, fileHashes host paths = .ok hashes ∧ listText host hashes = .ok data := by
  simp only [compareFiles, bind_ok_iff, read_ok_iff]
  constructor
  · rintro ⟨list, listRead, signed, signatureRead, hashes, hashed, listed, encoded, compared⟩
    by_cases differ : listed ≠ list
    · rw [if_pos differ] at compared
      cases compared
    · rw [if_neg differ] at compared
      cases compared
      exact ⟨listRead, signatureRead, hashes, hashed, not_not.mp differ ▸ encoded⟩
  · rintro ⟨listRead, signatureRead, hashes, hashed, encoded⟩
    exact ⟨data, listRead, signature, signatureRead, hashes, hashed, data, encoded,
      if_neg (not_not.mpr rfl)⟩

theorem check_files_ok_iff {sigDir : PyStr} {paths printed : List PyStr} :
    checkFiles host sigDir paths = .ok printed ↔
      ∃ data signature checked, compareFiles host sigDir paths = .ok (data, signature) ∧
        checkSignature host data signature (join sigDir listName) = .ok checked ∧
        printed = [checked, number paths.length ++ text " files agree with " ++
          join sigDir listName] := by
  simp only [checkFiles, bind_ok_iff]
  constructor
  · rintro ⟨⟨data, signature⟩, compared, checked, valid, done⟩
    exact ⟨data, signature, checked, compared, valid, (Except.ok.inj done).symm⟩
  · rintro ⟨data, signature, checked, compared, valid, rfl⟩
    exact ⟨(data, signature), compared, checked, valid, rfl⟩

end Script

end UgcSignPackage
