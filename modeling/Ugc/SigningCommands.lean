import Mathlib.Logic.Encodable.Basic
import Mathlib.Logic.Equiv.List
import Ugc.PublicKeys
import Ugc.ScriptRuns

/-!
The commands of `sign_package.py` on the files of a machine. A command reads files,
writes lists and signatures, adds the two of them to a package and prints. It keeps what
it has done when it ends early. The zip files, openssl, the disk and what takes the
printed lines are parameters.
-/
namespace UgcSigningCommands
open LineTexts MarkedTexts PythonStrings KeyedFolds ScriptRuns UgcSignPackage UgcPublicKeys

def nupkgListSuffix : PyStr := text ".bflat-signature.sha256"

def nugetSignatureName : PyStr := text ".signature.p7s"

def keyVariable : PyStr := text "BFLAT_SIGNING_KEY"

/-- What ends a command early. -/
inductive Stopped where
  | raised (raised : Raised)
  | badZipFile
  deriving DecidableEq

/-- An entry of a zip file; reading it may fail. -/
structure ZipInfo where
  filename : PyStr
  content : Except Stopped Bytes

/-- Python's `zipfile`: the entries of a file, and a file with entries appended. -/
structure Zip where
  infolist : Bytes → Except Stopped (List ZipInfo)
  append : Bytes → List (PyStr × Bytes) → Bytes
  appended : ∀ {data : Bytes} {infos : List ZipInfo}, infolist data = .ok infos →
    ∀ added, infolist (append data added) =
      .ok (infos ++ added.map fun entry => ⟨entry.1, .ok entry.2⟩)

/-- What becomes of a file that is written. -/
inductive Stored where
  | done
  | refused (raised : Raised)
  | broken (raised : Raised) (left : Except Raised Bytes)

/-- What the commands of one machine share. Paths with one place name one file. -/
structure Machine where
  place : PyStr → PyStr
  sha256 : Bytes → Digest
  repr : PyStr → PyStr
  zip : Zip
  b64decode : PyStr → Except PyStr Bytes
  verifies : Bytes → Bytes → Bytes → Bool

/-- What a command is run with: the two variables of its environment, openssl and its
    private key, the disk, the standard output, and the text of its usage. -/
structure Process where
  signingKey : PyStr
  publicKeysText : PyStr
  opensslSign : PyStr → Bytes → Except PyStr Bytes
  stored : PyStr → Bytes → Stored
  prints : PyStr → Except Raised Unit
  usage : PyStr

structure World where
  files : PyStr → Except Raised Bytes
  printed : List PyStr

def World.put (world : World) (place : PyStr) (content : Except Raised Bytes) : World :=
  { world with files := Function.update world.files place content }

abbrev Command := Script World Stopped

def lifted {A : Type} : Except Raised A → Except Stopped A
  | .ok a => .ok a
  | .error raised => .error (.raised raised)

section Commands
variable (machine : Machine) (process : Process)

def host (world : World) : Host :=
  { openRead := fun path => world.files (machine.place path)
    sha256 := machine.sha256
    repr := machine.repr
    publicKeys := publicKeys machine.b64decode process.publicKeysText
    verifies := machine.verifies }

/-- A function of the script that changes no file. -/
def reading {A : Type} (f : Host → Except Raised A) : Command A :=
  look fun world => lifted (f (host machine process world))

def print (line : PyStr) : Command Unit := fun world =>
  match process.prints line with
  | .ok () => (.ok (), { world with printed := world.printed ++ [line] })
  | .error raised => (.error (.raised raised), world)

/-- The directories that are made on the way to the file are not part of the world. -/
def write (path : PyStr) (data : Bytes) : Command Unit := fun world =>
  match process.stored path data with
  | .done => (.ok (), world.put (machine.place path) (.ok data))
  | .refused raised => (.error (.raised raised), world)
  | .broken raised left => (.error (.raised raised), world.put (machine.place path) left)

def sign (data : Bytes) : Except Raised Bytes :=
  let key := process.signingKey
  if stripped isSpace key = [] then fail (keyVariable ++ text " is not set")
  else
    let pem := if key.getLast? = some lineFeed then key else key ++ [lineFeed]
    match process.opensslSign pem data with
    | .ok signature => .ok signature
    | .error stderr => fail (text "openssl could not sign: " ++ stripped isSpace stderr)

def hashEntry (path : PyStr) (hashes : Hashes) (info : ZipInfo) : Except Stopped Hashes :=
  let name := info.filename
  if name.getLast? = some slash then .ok hashes
  else if name = listName ∨ name = signatureName then
    lifted (fail (path ++ text " is signed already"))
  else if name = nugetSignatureName then
    lifted (fail (path ++ text " has a NuGet repository signature; sign it before the push"))
  else if name ∈ hashes then
    lifted (fail (path ++ text " has the entry " ++ name ++ text " two times"))
  else do
    let content ← info.content
    return hashes.insert name (machine.sha256 content)

def packageHashes (path : PyStr) (data : Bytes) : Except Stopped Hashes := do
  let infos ← machine.zip.infolist data
  infos.foldlM (hashEntry machine path) ∅

def nupkgHashes (path : PyStr) : Command Hashes := look fun world => do
  let data ← lifted ((host machine process world).openRead path)
  packageHashes machine path data

def addToNupkg (path : PyStr) (data signature : Bytes) (count : Nat) : Command Unit := do
  let old ← reading machine process fun host => host.openRead path
  write machine process path
    (machine.zip.append old [(listName, data), (signatureName, signature)])
  print process (text "signed " ++ path ++ text " (" ++ number count ++ text " entries)")

def signNupkg (path : PyStr) : Command Unit := do
  let hashes ← nupkgHashes machine process path
  let data ← reading machine process fun host => listText host hashes
  let signature ← reading machine process fun _ => sign process data
  addToNupkg machine process path data signature (names hashes).length

def signFiles (outDir : PyStr) (paths : List PyStr) : Command Unit := do
  let hashes ← reading machine process fun host => fileHashes host paths
  let data ← reading machine process fun host => listText host hashes
  let signature ← reading machine process fun _ => sign process data
  write machine process (join outDir listName) data
  write machine process (join outDir signatureName) signature
  print process (text "signed " ++ number paths.length ++ text " files into " ++ outDir)

/-- The list of a package in a directory of lists. -/
def nupkgList (dir path : PyStr) : PyStr := join dir (basename path ++ nupkgListSuffix)

def nupkgSignature (dir path : PyStr) : PyStr := nupkgList dir path ++ text ".sig"

def listPackage (outDir path : PyStr) : Command Unit := do
  let out := nupkgList outDir path
  let hashes ← nupkgHashes machine process path
  let data ← reading machine process fun host => listText host hashes
  write machine process out data
  print process (text "listed " ++ path ++ text " (" ++ number (names hashes).length ++
    text " entries) in " ++ out)

def listNupkg (outDir : PyStr) (paths : List PyStr) : Command Unit :=
  forEach (listPackage machine process outDir) paths

def embedPackage (sigDir path : PyStr) : Command Unit := do
  let listPath := nupkgList sigDir path
  let data ← reading machine process fun host => read host listPath
  let signature ← reading machine process fun host => read host (nupkgSignature sigDir path)
  let hashes ← nupkgHashes machine process path
  let listed ← reading machine process fun host => listText host hashes
  if listed ≠ data then
    raise (.raised (.systemExit (text "sign_package.py: " ++ path ++
      text " does not agree with " ++ listPath)))
  else do
    let checked ← reading machine process fun host => checkSignature host data signature path
    print process checked
    addToNupkg machine process path data signature (names hashes).length

def embed (sigDir : PyStr) (paths : List PyStr) : Command Unit :=
  forEach (embedPackage machine process sigDir) paths

/-- A command that writes one file: `list_files` and `merge`. -/
def written (f : Host → Except Raised Written) : Command Unit := do
  let made ← reading machine process f
  write machine process made.path made.data
  print process made.printed

def reported (f : Host → Except Raised (List PyStr)) : Command Unit := do
  let lines ← reading machine process f
  forEach (print process) lines

/-- What the arguments ask for. -/
inductive Request where
  | nupkg (paths : List PyStr)
  | files (outDir : PyStr) (paths : List PyStr)
  | listNupkg (outDir : PyStr) (paths : List PyStr)
  | listFiles (outDir : PyStr) (paths : List PyStr)
  | merge (outDir : PyStr) (listPaths : List PyStr)
  | embed (sigDir : PyStr) (paths : List PyStr)
  | checkFiles (sigDir : PyStr) (paths : List PyStr)
  | usage

def request : List PyStr → Request
  | command :: first :: rest =>
    if command = text "nupkg" then .nupkg (first :: rest)
    else if rest = [] then .usage
    else if command = text "files" then .files first rest
    else if command = text "list-nupkg" then .listNupkg first rest
    else if command = text "list-files" then .listFiles first rest
    else if command = text "merge" then .merge first rest
    else if command = text "embed" then .embed first rest
    else if command = text "check-files" then .checkFiles first rest
    else .usage
  | _ => .usage

def perform : Request → Command Unit
  | .nupkg paths => forEach (signNupkg machine process) paths
  | .files outDir paths => signFiles machine process outDir paths
  | .listNupkg outDir paths => listNupkg machine process outDir paths
  | .listFiles outDir paths => written machine process fun host => listFiles host outDir paths
  | .merge outDir listPaths => written machine process fun host => merge host outDir listPaths
  | .embed sigDir paths => embed machine process sigDir paths
  | .checkFiles sigDir paths => reported machine process fun host => checkFiles host sigDir paths
  | .usage => reading machine process fun _ => fail process.usage

def main (argv : List PyStr) : Command Unit := perform machine process (request argv)

end Commands

/-- The packages that a command is given. -/
def Request.packages : Request → List PyStr
  | .nupkg paths => paths
  | .listNupkg _ paths => paths
  | .embed _ paths => paths
  | _ => []

/-- The paths that a command writes lists and signatures to. Without a private key `files`
    writes nothing. -/
def Request.outputs (process : Process) : Request → List PyStr
  | .files outDir _ =>
    if stripped isSpace process.signingKey = [] then []
    else [join outDir listName, join outDir signatureName]
  | .listNupkg outDir paths => paths.map (nupkgList outDir)
  | .listFiles outDir _ => [join outDir listName]
  | .merge outDir _ => [join outDir listName]
  | _ => []

@[simp] theorem lifted_ok_iff {A : Type} {result : Except Raised A} {a : A} :
    lifted result = .ok a ↔ result = .ok a := by
  cases result with
  | ok b => simp [lifted]
  | error raised => simp [lifted]

@[simp] theorem put_same (world : World) (place : PyStr) (content : Except Raised Bytes) :
    (world.put place content).files place = content := Function.update_self _ _ _

theorem put_other (world : World) {place other : PyStr} (apart : other ≠ place)
    (content : Except Raised Bytes) :
    (world.put place content).files other = world.files other := Function.update_of_ne apart _ _

/-- What an entry of a package counts for in its list. -/
inductive Counted (machine : Machine) (info : ZipInfo) : List Entry → Prop where
  | folder (folder : info.filename.getLast? = some slash) : Counted machine info []
  | entry (content : Bytes) (file : info.filename.getLast? ≠ some slash)
      (unsigned : ¬ (info.filename = listName ∨ info.filename = signatureName))
      (unpushed : info.filename ≠ nugetSignatureName) (opened : info.content = .ok content) :
      Counted machine info [⟨info.filename, machine.sha256 content⟩]

/-- The list of a package has these names and digests. -/
def PackageHashes (machine : Machine) (data : Bytes) (hashes : Hashes) : Prop :=
  ∃ infos added, machine.zip.infolist data = .ok infos ∧
    ReadsEach (Counted machine) infos added ∧ hashes.entries = added.reverse

section Specs
variable {machine : Machine} {process : Process} {s t : World}

theorem hash_entry_collects (path : PyStr) :
    Collects (Counted machine) (hashEntry machine path) := by
  intro hashes info filled
  have refused : ∀ {message : PyStr},
      (lifted (fail message) : Except Stopped Hashes) ≠ .ok filled :=
    fun failed => nomatch failed
  unfold hashEntry
  dsimp only
  split_ifs with folder signed pushed old
  · constructor
    · intro same
      cases same
      exact ⟨[], .folder folder, rfl⟩
    · rintro ⟨added, counted, same⟩
      cases counted with
      | folder => exact congrArg Except.ok (AList.ext same.symm)
      | entry content file => exact absurd folder file
  · refine iff_of_false refused ?_
    rintro ⟨added, counted, -⟩
    cases counted with
    | folder folded => exact folder folded
    | entry content file unsigned => exact unsigned signed
  · refine iff_of_false refused ?_
    rintro ⟨added, counted, -⟩
    cases counted with
    | folder folded => exact folder folded
    | entry content file unsigned unpushed => exact unpushed pushed
  · refine iff_of_false refused ?_
    rintro ⟨added, counted, same⟩
    cases counted with
    | folder folded => exact folder folded
    | entry content => exact (entries_cons_iff.mp same).1 old
  · rw [bind_ok_iff]
    constructor
    · rintro ⟨content, opened, inserted⟩
      cases inserted
      exact ⟨_, .entry content folder signed pushed opened, AList.entries_insert_of_notMem old⟩
    · rintro ⟨added, counted, same⟩
      cases counted with
      | folder folded => exact absurd folded folder
      | entry content file unsigned unpushed opened =>
        exact ⟨content, opened, congrArg Except.ok (entries_cons_iff.mp same).2.symm⟩

theorem package_hashes_ok_iff {path : PyStr} {data : Bytes} {hashes : Hashes} :
    packageHashes machine path data = .ok hashes ↔ PackageHashes machine data hashes := by
  have filled : ∀ infos, infos.foldlM (hashEntry machine path) ∅ = .ok hashes ↔
      ∃ added, ReadsEach (Counted machine) infos added ∧ hashes.entries = added.reverse :=
    fun infos => collects_fresh (collects_each (hash_entry_collects path))
  simp only [packageHashes, bind_ok_iff, filled, PackageHashes, exists_and_left]

theorem package_hashes_unique {data : Bytes} {hashes others : Hashes}
    (one : PackageHashes machine data hashes) (other : PackageHashes machine data others) :
    hashes = others := by
  have made : packageHashes machine [] data = .ok hashes := package_hashes_ok_iff.mpr one
  exact Except.ok.inj (made.symm.trans (package_hashes_ok_iff.mpr other))

theorem nupkg_hashes_ends_iff {path : PyStr} {hashes : Hashes} :
    Ends (nupkgHashes machine process path) s hashes t ↔
      (∃ data, s.files (machine.place path) = .ok data ∧ PackageHashes machine data hashes) ∧
        t = s := by
  rw [nupkgHashes, look_ends_iff, bind_ok_iff]
  simp only [lifted_ok_iff, package_hashes_ok_iff]
  rfl

theorem reading_ends_iff {A : Type} {f : Host → Except Raised A} {a : A} :
    Ends (reading machine process f) s a t ↔ f (host machine process s) = .ok a ∧ t = s := by
  rw [reading, look_ends_iff, lifted_ok_iff]

/-- What a sequence does after it has only read. -/
theorem leaves_reading {A B : Type} {f : Host → Except Raised A} {next : A → Command B}
    {good : World → Prop} (start : good s)
    (rest : ∀ a, f (host machine process s) = .ok a → Leaves (next a) s good) :
    Leaves (reading machine process f >>= next) s good :=
  leaves_look start fun a found => rest a (lifted_ok_iff.mp found)

theorem leaves_nupkg_hashes {B : Type} {path : PyStr} {next : Hashes → Command B}
    {good : World → Prop} (start : good s)
    (rest : ∀ hashes data, s.files (machine.place path) = .ok data →
      PackageHashes machine data hashes → Leaves (next hashes) s good) :
    Leaves (nupkgHashes machine process path >>= next) s good := by
  refine leaves_bind start ?_
  intro hashes t ends _
  obtain ⟨⟨data, opened, hashed⟩, rfl⟩ := nupkg_hashes_ends_iff.mp ends
  exact rest hashes data opened hashed

theorem print_files (line : PyStr) (world : World) :
    (print process line world).2.files = world.files := by
  unfold print
  split <;> rfl

theorem write_other {path other : PyStr} (apart : other ≠ machine.place path) (data : Bytes)
    (world : World) :
    (write machine process path data world).2.files other = world.files other := by
  unfold write
  split
  · exact put_other world apart _
  · rfl
  · exact put_other world apart _

end Specs

/-- A zip format, and a machine and a command with it, for runs on fixed inputs. -/
def packed (entries : List (PyStr × Bytes)) : Bytes :=
  List.replicate (Encodable.encode (entries.map fun entry => (entry.1, entry.2.map UInt8.toNat))) 0

def unpacked (data : Bytes) : Except Stopped (List (PyStr × Bytes)) :=
  match (Encodable.decode data.length : Option (List (PyStr × List Nat))) with
  | some entries => .ok (entries.map fun entry => (entry.1, entry.2.map UInt8.ofNat))
  | none => .error .badZipFile

theorem unpacked_packed (entries : List (PyStr × Bytes)) :
    unpacked (packed entries) = .ok entries := by
  have bytes : UInt8.ofNat ∘ UInt8.toNat = id := funext fun _ => UInt8.ofNat_toNat
  have whole : (fun entry : PyStr × List Nat => (entry.1, entry.2.map UInt8.ofNat)) ∘
      (fun entry : PyStr × Bytes => (entry.1, entry.2.map UInt8.toNat)) = id := by
    funext entry
    simp only [Function.comp_apply, List.map_map, bytes, List.map_id_fun, id]
  simp only [unpacked, packed, List.length_replicate, Encodable.encodek, List.map_map, whole,
    List.map_id_fun, id]

def infoOf (entry : PyStr × Bytes) : ZipInfo := ⟨entry.1, .ok entry.2⟩

def packedZip : Zip where
  infolist data := match unpacked data with
    | .ok entries => .ok (entries.map infoOf)
    | .error stopped => .error stopped
  append data added := match unpacked data with
    | .ok entries => packed (entries ++ added)
    | .error _ => data
  appended {data infos} read added := by
    cases found : unpacked data with
    | error stopped =>
      rw [found] at read
      cases read
    | ok entries =>
      simp only [found, Except.ok.injEq] at read
      subst read
      simp only [unpacked_packed, List.map_append]
      rfl

theorem infolist_packed (entries : List (PyStr × Bytes)) :
    packedZip.infolist (packed entries) = .ok (entries.map infoOf) := by
  simp only [packedZip, unpacked_packed]

def fixedMachine : Machine :=
  { place := id
    sha256 := fun _ => zeroDigest
    repr := id
    zip := packedZip
    b64decode := fun _ => .ok []
    verifies := fun _ _ _ => true }

def fixedProcess : Process :=
  { signingKey := text "key"
    publicKeysText := text "key"
    opensslSign := fun _ _ => .ok []
    stored := fun _ _ => .done
    prints := fun _ => .ok ()
    usage := [] }

def fixedWorld (entries : List (PyStr × Bytes)) : World := ⟨fun _ => .ok (packed entries), []⟩

end UgcSigningCommands
