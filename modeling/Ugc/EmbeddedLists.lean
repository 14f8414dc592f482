import Ugc.KeyedUpdates
import Ugc.PackageHistory

/-!
What `list-nupkg`, `embed` and `nupkg` do to several packages, exactly: which packages
they pass and what is in the files then. A package that was listed, signed elsewhere and
embedded is the package that `nupkg` makes with the private key.
-/
namespace UgcEmbeddedLists
open LineTexts PythonStrings KeyedFolds ScriptRuns KeyedUpdates UgcSignPackage
open UgcPublicKeys UgcSigningCommands UgcPackageHistory

/-- The standard output and the disk take what they are given. -/
structure Smooth (process : Process) : Prop where
  prints : ∀ line, process.prints line = .ok ()
  stored : ∀ path data, process.stored path data = .done

abbrev Files := PyStr → Except Raised Bytes

/-- A package with the list of its entries, and that list. -/
def Listable (machine : Machine) (files : Files) (path : PyStr) (old data : Bytes) : Prop :=
  files (machine.place path) = .ok old ∧
    ∃ hashes, PackageHashes machine old hashes ∧ ListedAs hashes data

def signedPackage (machine : Machine) (old data signature : Bytes) : Bytes :=
  machine.zip.append old [(listName, data), (signatureName, signature)]

/-- The list that `list-nupkg` writes for a package. -/
def Lists (machine : Machine) (files : Files) (path : PyStr) (list : Except Raised Bytes) :
    Prop :=
  ∃ old data, Listable machine files path old data ∧ list = .ok data

/-- The package that `nupkg` makes of a package. -/
def Signs (machine : Machine) (process : Process) (files : Files) (path : PyStr)
    (package : Except Raised Bytes) : Prop :=
  ∃ old data signature, Listable machine files path old data ∧
    sign process data = .ok signature ∧ package = .ok (signedPackage machine old data signature)

/-- The package that `embed` makes of a package, its list and the signature of the list. -/
def Embeds (machine : Machine) (process : Process) (sigDir : PyStr) (files : Files)
    (path : PyStr) (package : Except Raised Bytes) : Prop :=
  ∃ old data signature, files (machine.place (nupkgList sigDir path)) = .ok data ∧
    files (machine.place (nupkgSignature sigDir path)) = .ok signature ∧
    Listable machine files path old data ∧ Trusted machine process data signature ∧
    package = .ok (signedPackage machine old data signature)

/-- The lists and the signatures of packages lie beside the packages. -/
structure Beside (machine : Machine) (dir : PyStr) (paths : List PyStr) : Prop where
  lists : ∀ path ∈ paths, ∀ other ∈ paths,
    machine.place (nupkgList dir path) ≠ machine.place other
  signatures : ∀ path ∈ paths, ∀ other ∈ paths,
    machine.place (nupkgSignature dir path) ≠ machine.place other

section Passes
variable {machine : Machine} {process : Process} (smooth : Smooth process) {s t : World}
include smooth

theorem write_ends_iff {path : PyStr} {data : Bytes} {u : Unit} :
    Ends (write machine process path data) s u t ↔ t = s.put (machine.place path) (.ok data) := by
  unfold Ends write
  rw [smooth.stored, Prod.mk.injEq]
  exact ⟨fun done => done.2.symm, fun same => ⟨rfl, same.symm⟩⟩

theorem print_ends_iff {line : PyStr} {u : Unit} :
    Ends (print process line) s u t ↔ t = { s with printed := s.printed ++ [line] } := by
  unfold Ends print
  rw [smooth.prints, Prod.mk.injEq]
  exact ⟨fun done => done.2.symm, fun same => ⟨rfl, same.symm⟩⟩

theorem add_ends_iff {path : PyStr} {data signature : Bytes} {count : Nat} {u : Unit} :
    Ends (addToNupkg machine process path data signature count) s u t ↔
      ∃ old line, s.files (machine.place path) = .ok old ∧
        line = text "signed " ++ path ++ text " (" ++ number count ++ text " entries)" ∧
        t = { s.put (machine.place path) (.ok (signedPackage machine old data signature)) with
          printed := s.printed ++ [line] } := by
  simp only [addToNupkg, bind_ends_iff, reading_ends_iff, write_ends_iff smooth,
    print_ends_iff smooth]
  constructor
  · rintro ⟨old, _, ⟨opened, rfl⟩, _, _, rfl, same⟩
    exact ⟨old, _, opened, rfl, same⟩
  · rintro ⟨old, _, opened, rfl, same⟩
    exact ⟨old, s, ⟨opened, rfl⟩, ⟨⟩, _, rfl, same⟩

theorem list_package_ends {outDir path : PyStr} :
    (∀ t, Ends (listPackage machine process outDir path) s ⟨⟩ t →
      ∃ v, Lists machine s.files path v ∧
        t.files = Function.update s.files (machine.place (nupkgList outDir path)) v) ∧
    ∀ v, Lists machine s.files path v →
      ∃ t, Ends (listPackage machine process outDir path) s ⟨⟩ t := by
  simp only [listPackage, bind_ends_iff, reading_ends_iff, nupkg_hashes_ends_iff,
    write_ends_iff smooth, print_ends_iff smooth]
  constructor
  · rintro t ⟨hashes, _, ⟨⟨old, opened, hashed⟩, rfl⟩, data, _, ⟨listed, rfl⟩, _, _, rfl, rfl⟩
    exact ⟨_, ⟨old, data, ⟨opened, hashes, hashed, listed_as_iff.mp listed⟩, rfl⟩, rfl⟩
  · rintro v ⟨old, data, ⟨opened, hashes, hashed, listed⟩, rfl⟩
    exact ⟨_, hashes, s, ⟨⟨old, opened, hashed⟩, rfl⟩, data, s,
      ⟨listed_as_iff.mpr listed, rfl⟩, ⟨⟩, _, rfl, rfl⟩

theorem sign_nupkg_ends {path : PyStr} :
    (∀ t, Ends (signNupkg machine process path) s ⟨⟩ t →
      ∃ v, Signs machine process s.files path v ∧
        t.files = Function.update s.files (machine.place path) v) ∧
    ∀ v, Signs machine process s.files path v →
      ∃ t, Ends (signNupkg machine process path) s ⟨⟩ t := by
  simp only [signNupkg, bind_ends_iff, reading_ends_iff, nupkg_hashes_ends_iff,
    add_ends_iff smooth]
  constructor
  · rintro t ⟨hashes, _, ⟨⟨old, opened, hashed⟩, rfl⟩, data, _, ⟨listed, rfl⟩, signature, _,
      ⟨signed, rfl⟩, again, line, reopened, -, rfl⟩
    cases opened.symm.trans reopened
    exact ⟨_, ⟨old, data, signature, ⟨opened, hashes, hashed, listed_as_iff.mp listed⟩, signed,
      rfl⟩, rfl⟩
  · rintro v ⟨old, data, signature, ⟨opened, hashes, hashed, listed⟩, signed, rfl⟩
    exact ⟨_, hashes, s, ⟨⟨old, opened, hashed⟩, rfl⟩, data, s,
      ⟨listed_as_iff.mpr listed, rfl⟩, signature, s, ⟨signed, rfl⟩, old, _, opened, rfl, rfl⟩

end Passes

theorem checked_of_trusted {machine : Machine} {process : Process} {s : World}
    {data signature : Bytes} (trusted : Trusted machine process data signature) (what : PyStr) :
    ∃ line, checkSignature (host machine process s) data signature what = .ok line := by
  unfold checkSignature
  simp only [bind_ok_iff]
  rcases trusted with blank | ⟨keys, found, valid⟩
  · exact ⟨_, [], (public_keys_nil_iff machine.b64decode).mpr blank, if_pos rfl⟩
  · by_cases none : keys = []
    · exact ⟨_, keys, found, if_pos none⟩
    · refine ⟨_, keys, found, (if_neg none).trans (if_pos ?_)⟩
      exact List.any_eq_true.mpr valid

section Embedding
variable {machine : Machine} {process : Process} (smooth : Smooth process) {s t : World}
include smooth

theorem embed_package_ends {sigDir path : PyStr} :
    (∀ t, Ends (embedPackage machine process sigDir path) s ⟨⟩ t →
      ∃ v, Embeds machine process sigDir s.files path v ∧
        t.files = Function.update s.files (machine.place path) v) ∧
    ∀ v, Embeds machine process sigDir s.files path v →
      ∃ t, Ends (embedPackage machine process sigDir path) s ⟨⟩ t := by
  simp only [embedPackage, bind_ends_iff, reading_ends_iff, nupkg_hashes_ends_iff, read_ok_iff]
  constructor
  · rintro t ⟨data, _, ⟨list, rfl⟩, signature, _, ⟨signed, rfl⟩, hashes, _,
      ⟨⟨old, opened, hashed⟩, rfl⟩, listed, _, ⟨made, rfl⟩, rest⟩
    by_cases differ : listed ≠ data
    · rw [if_pos differ] at rest
      exact absurd rest raise_ends_iff
    · rw [if_neg differ] at rest
      obtain rfl := not_not.mp differ
      simp only [bind_ends_iff, reading_ends_iff, print_ends_iff smooth,
        add_ends_iff smooth] at rest
      obtain ⟨line, _, ⟨checked, rfl⟩, _, _, rfl, again, _, reopened, -, rfl⟩ := rest
      cases opened.symm.trans reopened
      exact ⟨_, ⟨old, listed, signature, list, signed, ⟨opened, hashes, hashed,
        listed_as_iff.mp made⟩, trusted_of_checked checked, rfl⟩, rfl⟩
  · rintro v ⟨old, data, signature, list, signed, ⟨opened, hashes, hashed, listed⟩, trusted, rfl⟩
    obtain ⟨line, checked⟩ :
        ∃ line, checkSignature (host machine process s) data signature path = .ok line :=
      checked_of_trusted trusted path
    have added : ∃ t, Ends (do
        let checked ← reading machine process fun host => checkSignature host data signature path
        print process checked
        addToNupkg machine process path data signature (names hashes).length) s ⟨⟩ t := by
      simp only [bind_ends_iff, reading_ends_iff, print_ends_iff smooth, add_ends_iff smooth]
      exact ⟨_, line, s, ⟨checked, rfl⟩, ⟨⟩, _, rfl, old, _, opened, rfl, rfl⟩
    obtain ⟨t, added⟩ := added
    refine ⟨t, data, s, ⟨list, rfl⟩, signature, s, ⟨signed, rfl⟩, hashes, s,
      ⟨⟨old, opened, hashed⟩, rfl⟩, data, s, ⟨listed_as_iff.mpr listed, rfl⟩, ?_⟩
    rw [if_neg (not_not.mpr rfl)]
    exact added

end Embedding

/-- A script that stops has not changed a file. -/
def Harmless {A : Type} (script : Command A) (s : World) : Prop :=
  ∀ e t, Stops script s e t → t.files = s.files

section Stopping
variable {machine : Machine} {process : Process} {s : World} {A B : Type}

theorem harmless_reading {f : Host → Except Raised A} {next : A → Command B}
    (rest : ∀ a, f (host machine process s) = .ok a → Harmless (next a) s) :
    Harmless (reading machine process f >>= next) s := by
  intro e t stopped
  rcases bind_stops_iff.mp stopped with stops | ⟨a, u, done, stops⟩
  · rw [(look_stops_iff.mp stops).2]
  · obtain ⟨found, rfl⟩ := reading_ends_iff.mp done
    exact rest a found e t stops

theorem harmless_hashes {path : PyStr} {next : Hashes → Command B}
    (rest : ∀ hashes, Harmless (next hashes) s) :
    Harmless (nupkgHashes machine process path >>= next) s := by
  intro e t stopped
  rcases bind_stops_iff.mp stopped with stops | ⟨a, u, done, stops⟩
  · rw [(look_stops_iff.mp stops).2]
  · obtain ⟨-, rfl⟩ := nupkg_hashes_ends_iff.mp done
    exact rest a e t stops

variable (smooth : Smooth process)
include smooth

theorem print_not_stops {line : PyStr} {e : Stopped} {t : World} :
    ¬ Stops (print process line) s e t := fun stops =>
  not_ends_of_stops stops ((print_ends_iff smooth (u := ⟨⟩)).mpr rfl)

theorem write_not_stops {path : PyStr} {data : Bytes} {e : Stopped} {t : World} :
    ¬ Stops (write machine process path data) s e t := fun stops =>
  not_ends_of_stops stops ((write_ends_iff smooth (u := ⟨⟩)).mpr rfl)

theorem output_harmless (path : PyStr) (data : Bytes) (line : PyStr) :
    Harmless (write machine process path data >>= fun _ => print process line) s := by
  intro e t stopped
  rcases bind_stops_iff.mp stopped with stops | ⟨_, _, _, stops⟩
  · exact absurd stops (write_not_stops smooth)
  · exact absurd stops (print_not_stops smooth)

theorem add_harmless (path : PyStr) (data signature : Bytes) (count : Nat) :
    Harmless (addToNupkg machine process path data signature count) s :=
  harmless_reading fun _ _ => output_harmless smooth path _ _

theorem embed_package_harmless (sigDir path : PyStr) :
    Harmless (embedPackage machine process sigDir path) s := by
  refine harmless_reading fun data _ => harmless_reading fun signature _ =>
    harmless_hashes fun hashes => harmless_reading fun listed _ => ?_
  by_cases differ : listed ≠ data
  · rw [if_pos differ]
    intro e t stops
    cases stops
    rfl
  · rw [if_neg differ]
    refine harmless_reading fun line _ => ?_
    intro e t stopped
    rcases bind_stops_iff.mp stopped with stops | ⟨_, u, done, stops⟩
    · exact absurd stops (print_not_stops smooth)
    · obtain rfl := (print_ends_iff smooth).mp done
      have kept := add_harmless smooth path _ _ _ e t stops
      exact kept

end Stopping

section Loops
variable {machine : Machine} {process : Process} {files : Files} {path : PyStr}

theorem listable_update {k : PyStr} (apart : machine.place path ≠ k) (v : Except Raised Bytes)
    (old data : Bytes) :
    Listable machine (Function.update files k v) path old data ↔
      Listable machine files path old data := by
  rw [Listable, Listable, Function.update_of_ne apart]

theorem signed_package_not_listed {other : PyStr} {old data signature again list : Bytes}
    (same : machine.place other = machine.place path)
    (listed : Listable machine files path old data) :
    ¬ Listable machine (Function.update files (machine.place path)
      (.ok (signedPackage machine old data signature))) other again list := by
  rintro ⟨opened, others, hashed, -⟩
  obtain ⟨-, hashes, first, text⟩ := listed
  rw [same, Function.update_self] at opened
  cases opened
  have made : SignedFrom machine (fun _ _ => True) old
      (signedPackage machine old data signature) :=
    ⟨hashes, data, signature, first, text, trivial, rfl⟩
  exact signed_from_not_hashed made others hashed

theorem signs_once : Once machine.place (Signs machine process) := by
  rintro path other files v w same ⟨old, data, signature, listed, -, rfl⟩
    ⟨again, list, _, relisted, -⟩
  exact signed_package_not_listed same listed relisted

theorem embeds_once (sigDir : PyStr) : Once machine.place (Embeds machine process sigDir) := by
  rintro path other files v w same ⟨old, data, signature, -, -, listed, -, rfl⟩
    ⟨again, list, _, -, -, relisted, -⟩
  exact signed_package_not_listed same listed relisted

variable (smooth : Smooth process) {dir : PyStr} {paths : List PyStr}
include smooth

theorem signs_updates (paths : List PyStr) :
    Updates (signNupkg machine process) World.files machine.place (Signs machine process)
      paths where
  sets path _ s := (sign_nupkg_ends smooth).1
  ready path _ s := (sign_nupkg_ends smooth).2
  apart path _ other _ files v w apart := by
    simp only [Signs, listable_update apart]

variable (beside : Beside machine dir paths)
include beside

theorem embeds_updates : Updates (embedPackage machine process dir) World.files machine.place
    (Embeds machine process dir) paths where
  sets path _ s := (embed_package_ends smooth).1
  ready path _ s := (embed_package_ends smooth).2
  apart path here other there files v w apart := by
    simp only [Embeds, listable_update apart,
      Function.update_of_ne (beside.lists path here other there),
      Function.update_of_ne (beside.signatures path here other there)]

theorem lists_updates : Updates (listPackage machine process dir) World.files
    (fun path => machine.place (nupkgList dir path)) (Lists machine) paths where
  sets path _ s := (list_package_ends smooth).1
  ready path _ s := (list_package_ends smooth).2
  apart path here other there files v w _ := by
    simp only [Lists, listable_update (Ne.symm (beside.lists other there path here))]

/-- `embed` is done exactly for packages in distinct files that agree with their lists and
    whose signatures are accepted. The packages that it passed are signed, and no other
    file is changed, whether it is done or stops. -/
theorem embed_exact (s : World) :
    ((∃ t, Ends (perform machine process (.embed dir paths)) s ⟨⟩ t) ↔
      (paths.map machine.place).Nodup ∧
        ∀ path ∈ paths, ∃ package, Embeds machine process dir s.files path package) ∧
    (∀ t, Ends (perform machine process (.embed dir paths)) s ⟨⟩ t →
      Filled machine.place (Embeds machine process dir) paths s.files t.files) ∧
    ∀ e t, Stops (perform machine process (.embed dir paths)) s e t →
      ∃ done path rest, paths = done ++ path :: rest ∧
        Filled machine.place (Embeds machine process dir) done s.files t.files ∧
        (machine.place path ∈ done.map machine.place ∨
          ∀ package, ¬ Embeds machine process dir s.files path package) := by
  have updates : Updates (embedPackage machine process dir) World.files machine.place
      (Embeds machine process dir) paths := embeds_updates smooth beside
  have once : Once machine.place (Embeds machine process dir) ∨
      (paths.map machine.place).Nodup := Or.inl (embeds_once dir)
  refine ⟨for_each_ends updates once, fun t => for_each_filled updates once, ?_⟩
  intro e t stops
  obtain ⟨done, path, rest, u, rfl, -, filled, stopped, failed⟩ :=
    for_each_stopped updates once stops
  have kept := embed_package_harmless smooth dir path e t stopped
  exact ⟨done, path, rest, rfl, kept ▸ filled, failed⟩

end Loops

/-- What a job with the private key adds to the files: the signatures of the lists. -/
structure SignsLists (machine : Machine) (signer : Process) (dir : PyStr) (paths : List PyStr)
    (s t : World) : Prop where
  signed : ∀ path ∈ paths, ∀ data, s.files (machine.place (nupkgList dir path)) = .ok data →
    ∃ signature, sign signer data = .ok signature ∧
      t.files (machine.place (nupkgSignature dir path)) = .ok signature
  others : ∀ k, (∀ path ∈ paths, machine.place (nupkgSignature dir path) ≠ k) →
    t.files k = s.files k

section ThreeSteps
variable {machine : Machine} {lister signer embedder : Process} {dir : PyStr}
  {paths : List PyStr} {s listed t : World}

theorem listable_unique {files : Files} {path : PyStr} {old data found list : Bytes}
    (one : Listable machine files path old data) (other : Listable machine files path found list) :
    found = old ∧ list = data := by
  obtain ⟨opened, hashes, hashed, words⟩ := one
  obtain ⟨here, others, first, ours⟩ := other
  cases opened.symm.trans here
  obtain rfl := package_hashes_unique hashed first
  exact ⟨rfl, Except.ok.inj (ours.2.symm.trans words.2)⟩

theorem signs_unique {files : Files} {path : PyStr} {package other : Except Raised Bytes}
    (one : Signs machine signer files path package)
    (another : Signs machine signer files path other) : package = other := by
  obtain ⟨old, data, signature, listable, signed, rfl⟩ := one
  obtain ⟨found, list, mark, relisted, resigned, rfl⟩ := another
  obtain ⟨rfl, rfl⟩ := listable_unique listable relisted
  cases signed.symm.trans resigned
  rfl

theorem lists_of_signs {files : Files} {path : PyStr} {package : Except Raised Bytes}
    (signs : Signs machine signer files path package) : ∃ list, Lists machine files path list := by
  obtain ⟨old, data, signature, listable, -, -⟩ := signs
  exact ⟨_, old, data, listable, rfl⟩

/-- The package that `embed` makes of a list that was signed is the one `nupkg` makes. -/
theorem embeds_iff_signs (beside : Beside machine dir paths)
    (apart : ∀ path ∈ paths, ∀ other ∈ paths,
      machine.place (nupkgSignature dir path) ≠ machine.place (nupkgList dir other))
    (accepted : ∀ data signature, sign signer data = .ok signature →
      Trusted machine embedder data signature)
    (filled : Filled (fun path => machine.place (nupkgList dir path)) (Lists machine) paths
      s.files listed.files)
    (signs : SignsLists machine signer dir paths listed t) {path : PyStr} (member : path ∈ paths)
    (package : Except Raised Bytes) :
    Embeds machine embedder dir t.files path package ↔
      Signs machine signer s.files path package := by
  have held : t.files (machine.place path) = s.files (machine.place path) :=
    (signs.others _ fun other inside => beside.signatures other inside path member).trans
      (filled.others _ fun other inside => beside.lists other inside path member)
  have list : t.files (machine.place (nupkgList dir path)) =
      listed.files (machine.place (nupkgList dir path)) :=
    signs.others _ fun other inside => apart other inside path member
  obtain ⟨old, data, listable, same⟩ := filled.given path member
  obtain ⟨signature, made, kept⟩ := signs.signed path member data same
  have still : ∀ found text, Listable machine t.files path found text ↔
      Listable machine s.files path found text := fun found text => by
    rw [Listable, Listable, held]
  constructor
  · rintro ⟨found, text, mark, -, signed, again, -, rfl⟩
    obtain ⟨rfl, rfl⟩ := listable_unique listable ((still _ _).mp again)
    cases kept.symm.trans signed
    exact ⟨found, text, signature, listable, made, rfl⟩
  · rintro ⟨found, text, mark, again, signed, rfl⟩
    obtain ⟨rfl, rfl⟩ := listable_unique listable again
    cases made.symm.trans signed
    exact ⟨found, text, signature, list.trans same, kept, (still _ _).mpr again,
      accepted text signature made, rfl⟩

end ThreeSteps

/-- A machine with a package of one file, its list, and a signature at every other path. -/
def packageList : Hashes := AList.singleton (text "a") zeroDigest

def packageWorld : World :=
  { files := fun q =>
      if q = text "p" then .ok (packed [(text "a", [1])])
      else if q = nupkgList (text "d") (text "p") then encode (listing packageList)
      else .ok []
    printed := [] }

theorem package_world_files (q : PyStr) : packageWorld.files q =
    if q = text "p" then .ok (packed [(text "a", [1])])
    else if q = nupkgList (text "d") (text "p") then encode (listing packageList)
    else .ok [] := rfl

theorem fixed_smooth : Smooth fixedProcess := ⟨fun _ => rfl, fun _ _ => rfl⟩

theorem fixed_beside : Beside fixedMachine (text "d") [text "p"] := by
  constructor
  · simp only [List.forall_mem_singleton, fixedMachine, id]
    decide +kernel
  · simp only [List.forall_mem_singleton, fixedMachine, id]
    decide +kernel

theorem fixed_signs (data : Bytes) : sign fixedProcess data = .ok [] := by
  have some : ¬ MarkedTexts.stripped isSpace fixedProcess.signingKey = [] := by decide +kernel
  rw [sign, if_neg some]
  rfl

theorem fixed_trusted (data signature : Bytes) :
    Trusted fixedMachine fixedProcess data signature :=
  Or.inr ⟨[[]], by decide +kernel, [], List.mem_cons_self, rfl⟩

theorem package_listed : ∃ data, encode (listing packageList) = .ok data ∧
    Listable fixedMachine packageWorld.files (text "p") (packed [(text "a", [1])]) data := by
  have encoded : (encode (listing packageList)).isOk = true := by decide +kernel
  obtain ⟨data, made⟩ := exists_of_isOk encoded
  have hashed : packageHashes fixedMachine [] (packed [(text "a", [1])]) = .ok packageList := by
    have read := infolist_packed [(text "a", [1])]
    simp only [packageHashes, fixedMachine, read]
    rfl
  have opened := (package_world_files (text "p")).trans (if_pos rfl)
  refine ⟨data, made, opened, packageList, package_hashes_ok_iff.mp hashed, ?_, made⟩
  decide +kernel

theorem embed_exact_sample :
    ∃ t, Ends (perform fixedMachine fixedProcess (.embed (text "d") [text "p"])) packageWorld ⟨⟩
      t := by
  obtain ⟨data, made, listable⟩ := package_listed
  refine (embed_exact fixed_smooth fixed_beside packageWorld).1.mpr ⟨by decide +kernel, ?_⟩
  have list : nupkgList (text "d") (text "p") ≠ text "p" := by decide +kernel
  have signature : nupkgSignature (text "d") (text "p") ≠ text "p" := by decide +kernel
  have apart : nupkgSignature (text "d") (text "p") ≠ nupkgList (text "d") (text "p") := by
    decide +kernel
  have held := (package_world_files _).trans ((if_neg list).trans ((if_pos rfl).trans made))
  have signed := (package_world_files _).trans ((if_neg signature).trans (if_neg apart))
  exact List.forall_mem_singleton.mpr
    ⟨_, _, data, [], held, signed, listable, fixed_trusted _ _, rfl⟩

end UgcEmbeddedLists
