import Ugc.SigningCommands
import Ugc.StepRuns

/-!
A package over a session of commands. Whatever is run, however it ends, a package keeps
its bytes or gets a list of its own entries and a signature of that list appended, and
that only once. Nothing else of the session may write over the package.
-/
namespace UgcPackageHistory
open LineTexts MarkedTexts PythonStrings KeyedFolds ScriptRuns StepRuns UgcSignPackage
open UgcPublicKeys UgcSigningCommands

/-- The text of a list: `list_text` does not depend on where it is run. -/
def ListedAs (hashes : Hashes) (data : Bytes) : Prop :=
  (∀ name ∈ hashes, lineFeed ∉ name ∧ carriageReturn ∉ name) ∧
    encode (listing hashes) = .ok data

/-- The bytes of a package with the list of its entries and a signature appended. -/
def SignedFrom (machine : Machine) (vouched : Bytes → Bytes → Prop) (old new : Bytes) : Prop :=
  ∃ hashes data signature, PackageHashes machine old hashes ∧ ListedAs hashes data ∧
    vouched data signature ∧
    new = machine.zip.append old [(listName, data), (signatureName, signature)]

/-- What may become of the package at a place. -/
def KeepsPackage (machine : Machine) (vouched : Bytes → Bytes → Prop) (p : PyStr)
    (s t : World) : Prop :=
  t.files p = s.files p ∨ ∃ old new, s.files p = .ok old ∧ t.files p = .ok new ∧
    SignedFrom machine vouched old new

/-- One of the keys that the command trusts verifies the signature, if it trusts any. -/
def Trusted (machine : Machine) (process : Process) (data signature : Bytes) : Prop :=
  (∀ c ∈ process.publicKeysText, isSpace c = true) ∨
    ∃ keys, publicKeys machine.b64decode process.publicKeysText = .ok keys ∧
      ∃ key ∈ keys, machine.verifies key signature data = true

/-- What a command answers for, if it adds a list and a signature to the package at a
    place: that its private key made the signature, or that the signature is trusted. -/
def Vouches (machine : Machine) (process : Process) (p : PyStr) (data signature : Bytes) :
    Request → Prop
  | .nupkg paths =>
    p ∈ paths.map machine.place ∧ sign process data = .ok signature
  | .embed _ paths =>
    p ∈ paths.map machine.place ∧ Trusted machine process data signature
  | _ => False

/-- No list or signature is written over the package, and the disk does not break a
    write of the package itself. -/
structure Apart (machine : Machine) (process : Process) (request : Request) (p : PyStr) :
    Prop where
  outputs : ∀ out ∈ request.outputs process, machine.place out ≠ p
  whole : ∀ path data raised left, machine.place path = p →
    process.stored path data ≠ .broken raised left

section OneCommand
variable {machine : Machine} {process : Process} {vouched : Bytes → Bytes → Prop} {p : PyStr}

theorem listed_as_iff {host : Host} {hashes : Hashes} {data : Bytes} :
    listText host hashes = .ok data ↔ ListedAs hashes data := list_text_ok_iff host

theorem keeps_refl (s : World) : KeepsPackage machine vouched p s s := Or.inl rfl

theorem keeps_of_files {s t : World} (same : t.files p = s.files p) :
    KeepsPackage machine vouched p s t := Or.inl same

/-- A package that holds a list or a signature is not listed again. -/
theorem signed_not_hashed {data : Bytes} {infos : List ZipInfo}
    (read : machine.zip.infolist data = .ok infos) {info : ZipInfo} (member : info ∈ infos)
    (signed : info.filename = listName ∨ info.filename = signatureName) (hashes : Hashes) :
    ¬ PackageHashes machine data hashes := by
  rintro ⟨found, added, opened, ⟨parts, each, -⟩, -⟩
  cases read.symm.trans opened
  obtain ⟨part, -, counted⟩ := related_of_left each info member
  have file : info.filename.getLast? ≠ some slash := by
    rcases signed with list | signature
    · rw [list]
      decide +kernel
    · rw [signature]
      decide +kernel
  cases counted with
  | folder folder => exact file folder
  | entry content plain unsigned => exact unsigned signed

theorem signed_from_not_hashed {old new : Bytes} (made : SignedFrom machine vouched old new)
    (hashes : Hashes) : ¬ PackageHashes machine new hashes := by
  obtain ⟨_, data, signature, ⟨infos, added, read, -⟩, -, -, rfl⟩ := made
  have listed : (⟨listName, .ok data⟩ : ZipInfo) ∈ infos ++
      [(listName, data), (signatureName, signature)].map fun entry => ⟨entry.1, .ok entry.2⟩ :=
    List.mem_append_right _ List.mem_cons_self
  exact signed_not_hashed (machine.zip.appended read _) listed (Or.inl rfl) hashes

theorem keeps_trans (s t u : World) (first : KeepsPackage machine vouched p s t)
    (second : KeepsPackage machine vouched p t u) : KeepsPackage machine vouched p s u := by
  rcases first with same | ⟨old, mid, before, between, made⟩
  · rcases second with again | ⟨old, new, before, after, made⟩
    · exact Or.inl (again.trans same)
    · exact Or.inr ⟨old, new, same ▸ before, after, made⟩
  · rcases second with again | ⟨found, new, here, after, remade⟩
    · exact Or.inr ⟨old, mid, before, again.trans between, made⟩
    · cases between.symm.trans here
      obtain ⟨hashes, _, _, hashed, -⟩ := remade
      exact absurd hashed (signed_from_not_hashed made hashes)

theorem print_keeps (line : PyStr) (s : World) :
    Leaves (print process line) s (KeepsPackage machine vouched p s) :=
  keeps_of_files (congrFun (print_files line s) p)

theorem write_keeps {path : PyStr} (apart : machine.place path ≠ p) (data : Bytes) (s : World) :
    Leaves (write machine process path data) s (KeepsPackage machine vouched p s) :=
  keeps_of_files (write_other (Ne.symm apart) data s)

/-- A write of a list, and then a line. -/
theorem output_keeps {out : PyStr} (apart : machine.place out ≠ p) (data : Bytes) (line : PyStr)
    (s : World) : Leaves (write machine process out data >>= fun _ => print process line) s
      (KeepsPackage machine vouched p s) := by
  refine leaves_bind (write_keeps apart data s) ?_
  intro _ t _ kept
  exact keeps_trans s t _ kept (print_keeps line t)

theorem written_keeps {f : Host → Except Raised Written}
    (apart : ∀ host made, f host = .ok made → machine.place made.path ≠ p) (s : World) :
    Leaves (written machine process f) s (KeepsPackage machine vouched p s) := by
  refine leaves_reading (keeps_refl s) ?_
  intro made found
  exact output_keeps (apart _ made found) made.data made.printed s

theorem reported_keeps {f : Host → Except Raised (List PyStr)} (s : World) :
    Leaves (reported machine process f) s (KeepsPackage machine vouched p s) := by
  refine leaves_reading (keeps_refl s) ?_
  intro lines _
  exact leaves_for_each keeps_refl keeps_trans (fun line _ t => print_keeps line t) s

/-- The write of a package that was listed, with what vouches for the signature. -/
theorem add_keeps {path : PyStr} {data signature old : Bytes} {hashes : Hashes} {count : Nat}
    {s : World} (whole : ∀ bytes raised left, machine.place path = p →
      process.stored path bytes ≠ .broken raised left)
    (opened : s.files (machine.place path) = .ok old) (hashed : PackageHashes machine old hashes)
    (listed : ListedAs hashes data) (held : machine.place path = p → vouched data signature) :
    Leaves (addToNupkg machine process path data signature count) s
      (KeepsPackage machine vouched p s) := by
  refine leaves_reading (keeps_refl s) ?_
  intro again reopened
  cases opened.symm.trans reopened
  refine leaves_bind ?_ fun _ t _ kept => keeps_trans s t _ kept (print_keeps _ t)
  by_cases here : machine.place path = p
  · unfold Leaves write
    cases answered : process.stored path
        (machine.zip.append old [(listName, data), (signatureName, signature)]) with
    | done =>
      refine Or.inr ⟨old, _, here ▸ opened, ?_, hashes, data, signature, hashed, listed,
        held here, rfl⟩
      rw [← here]
      exact put_same _ _ _
    | refused raised => exact keeps_refl s
    | broken raised left => exact absurd answered (whole _ _ _ here)
  · exact write_keeps here _ s

theorem sign_nupkg_keeps {path : PyStr} (whole : ∀ bytes raised left, machine.place path = p →
      process.stored path bytes ≠ .broken raised left)
    (holds : ∀ data signature, machine.place path = p → sign process data = .ok signature →
      vouched data signature) (s : World) :
    Leaves (signNupkg machine process path) s (KeepsPackage machine vouched p s) := by
  refine leaves_nupkg_hashes (keeps_refl s) ?_
  intro hashes old opened hashed
  refine leaves_reading (keeps_refl s) ?_
  intro data listed
  refine leaves_reading (keeps_refl s) ?_
  intro signature signed
  exact add_keeps whole opened hashed (listed_as_iff.mp listed) fun here =>
    holds data signature here signed

theorem list_package_keeps {outDir path : PyStr} (apart : machine.place (nupkgList outDir path) ≠ p)
    (s : World) :
    Leaves (listPackage machine process outDir path) s (KeepsPackage machine vouched p s) := by
  refine leaves_nupkg_hashes (keeps_refl s) ?_
  intro hashes old _ _
  refine leaves_reading (keeps_refl s) ?_
  intro data _
  exact output_keeps apart data _ s

theorem sign_needs_key {data signature : Bytes} (signed : sign process data = .ok signature) :
    ¬ stripped isSpace process.signingKey = [] := by
  intro blank
  rw [sign, if_pos blank] at signed
  cases signed

theorem sign_files_keeps {outDir : PyStr} {paths : List PyStr}
    (outputs : ∀ out ∈ (Request.files outDir paths).outputs process, machine.place out ≠ p)
    (s : World) :
    Leaves (signFiles machine process outDir paths) s (KeepsPackage machine vouched p s) := by
  refine leaves_reading (keeps_refl s) ?_
  intro hashes _
  refine leaves_reading (keeps_refl s) ?_
  intro data _
  refine leaves_reading (keeps_refl s) ?_
  intro made signed
  rw [Request.outputs, if_neg (sign_needs_key signed)] at outputs
  obtain ⟨list, others⟩ := List.forall_mem_cons.mp outputs
  have signature := others (join outDir signatureName) List.mem_cons_self
  refine leaves_bind (write_keeps list data s) ?_
  intro _ t _ kept
  exact keeps_trans s t _ kept (output_keeps signature made _ t)

theorem check_signature_trusted {host : Host} {data signature : Bytes} {what printed : PyStr}
    (checked : checkSignature host data signature what = .ok printed) :
    ∃ keys, host.publicKeys = .ok keys ∧
      (keys = [] ∨ ∃ key ∈ keys, host.verifies key signature data = true) := by
  rw [checkSignature, bind_ok_iff] at checked
  obtain ⟨keys, found, checked⟩ := checked
  refine ⟨keys, found, ?_⟩
  by_cases none : keys = []
  · exact Or.inl none
  · rw [if_neg none] at checked
    by_cases valid : (keys.any fun key => host.verifies key signature data) = true
    · exact Or.inr (List.any_eq_true.mp valid)
    · rw [if_neg valid] at checked
      cases checked

theorem trusted_of_checked {s : World} {data signature : Bytes} {what printed : PyStr}
    (checked : checkSignature (host machine process s) data signature what = .ok printed) :
    Trusted machine process data signature := by
  obtain ⟨keys, found, none | valid⟩ := check_signature_trusted checked
  · subst none
    exact Or.inl ((public_keys_nil_iff machine.b64decode).mp found)
  · exact Or.inr ⟨keys, found, valid⟩

theorem embed_package_keeps {sigDir path : PyStr}
    (whole : ∀ bytes raised left, machine.place path = p →
      process.stored path bytes ≠ .broken raised left)
    (holds : ∀ data signature, machine.place path = p → Trusted machine process data signature →
      vouched data signature) (s : World) :
    Leaves (embedPackage machine process sigDir path) s (KeepsPackage machine vouched p s) := by
  refine leaves_reading (keeps_refl s) ?_
  intro data _
  refine leaves_reading (keeps_refl s) ?_
  intro signature _
  refine leaves_nupkg_hashes (keeps_refl s) ?_
  intro hashes old opened hashed
  refine leaves_reading (keeps_refl s) ?_
  intro listed made
  by_cases differ : listed ≠ data
  · rw [if_pos differ]
    exact keeps_refl s
  · rw [if_neg differ]
    obtain rfl := not_not.mp differ
    refine leaves_reading (keeps_refl s) ?_
    intro checked valid
    refine leaves_bind (print_keeps checked s) ?_
    intro _ t ends kept
    have files : t.files = s.files := by
      have printed : (print process checked s).2.files = s.files := print_files checked s
      rw [← printed, ends]
    refine keeps_trans s t _ kept ?_
    exact add_keeps whole (files ▸ opened) hashed (listed_as_iff.mp made) fun here =>
      holds listed signature here (trusted_of_checked valid)

theorem list_files_path {host : Host} {outDir : PyStr} {paths : List PyStr} {made : Written}
    (found : listFiles host outDir paths = .ok made) : made.path = join outDir listName := by
  obtain ⟨hashes, data, -, -, rfl⟩ := (list_files_ok_iff host).mp found
  rfl

theorem merge_path {host : Host} {outDir : PyStr} {listPaths : List PyStr} {made : Written}
    (found : merge host outDir listPaths = .ok made) : made.path = join outDir listName := by
  obtain ⟨hashes, parts, data, -, -, -, rfl⟩ := (merge_ok_iff host).mp found
  rfl

/-- One command, however it ends. -/
theorem perform_keeps {request : Request} (apart : Apart machine process request p)
    (holds : ∀ data signature, Vouches machine process p data signature request →
      vouched data signature) (s : World) :
    Leaves (perform machine process request) s (KeepsPackage machine vouched p s) := by
  obtain ⟨outputs, whole⟩ := apart
  cases request with
  | nupkg paths =>
    refine leaves_for_each keeps_refl keeps_trans ?_ s
    intro path member t
    refine sign_nupkg_keeps (whole path) ?_ t
    exact fun data signature here signed =>
      holds data signature ⟨here ▸ List.mem_map_of_mem member, signed⟩
  | files outDir paths => exact sign_files_keeps outputs s
  | listNupkg outDir paths =>
    refine leaves_for_each keeps_refl keeps_trans ?_ s
    intro path member t
    exact list_package_keeps (outputs _ (List.mem_map_of_mem member)) t
  | listFiles outDir paths =>
    refine written_keeps ?_ s
    intro host made found
    exact list_files_path found ▸ outputs _ List.mem_cons_self
  | merge outDir listPaths =>
    refine written_keeps ?_ s
    intro host made found
    exact merge_path found ▸ outputs _ List.mem_cons_self
  | embed sigDir paths =>
    refine leaves_for_each keeps_refl keeps_trans ?_ s
    intro path member t
    refine embed_package_keeps (whole path) ?_ t
    exact fun data signature here trusted =>
      holds data signature ⟨here ▸ List.mem_map_of_mem member, trusted⟩
  | checkFiles sigDir paths => exact reported_keeps s
  | usage => exact keeps_refl s

end OneCommand

/-- What happens on the machine: a command is run, or something else changes a file. -/
inductive Event where
  | run (process : Process) (argv : List PyStr)
  | outside (place : PyStr) (content : Except Raised Bytes)

def step (machine : Machine) (s : World) : Event → World
  | .run process argv => (main machine process argv s).2
  | .outside place content => s.put place content

def Event.Apart (machine : Machine) (p : PyStr) : Event → Prop
  | .run process argv => UgcPackageHistory.Apart machine process (request argv) p
  | .outside place _ => place ≠ p

def Event.Vouches (machine : Machine) (p : PyStr) (data signature : Bytes) : Event → Prop
  | .run process argv =>
    UgcPackageHistory.Vouches machine process p data signature (request argv)
  | .outside _ _ => False

section Sessions
variable {machine : Machine} {p : PyStr} {events : List Event}

theorem step_keeps {vouched : Bytes → Bytes → Prop} {event : Event}
    (apart : event.Apart machine p)
    (holds : ∀ data signature, event.Vouches machine p data signature → vouched data signature)
    (s : World) : KeepsPackage machine vouched p s (step machine s event) := by
  cases event with
  | run process argv => exact perform_keeps apart holds s
  | outside place content => exact keeps_of_files (put_other s (Ne.symm apart) content)

theorem session_keeps {vouched : Bytes → Bytes → Prop}
    (apart : ∀ event ∈ events, event.Apart machine p)
    (holds : ∀ event ∈ events, ∀ data signature,
      event.Vouches machine p data signature → vouched data signature) (s : World) :
    KeepsPackage machine vouched p s (run (step machine) s events) := by
  induction events generalizing s with
  | nil => exact keeps_refl s
  | cons event events ih =>
    obtain ⟨here, others⟩ := List.forall_mem_cons.mp apart
    obtain ⟨first, later⟩ := List.forall_mem_cons.mp holds
    exact keeps_trans s (step machine s event) _ (step_keeps here first s) (ih others later _)

/-- Over any session the package is as it was, or it has the list of its entries and a
    signature appended, for which a command of the session vouches. -/
theorem package_history (apart : ∀ event ∈ events, event.Apart machine p) (s : World) :
    KeepsPackage machine
      (fun data signature => ∃ event ∈ events, event.Vouches machine p data signature) p s
      (run (step machine) s events) := by
  refine session_keeps apart ?_ s
  exact fun event member data signature held => ⟨event, member, held⟩

/-- The package has an entry with the name of a list or of a signature. -/
def SignedAt (machine : Machine) (s : World) (p : PyStr) : Prop :=
  ∃ data infos, s.files p = .ok data ∧ machine.zip.infolist data = .ok infos ∧
    ∃ info ∈ infos, info.filename = listName ∨ info.filename = signatureName

theorem signed_kept {vouched : Bytes → Bytes → Prop} {s t : World} (signed : SignedAt machine s p)
    (kept : KeepsPackage machine vouched p s t) : t.files p = s.files p := by
  obtain ⟨data, infos, opened, read, info, member, named⟩ := signed
  rcases kept with same | ⟨old, new, before, _, hashes, _, _, hashed, -⟩
  · exact same
  · cases opened.symm.trans before
    exact absurd hashed (signed_not_hashed read member named hashes)

theorem signed_of_same {s t : World} (signed : SignedAt machine s p)
    (same : t.files p = s.files p) : SignedAt machine t p := by
  obtain ⟨data, infos, opened, others⟩ := signed
  exact ⟨data, infos, same.trans opened, others⟩

section Naming
variable {process : Process} {path : PyStr} {s t : World}

theorem sign_nupkg_hashed (done : Ends (signNupkg machine process path) s ⟨⟩ t) :
    ∃ data hashes, s.files (machine.place path) = .ok data ∧ PackageHashes machine data hashes := by
  obtain ⟨hashes, _, hashed, -⟩ := bind_ends_iff.mp done
  obtain ⟨⟨data, opened, found⟩, -⟩ := nupkg_hashes_ends_iff.mp hashed
  exact ⟨data, hashes, opened, found⟩

theorem list_package_hashed {outDir : PyStr}
    (done : Ends (listPackage machine process outDir path) s ⟨⟩ t) :
    ∃ data hashes, s.files (machine.place path) = .ok data ∧ PackageHashes machine data hashes := by
  obtain ⟨hashes, _, hashed, -⟩ := bind_ends_iff.mp done
  obtain ⟨⟨data, opened, found⟩, -⟩ := nupkg_hashes_ends_iff.mp hashed
  exact ⟨data, hashes, opened, found⟩

theorem embed_package_hashed {sigDir : PyStr}
    (done : Ends (embedPackage machine process sigDir path) s ⟨⟩ t) :
    ∃ data hashes, s.files (machine.place path) = .ok data ∧ PackageHashes machine data hashes := by
  obtain ⟨_, _, list, rest⟩ := bind_ends_iff.mp done
  obtain ⟨-, rfl⟩ := reading_ends_iff.mp list
  obtain ⟨_, _, signature, later⟩ := bind_ends_iff.mp rest
  obtain ⟨-, rfl⟩ := reading_ends_iff.mp signature
  obtain ⟨hashes, _, hashed, -⟩ := bind_ends_iff.mp later
  obtain ⟨⟨data, opened, found⟩, -⟩ := nupkg_hashes_ends_iff.mp hashed
  exact ⟨data, hashes, opened, found⟩

theorem signed_not_passed (signed : SignedAt machine s (machine.place path)) :
    ¬ ∃ data hashes, s.files (machine.place path) = .ok data ∧
      PackageHashes machine data hashes := by
  rintro ⟨found, hashes, opened, hashed⟩
  obtain ⟨data, infos, here, read, info, member, named⟩ := signed
  cases here.symm.trans opened
  exact signed_not_hashed read member named hashes hashed

/-- A loop over packages does not pass a signed one. -/
theorem loop_stops {body : PyStr → Command Unit} {paths : List PyStr}
    (keeps : ∀ path ∈ paths, ∀ s,
      Leaves (body path) s (KeepsPackage machine (fun _ _ => True) p s))
    (hashed : ∀ path s t, Ends (body path) s ⟨⟩ t → ∃ data hashes,
      s.files (machine.place path) = .ok data ∧ PackageHashes machine data hashes)
    (member : path ∈ paths) (here : machine.place path = p) (signed : SignedAt machine s p) :
    ∃ e u, Stops (forEach body paths) s e u := by
  rcases ends_or_stops (forEach body paths) s with ⟨_, done⟩ | ⟨e, stops⟩
  · obtain ⟨before, after, rfl⟩ := List.append_of_mem member
    obtain ⟨u, passed, rest⟩ := passes_append.mp (for_each_ends_iff.mp done)
    cases rest with
    | cons first others =>
      have early : Leaves (forEach body before) s (KeepsPackage machine (fun _ _ => True) p s) :=
        leaves_for_each keeps_refl keeps_trans
          (fun q inside => keeps q (List.mem_append_left _ inside)) s
      rw [Leaves, for_each_ends_iff.mpr passed] at early
      have still := signed_of_same signed (signed_kept signed early)
      exact absurd (hashed path u _ first) (signed_not_passed (here ▸ still))
  · exact ⟨e, _, stops⟩

end Naming

/-- A command that is given a signed package stops. -/
theorem perform_stops {process : Process} {request : Request} {path : PyStr} {s : World}
    (apart : Apart machine process request p) (member : path ∈ request.packages)
    (here : machine.place path = p) (signed : SignedAt machine s p) :
    ∃ e u, Stops (perform machine process request) s e u := by
  obtain ⟨outputs, whole⟩ := apart
  cases request with
  | nupkg paths =>
    exact loop_stops (fun q _ => sign_nupkg_keeps (whole q) fun _ _ _ _ => trivial)
      (fun _ _ _ => sign_nupkg_hashed) member here signed
  | listNupkg outDir paths =>
    refine loop_stops ?_ (fun _ _ _ => list_package_hashed) member here signed
    exact fun q inside => list_package_keeps (outputs _ (List.mem_map_of_mem inside))
  | embed sigDir paths =>
    exact loop_stops (fun q _ => embed_package_keeps (whole q) fun _ _ _ _ => trivial)
      (fun _ _ _ => embed_package_hashed) member here signed
  | files | listFiles | merge | checkFiles | usage => cases member

/-- A package that is signed stays as it is over any session, and every command that is
    given it stops and leaves it alone. -/
theorem signed_package_closed (apart : ∀ event ∈ events, event.Apart machine p) {s : World}
    (signed : SignedAt machine s p) :
    (run (step machine) s events).files p = s.files p ∧
      ∀ process argv path, path ∈ (request argv).packages → machine.place path = p →
        Apart machine process (request argv) p →
        ∃ e u, Stops (main machine process argv) (run (step machine) s events) e u ∧
          u.files p = s.files p := by
  have free : ∀ event ∈ events, ∀ data signature, event.Vouches machine p data signature → True :=
    fun _ _ _ _ _ => trivial
  have kept := signed_kept signed (session_keeps apart free s)
  refine ⟨kept, ?_⟩
  intro process argv path member here clear
  have still := signed_of_same signed kept
  have after := signed_kept still (perform_keeps clear (fun _ _ held => held) _)
  have stops := perform_stops clear member here still
  obtain ⟨e, u, stops⟩ := stops
  rw [show perform machine process (request argv) _ = _ from stops] at after
  exact ⟨e, u, stops, after.trans kept⟩

end Sessions

theorem fixed_apart (argv : List PyStr) (none : (request argv).outputs fixedProcess = []) :
    Apart fixedMachine fixedProcess (request argv) (text "p") where
  outputs := by
    rw [none]
    exact fun out member => absurd member List.not_mem_nil
  whole _ _ _ _ _ broken := nomatch broken

theorem package_history_sample :
    KeepsPackage fixedMachine
      (fun data signature => ∃ event ∈ [Event.run fixedProcess [text "nupkg", text "p"]],
        event.Vouches fixedMachine (text "p") data signature)
      (text "p") (fixedWorld [(text "a", [1])])
      (run (step fixedMachine) (fixedWorld [(text "a", [1])])
        [.run fixedProcess [text "nupkg", text "p"]]) := by
  have apart : ∀ event ∈ [Event.run fixedProcess [text "nupkg", text "p"]],
      event.Apart fixedMachine (text "p") :=
    List.forall_mem_singleton.mpr (fixed_apart [text "nupkg", text "p"] (by decide +kernel))
  exact package_history apart (fixedWorld [(text "a", [1])])

theorem signed_package_sample :
    (run (step fixedMachine) (fixedWorld [(listName, [])])
        [.run fixedProcess [text "nupkg", text "p"]]).files (text "p") =
        .ok (packed [(listName, [])]) ∧
      ∃ e u, Stops (main fixedMachine fixedProcess [text "nupkg", text "p"])
        (run (step fixedMachine) (fixedWorld [(listName, [])])
          [.run fixedProcess [text "nupkg", text "p"]]) e u ∧
        u.files (text "p") = .ok (packed [(listName, [])]) := by
  have apart := fixed_apart [text "nupkg", text "p"] (by decide +kernel)
  have session : ∀ event ∈ [Event.run fixedProcess [text "nupkg", text "p"]],
      event.Apart fixedMachine (text "p") := List.forall_mem_singleton.mpr apart
  have signed : SignedAt fixedMachine (fixedWorld [(listName, [])]) (text "p") :=
    ⟨_, _, rfl, infolist_packed _, _, List.mem_cons_self, Or.inl rfl⟩
  obtain ⟨kept, stops⟩ := signed_package_closed session signed
  refine ⟨kept, stops fixedProcess [text "nupkg", text "p"] (text "p") ?_ rfl apart⟩
  exact List.mem_cons_self

end UgcPackageHistory
