import Ugc.SignPackage
import Mathlib.Data.Finmap

/-!
A list stands for one set of files. Its text gives back the entries it was made from,
whatever the names look like, and does not depend on the order in which they were
recorded. The comparison of `check_files` passes exactly for the files of the list.
-/
namespace UgcSignedLists
open LineTexts PythonStrings KeyedFolds UgcSignPackage

theorem digit_no_break {c : CodePoint} (digit : isHexDigit c = true) : isLineBreak c = false := by
  simp only [isHexDigit, isLineBreak, Bool.or_eq_true, decide_eq_true_eq, Bool.or_eq_false_iff,
    decide_eq_false_iff_not, beq_eq_false_iff_ne] at digit ⊢
  omega

theorem entry_line_inj {entry other : Entry} (same : entryLine entry = entryLine other) :
    entry = other := by
  obtain ⟨name, digest⟩ := entry
  obtain ⟨otherName, otherDigest⟩ := other
  simp only [entryLine, List.append_assoc] at same
  obtain ⟨hex, rest⟩ := List.append_inj same (digest.size.trans otherDigest.size.symm)
  obtain rfl := Digest.ext hex
  obtain rfl := List.append_cancel_left rest
  rfl

theorem listed_entries_perm (hashes : Hashes) : (listedEntries hashes).Perm hashes.entries := by
  have found : ∀ entry ∈ hashes.entries,
      ((hashes.lookup entry.1).map fun digest => (⟨entry.1, digest⟩ : Entry)) = some entry := by
    intro entry member
    have value : hashes.lookup entry.1 = some entry.2 := AList.mem_lookup_iff.mpr member
    rw [value]
    rfl
  have sortedNames : (sorted (names hashes)).Perm hashes.keys :=
    (List.perm_insertionSort _ _).trans (List.reverse_perm _)
  refine (sortedNames.filterMap _).trans (List.Perm.of_eq ?_)
  rw [AList.keys, List.keys, List.filterMap_map]
  exact (List.filterMap_congr found).trans List.filterMap_some

theorem listed_entries_congr {hashes others : Hashes} (perm : hashes.entries.Perm others.entries) :
    listedEntries hashes = listedEntries others := by
  have order : sorted (names hashes) = sorted (names others) :=
    sorted_perm ((List.reverse_perm _).trans
      ((perm.map Sigma.fst).trans (List.reverse_perm _).symm))
  have same : ∀ name, hashes.lookup name = others.lookup name := fun name =>
    AList.perm_lookup perm
  simp only [listedEntries, order, same]

theorem line_feed_breaks : isLineBreak lineFeed = true := by decide

/-- What stands in front of a name holds no line break. -/
theorem front_unbroken (digest : Digest) :
    ∀ c ∈ digest.hex ++ text "  ", isLineBreak c = false := by
  have spaces : ((text "  ").all fun c => !isLineBreak c) = true := by decide +kernel
  intro c member
  rcases List.mem_append.mp member with digit | space
  · exact digit_no_break (digest.digits c digit)
  · simpa using List.all_eq_true.mp spaces c space

theorem entry_line_plain {entry : Entry} {c : CodePoint} (breaks : isLineBreak c = true)
    (plain : c ∉ entry.1) : c ∉ entryLine entry := by
  intro member
  rcases List.mem_append.mp member with front | name
  · exact absurd ((front_unbroken entry.2 c front).symm.trans breaks) Bool.false_ne_true
  · exact plain name

theorem mem_of_listed {hashes : Hashes} {entry : Entry} (listed : entry ∈ listedEntries hashes) :
    entry.1 ∈ hashes :=
  AList.mem_keys.mpr (List.mem_keys_of_mem ((listed_entries_perm hashes).mem_iff.mp listed))

/-- The text of a list determines its entries. -/
theorem listing_inj {hashes others : Hashes} (plain : ∀ name ∈ hashes, lineFeed ∉ name)
    (plains : ∀ name ∈ others, lineFeed ∉ name) (same : listing hashes = listing others) :
    hashes.entries.Perm others.entries := by
  have unbroken : ∀ (made : Hashes), (∀ name ∈ made, lineFeed ∉ name) →
      ∀ line ∈ (listedEntries made).map entryLine, lineFeed ∉ line := by
    intro made free line member
    obtain ⟨entry, listed, rfl⟩ := List.mem_map.mp member
    exact entry_line_plain line_feed_breaks (free entry.1 (mem_of_listed listed))
  have lines := terminated_inj (unbroken hashes plain) (unbroken others plains) same
  have entries := List.map_injective_iff.mpr (fun _ _ => entry_line_inj) lines
  exact (listed_entries_perm hashes).symm.trans (entries ▸ listed_entries_perm others)

/-- What is a name for `list_text`: no line feed, no carriage return, no surrogate. -/
def Accepted (name : PyStr) : Prop :=
  lineFeed ∉ name ∧ carriageReturn ∉ name ∧ ∀ c ∈ name, (scalar? c).isSome = true

theorem digit_scalar {c : CodePoint} (digit : isHexDigit c = true) :
    (scalar? c).isSome = true := by
  have low : c.val < 0xd800 := by
    simp only [isHexDigit, Bool.or_eq_true, decide_eq_true_eq] at digit
    omega
  rw [scalar?, dif_pos (Or.inl low)]
  rfl

theorem mem_listing {hashes : Hashes} {c : CodePoint} :
    c ∈ listing hashes ↔ ∃ entry ∈ hashes.entries, c ∈ entryLine entry ∨ c = lineFeed := by
  simp only [listing, terminated, List.mem_flatMap, List.mem_map, List.mem_append,
    List.mem_singleton, exists_exists_and_eq_and, (listed_entries_perm hashes).mem_iff]

theorem listing_encodes_iff {hashes : Hashes} :
    (∃ data, encode (listing hashes) = .ok data) ↔
      ∀ name ∈ hashes, ∀ c ∈ name, (scalar? c).isSome = true := by
  have spaces : ((text "  ").all fun c => (scalar? c).isSome) = true := by decide +kernel
  rw [encodes_iff]
  constructor
  · intro whole name member c inside
    obtain ⟨entry, found, rfl⟩ := List.mem_map.mp (AList.mem_keys.mp member)
    exact whole c (mem_listing.mpr ⟨entry, found, Or.inl (List.mem_append_right _ inside)⟩)
  · intro whole c inside
    obtain ⟨entry, found, line | rfl⟩ := mem_listing.mp inside
    · rcases List.mem_append.mp line with front | name
      · rcases List.mem_append.mp front with digit | space
        · exact digit_scalar (entry.2.digits c digit)
        · exact List.all_eq_true.mp spaces c space
      · exact whole entry.1 (AList.mem_keys.mpr (List.mem_keys_of_mem found)) c name
    · decide +kernel

variable {host : Host}

theorem listable_iff {hashes : Hashes} :
    (∃ data, listText host hashes = .ok data) ↔ ∀ name ∈ hashes, Accepted name := by
  simp only [list_text_ok_iff, exists_and_left, listing_encodes_iff]
  constructor
  · rintro ⟨plain, whole⟩ name member
    exact ⟨(plain name member).1, (plain name member).2, whole name member⟩
  · intro accepted
    exact ⟨fun name member => ⟨(accepted name member).1, (accepted name member).2.1⟩,
      fun name member => (accepted name member).2.2⟩

theorem list_text_inj {hashes others : Hashes} {data : Bytes}
    (one : listText host hashes = .ok data) (other : listText host others = .ok data) :
    hashes.entries.Perm others.entries := by
  obtain ⟨plain, encoded⟩ := (list_text_ok_iff host).mp one
  obtain ⟨plains, encodes⟩ := (list_text_ok_iff host).mp other
  exact listing_inj (fun name member => (plain name member).1)
    (fun name member => (plains name member).1) (encode_inj encoded encodes)

theorem list_text_congr {hashes others : Hashes} (perm : hashes.entries.Perm others.entries)
    {data : Bytes} (listed : listText host hashes = .ok data) :
    listText host others = .ok data := by
  obtain ⟨plain, encoded⟩ := (list_text_ok_iff host).mp listed
  rw [list_text_ok_iff, listing, ← listed_entries_congr perm]
  exact ⟨fun name member => plain name ((AList.mem_of_perm perm).mpr member), encoded⟩

/-- The entries of a map are the base names and the digests of the files at the paths. -/
structure Describes (host : Host) (paths : List PyStr) (hashes : Hashes) : Prop where
  readable : ∀ path ∈ paths, ∃ entry, Recorded host path entry
  exact : ∀ entry, entry ∈ hashes.entries ↔ ∃ path ∈ paths, Recorded host path entry

theorem describes_perm_paths {paths order : List PyStr} {hashes : Hashes}
    (perm : order.Perm paths) (describes : Describes host paths hashes) :
    Describes host order hashes where
  readable path member := describes.readable path (perm.mem_iff.mp member)
  exact entry := by
    rw [describes.exact entry]
    simp only [perm.mem_iff]

theorem describes_perm {paths : List PyStr} {hashes others : Hashes}
    (perm : hashes.entries.Perm others.entries) (describes : Describes host paths hashes) :
    Describes host paths others where
  readable := describes.readable
  exact entry := by
    rw [← perm.mem_iff]
    exact describes.exact entry

theorem describes_unique {paths : List PyStr} {hashes others : Hashes}
    (one : Describes host paths hashes) (other : Describes host paths others) :
    hashes.entries.Perm others.entries := by
  refine (List.perm_ext_iff_of_nodup hashes.nodupKeys.nodup others.nodupKeys.nodup).mpr ?_
  intro entry
  rw [one.exact entry, other.exact entry]

theorem recorded_keys {paths : List PyStr} {added : List Entry}
    (each : List.Forall₂ (Recorded host) paths added) : added.keys = paths.map basename := by
  induction each with
  | nil => rfl
  | cons here _ ih => rw [List.keys_cons, here.1, ih, List.map_cons]

theorem recorded_unique {path : PyStr} {entry other : Entry} (one : Recorded host path entry)
    (another : Recorded host path other) : entry = other := by
  obtain ⟨name, content, opened, digest⟩ := one
  obtain ⟨otherName, otherContent, reopened, otherDigest⟩ := another
  cases opened.symm.trans reopened
  exact Sigma.ext (name.trans otherName.symm) (heq_of_eq (digest.trans otherDigest.symm))

/-- What `file_hashes` returns describes the files, whose base names are distinct. -/
theorem file_hashes_describes {paths : List PyStr} {hashes : Hashes}
    (hashed : fileHashes host paths = .ok hashes) :
    (paths.map basename).Nodup ∧ Describes host paths hashes := by
  obtain ⟨added, each, same⟩ := (file_hashes_ok_iff host).mp hashed
  have inside : ∀ entry, entry ∈ hashes.entries ↔ entry ∈ added := fun entry => by
    rw [same, List.mem_reverse]
  refine ⟨?_, ?_, ?_⟩
  · have keys := hashes.nodupKeys
    rw [same, List.perm_nodupKeys (List.reverse_perm added)] at keys
    exact recorded_keys each ▸ keys
  · intro path member
    obtain ⟨entry, _, recorded⟩ := related_of_left each path member
    exact ⟨entry, recorded⟩
  · intro entry
    rw [inside]
    constructor
    · exact related_of_right each entry
    · rintro ⟨path, member, recorded⟩
      obtain ⟨other, found, also⟩ := related_of_left each path member
      exact recorded_unique also recorded ▸ found

theorem file_hashes_of_distinct {paths : List PyStr} (distinct : (paths.map basename).Nodup)
    (readable : ∀ path ∈ paths, ∃ entry, Recorded host path entry) :
    ∃ hashes, fileHashes host paths = .ok hashes := by
  obtain ⟨added, each⟩ := exists_related readable
  have nodup : added.reverse.NodupKeys := by
    rw [List.perm_nodupKeys (List.reverse_perm added), List.NodupKeys, recorded_keys each]
    exact distinct
  exact ⟨⟨added.reverse, nodup⟩, (file_hashes_ok_iff host).mpr ⟨added, each, rfl⟩⟩

/-- `check_files` passes its comparison. -/
def Passes (host : Host) (sigDir : PyStr) (paths : List PyStr) : Prop :=
  ∃ read, compareFiles host sigDir paths = .ok read

theorem compare_files_iff {sigDir : PyStr} {paths : List PyStr} {data signature : Bytes} :
    compareFiles host sigDir paths = .ok (data, signature) ↔
      host.openRead (join sigDir listName) = .ok data ∧
      host.openRead (join sigDir signatureName) = .ok signature ∧
      (paths.map basename).Nodup ∧
      ∃ hashes, Describes host paths hashes ∧ listText host hashes = .ok data := by
  rw [compare_files_ok_iff]
  refine and_congr_right fun _ => and_congr_right fun _ => ?_
  constructor
  · rintro ⟨hashes, hashed, listed⟩
    obtain ⟨distinct, describes⟩ := file_hashes_describes hashed
    exact ⟨distinct, hashes, describes, listed⟩
  · rintro ⟨distinct, hashes, describes, listed⟩
    obtain ⟨made, hashed⟩ := file_hashes_of_distinct distinct describes.readable
    have same := describes_unique describes (file_hashes_describes hashed).2
    exact ⟨made, hashed, list_text_congr same listed⟩

theorem compare_files_perm {sigDir : PyStr} {paths order : List PyStr}
    (perm : order.Perm paths) (read : Bytes × Bytes) :
    compareFiles host sigDir order = .ok read ↔ compareFiles host sigDir paths = .ok read := by
  have described : ∀ hashes, Describes host order hashes ↔ Describes host paths hashes :=
    fun hashes => ⟨describes_perm_paths perm.symm, describes_perm_paths perm⟩
  obtain ⟨data, signature⟩ := read
  simp only [compare_files_iff, (perm.map basename).nodup_iff, described]

theorem check_files_perm {sigDir : PyStr} {paths order : List PyStr} (perm : order.Perm paths)
    (printed : List PyStr) :
    checkFiles host sigDir order = .ok printed ↔ checkFiles host sigDir paths = .ok printed := by
  simp only [check_files_ok_iff, compare_files_perm perm, perm.length_eq]

section Comparison
variable {sigDir : PyStr} {paths : List PyStr} {data signature : Bytes}
  (list : read host (join sigDir listName) = .ok data)
  (signed : read host (join sigDir signatureName) = .ok signature)
include list signed

theorem passes_iff : Passes host sigDir paths ↔ (paths.map basename).Nodup ∧
    ∃ hashes, Describes host paths hashes ∧ listText host hashes = .ok data := by
  constructor
  · rintro ⟨⟨found, other⟩, compared⟩
    obtain ⟨opened, _, agrees⟩ := compare_files_iff.mp compared
    cases ((read_ok_iff host).mp list).symm.trans opened
    exact agrees
  · intro agrees
    exact ⟨(data, signature), compare_files_iff.mpr
      ⟨(read_ok_iff host).mp list, (read_ok_iff host).mp signed, agrees⟩⟩

/-- The comparison passes for the files that `list_files` would write the same list of. -/
theorem passes_iff_list_files (outDir : PyStr) : Passes host sigDir paths ↔
    ∃ written, listFiles host outDir paths = .ok written ∧ written.data = data := by
  constructor
  · rintro ⟨⟨found, other⟩, compared⟩
    obtain ⟨opened, _, hashes, hashed, made⟩ := (compare_files_ok_iff host).mp compared
    cases ((read_ok_iff host).mp list).symm.trans opened
    exact ⟨_, (list_files_ok_iff host).mpr ⟨hashes, data, hashed, made, rfl⟩, rfl⟩
  · rintro ⟨written, done, rfl⟩
    obtain ⟨hashes, found, hashed, made, rfl⟩ := (list_files_ok_iff host).mp done
    exact ⟨_, (compare_files_ok_iff host).mpr
      ⟨(read_ok_iff host).mp list, (read_ok_iff host).mp signed, hashes, hashed, made⟩⟩

/-- For the list of a map: no file is missing, added, renamed or altered. -/
theorem passes_listed_iff {listed : Hashes} (encoded : listText host listed = .ok data) :
    Passes host sigDir paths ↔
      (paths.map basename).Nodup ∧ Describes host paths listed := by
  rw [passes_iff list signed]
  refine and_congr_right fun _ => ?_
  constructor
  · rintro ⟨hashes, describes, same⟩
    exact describes_perm (list_text_inj same encoded) describes
  · intro describes
    exact ⟨listed, describes, encoded⟩

end Comparison

/-- For every host: two lists agree exactly if their maps do, and the comparison of
    `check_files` passes exactly for files with distinct base names whose names and
    digests the list encodes, whatever the order of the paths. -/
theorem signed_list_binds (host : Host) :
    (∀ hashes others data otherData, listText host hashes = .ok data →
      listText host others = .ok otherData →
      (data = otherData ↔ hashes.toFinmap = others.toFinmap)) ∧
    (∀ sigDir paths data signature, read host (join sigDir listName) = .ok data →
      read host (join sigDir signatureName) = .ok signature →
      (Passes host sigDir paths ↔ (paths.map basename).Nodup ∧
        ∃ hashes, Describes host paths hashes ∧ listText host hashes = .ok data) ∧
      ∀ listed, listText host listed = .ok data →
        (Passes host sigDir paths ↔
          (paths.map basename).Nodup ∧ Describes host paths listed)) ∧
    ∀ sigDir paths order, List.Perm order paths →
      (Passes host sigDir order ↔ Passes host sigDir paths) ∧
      ∀ printed, checkFiles host sigDir order = .ok printed ↔
        checkFiles host sigDir paths = .ok printed := by
  refine ⟨?_, ?_, ?_⟩
  · intro hashes others data otherData one other
    rw [AList.toFinmap_eq]
    constructor
    · rintro rfl
      exact list_text_inj one other
    · intro same
      exact Except.ok.inj ((list_text_congr same one).symm.trans other)
  · intro sigDir paths data signature list signed
    exact ⟨passes_iff list signed, fun listed encoded => passes_listed_iff list signed encoded⟩
  · intro sigDir paths order perm
    exact ⟨exists_congr (compare_files_perm perm), check_files_perm perm⟩

/-- A list of one file, beside an empty signature. -/
def oneFile : Hashes := AList.singleton (text "a") zeroDigest

def oneFileHost : Host := fixedHost fun path =>
  if path = join [] listName then encode (listing oneFile) else .ok []

theorem one_file_described : Describes oneFileHost [text "dir/a"] oneFile where
  readable path member := by
    obtain rfl := List.mem_singleton.mp member
    exact ⟨⟨_, zeroDigest⟩, rfl, [], by decide +kernel, rfl⟩
  exact entry := by
    have base : basename (text "dir/a") = text "a" := by decide +kernel
    simp only [List.mem_singleton, exists_eq_left]
    constructor
    · intro member
      obtain rfl := List.mem_singleton.mp member
      exact ⟨base.symm, [], by decide +kernel, rfl⟩
    · rintro ⟨name, content, _, digest⟩
      exact List.mem_singleton.mpr (Sigma.ext (name.trans base) (heq_of_eq digest))

theorem signed_list_binds_sample : Passes oneFileHost [] [text "dir/a"] := by
  obtain ⟨data, listed⟩ : ∃ data, listText oneFileHost oneFile = .ok data :=
    exists_of_isOk (by decide +kernel)
  have opens : ∀ path, oneFileHost.openRead path =
      if path = join [] listName then encode (listing oneFile) else .ok [] := fun path => rfl
  have list : read oneFileHost (join [] listName) = .ok data := by
    rw [read_ok_iff, opens, if_pos rfl]
    exact ((list_text_ok_iff oneFileHost).mp listed).2
  have differ : join [] signatureName ≠ join [] listName := by decide +kernel
  have signed : read oneFileHost (join [] signatureName) = .ok [] := by
    rw [read_ok_iff, opens, if_neg differ]
  exact (((signed_list_binds oneFileHost).2.1 [] _ data [] list signed).2 oneFile listed).mpr
    ⟨by decide +kernel, one_file_described⟩

end UgcSignedLists
