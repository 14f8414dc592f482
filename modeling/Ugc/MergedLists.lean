import Ugc.SignedLists

/-!
Lists of several jobs merged into one. `list_text` refuses two characters in a name,
`merge` breaks the text of a list at every character that `str.splitlines` takes for
the end of a line. The two agree exactly for names that hold none of the others.
-/
namespace UgcMergedLists
open LineTexts PythonStrings KeyedFolds UgcSignPackage UgcSignedLists

/-- The path of a list and the map it was made from. -/
abbrev Job := PyStr × Hashes

def Unbroken (name : PyStr) : Prop := ∀ c ∈ name, isLineBreak c = false

variable {host : Host}

def Listed (host : Host) (job : Job) : Prop :=
  ∃ data, listText host job.2 = .ok data ∧ host.openRead job.1 = .ok data

/-- The list of a map, written where the list of a release belongs. -/
def Writes (host : Host) (outDir : PyStr) (listPaths : List PyStr) (whole : Hashes) : Prop :=
  ∃ written, merge host outDir listPaths = .ok written ∧ written.path = join outDir listName ∧
    listText host whole = .ok written.data

def Fails (host : Host) (outDir : PyStr) (listPaths : List PyStr) : Prop :=
  ∃ raised, merge host outDir listPaths = .error raised

def NoneShared (jobs : List Job) : Prop := (jobs.map Prod.snd).Pairwise AList.Disjoint

/-- Maps without a common name merge to the list of their union in any order, maps with
    one do not merge, and each list alone gives back its map. -/
structure MergeAgrees (host : Host) (outDir : PyStr) (jobs : List Job) : Prop where
  union : NoneShared jobs → ∀ order, List.Perm order jobs →
    ∀ whole : Hashes, whole.toFinmap = (unionAll (jobs.map Prod.snd)).toFinmap →
      Writes host outDir (order.map Prod.fst) whole
  shared : ¬ NoneShared jobs → ∀ order, List.Perm order jobs →
    Fails host outDir (order.map Prod.fst)
  alone : ∀ job ∈ jobs, Writes host outDir [job.1] job.2

theorem front_length (digest : Digest) : (digest.hex ++ text "  ").length = 66 := by
  have two : (text "  ").length = 2 := by decide +kernel
  rw [List.length_append, digest.size, two]

theorem line_name (entry : Entry) : (entryLine entry).drop 66 = entry.1 :=
  List.drop_left' (front_length entry.2)

theorem opening_line (entry : Entry) :
    opening isLineBreak (entryLine entry) =
      entryLine ⟨opening isLineBreak entry.1, entry.2⟩ :=
  opening_append (front_unbroken entry.2) entry.1

theorem match_entry_line {entry : Entry} (named : entry.1 ≠ []) (plain : lineFeed ∉ entry.1) :
    matchEntry (entryLine entry) = some entry := by
  obtain ⟨name, digest⟩ := entry
  have two : (text "  ").length = 2 := by decide +kernel
  have hex : (entryLine ⟨name, digest⟩).take 64 = digest.hex := by
    rw [entryLine, List.append_assoc, List.take_left' digest.size]
  have gap : ((entryLine ⟨name, digest⟩).drop 64).take 2 = text "  " := by
    rw [entryLine, List.append_assoc, List.drop_left' digest.size, List.take_left' two]
  simp only [matchEntry, hex, gap, line_name]
  rw [dif_pos ⟨digest.size, digest.digits, trivial, named, plain⟩]

/-- An entry is read from a line only where the line is its own. -/
theorem match_entry_some {line : PyStr} {entry : Entry} (found : matchEntry line = some entry) :
    entry.1 = line.drop 66 := by
  unfold matchEntry at found
  split at found
  · cases found
    rfl
  · cases found

theorem listing_splits {hashes : Hashes} (accepted : ∀ name ∈ hashes, Accepted name) :
    splitlines (listing hashes) = brokenLines isLineBreak (listing hashes) := by
  refine splitlines_plain fun member => ?_
  obtain ⟨entry, found, line | feed⟩ := mem_listing.mp member
  · have name := accepted entry.1 (AList.mem_keys.mpr (List.mem_keys_of_mem found))
    exact entry_line_plain (by decide) name.2.1 line
  · exact absurd feed (by decide)

theorem accepted_of_listed {job : Job} (listed : Listed host job) :
    ∀ name ∈ job.2, Accepted name :=
  listable_iff.mp (listed.imp fun _ => And.left)

/-- What the loop of `merge` reads from the list of a map. -/
theorem reads_listed {job : Job} (listed : Listed host job) (added : List Entry) :
    ReadsList host job.1 added ↔
      List.Forall₂ (fun line entry => matchEntry line = some entry)
        (brokenLines isLineBreak (listing job.2)) added := by
  have splits := listing_splits (accepted_of_listed listed)
  obtain ⟨data, made, opened⟩ := listed
  have decoded := decode_encode ((list_text_ok_iff host).mp made).2
  constructor
  · rintro ⟨found, text, reopened, redecoded, matched⟩
    cases opened.symm.trans reopened
    cases decoded.symm.trans redecoded
    exact splits ▸ matched
  · intro matched
    exact ⟨data, listing job.2, opened, decoded, splits.symm ▸ matched⟩

section Read
variable {job : Job} {added : List Entry} (listed : Listed host job)
  (reads : ReadsList host job.1 added)
include listed reads

theorem reads_unbroken : ∀ entry ∈ added, Unbroken entry.1 := by
  intro entry member c inside
  obtain ⟨line, broken, found⟩ :=
    related_of_right ((reads_listed listed added).mp reads) entry member
  rw [match_entry_some found] at inside
  exact broken_lines_unbroken _ line broken c (List.mem_of_mem_drop inside)

/-- Whatever stands in a name, what stands before its first break is read as a name. -/
theorem reads_openings : ∀ name ∈ job.2, opening isLineBreak name ∈ added.keys := by
  intro name member
  obtain ⟨entry, found, rfl⟩ := List.mem_map.mp (AList.mem_keys.mp member)
  have line : entryLine entry ∈ (listedEntries job.2).map entryLine :=
    List.mem_map_of_mem ((listed_entries_perm job.2).mem_iff.mpr found)
  obtain ⟨other, read, matched⟩ := related_of_left ((reads_listed listed added).mp reads) _
    (opening_mem line_feed_breaks line)
  have same : other.1 = opening isLineBreak entry.1 := by
    rw [match_entry_some matched, opening_line, line_name]
  exact same ▸ List.mem_keys_of_mem read

end Read

theorem entry_line_unbroken {entry : Entry} (clean : Unbroken entry.1) :
    Unbroken (entryLine entry) := by
  intro c inside
  rcases List.mem_append.mp inside with front | name
  · exact front_unbroken entry.2 c front
  · exact clean c name

/-- One name with a break in it reads as two, the second with a digest of its own. -/
theorem forged_entries {entry forged : Entry} {c : CodePoint} (clean : Unbroken entry.1)
    (plain : Unbroken forged.1) (breaks : isLineBreak c = true) :
    brokenLines isLineBreak
        (terminated lineFeed [entryLine ⟨entry.1 ++ c :: entryLine forged, entry.2⟩]) =
      [entryLine entry, entryLine forged] := by
  have joined : entryLine ⟨entry.1 ++ c :: entryLine forged, entry.2⟩ =
      entryLine entry ++ c :: entryLine forged := by
    simp only [entryLine, List.append_assoc]
  rw [terminated_cons, joined, List.append_assoc, List.cons_append,
    broken_lines_first (entry_line_unbroken clean) breaks,
    broken_lines_first (entry_line_unbroken plain) line_feed_breaks]
  rfl

theorem reads_clean {job : Job} (listed : Listed host job) (named : [] ∉ job.2)
    (clean : ∀ name ∈ job.2, Unbroken name) :
    ReadsList host job.1 (listedEntries job.2) := by
  have accepted := accepted_of_listed listed
  have unbroken : ∀ line ∈ (listedEntries job.2).map entryLine, Unbroken line := by
    intro line member
    obtain ⟨entry, read, rfl⟩ := List.mem_map.mp member
    exact entry_line_unbroken (clean entry.1 (mem_of_listed read))
  rw [reads_listed listed, listing, broken_lines_terminated unbroken line_feed_breaks]
  refine List.forall₂_map_left_iff.mpr (List.forall₂_same.mpr fun entry read => ?_)
  have name := mem_of_listed read
  exact match_entry_line (fun empty => named (empty ▸ name)) (accepted entry.1 name).1

section Jobs
variable {outDir : PyStr} {jobs : List Job} (listed : ∀ job ∈ jobs, Listed host job)
include listed

/-- Lists that merge come from maps without a common name. -/
theorem merged_none_shared {written : Written}
    (done : merge host outDir (jobs.map Prod.fst) = .ok written) : NoneShared jobs := by
  obtain ⟨hashes, parts, data, each, same, _⟩ := (merge_ok_iff host).mp done
  have nodup := hashes.nodupKeys
  rw [same, List.perm_nodupKeys (List.reverse_perm _), List.nodupKeys_flatten,
    List.pairwise_map] at nodup
  have both := (List.forall₂_and_left jobs parts).mpr ⟨listed, List.forall₂_map_left_iff.mp each⟩
  rw [NoneShared, List.pairwise_map]
  refine pairwise_related both ?_ nodup.2
  rintro job part other otherPart ⟨one, reads⟩ ⟨another, alsoReads⟩ apart name here there
  exact apart (reads_openings one reads name (AList.mem_keys.mpr here))
    (reads_openings another alsoReads name (AList.mem_keys.mpr there))

theorem merge_union (named : ∀ job ∈ jobs, [] ∉ job.2)
    (clean : ∀ job ∈ jobs, ∀ name ∈ job.2, Unbroken name) (apart : NoneShared jobs)
    {whole : Hashes} (same : whole.toFinmap = (unionAll (jobs.map Prod.snd)).toFinmap) :
    Writes host outDir (jobs.map Prod.fst) whole := by
  have parts : (jobs.map fun job => listedEntries job.2).flatten.Perm
      ((jobs.map Prod.snd).map AList.entries).flatten := by
    refine List.Perm.flatten_congr ?_
    rw [List.map_map, List.forall₂_map_left_iff, List.forall₂_map_right_iff, List.forall₂_same]
    exact fun job _ => listed_entries_perm job.2
  have nodup : (jobs.map fun job => listedEntries job.2).flatten.reverse.NodupKeys := by
    rw [List.perm_nodupKeys (List.reverse_perm _), List.perm_nodupKeys parts]
    exact nodup_keys_iff_disjoint.mpr apart
  have union : (AList.mk _ nodup : Hashes).entries.Perm
      (unionAll (jobs.map Prod.snd)).entries :=
    (List.reverse_perm _).trans (parts.trans (union_all_perm apart).symm)
  have accepted : ∀ name ∈ (AList.mk _ nodup : Hashes), Accepted name := by
    intro name member
    obtain ⟨m, found, inside⟩ := mem_union_all.mp ((AList.mem_of_perm union).mp member)
    obtain ⟨job, here, rfl⟩ := List.mem_map.mp found
    exact accepted_of_listed (listed job here) name inside
  obtain ⟨data, made⟩ := listable_iff.mpr accepted
  refine ⟨_, (merge_ok_iff host).mpr ⟨_, _, data, ?_, rfl, made, rfl⟩, rfl, ?_⟩
  · rw [List.forall₂_map_left_iff, List.forall₂_map_right_iff, List.forall₂_same]
    exact fun job here => reads_clean (listed job here) (named job here) (clean job here)
  · exact list_text_congr (union.trans (AList.toFinmap_eq.mp same).symm) made

end Jobs

def pairOf (entry other : Entry) : Hashes :=
  (AList.singleton entry.1 entry.2).insert other.1 other.2

theorem mem_pair_of {entry other : Entry} {name : PyStr} :
    name ∈ pairOf entry other ↔ name = other.1 ∨ name = entry.1 := by
  rw [pairOf, AList.mem_insert, AList.mem_keys, AList.keys_singleton, List.mem_singleton]

/-- The list of one file with such a name merges to a list of two files. -/
theorem forged_merge {outDir path : PyStr} {entry forged : Entry} {c : CodePoint}
    (listed : Listed host (path, AList.singleton (entry.1 ++ c :: entryLine forged) entry.2))
    (clean : Unbroken entry.1) (plain : Unbroken forged.1) (breaks : isLineBreak c = true)
    (named : entry.1 ≠ [] ∧ forged.1 ≠ []) (apart : forged.1 ≠ entry.1) :
    Writes host outDir [path] (pairOf entry forged) := by
  have whole := accepted_of_listed listed _ (List.mem_singleton.mpr rfl)
  have parts : ∀ d, d ∈ entry.1 ∨ d ∈ forged.1 → d ∈ entry.1 ++ c :: entryLine forged := by
    rintro d (first | second)
    · exact List.mem_append_left _ first
    · exact List.mem_append_right _ (List.mem_cons_of_mem c (List.mem_append_right _ second))
  have within : ∀ name : PyStr, (∀ d ∈ name, d ∈ entry.1 ++ c :: entryLine forged) →
      Accepted name := fun name inside =>
    ⟨fun feed => whole.1 (inside _ feed), fun ret => whole.2.1 (inside _ ret),
      fun d member => whole.2.2 d (inside d member)⟩
  have first := within entry.1 fun d member => parts d (Or.inl member)
  have second := within forged.1 fun d member => parts d (Or.inr member)
  have reads : ReadsList host path [entry, forged] := by
    have one := List.perm_singleton.mp (listed_entries_perm
      (AList.singleton (entry.1 ++ c :: entryLine forged) entry.2))
    refine (reads_listed listed _).mpr ?_
    rw [listing, one, List.map_singleton, forged_entries clean plain breaks]
    exact .cons (match_entry_line named.1 first.1) (.cons (match_entry_line named.2 second.1) .nil)
  have fresh : forged.1 ∉ (AList.singleton entry.1 entry.2 : Hashes) := fun member =>
    apart (List.mem_singleton.mp (AList.mem_keys.mp member))
  have entries : (pairOf entry forged).entries = [[entry, forged]].flatten.reverse :=
    AList.entries_insert_of_notMem fresh
  have accepted : ∀ name ∈ pairOf entry forged, Accepted name := by
    intro name member
    rcases mem_pair_of.mp member with rfl | rfl
    · exact second
    · exact first
  obtain ⟨data, made⟩ := listable_iff.mpr accepted
  exact ⟨_, (merge_ok_iff host).mpr ⟨_, _, data, .cons reads .nil, entries, made, rfl⟩, rfl, made⟩

/-- A list alone gives back its map only if no name is broken. -/
theorem unbroken_of_alone {outDir : PyStr} {job : Job} (listed : Listed host job)
    (alone : Writes host outDir [job.1] job.2) : ∀ name ∈ job.2, Unbroken name := by
  obtain ⟨written, done, _, made⟩ := alone
  obtain ⟨hashes, parts, data, each, same, kept, rfl⟩ := (merge_ok_iff host).mp done
  obtain ⟨added, others, reads, empty, rfl⟩ := List.forall₂_cons_left_iff.mp each
  cases empty
  rw [List.flatten_singleton] at same
  intro name member
  obtain ⟨entry, found, rfl⟩ := List.mem_map.mp (AList.mem_keys.mp member)
  have read : entry ∈ hashes.entries := (list_text_inj kept made).mem_iff.mpr found
  rw [same, List.mem_reverse] at read
  exact reads_unbroken listed reads entry read

theorem none_shared_perm {jobs order : List Job} (perm : order.Perm jobs) :
    NoneShared order ↔ NoneShared jobs :=
  (perm.map Prod.snd).pairwise_iff fun apart key here there => apart key there here

theorem fails_of_not_ok {outDir : PyStr} {listPaths : List PyStr}
    (never : ∀ written, merge host outDir listPaths ≠ .ok written) :
    Fails host outDir listPaths := by
  cases found : merge host outDir listPaths with
  | ok written => exact absurd found (never written)
  | error raised => exact ⟨raised, found⟩

theorem unions_perm {jobs order : List Job} (perm : order.Perm jobs) (apart : NoneShared jobs) :
    (unionAll (order.map Prod.snd)).toFinmap = (unionAll (jobs.map Prod.snd)).toFinmap := by
  have flat := (((perm.map Prod.snd).map AList.entries).flatten)
  exact AList.toFinmap_eq.mpr ((union_all_perm ((none_shared_perm perm).mpr apart)).trans
    (flat.trans (union_all_perm apart).symm))

theorem named_by_file {paths : List PyStr} {hashes : Hashes} {name : PyStr}
    (hashed : fileHashes host paths = .ok hashes) (member : name ∈ hashes) :
    ∃ path ∈ paths, name = basename path := by
  obtain ⟨entry, found, rfl⟩ := List.mem_map.mp (AList.mem_keys.mp member)
  obtain ⟨path, inside, recorded⟩ := ((file_hashes_describes hashed).2.exact entry).mp found
  exact ⟨path, inside, recorded.1⟩

/-- A job that held its list of the files of a part. -/
structure Serves (host : Host) (part : PyStr × List PyStr) (job : Job) : Prop where
  path : part.1 = job.1
  hashed : fileHashes host part.2 = .ok job.2
  listed : Listed host job

section Parts
variable {parts : List (PyStr × List PyStr)} {jobs : List Job}
  (each : List.Forall₂ (Serves host) parts jobs)
include each

theorem parts_paths : parts.map Prod.fst = jobs.map Prod.fst := by
  have same : List.Forall₂ (· = ·) (parts.map Prod.fst) (jobs.map Prod.fst) :=
    List.forall₂_map_left_iff.mpr (List.forall₂_map_right_iff.mpr
      (each.imp fun part job serves => serves.path))
  exact List.forall₂_eq_eq_eq ▸ same

theorem parts_entries {hashes : Hashes}
    (hashed : fileHashes host (parts.map Prod.snd).flatten = .ok hashes) :
    hashes.entries.Perm ((jobs.map Prod.snd).map AList.entries).flatten := by
  obtain ⟨added, recorded, same⟩ := (file_hashes_ok_iff host).mp hashed
  have parted : List.Forall₂ (List.Forall₂ (Recorded host)) (parts.map Prod.snd)
      (jobs.map fun job => job.2.entries.reverse) := by
    refine List.forall₂_map_left_iff.mpr (List.forall₂_map_right_iff.mpr (each.imp ?_))
    intro part job serves
    obtain ⟨own, known, entries⟩ := (file_hashes_ok_iff host).mp serves.hashed
    rwa [entries, List.reverse_reverse]
  have unique : Relator.RightUnique (Recorded host) := fun _ _ _ => recorded_unique
  have joined := List.right_unique_forall₂' unique recorded (List.rel_flatten parted)
  rw [same, joined, List.map_map]
  refine (List.reverse_perm _).trans (List.Perm.flatten_congr ?_)
  rw [List.forall₂_map_left_iff, List.forall₂_map_right_iff, List.forall₂_same]
  exact fun job _ => List.reverse_perm _

end Parts

/-- Files listed by several jobs merge to the list of all files at once. -/
theorem merge_list_files {dir outDir : PyStr} {parts : List (PyStr × List PyStr)}
    (held : ∀ part ∈ parts, ∃ written, listFiles host dir part.2 = .ok written ∧
      host.openRead part.1 = .ok written.data)
    (clean : ∀ part ∈ parts, ∀ path ∈ part.2, basename path ≠ [] ∧ Unbroken (basename path))
    {whole : Written} (all : listFiles host outDir (parts.map Prod.snd).flatten = .ok whole) :
    ∃ written, merge host outDir (parts.map Prod.fst) = .ok written ∧
      written.path = whole.path ∧ written.data = whole.data := by
  obtain ⟨hashes, data, hashed, made, rfl⟩ := (list_files_ok_iff host).mp all
  have served : ∀ part ∈ parts, ∃ job, Serves host part job := by
    intro part member
    obtain ⟨written, done, opened⟩ := held part member
    obtain ⟨own, bytes, known, listed, rfl⟩ := (list_files_ok_iff host).mp done
    exact ⟨(part.1, own), rfl, known, bytes, listed, opened⟩
  obtain ⟨jobs, each⟩ := exists_related served
  have names : ∀ job ∈ jobs, ∀ name ∈ job.2, name ≠ [] ∧ Unbroken name := by
    intro job inside name member
    obtain ⟨part, found, serves⟩ := related_of_right each job inside
    obtain ⟨path, here, rfl⟩ := named_by_file serves.hashed member
    exact clean part found path here
  have listed : ∀ job ∈ jobs, Listed host job := by
    intro job inside
    obtain ⟨part, _, serves⟩ := related_of_right each job inside
    exact serves.listed
  have entries := parts_entries each hashed
  have apart : NoneShared jobs :=
    nodup_keys_iff_disjoint.mp ((List.perm_nodupKeys entries).mp hashes.nodupKeys)
  have union : hashes.toFinmap = (unionAll (jobs.map Prod.snd)).toFinmap :=
    AList.toFinmap_eq.mpr (entries.trans (union_all_perm apart).symm)
  obtain ⟨written, done, path, same⟩ := merge_union listed
    (fun job inside member => (names job inside [] member).1 rfl)
    (fun job inside name member => (names job inside name member).2) apart union
  exact ⟨written, parts_paths each ▸ done, path, Except.ok.inj (same.symm.trans made)⟩

theorem listed_of_held {path : PyStr} {hashes : Hashes}
    (held : host.openRead path = encode (listing hashes))
    (done : (listText host hashes).isOk = true) : Listed host (path, hashes) := by
  obtain ⟨data, made⟩ := exists_of_isOk done
  exact ⟨data, made, held.trans ((list_text_ok_iff host).mp made).2⟩

/-- For the lists of any maps of names that are not empty: `merge` agrees with listing
    all files at once exactly if no name holds a character that `str.splitlines` takes
    for the end of a line. -/
theorem merge_agrees_iff (host : Host) (outDir : PyStr) (jobs : List Job)
    (listed : ∀ job ∈ jobs, Listed host job) (named : ∀ job ∈ jobs, [] ∉ job.2) :
    MergeAgrees host outDir jobs ↔ ∀ job ∈ jobs, ∀ name ∈ job.2, Unbroken name := by
  constructor
  · intro agrees job member
    exact unbroken_of_alone (listed job member) (agrees.alone job member)
  · intro clean
    refine ⟨?_, ?_, ?_⟩
    · intro apart order perm whole same
      have inside : ∀ job ∈ order, job ∈ jobs := fun job => perm.mem_iff.mp
      exact merge_union (fun job here => listed job (inside job here))
        (fun job here => named job (inside job here)) (fun job here => clean job (inside job here))
        ((none_shared_perm perm).mpr apart) (same.trans (unions_perm perm apart).symm)
    · intro shared order perm
      have inside : ∀ job ∈ order, Listed host job := fun job here =>
        listed job (perm.mem_iff.mp here)
      refine fails_of_not_ok fun written done => shared ?_
      exact (none_shared_perm perm).mp (merged_none_shared inside done)
    · intro job member
      have only : ∀ other ∈ [job], other ∈ jobs := fun other here =>
        List.mem_singleton.mp here ▸ member
      have union : job.2.toFinmap = (unionAll ([job].map Prod.snd)).toFinmap :=
        AList.toFinmap_eq.mpr (List.Perm.of_eq (by simp [unionAll]))
      have written : Writes host outDir ([job].map Prod.fst) job.2 :=
        merge_union (fun other here => listed other (only other here))
          (fun other here => named other (only other here))
          (fun other here => clean other (only other here)) (List.pairwise_singleton _ _) union
      exact written

/-- Two lists of one file each. -/
def twoJobs : List Job :=
  [(text "one", AList.singleton (text "a b") zeroDigest),
    (text "two", AList.singleton (text "c") zeroDigest)]

def twoJobsHost : Host := fixedHost fun path =>
  if path = text "one" then encode (listing (AList.singleton (text "a b") zeroDigest))
  else encode (listing (AList.singleton (text "c") zeroDigest))

theorem merge_agrees_sample : MergeAgrees twoJobsHost [] twoJobs := by
  have opens : ∀ path, twoJobsHost.openRead path = if path = text "one" then _ else _ :=
    fun path => rfl
  have other : text "two" ≠ text "one" := by decide +kernel
  refine (merge_agrees_iff twoJobsHost [] twoJobs ?_ ?_).mpr ?_
  · refine List.forall_mem_cons.mpr ⟨?_, List.forall_mem_singleton.mpr ?_⟩
    · exact listed_of_held ((opens _).trans (if_pos rfl)) (by decide +kernel)
    · exact listed_of_held ((opens _).trans (if_neg other)) (by decide +kernel)
  · decide +kernel
  · have plain : (twoJobs.all fun job => job.2.keys.all fun name =>
        name.all fun c => !isLineBreak c) = true := by decide +kernel
    simpa [Unbroken, AList.mem_keys] using plain

/-- A file name with a line separator, which `list_text` does not refuse. -/
def separated : Hashes := AList.singleton (text "a\u2028b") zeroDigest

def separatedHost : Host := fixedHost fun _ => encode (listing separated)

theorem separated_name_fails :
    Listed separatedHost (text "list", separated) ∧ [] ∉ separated ∧
      Fails separatedHost [] [text "list"] ∧
      ¬ MergeAgrees separatedHost [] [(text "list", separated)] := by
  have listed : Listed separatedHost (text "list", separated) :=
    listed_of_held rfl (by decide +kernel)
  have refused : Fails separatedHost [] [text "list"] := by
    refine fails_of_not_ok fun written done => ?_
    obtain ⟨hashes, parts, data, each, _⟩ := (merge_ok_iff separatedHost).mp done
    obtain ⟨added, others, reads, _⟩ := List.forall₂_cons_left_iff.mp each
    have line : text "b" ∈ brokenLines isLineBreak (listing separated) := by decide +kernel
    obtain ⟨entry, _, matched⟩ :=
      related_of_left ((reads_listed listed added).mp reads) (text "b") line
    have bare : matchEntry (text "b") = none := by decide +kernel
    exact nomatch bare.symm.trans matched
  refine ⟨listed, by decide +kernel, refused, fun agrees => ?_⟩
  obtain ⟨raised, failed⟩ := refused
  obtain ⟨written, done, _⟩ := agrees.alone _ (List.mem_singleton.mpr rfl)
  exact nomatch failed.symm.trans done

end UgcMergedLists
