import Ugc.EmbeddedLists
import Ugc.MergedLists

/-!
The gate of a release. Build jobs list their files, a list is signed elsewhere, and the
release job checks its own files against the list. The gate opens exactly for a trusted
signature and for the files that were listed, whatever happened to them in between.
-/
namespace UgcReleaseGate
open ScriptRuns hiding Passes
open LineTexts PythonStrings KeyedFolds UgcSignPackage UgcSignedLists UgcMergedLists
open UgcPublicKeys UgcSigningCommands UgcPackageHistory UgcEmbeddedLists

section Commands
variable {machine : Machine} {process : Process} (smooth : Smooth process) {s t : World}
include smooth

theorem written_ends_iff {f : Host → Except Raised Written} :
    Ends (written machine process f) s ⟨⟩ t ↔ ∃ made, f (host machine process s) = .ok made ∧
      t = { s.put (machine.place made.path) (.ok made.data) with
        printed := s.printed ++ [made.printed] } := by
  simp only [written, bind_ends_iff, reading_ends_iff, write_ends_iff smooth,
    print_ends_iff smooth]
  constructor
  · rintro ⟨made, _, ⟨found, rfl⟩, _, _, rfl, rfl⟩
    exact ⟨made, found, rfl⟩
  · rintro ⟨made, found, rfl⟩
    exact ⟨made, s, ⟨found, rfl⟩, ⟨⟩, _, rfl, rfl⟩

theorem prints_end (lines : List PyStr) (s : World) :
    ∃ t, Ends (forEach (print process) lines) s ⟨⟩ t ∧ t.files = s.files := by
  induction lines generalizing s with
  | nil => exact ⟨s, rfl, rfl⟩
  | cons line lines ih =>
    obtain ⟨t, ends, kept⟩ := ih { s with printed := s.printed ++ [line] }
    exact ⟨t, bind_ends_iff.mpr ⟨⟨⟩, _, (print_ends_iff smooth).mpr rfl, ends⟩, kept⟩

theorem reported_ends_iff {f : Host → Except Raised (List PyStr)} :
    (∃ t, Ends (reported machine process f) s ⟨⟩ t) ↔
      ∃ lines, f (host machine process s) = .ok lines := by
  simp only [reported, bind_ends_iff, reading_ends_iff]
  constructor
  · rintro ⟨t, lines, _, ⟨found, -⟩, -⟩
    exact ⟨lines, found⟩
  · rintro ⟨lines, found⟩
    obtain ⟨t, ends, -⟩ := prints_end smooth lines s
    exact ⟨t, lines, s, ⟨found, rfl⟩, ends⟩

/-- The gate for a list that is the text of a map. -/
theorem gate_iff {sigDir : PyStr} {paths : List PyStr} {data signature : Bytes} {hashes : Hashes}
    (list : s.files (machine.place (join sigDir listName)) = .ok data)
    (signed : s.files (machine.place (join sigDir signatureName)) = .ok signature)
    (listed : ListedAs hashes data) :
    (∃ t, Ends (perform machine process (.checkFiles sigDir paths)) s ⟨⟩ t) ↔
      Trusted machine process data signature ∧ (paths.map basename).Nodup ∧
        Describes (host machine process s) paths hashes := by
  have passes : Passes (host machine process s) sigDir paths ↔
      (paths.map basename).Nodup ∧ Describes (host machine process s) paths hashes :=
    passes_listed_iff ((read_ok_iff _).mpr list) ((read_ok_iff _).mpr signed)
      (listed_as_iff.mpr listed)
  rw [← passes]
  refine (reported_ends_iff smooth).trans ?_
  simp only [check_files_ok_iff, Passes]
  constructor
  · rintro ⟨lines, found, mark, line, compared, checked, -⟩
    obtain ⟨opened, marked, -⟩ := compare_files_iff.mp compared
    cases list.symm.trans opened
    cases signed.symm.trans marked
    exact ⟨trusted_of_checked checked, _, compared⟩
  · rintro ⟨trusted, ⟨found, mark⟩, compared⟩
    obtain ⟨opened, marked, -⟩ := compare_files_iff.mp compared
    cases list.symm.trans opened
    cases signed.symm.trans marked
    obtain ⟨line, checked⟩ :
        ∃ line, checkSignature (host machine process s) data signature (join sigDir listName) =
          .ok line := checked_of_trusted trusted _
    exact ⟨_, data, signature, line, compared, checked, rfl⟩

end Commands

/-- The base names and digests of the files are those of the entries. -/
structure SameFiles (listed : Entry → Prop) (host : Host) (paths : List PyStr) : Prop where
  distinct : (paths.map basename).Nodup
  readable : ∀ path ∈ paths, ∃ entry, Recorded host path entry
  same : ∀ entry, listed entry ↔ ∃ path ∈ paths, Recorded host path entry

theorem same_files_iff {listed : Entry → Prop} {host : Host} {paths : List PyStr}
    {hashes : Hashes} (exact : ∀ entry, entry ∈ hashes.entries ↔ listed entry) :
    (paths.map basename).Nodup ∧ Describes host paths hashes ↔ SameFiles listed host paths := by
  constructor
  · rintro ⟨distinct, describes⟩
    exact ⟨distinct, describes.readable, fun entry => (exact entry).symm.trans
      (describes.exact entry)⟩
  · rintro ⟨distinct, readable, same⟩
    exact ⟨distinct, readable, fun entry => (exact entry).trans (same entry)⟩

/-- A job that ran `list-files`. -/
structure ListJob where
  machine : Machine
  process : Process
  smooth : Smooth process
  outDir : PyStr
  paths : List PyStr
  before : World
  after : World
  done : Ends (perform machine process (.listFiles outDir paths)) before ⟨⟩ after

def ListJob.Records (job : ListJob) (entry : Entry) : Prop :=
  ∃ path ∈ job.paths, Recorded (host job.machine job.process job.before) path entry

def ListJob.list (job : ListJob) : Except Raised Bytes :=
  job.after.files (job.machine.place (join job.outDir listName))

/-- The list of a job is the text of a map of its files. -/
theorem job_list (job : ListJob) : ∃ hashes data,
    fileHashes (host job.machine job.process job.before) job.paths = .ok hashes ∧
      ListedAs hashes data ∧ job.list = .ok data ∧
      ∀ entry, entry ∈ hashes.entries ↔ job.Records entry := by
  obtain ⟨made, found, after⟩ := (written_ends_iff job.smooth).mp job.done
  obtain ⟨hashes, data, hashed, listed, rfl⟩ := (list_files_ok_iff _).mp found
  refine ⟨hashes, data, hashed, listed_as_iff.mp listed, ?_, ?_⟩
  · rw [ListJob.list, after]
    exact put_same _ _ _
  · exact (file_hashes_describes hashed).2.exact

section Gate
variable {machine : Machine} {checker : Process} {s : World} {sigDir : PyStr}
  {paths : List PyStr} {signature : Bytes}

/-- The gate of a release whose files come from one job. -/
theorem release_gate (smooth : Smooth checker) (job : ListJob)
    (list : s.files (machine.place (join sigDir listName)) = job.list)
    (signed : s.files (machine.place (join sigDir signatureName)) = .ok signature) :
    (∃ t, Ends (perform machine checker (.checkFiles sigDir paths)) s ⟨⟩ t) ↔
      (∃ data, job.list = .ok data ∧ Trusted machine checker data signature) ∧
        SameFiles job.Records (host machine checker s) paths := by
  obtain ⟨hashes, data, -, listed, held, exact⟩ := job_list job
  rw [gate_iff smooth (list.trans held) signed listed, same_files_iff exact, held]
  refine and_congr_left fun _ => ?_
  constructor
  · intro trusted
    exact ⟨data, rfl, trusted⟩
  · rintro ⟨found, same, trusted⟩
    cases same
    exact trusted

end Gate

/-- The map of a job's files, as the list that the merging job found at a path. -/
structure Collected (host : Host) (pair : ListJob × PyStr) (job : Job) : Prop where
  path : pair.2 = job.1
  listed : Listed host job
  records : ∀ entry, entry ∈ job.2.entries ↔ pair.1.Records entry
  named : ∀ name, name ∈ job.2 ↔ ∃ path ∈ pair.1.paths, name = basename path

theorem collected_of_held {host : Host} {pair : ListJob × PyStr}
    (held : host.openRead pair.2 = pair.1.list) : ∃ job, Collected host pair job := by
  obtain ⟨hashes, data, hashed, listed, written, records⟩ := job_list pair.1
  refine ⟨(pair.2, hashes), rfl, ⟨data, listed_as_iff.mpr listed, held.trans written⟩, records, ?_⟩
  intro name
  constructor
  · intro member
    exact named_by_file hashed member
  · rintro ⟨path, member, rfl⟩
    have describes := (file_hashes_describes hashed).2
    obtain ⟨entry, recorded⟩ := describes.readable path member
    have inside := (describes.exact entry).mpr ⟨path, member, recorded⟩
    exact recorded.1 ▸ AList.mem_keys.mpr (List.mem_keys_of_mem inside)

/-- No file of one job has the base name of a file of another. -/
def NamesApart (jobs : List (ListJob × PyStr)) : Prop :=
  jobs.Pairwise fun one other =>
    ∀ path ∈ one.1.paths, ∀ another ∈ other.1.paths, basename path ≠ basename another

section MergedGate
variable {jobs : List (ListJob × PyStr)} {collected : List Job}

theorem none_shared_iff {host : Host} (each : List.Forall₂ (Collected host) jobs collected) :
    NoneShared collected ↔ NamesApart jobs := by
  rw [NoneShared, List.pairwise_map]
  constructor
  · refine pairwise_related each ?_
    intro one job other another first second apart path here file there same
    refine apart (basename path) (AList.mem_keys.mp ((first.named _).mpr ⟨path, here, rfl⟩)) ?_
    exact AList.mem_keys.mp ((second.named _).mpr ⟨file, there, same⟩)
  · refine pairwise_related each.flip ?_
    intro job one another other first second apart name here there
    obtain ⟨path, inside, rfl⟩ := (first.named _).mp (AList.mem_keys.mpr here)
    obtain ⟨file, within, same⟩ := (second.named _).mp (AList.mem_keys.mpr there)
    exact apart path inside file within same

theorem collected_paths {host : Host} (each : List.Forall₂ (Collected host) jobs collected) :
    jobs.map Prod.snd = collected.map Prod.fst := by
  induction each with
  | nil => rfl
  | cons here _ ih => rw [List.map_cons, List.map_cons, here.path, ih]

theorem mem_collected {host : Host} (each : List.Forall₂ (Collected host) jobs collected)
    (apart : NoneShared collected) (entry : Entry) :
    entry ∈ (unionAll (collected.map Prod.snd)).entries ↔
      ∃ pair ∈ jobs, pair.1.Records entry := by
  rw [(union_all_perm apart).mem_iff]
  simp only [List.map_map, List.mem_flatten, List.mem_map, Function.comp_apply]
  constructor
  · rintro ⟨_, ⟨job, member, rfl⟩, inside⟩
    obtain ⟨pair, found, here⟩ := related_of_right each job member
    exact ⟨pair, found, (here.records entry).mp inside⟩
  · rintro ⟨pair, found, recorded⟩
    obtain ⟨job, member, here⟩ := related_of_left each pair found
    exact ⟨_, ⟨job, member, rfl⟩, (here.records entry).mpr recorded⟩

variable {merger : Machine} {merging : Process} {outDir : PyStr} {m : World}

/-- What the merging job makes of the lists of jobs whose files have clean names. -/
theorem collected_merge
    (held : ∀ pair ∈ jobs, m.files (merger.place pair.2) = pair.1.list)
    (clean : ∀ pair ∈ jobs, ∀ path ∈ pair.1.paths,
      basename path ≠ [] ∧ Unbroken (basename path)) :
    ((∃ made, merge (host merger merging m) outDir (jobs.map Prod.snd) = .ok made) ↔
        NamesApart jobs) ∧
      ∀ made, merge (host merger merging m) outDir (jobs.map Prod.snd) = .ok made →
        made.path = join outDir listName ∧ ∃ hashes, ListedAs hashes made.data ∧
          ∀ entry, entry ∈ hashes.entries ↔ ∃ pair ∈ jobs, pair.1.Records entry := by
  have found : ∀ pair ∈ jobs, ∃ job, Collected (host merger merging m) pair job :=
    fun pair member => collected_of_held (held pair member)
  obtain ⟨collected, each⟩ := exists_related found
  have listed : ∀ job ∈ collected, Listed (host merger merging m) job := by
    intro job member
    obtain ⟨pair, found, here⟩ := related_of_right each job member
    exact here.listed
  have names : ∀ job ∈ collected, ∀ name ∈ job.2, name ≠ [] ∧ Unbroken name := by
    intro job member name inside
    obtain ⟨pair, found, here⟩ := related_of_right each job member
    obtain ⟨path, within, rfl⟩ := (here.named name).mp inside
    exact clean pair found path within
  have writes : NoneShared collected →
      Writes (host merger merging m) outDir (collected.map Prod.fst)
        (unionAll (collected.map Prod.snd)) := fun apart =>
    merge_union listed (fun job member empty => (names job member [] empty).1 rfl)
      (fun job member name inside => (names job member name inside).2) apart rfl
  rw [collected_paths each, ← none_shared_iff each]
  refine ⟨⟨?_, ?_⟩, ?_⟩
  · rintro ⟨made, done⟩
    exact merged_none_shared listed done
  · intro apart
    obtain ⟨made, done, -⟩ := writes apart
    exact ⟨made, done⟩
  · intro made done
    have apart := merged_none_shared listed done
    obtain ⟨again, redone, path, text⟩ := writes apart
    cases done.symm.trans redone
    exact ⟨path, _, listed_as_iff.mp text, mem_collected each apart⟩

/-- The gate of a release whose files come from several jobs, whose lists were merged. -/
theorem merged_release_gate (smooth : Smooth merging)
    (held : ∀ pair ∈ jobs, m.files (merger.place pair.2) = pair.1.list)
    (clean : ∀ pair ∈ jobs, ∀ path ∈ pair.1.paths,
      basename path ≠ [] ∧ Unbroken (basename path)) :
    ((∃ t, Ends (perform merger merging (.merge outDir (jobs.map Prod.snd))) m ⟨⟩ t) ↔
        NamesApart jobs) ∧
      ∀ t, Ends (perform merger merging (.merge outDir (jobs.map Prod.snd))) m ⟨⟩ t →
        ∃ list, t.files (merger.place (join outDir listName)) = .ok list ∧
          ∀ (machine : Machine) (checker : Process) (s : World) (sigDir : PyStr)
            (paths : List PyStr) (signature : Bytes), Smooth checker →
            s.files (machine.place (join sigDir listName)) = .ok list →
            s.files (machine.place (join sigDir signatureName)) = .ok signature →
            ((∃ u, Ends (perform machine checker (.checkFiles sigDir paths)) s ⟨⟩ u) ↔
              Trusted machine checker list signature ∧
                SameFiles (fun entry => ∃ pair ∈ jobs, pair.1.Records entry)
                  (host machine checker s) paths) := by
  obtain ⟨merges, merged⟩ := @collected_merge jobs merger merging outDir m held clean
  refine ⟨?_, ?_⟩
  · rw [← merges]
    constructor
    · rintro ⟨t, done⟩
      obtain ⟨made, found, -⟩ := (written_ends_iff smooth).mp done
      exact ⟨made, found⟩
    · rintro ⟨made, found⟩
      exact ⟨_, (written_ends_iff smooth).mpr ⟨made, found, rfl⟩⟩
  · intro t done
    obtain ⟨made, found, rfl⟩ := (written_ends_iff smooth).mp done
    obtain ⟨path, hashes, listed, exact⟩ := merged made found
    refine ⟨made.data, path ▸ put_same _ _ _, ?_⟩
    intro machine checker s sigDir paths signature even list signed
    rw [gate_iff even list signed listed, same_files_iff exact]

end MergedGate

theorem fixed_job_done :
    Ends (perform fixedMachine fixedProcess (.listFiles (text "d") [text "a"])) (fixedWorld []) ⟨⟩
      (perform fixedMachine fixedProcess (.listFiles (text "d") [text "a"]) (fixedWorld [])).2 := by
  have read : (listFiles (host fixedMachine fixedProcess (fixedWorld [])) (text "d")
      [text "a"]).isOk = true := by decide +kernel
  obtain ⟨made, found⟩ := exists_of_isOk read
  have done : Ends (perform fixedMachine fixedProcess (.listFiles (text "d") [text "a"]))
      (fixedWorld []) ⟨⟩ _ := (written_ends_iff fixed_smooth).mpr ⟨made, found, rfl⟩
  have after := congrArg Prod.snd done
  exact done.trans (congrArg (Prod.mk _) after.symm)

def fixedJob : ListJob where
  machine := fixedMachine
  process := fixedProcess
  smooth := fixed_smooth
  outDir := text "d"
  paths := [text "a"]
  before := fixedWorld []
  after := (perform fixedMachine fixedProcess (.listFiles (text "d") [text "a"]) (fixedWorld [])).2
  done := fixed_job_done

theorem fixed_job_files (q : PyStr) : fixedJob.after.files q =
    if q = join (text "d") listName then fixedJob.list else .ok (packed []) := by
  obtain ⟨made, found, after⟩ := (written_ends_iff fixed_smooth).mp fixedJob.done
  have path : made.path = join (text "d") listName := list_files_path found
  have held : fixedJob.after.files =
      Function.update (fixedWorld []).files made.path (.ok made.data) :=
    congrArg World.files after
  have list : fixedJob.list = .ok made.data := by
    change fixedJob.after.files (join (text "d") listName) = _
    rw [held, path, Function.update_self]
  rw [list, held, Function.update_apply, path]
  rfl

theorem release_gate_sample :
    ∃ t, Ends (perform fixedMachine fixedProcess (.checkFiles (text "d") [text "a"]))
      fixedJob.after ⟨⟩ t := by
  have file : text "a" ≠ join (text "d") listName := by decide +kernel
  have mark : join (text "d") signatureName ≠ join (text "d") listName := by decide +kernel
  have signed := (fixed_job_files (join (text "d") signatureName)).trans (if_neg mark)
  have list := (fixed_job_files (join (text "d") listName)).trans (if_pos rfl)
  have opened := (fixed_job_files (text "a")).trans (if_neg file)
  obtain ⟨hashes, data, -, -, held, -⟩ := job_list fixedJob
  refine (release_gate fixed_smooth fixedJob list signed).mpr
    ⟨⟨data, held, fixed_trusted _ _⟩, List.nodup_singleton _, ?_, ?_⟩
  · exact List.forall_mem_singleton.mpr ⟨⟨text "a", zeroDigest⟩, rfl, _, opened, rfl⟩
  · intro entry
    refine exists_congr fun path => and_congr_right fun member => ?_
    obtain rfl := List.mem_singleton.mp member
    refine and_congr_right fun _ => ?_
    constructor
    · rintro ⟨content, -, same⟩
      exact ⟨_, opened, same⟩
    · rintro ⟨content, -, same⟩
      exact ⟨_, rfl, same⟩

theorem merged_release_gate_sample :
    ∃ t, Ends (perform fixedMachine fixedProcess (.merge (text "e") [join (text "d") listName]))
      fixedJob.after ⟨⟩ t := by
  have held : ∀ pair ∈ [(fixedJob, join (text "d") listName)],
      fixedJob.after.files (fixedMachine.place pair.2) = pair.1.list :=
    List.forall_mem_singleton.mpr rfl
  have clean : ∀ pair ∈ [(fixedJob, join (text "d") listName)], ∀ path ∈ pair.1.paths,
      basename path ≠ [] ∧ Unbroken (basename path) := by
    refine List.forall_mem_singleton.mpr (List.forall_mem_singleton.mpr ?_)
    have plain : ((basename (text "a")).all fun c => !isLineBreak c) = true := by decide +kernel
    exact ⟨by decide +kernel, by simpa [Unbroken] using plain⟩
  exact (merged_release_gate fixed_smooth held clean).1.mpr (List.pairwise_singleton _ _)

end UgcReleaseGate
