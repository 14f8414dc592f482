import Mathlib.Data.List.DropRight
import Mathlib.Data.List.Infix
import Ugc.LineTexts

/-!
Texts with values in them: the fields between separators, and what stands between an
opening mark and the next closing one. A writer that keeps the separators, or the first
symbol of the marks, out of its values gets them back.
-/
namespace MarkedTexts
open LineTexts
variable {α : Type*}

/-- A text without the blanks at its two ends. -/
def stripped (isBlank : α → Bool) (s : List α) : List α :=
  (s.dropWhile isBlank).rdropWhile isBlank

def fields (isSeparator : α → Bool) (s : List α) : List (List α) :=
  (brokenLines isSeparator s).filter fun field => !field.isEmpty

section Marks
variable [DecidableEq α]

/-- The text before the first place of the mark, and the text after it. -/
def cut (mark : List α) : List α → Option (List α × List α)
  | [] => if mark = [] then some ([], []) else none
  | c :: rest =>
    if mark.isPrefixOf (c :: rest) then some ([], (c :: rest).drop mark.length)
    else (cut mark rest).map fun found => (c :: found.1, found.2)

theorem cut_shorter {mark s before after : List α} (found : cut mark s = some (before, after)) :
    after.length + mark.length ≤ s.length := by
  induction s generalizing before with
  | nil =>
    rw [cut] at found
    by_cases empty : mark = []
    · rw [if_pos empty] at found
      cases found
      simp [empty]
    · rw [if_neg empty] at found
      cases found
  | cons c rest ih =>
    rw [cut] at found
    by_cases here : mark.isPrefixOf (c :: rest) = true
    · rw [if_pos here] at found
      cases found
      have fits := (List.isPrefixOf_iff_prefix.mp here).length_le
      rw [List.length_drop]
      omega
    · rw [if_neg here, Option.map_eq_some_iff] at found
      obtain ⟨⟨front, tail⟩, later, same⟩ := found
      cases same
      have shorter := ih later
      rw [List.length_cons]
      omega

/-- What stands between an opening mark and the next closing mark, again and again. -/
def enclosed (opening closing : List α) (s : List α) : List (List α) :=
  if _given : opening = [] then []
  else match _found : cut opening s with
    | none => []
    | some (_, rest) =>
      match _ended : cut closing rest with
      | none => []
      | some (inside, after) => inside :: enclosed opening closing after
termination_by s.length
decreasing_by
  have first := cut_shorter _found
  have second := cut_shorter _ended
  have positive := List.length_pos_of_ne_nil _given
  omega

/-- A mark is found at its first place: its first symbol does not stand before it. -/
theorem cut_first {c : α} {before : List α} (clear : c ∉ before) (mark rest : List α) :
    cut (c :: mark) (before ++ c :: mark ++ rest) = some (before, rest) := by
  induction before with
  | nil =>
    have here : (c :: mark).isPrefixOf (c :: (mark ++ rest)) = true :=
      List.isPrefixOf_iff_prefix.mpr (List.prefix_append (c :: mark) rest)
    rw [List.nil_append, List.cons_append, cut, if_pos here]
    simp
  | cons d before ih =>
    obtain ⟨apart, others⟩ := not_or.mp (List.mem_cons.not.mp clear)
    have later : ¬ (c :: mark).isPrefixOf (d :: (before ++ c :: mark ++ rest)) = true := by
      rw [List.isPrefixOf_iff_prefix, List.cons_prefix_cons]
      exact fun matched => apart matched.1
    rw [List.cons_append, List.cons_append, cut, if_neg later, ih others]
    rfl

theorem cut_absent {c : α} {s : List α} (absent : c ∉ s) (mark : List α) :
    cut (c :: mark) s = none := by
  induction s with
  | nil => rfl
  | cons d rest ih =>
    obtain ⟨apart, others⟩ := not_or.mp (List.mem_cons.not.mp absent)
    have later : ¬ (c :: mark).isPrefixOf (d :: rest) = true := by
      rw [List.isPrefixOf_iff_prefix, List.cons_prefix_cons]
      exact fun matched => apart matched.1
    rw [cut, if_neg later, ih others]
    rfl

/-- Values between marks, with other text around them. -/
def marked (opening closing : List α) (blocks : List (List α × List α)) (tail : List α) :
    List α :=
  (blocks.flatMap fun block => block.1 ++ opening ++ (block.2 ++ closing)) ++ tail

theorem enclosed_marked {c : α} (opening closing : List α) {blocks : List (List α × List α)}
    {tail : List α} (clear : ∀ block ∈ blocks, c ∉ block.1 ∧ c ∉ block.2) (ends : c ∉ tail) :
    enclosed (c :: opening) (c :: closing) (marked (c :: opening) (c :: closing) blocks tail) =
      blocks.map Prod.snd := by
  have given := List.cons_ne_nil c opening
  induction blocks with
  | nil =>
    rw [marked, List.flatMap_nil, List.nil_append, enclosed, dif_neg given, cut_absent ends]
    rfl
  | cons block blocks ih =>
    obtain ⟨⟨outside, inside⟩, others⟩ := List.forall_mem_cons.mp clear
    have shape : marked (c :: opening) (c :: closing) (block :: blocks) tail =
        block.1 ++ c :: opening ++ (block.2 ++ c :: closing ++
          marked (c :: opening) (c :: closing) blocks tail) := by
      simp only [marked, List.flatMap_cons, List.append_assoc]
    rw [shape, enclosed, dif_neg given]
    split
    · rename_i none
      rw [cut_first outside] at none
      cases none
    · rename_i before rest found
      rw [cut_first outside] at found
      cases found
      split
      · rename_i none
        rw [cut_first inside] at none
        cases none
      · rename_i found after ended
        rw [cut_first inside] at ended
        cases ended
        rw [ih others, List.map_cons]

end Marks

variable {isBlank isSeparator : α → Bool}

/-- Nothing is left of a text exactly if it is all blank. -/
theorem stripped_nil_iff {s : List α} : stripped isBlank s = [] ↔ ∀ c ∈ s, isBlank c = true := by
  rw [stripped, List.rdropWhile_eq_nil_iff]
  constructor
  · intro kept c member
    rcases List.mem_append.mp ((List.takeWhile_append_dropWhile (p := isBlank) (l := s)).symm ▸
      member) with front | rest
    · exact List.mem_takeWhile_imp front
    · exact kept c rest
  · intro all c member
    exact all c ((List.dropWhile_suffix isBlank).subset member)

theorem fields_separator {c : α} (separates : isSeparator c = true) (rest : List α) :
    fields isSeparator (c :: rest) = fields isSeparator rest := by
  rw [fields, broken_lines_break separates, List.filter_cons_of_neg (by simp), fields]

theorem fields_separators {run : List α} (separate : ∀ c ∈ run, isSeparator c = true)
    (rest : List α) : fields isSeparator (run ++ rest) = fields isSeparator rest := by
  induction run with
  | nil => rfl
  | cons c run ih =>
    obtain ⟨here, others⟩ := List.forall_mem_cons.mp separate
    rw [List.cons_append, fields_separator here, ih others]

section Values
variable {value : List α} (some : value ≠ [])
  (plain : ∀ c ∈ value, isSeparator c = false)
include some plain

theorem fields_value {c : α} (separates : isSeparator c = true) (rest : List α) :
    fields isSeparator (value ++ c :: rest) = value :: fields isSeparator rest := by
  rw [fields, broken_lines_first plain separates, List.filter_cons_of_pos, fields]
  rw [Bool.not_eq_true', List.isEmpty_eq_false_iff]
  exact some

theorem fields_single : fields isSeparator value = [value] := by
  have whole : brokenLines isSeparator value = [value] := by
    induction value with
    | nil => exact absurd rfl some
    | cons c rest ih =>
      obtain ⟨here, others⟩ := List.forall_mem_cons.mp plain
      rw [brokenLines, if_neg (Bool.eq_false_iff.mp here)]
      cases rest with
      | nil => rfl
      | cons d rest => rw [ih (List.cons_ne_nil d rest) others, prepended]
  rw [fields, whole, List.filter_cons_of_pos, List.filter_nil]
  rw [Bool.not_eq_true', List.isEmpty_eq_false_iff]
  exact some

end Values

/-- Values with a run of separators after each but the last. -/
def separated (parts : List (List α × List α)) (last : List α) : List α :=
  (parts.flatMap fun part => part.1 ++ part.2) ++ last

theorem fields_separated {parts : List (List α × List α)} {last : List α}
    (some : ∀ part ∈ parts, part.1 ≠ [] ∧ part.2 ≠ []) (ends : last ≠ [])
    (plain : ∀ part ∈ parts, (∀ c ∈ part.1, isSeparator c = false) ∧
      ∀ c ∈ part.2, isSeparator c = true)
    (plainLast : ∀ c ∈ last, isSeparator c = false) :
    fields isSeparator (separated parts last) = parts.map Prod.fst ++ [last] := by
  induction parts with
  | nil => exact fields_single ends plainLast
  | cons part parts ih =>
    obtain ⟨⟨value, run⟩, others⟩ := List.forall_mem_cons.mp some
    obtain ⟨⟨clear, separate⟩, clean⟩ := List.forall_mem_cons.mp plain
    obtain ⟨c, tail, shape⟩ := List.exists_cons_of_ne_nil run
    have split : separated (part :: parts) last =
        part.1 ++ c :: (tail ++ separated parts last) := by
      simp only [separated, List.flatMap_cons, shape, List.append_assoc, List.cons_append]
    rw [shape] at separate
    obtain ⟨here, rest⟩ := List.forall_mem_cons.mp separate
    rw [split, fields_value value clear here, fields_separators rest, ih others clean]
    rfl

end MarkedTexts
