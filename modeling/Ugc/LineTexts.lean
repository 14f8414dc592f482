import Mathlib.Data.List.Basic

/-!
Texts made of lines. A writer ends each line with one separator; a reader breaks a
text at every symbol of a set. Where the reader's set has the separator and no symbol
of a line the reader gives the lines back, so the text determines them. Where it has
other symbols the reader still sees the start of every line.
-/
namespace LineTexts
variable {α : Type*}

def terminated (sep : α) (lines : List (List α)) : List α :=
  lines.flatMap fun line => line ++ [sep]

/-- A symbol in front of the first line. -/
def prepended (c : α) : List (List α) → List (List α)
  | [] => [[c]]
  | line :: lines => (c :: line) :: lines

def brokenLines (isBreak : α → Bool) : List α → List (List α)
  | [] => []
  | c :: rest =>
    if isBreak c = true then [] :: brokenLines isBreak rest
    else prepended c (brokenLines isBreak rest)

/-- The part of a line before its first break. -/
def opening (isBreak : α → Bool) (line : List α) : List α :=
  line.takeWhile fun c => !isBreak c

variable {isBreak : α → Bool} {sep : α}

theorem terminated_cons (line : List α) (lines : List (List α)) :
    terminated sep (line :: lines) = line ++ sep :: terminated sep lines := by
  simp [terminated]

theorem broken_lines_break {c : α} (breaks : isBreak c = true) (rest : List α) :
    brokenLines isBreak (c :: rest) = [] :: brokenLines isBreak rest := by
  rw [brokenLines, if_pos breaks]

theorem broken_lines_first {line : List α} (unbroken : ∀ c ∈ line, isBreak c = false)
    (breaks : isBreak sep = true) (rest : List α) :
    brokenLines isBreak (line ++ sep :: rest) = line :: brokenLines isBreak rest := by
  induction line with
  | nil => exact broken_lines_break breaks rest
  | cons c line ih =>
    have tail := ih fun d member => unbroken d (List.mem_cons_of_mem c member)
    simp only [List.cons_append, brokenLines, unbroken c List.mem_cons_self, tail, prepended,
      Bool.false_eq_true, if_false]

theorem broken_lines_terminated {lines : List (List α)}
    (unbroken : ∀ line ∈ lines, ∀ c ∈ line, isBreak c = false) (breaks : isBreak sep = true) :
    brokenLines isBreak (terminated sep lines) = lines := by
  induction lines with
  | nil => rfl
  | cons line lines ih =>
    obtain ⟨first, others⟩ := List.forall_mem_cons.mp unbroken
    rw [terminated_cons, broken_lines_first first breaks, ih others]

theorem terminated_inj [DecidableEq α] {lines others : List (List α)}
    (plain : ∀ line ∈ lines, sep ∉ line) (plains : ∀ line ∈ others, sep ∉ line)
    (same : terminated sep lines = terminated sep others) : lines = others := by
  have unbroken : ∀ (ls : List (List α)), (∀ line ∈ ls, sep ∉ line) →
      brokenLines (fun c => decide (c = sep)) (terminated sep ls) = ls := by
    intro ls free
    refine broken_lines_terminated ?_ (decide_eq_true rfl)
    intro line member c inside
    exact decide_eq_false fun isSep => free line member (isSep ▸ inside)
  rw [← unbroken lines plain, same, unbroken others plains]

/-- No line of the reader holds a break. -/
theorem broken_lines_unbroken (text : List α) :
    ∀ line ∈ brokenLines isBreak text, ∀ c ∈ line, isBreak c = false := by
  induction text with
  | nil => simp [brokenLines]
  | cons c rest ih =>
    by_cases breaks : isBreak c = true
    · rw [broken_lines_break breaks]
      exact List.forall_mem_cons.mpr ⟨fun d inside => absurd inside List.not_mem_nil, ih⟩
    · have plain : isBreak c = false := Bool.eq_false_iff.mpr breaks
      rw [brokenLines, if_neg breaks]
      cases found : brokenLines isBreak rest with
      | nil => simpa [prepended] using plain
      | cons line lines =>
        rw [found] at ih
        obtain ⟨first, others⟩ := List.forall_mem_cons.mp ih
        exact List.forall_mem_cons.mpr ⟨List.forall_mem_cons.mpr ⟨plain, first⟩, others⟩

theorem opening_break {c : α} (breaks : isBreak c = true) (line : List α) :
    opening isBreak (c :: line) = [] := by
  simp [opening, breaks]

theorem opening_plain {c : α} (plain : isBreak c = false) (line : List α) :
    opening isBreak (c :: line) = c :: opening isBreak line := by
  simp [opening, plain]

theorem opening_append {plain : List α} (unbroken : ∀ c ∈ plain, isBreak c = false)
    (rest : List α) : opening isBreak (plain ++ rest) = plain ++ opening isBreak rest :=
  List.takeWhile_append_of_pos fun c member => by rw [unbroken c member]; rfl

theorem broken_lines_after (breaks : isBreak sep = true) (line rest : List α) :
    ∃ first, brokenLines isBreak (line ++ sep :: rest) =
      opening isBreak line :: first ++ brokenLines isBreak rest := by
  induction line with
  | nil => exact ⟨[], broken_lines_break breaks rest⟩
  | cons c line ih =>
    obtain ⟨first, tail⟩ := ih
    rw [List.cons_append]
    by_cases ends : isBreak c = true
    · refine ⟨opening isBreak line :: first, ?_⟩
      rw [broken_lines_break ends, tail, opening_break ends]
      rfl
    · refine ⟨first, ?_⟩
      rw [brokenLines, if_neg ends, tail, opening_plain (Bool.eq_false_iff.mpr ends)]
      rfl

/-- The reader sees the opening of every line as a line of its own. -/
theorem opening_mem {lines : List (List α)} {line : List α} (breaks : isBreak sep = true)
    (member : line ∈ lines) :
    opening isBreak line ∈ brokenLines isBreak (terminated sep lines) := by
  induction lines with
  | nil => exact absurd member List.not_mem_nil
  | cons other lines ih =>
    obtain ⟨first, split⟩ := broken_lines_after breaks other (terminated sep lines)
    rw [terminated_cons, split, List.cons_append, List.mem_cons]
    rcases List.mem_cons.mp member with rfl | later
    · exact Or.inl rfl
    · exact Or.inr (List.mem_append_right first (ih later))

end LineTexts
