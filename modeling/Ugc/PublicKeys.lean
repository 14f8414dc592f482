import Ugc.MarkedTexts
import Ugc.SignPackage

/-!
The trusted public keys that `sign_package.py` takes from its environment: values in
base64 between commas and white space, or the blocks of a PEM text. Both ways of
writing the keys down are read alike.
-/
namespace UgcPublicKeys
open LineTexts MarkedTexts PythonStrings UgcSignPackage

def publicKeysVariable : PyStr := text "BFLAT_SIGNING_PUBLIC_KEY"

/-- `str.isspace` and `\s` on one character. -/
def isSpace (c : CodePoint) : Bool :=
  decide (0x09 ≤ c.val ∧ c.val ≤ 0x0D) || decide (0x1C ≤ c.val ∧ c.val ≤ 0x20) ||
    c.val == 0x85 || c.val == 0xA0 || c.val == 0x1680 ||
    decide (0x2000 ≤ c.val ∧ c.val ≤ 0x200A) || c.val == 0x2028 || c.val == 0x2029 ||
    c.val == 0x202F || c.val == 0x205F || c.val == 0x3000

def dash : CodePoint := ⟨0x2D, by decide⟩

/-- `[,\s]` -/
def isSeparator (c : CodePoint) : Bool := c.val == 0x2C || isSpace c

def beginMark : PyStr := text "-----BEGIN PUBLIC KEY-----"

def endMark : PyStr := text "-----END PUBLIC KEY-----"

def unspaced (s : PyStr) : PyStr := s.filter fun c => !isSpace c

/-- The values that the variable holds, one for each key. -/
def keyValues (value : PyStr) : List PyStr :=
  if text "-----BEGIN" <:+: value then (enclosed beginMark endMark value).map unspaced
  else fields isSeparator value

section Keys
variable (b64decode : PyStr → Except PyStr Bytes)

/-- The keys that the values stand for; `b64decode` fails with the text of its error. -/
def decodedKeys (values : List PyStr) : Except Raised (List Bytes) :=
  match values.mapM b64decode with
  | .error e => fail (publicKeysVariable ++ text " has a value that is not base64: " ++ e)
  | .ok keys =>
    if keys = [] then fail (publicKeysVariable ++ text " is set but has no public key")
    else .ok keys

def publicKeys (value : PyStr) : Except Raised (List Bytes) :=
  if stripped isSpace value = [] then .ok [] else decodedKeys b64decode (keyValues value)

theorem decoded_some {values : List PyStr} {keys : List Bytes}
    (read : decodedKeys b64decode values = .ok keys) : keys ≠ [] := by
  unfold decodedKeys at read
  cases decoded : values.mapM b64decode with
  | error e =>
    rw [decoded] at read
    cases read
  | ok found =>
    simp only [decoded] at read
    by_cases empty : found = []
    · rw [if_pos empty] at read
      cases read
    · rw [if_neg empty] at read
      cases read
      exact empty

/-- There are no keys only where the variable is not set: one that is set and holds no
    key ends the script. -/
theorem public_keys_nil_iff {value : PyStr} :
    publicKeys b64decode value = .ok [] ↔ ∀ c ∈ value, isSpace c = true := by
  rw [← stripped_nil_iff, publicKeys]
  by_cases blank : stripped isSpace value = []
  · rw [if_pos blank]
    exact iff_of_true rfl blank
  · rw [if_neg blank]
    exact iff_of_false (fun read => decoded_some b64decode read rfl) blank

end Keys

theorem dash_plain : isSeparator dash = false := by decide +kernel

/-- A text without a dash has no PEM block. -/
theorem key_values_plain {value : PyStr} (plain : dash ∉ value) :
    keyValues value = fields isSeparator value := by
  have marked : dash ∈ text "-----BEGIN" := by decide +kernel
  exact if_neg fun inside => plain (inside.subset marked)

theorem public_keys_of_plain (b64decode : PyStr → Except PyStr Bytes) {value : PyStr}
    {c : CodePoint} (member : c ∈ value) (plain : isSpace c = false) :
    publicKeys b64decode value = decodedKeys b64decode (keyValues value) := by
  refine if_neg fun blank => ?_
  exact absurd (plain.symm.trans (stripped_nil_iff.mp blank c member)) Bool.false_ne_true

theorem not_space_of_plain {c : CodePoint} (plain : isSeparator c = false) : isSpace c = false := by
  rw [isSeparator, Bool.or_eq_false_iff] at plain
  exact plain.2

/-- Values in the order of the keys, as either format may hold them. -/
structure Values (values : List PyStr) : Prop where
  some : values ≠ []
  given : ∀ value ∈ values, value ≠ []
  clear : ∀ value ∈ values, ∀ c ∈ value, isSeparator c = false
  plain : ∀ value ∈ values, dash ∉ value

/-- The values with runs of commas and white space between them. -/
structure Listed (values : List PyStr) (parts : List (PyStr × PyStr)) (last : PyStr) : Prop where
  same : parts.map Prod.fst ++ [last] = values
  runs : ∀ part ∈ parts, part.2 ≠ [] ∧ ∀ c ∈ part.2, isSeparator c = true

/-- The values in PEM blocks, each broken into lines or not, with other text between. -/
structure Armoured (values : List PyStr) (blocks : List (PyStr × PyStr)) (tail : PyStr) : Prop where
  same : (blocks.map fun block => unspaced block.2) = values
  gaps : ∀ block ∈ blocks, dash ∉ block.1
  ends : dash ∉ tail

section Formats
variable (b64decode : PyStr → Except PyStr Bytes) {values : List PyStr} (made : Values values)
include made

theorem public_keys_listed {parts : List (PyStr × PyStr)} {last : PyStr}
    (listed : Listed values parts last) :
    publicKeys b64decode (separated parts last) = decodedKeys b64decode values := by
  have ours : ∀ part ∈ parts, part.1 ∈ values := fun part member =>
    listed.same ▸ List.mem_append_left _ (List.mem_map_of_mem member)
  have final : last ∈ values := listed.same ▸ List.mem_append_right _ List.mem_cons_self
  have dashless : dash ∉ separated parts last := by
    intro member
    rcases List.mem_append.mp member with front | inside
    · obtain ⟨part, found, here⟩ := List.mem_flatMap.mp front
      rcases List.mem_append.mp here with value | run
      · exact made.plain _ (ours part found) value
      · have separates := (listed.runs part found).2 dash run
        exact absurd (dash_plain.symm.trans separates) Bool.false_ne_true
    · exact made.plain _ final inside
  have read : fields isSeparator (separated parts last) = parts.map Prod.fst ++ [last] := by
    refine fields_separated ?_ (made.given _ final) ?_ (made.clear _ final)
    · exact fun part member => ⟨made.given _ (ours part member), (listed.runs part member).1⟩
    · exact fun part member => ⟨made.clear _ (ours part member), (listed.runs part member).2⟩
  obtain ⟨c, inside⟩ := List.exists_mem_of_ne_nil last (made.given _ final)
  have visible := not_space_of_plain (made.clear _ final c inside)
  have whole : c ∈ separated parts last := List.mem_append_right _ inside
  rw [public_keys_of_plain b64decode whole visible, key_values_plain dashless, read, listed.same]

theorem public_keys_armoured {blocks : List (PyStr × PyStr)} {tail : PyStr}
    (armoured : Armoured values blocks tail) :
    publicKeys b64decode (marked beginMark endMark blocks tail) = decodedKeys b64decode values := by
  have some : blocks ≠ [] := by
    intro empty
    apply made.some
    rw [← armoured.same, empty, List.map_nil]
  have clear : ∀ block ∈ blocks, dash ∉ block.1 ∧ dash ∉ block.2 := by
    intro block member
    refine ⟨armoured.gaps block member, fun inside => ?_⟩
    have value : unspaced block.2 ∈ values :=
      armoured.same ▸ List.mem_map_of_mem (f := fun block => unspaced block.2) member
    have visible := not_space_of_plain dash_plain
    exact made.plain _ value (List.mem_filter.mpr ⟨inside, by rw [visible]; rfl⟩)
  obtain ⟨block, others, shape⟩ := List.exists_cons_of_ne_nil some
  have begins : beginMark <:+: marked beginMark endMark blocks tail := by
    refine ⟨block.1, block.2 ++ endMark ++ marked beginMark endMark others tail, ?_⟩
    simp only [shape, marked, List.flatMap_cons, List.append_assoc]
  have prefixed : (text "-----BEGIN").isPrefixOf beginMark = true := by decide +kernel
  have first : text "-----BEGIN" <:+: beginMark := (List.isPrefixOf_iff_prefix.mp prefixed).isInfix
  have dashed : dash ∈ beginMark := by decide +kernel
  have opens : beginMark = dash :: text "----BEGIN PUBLIC KEY-----" := rfl
  have closes : endMark = dash :: text "----END PUBLIC KEY-----" := rfl
  rw [public_keys_of_plain b64decode (begins.subset dashed) (not_space_of_plain dash_plain),
    keyValues, if_pos (first.trans begins), opens, closes,
    enclosed_marked _ _ clear armoured.ends, List.map_map, ← armoured.same]
  rfl

end Formats

/-- Two values of four characters, one of them broken over two lines. -/
def twoValues : List PyStr := [text "QUI=", text "Qg=="]

def twoDecoded (value : PyStr) : Except PyStr Bytes :=
  if value = text "QUI=" then .ok [65, 66] else .ok [66]

end UgcPublicKeys
