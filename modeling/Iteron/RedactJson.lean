import Iteron.Event
import Iteron.RedactLines
/-!
# RedactJson — the strings of recorded tool arguments

Every string leaf of a scrubbed value is clean, and every key is the key it was: no string of the value has a word left
to mask exactly when the keys had none (`clean_strings_iff`).
-/
namespace Iteron.Redact
open Kernel (Json)

variable {b l rest : List Char} {ls : List (List Char)}

/-! ## A scrubbed text is clean -/

theorem clean_of_append {t : List Char} (ht : Cut t) (h : Clean (l ++ t)) : Clean l := by
  intro w hw
  refine h w ?_
  rw [tokens_append l ht]
  exact List.mem_append_left _ hw

theorem clean_line (hl : Clean (b ++ ['\n'])) (h : Clean rest) : Clean (b ++ '\n' :: rest) :=
  clean_append (clean_of_append cut_newline hl) cut_newline (clean_separator (by decide) h)

theorem clean_flatten : ∀ {ls : List (List Char)}, Lined ls → (∀ l ∈ ls, Clean l) → Clean ls.flatten
  | [], _, _ => clean_nil
  | l :: ls, h, hclean => by
    obtain ⟨⟨b, hb, hl⟩, hnl, hls⟩ := h
    have ih := clean_flatten hls (fun l' hl' => hclean l' (.tail _ hl'))
    have hhead := hclean l (.head _)
    rw [List.flatten_cons]
    obtain rfl | ⟨rfl, -⟩ := hl
    · rw [List.append_assoc]
      exact clean_line hhead ih
    · cases ls with
      | nil => simpa using hhead
      | cons l' ls => exact absurd (hnl (by simp)) hb

theorem clean_keyNotice : Clean keyNotice := by
  intro w hw
  have hwords : ∀ t ∈ tokens keyNotice, t.masked = source t.items := by decide +kernel
  have := hwords _ hw
  exact this.trans (source_wordItems w)

theorem clean_scrubLines : ∀ (ls : List (List Char)) (inPem : Bool), ∀ l ∈ scrubLines inPem ls, Clean l
  | [], _, l, h => by cases h
  | line :: ls, inPem, l, h => by
    rw [scrubLines] at h
    split at h
    · obtain rfl | h := List.mem_cons.1 h
      · exact clean_keyNotice
      · exact clean_scrubLines ls _ l h
    · split at h
      · exact clean_scrubLines ls _ l h
      · obtain rfl | h := List.mem_cons.1 h
        · exact clean_scrub _
        · exact clean_scrubLines ls _ l h

theorem clean_scrub_text (s : List Char) : Clean (scrub s) :=
  clean_flatten (lined_scrubLines false (lined_splitInclusive s)) (clean_scrubLines _ _)

/-! ## Values -/

def scrubText (s : String) : String := String.ofList (scrub s.toList)

mutual

def scrubJson : Json → Json
  | .string s => .string (scrubText s)
  | .array items => .array (scrubItems items)
  | .object fields => .object (scrubFields fields)
  | .null => .null
  | .bool b => .bool b
  | .posInt n => .posInt n
  | .negInt n => .negInt n
  | .float bits => .float bits

def scrubItems : List Json → List Json
  | [] => []
  | v :: vs => scrubJson v :: scrubItems vs

def scrubFields : List (String × Json) → List (String × Json)
  | [] => []
  | (key, v) :: fields => (key, scrubJson v) :: scrubFields fields

end

mutual

def keys : Json → List String
  | .array items => itemKeys items
  | .object fields => fieldKeys fields
  | _ => []

def itemKeys : List Json → List String
  | [] => []
  | v :: vs => keys v ++ itemKeys vs

def fieldKeys : List (String × Json) → List String
  | [] => []
  | (key, v) :: fields => key :: (keys v ++ fieldKeys fields)

end

mutual

def leaves : Json → List String
  | .string s => [s]
  | .array items => itemLeaves items
  | .object fields => fieldLeaves fields
  | _ => []

def itemLeaves : List Json → List String
  | [] => []
  | v :: vs => leaves v ++ itemLeaves vs

def fieldLeaves : List (String × Json) → List String
  | [] => []
  | (_, v) :: fields => leaves v ++ fieldLeaves fields

end

mutual

theorem keys_scrubJson : ∀ v : Json, keys (scrubJson v) = keys v
  | .string s => by rw [scrubJson]; rfl
  | .array items => by rw [scrubJson, keys, keys, itemKeys_scrubItems items]
  | .object fields => by rw [scrubJson, keys, keys, fieldKeys_scrubFields fields]
  | .null => by rw [scrubJson]
  | .bool b => by rw [scrubJson]
  | .posInt n => by rw [scrubJson]
  | .negInt n => by rw [scrubJson]
  | .float _ => by rw [scrubJson]

theorem itemKeys_scrubItems : ∀ vs : List Json, itemKeys (scrubItems vs) = itemKeys vs
  | [] => by rw [scrubItems]
  | v :: vs => by rw [scrubItems, itemKeys, itemKeys, keys_scrubJson v, itemKeys_scrubItems vs]

theorem fieldKeys_scrubFields : ∀ fields : List (String × Json), fieldKeys (scrubFields fields) = fieldKeys fields
  | [] => by rw [scrubFields]
  | (key, v) :: fields => by rw [scrubFields, fieldKeys, fieldKeys, keys_scrubJson v, fieldKeys_scrubFields fields]

end

mutual

theorem leaves_scrubJson : ∀ v : Json, leaves (scrubJson v) = (leaves v).map scrubText
  | .string s => by rw [scrubJson, leaves, leaves]; rfl
  | .array items => by rw [scrubJson, leaves, leaves, itemLeaves_scrubItems items]
  | .object fields => by rw [scrubJson, leaves, leaves, fieldLeaves_scrubFields fields]
  | .null => by rw [scrubJson]; rfl
  | .bool b => by rw [scrubJson]; rfl
  | .posInt n => by rw [scrubJson]; rfl
  | .negInt n => by rw [scrubJson]; rfl
  | .float _ => by rw [scrubJson]; rfl

theorem itemLeaves_scrubItems : ∀ vs : List Json, itemLeaves (scrubItems vs) = (itemLeaves vs).map scrubText
  | [] => by rw [scrubItems]; rfl
  | v :: vs => by rw [scrubItems, itemLeaves, itemLeaves, leaves_scrubJson v, itemLeaves_scrubItems vs, List.map_append]

theorem fieldLeaves_scrubFields : ∀ fields : List (String × Json),
    fieldLeaves (scrubFields fields) = (fieldLeaves fields).map scrubText
  | [] => by rw [scrubFields]; rfl
  | (_, v) :: fields => by
    rw [scrubFields, fieldLeaves, fieldLeaves, leaves_scrubJson v, fieldLeaves_scrubFields fields, List.map_append]

end

/-- The strings that occur in a value, as a key at any depth or as a leaf. -/
def strings (v : Json) : List String := keys v ++ leaves v

/-- **No secret is left in recorded arguments** exactly when no key of the value has a word to mask. -/
theorem clean_strings_iff (v : Json) :
    (∀ s ∈ strings (scrubJson v), Clean s.toList) ↔ ∀ key ∈ keys v, Clean key.toList := by
  have hleaf : ∀ s ∈ (leaves v).map scrubText, Clean s.toList := by
    intro s hs
    obtain ⟨t, -, rfl⟩ := List.mem_map.1 hs
    rw [scrubText, String.toList_ofList]
    exact clean_scrub_text _
  rw [strings, keys_scrubJson, leaves_scrubJson]
  constructor
  · exact fun h key hkey => h key (List.mem_append_left _ hkey)
  · intro h s hs
    obtain hs | hs := List.mem_append.1 hs
    · exact h s hs
    · exact hleaf s hs

/-- A credential used as a key is recorded as it is. -/
theorem not_clean_key : ¬ ∀ s ∈ strings (scrubJson (.object [("sk-ant-x", .null)])), Clean s.toList := by
  intro h
  have hmem : "sk-ant-x" ∈ strings (scrubJson (.object [("sk-ant-x", .null)])) := by decide
  have hword : Token.word "sk-ant-x".toList ∈ tokens "sk-ant-x".toList := by decide +kernel
  exact absurd (h _ hmem _ hword) (by decide)

end Iteron.Redact
