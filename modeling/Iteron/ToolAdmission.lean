import Mathlib.Data.Finset.Card
import Iteron.RedactScan
import Iteron.Transcript
/-!
# ToolAdmission — the tool calls of one turn

A call is checked, claims its id, and only then is its argument size checked.  A call refused by that last check leaves
its id claimed, so admission is atomic exactly over the runs in which no call reaches it and fails (`atomic_iff`).
-/
namespace Iteron.ToolAdmission
open Transcript (ToolUse)

/-- The limits of admission, with their compiled values. -/
structure Limits where
  maxToolCallsPerTurn : Nat := 128
  maxToolUseIdBytes : Nat := 512
  maxToolNameBytes : Nat := 256
  maxToolArgumentBytes : Nat := 1024 * 1024
  maxCorrelationIdentifierBytes : Nat := 128

inductive ContractError where
  | tooMany
  | invalidId
  | unsafeIdentity
  | secretShapedIdentity
  | reservedIdentity
  | duplicateId
  | invalidName
  | argumentsTooLarge

/-! ## The checks of an identity -/

def trim (s : List Char) : List Char := (s.dropWhile Text.isWhitespace).rdropWhile Text.isWhitespace

def unsafeChar (c : Char) : Bool :=
  Text.isControl c || (decide (0x200B ≤ c.toNat) && decide (c.toNat ≤ 0x200F)) ||
    (decide (0x202A ≤ c.toNat) && decide (c.toNat ≤ 0x202E)) ||
    (decide (0x2066 ≤ c.toNat) && decide (c.toNat ≤ 0x2069)) || c.toNat == 0x00AD || c.toNat == 0xFEFF

def unsafeIdentity (value : String) : Bool := value.toList.any unsafeChar

def credentialStarts : List String := ["sk-", "ghp_", "gho_", "ghs_", "xoxb-", "xoxp-", "AKIA", "AIza", "eyJ"]

def isCorrelationIdentifier (limits : Limits) (value : List Char) : Bool :=
  !value.isEmpty && decide (Redact.byteLen value ≤ limits.maxCorrelationIdentifierBytes) &&
    value.all (fun c => c.isAlphanum || c == '_' || c == '-') &&
    !credentialStarts.any (fun start => start.toList.isPrefixOf value)

def scrubCorrelationIdentifier (limits : Limits) (value : List Char) : List Char :=
  if isCorrelationIdentifier limits value then value else Redact.scrub value

/-- `is_harness_effect_id` and `is_harness_correlation_id`. -/
def reservedId (value : String) : Bool :=
  "fx1-".toList.isPrefixOf value.toList || "hx1-".toList.isPrefixOf value.toList

/-- The checks made before the id is claimed, in their order. -/
def identityError (limits : Limits) (tool : ToolUse) : Option ContractError :=
  if (trim tool.id.toList).isEmpty || decide (limits.maxToolUseIdBytes < tool.id.utf8ByteSize) then some .invalidId
  else if (trim tool.name.toList).isEmpty || decide (limits.maxToolNameBytes < tool.name.utf8ByteSize) then
    some .invalidName
  else if unsafeIdentity tool.id || unsafeIdentity tool.name then some .unsafeIdentity
  else if scrubCorrelationIdentifier limits tool.id.toList ≠ tool.id.toList ∨
      Redact.scrub tool.name.toList ≠ tool.name.toList then some .secretShapedIdentity
  else if reservedId tool.id then some .reservedIdentity
  else none

/-! ## Admission -/

section
-- the bytes of `serde_json::to_vec`, `none` where it fails
variable (limits : Limits) (encodedLen : Kernel.Json → Option Nat)

def argumentsTooLarge (tool : ToolUse) : Bool :=
  match encodedLen tool.input with
  | some n => decide (limits.maxToolArgumentBytes < n)
  | none => true

/-- `ToolCallAdmission::admit`: the answer and the claimed ids after it. -/
def admitTool (ids : Finset String) (tool : ToolUse) : Except ContractError Unit × Finset String :=
  if limits.maxToolCallsPerTurn ≤ ids.card then (.error .tooMany, ids)
  else
    match identityError limits tool with
    | some e => (.error e, ids)
    | none =>
      if tool.id ∈ ids then (.error .duplicateId, ids)
      else if argumentsTooLarge limits encodedLen tool then (.error .argumentsTooLarge, insert tool.id ids)
      else (.ok (), insert tool.id ids)

def claimedFrom : Finset String → List ToolUse → Finset String
  | ids, [] => ids
  | ids, tool :: calls => claimedFrom (admitTool limits encodedLen ids tool).2 calls

/-- The ids of the calls of a run that were admitted, in order. -/
def admittedFrom : Finset String → List ToolUse → List String
  | _, [] => []
  | ids, tool :: calls =>
    (if (admitTool limits encodedLen ids tool).1.isOk then [tool.id] else []) ++
      admittedFrom (admitTool limits encodedLen ids tool).2 calls

def claimed (calls : List ToolUse) : Finset String := claimedFrom limits encodedLen ∅ calls

def admitted (calls : List ToolUse) : List String := admittedFrom limits encodedLen ∅ calls

/-- A run of calls is atomic: a refusal claims nothing, the claimed ids are those of the admitted calls, distinct and
within the ceiling, and an id is a duplicate only of an admitted one. -/
def Atomic (calls : List ToolUse) : Prop :=
  (∀ pre tool post, calls = pre ++ tool :: post → ∀ e,
    (admitTool limits encodedLen (claimed limits encodedLen pre) tool).1 = .error e →
    (admitTool limits encodedLen (claimed limits encodedLen pre) tool).2 = claimed limits encodedLen pre) ∧
  (∀ pre, pre <+: calls → claimed limits encodedLen pre = (admitted limits encodedLen pre).toFinset ∧
    (admitted limits encodedLen pre).Nodup ∧ (claimed limits encodedLen pre).card ≤ limits.maxToolCallsPerTurn) ∧
  ∀ pre tool post, calls = pre ++ tool :: post →
    (admitTool limits encodedLen (claimed limits encodedLen pre) tool).1 = .error .duplicateId →
    tool.id ∈ admitted limits encodedLen pre

/-- The call passes every check of its identity, claims a new id and is refused for its arguments. -/
def Leaks (ids : Finset String) (tool : ToolUse) : Prop :=
  ids.card < limits.maxToolCallsPerTurn ∧ identityError limits tool = none ∧ tool.id ∉ ids ∧
    argumentsTooLarge limits encodedLen tool = true

variable {limits encodedLen} {ids : Finset String} {tool : ToolUse} {calls : List ToolUse}

theorem admitTool_cases (limits : Limits) (encodedLen : Kernel.Json → Option Nat) (ids : Finset String) (tool : ToolUse) :
    (∃ e, admitTool limits encodedLen ids tool = (.error e, ids) ∧ (e = .duplicateId → tool.id ∈ ids) ∧
      ¬ Leaks limits encodedLen ids tool) ∨ (Leaks limits encodedLen ids tool ∧
      admitTool limits encodedLen ids tool = (.error .argumentsTooLarge, insert tool.id ids)) ∨
    (admitTool limits encodedLen ids tool = (.ok (), insert tool.id ids) ∧ tool.id ∉ ids ∧
      ids.card < limits.maxToolCallsPerTurn ∧ ¬ Leaks limits encodedLen ids tool) := by
  rw [admitTool]
  split
  · rename_i hfull
    exact .inl ⟨.tooMany, rfl, by simp, fun h => absurd h.1 (Nat.not_lt.2 hfull)⟩
  · rename_i hroom
    split
    · rename_i e he
      refine .inl ⟨e, rfl, ?_, fun h => by rw [h.2.1] at he; cases he⟩
      rintro rfl
      rw [identityError] at he
      split_ifs at he <;> cases he
    · rename_i hid
      split
      · rename_i hmem
        exact .inl ⟨.duplicateId, rfl, fun _ => hmem, fun h => h.2.2.1 hmem⟩
      · rename_i hnew
        split
        · rename_i hlarge
          exact .inr (.inl ⟨⟨Nat.not_le.1 hroom, hid, hnew, hlarge⟩, rfl⟩)
        · rename_i hsmall
          exact .inr (.inr ⟨rfl, hnew, Nat.not_le.1 hroom, fun h => hsmall h.2.2.2⟩)

theorem admitTool_unchanged_iff : (∀ e, (admitTool limits encodedLen ids tool).1 = .error e →
    (admitTool limits encodedLen ids tool).2 = ids) ↔ ¬ Leaks limits encodedLen ids tool := by
  obtain ⟨e, h, -, hleak⟩ | ⟨hleak, h⟩ | ⟨h, -, -, hleak⟩ :=
    admitTool_cases limits encodedLen ids tool
  · rw [h]
    exact iff_of_true (fun _ _ => rfl) hleak
  · rw [h]
    refine iff_of_false (fun hall => ?_) (fun hn => hn hleak)
    exact hleak.2.2.1 (Finset.insert_eq_self.1 (hall _ rfl))
  · rw [h]
    exact iff_of_true (by simp) hleak

theorem claimedFrom_append : ∀ (pre : List ToolUse) (ids : Finset String), claimedFrom limits encodedLen ids (pre ++ calls) =
    claimedFrom limits encodedLen (claimedFrom limits encodedLen ids pre) calls
  | [], _ => rfl
  | tool :: pre, ids => by
    exact claimedFrom_append pre _

theorem admittedFrom_append : ∀ (pre : List ToolUse) (ids : Finset String), admittedFrom limits encodedLen ids (pre ++ calls) =
    admittedFrom limits encodedLen ids pre ++ admittedFrom limits encodedLen (claimedFrom limits encodedLen ids pre) calls
  | [], _ => rfl
  | tool :: pre, ids => by
    rw [List.cons_append, admittedFrom, admittedFrom, claimedFrom, admittedFrom_append pre, List.append_assoc]

theorem claimed_snoc (pre : List ToolUse) (tool : ToolUse) : claimed limits encodedLen (pre ++ [tool]) =
    (admitTool limits encodedLen (claimed limits encodedLen pre) tool).2 :=
  claimedFrom_append pre ∅

theorem admitted_snoc (pre : List ToolUse) (tool : ToolUse) : admitted limits encodedLen (pre ++ [tool]) =
    admitted limits encodedLen pre ++
      if (admitTool limits encodedLen (claimed limits encodedLen pre) tool).1.isOk then [tool.id] else [] := by
  rw [admitted, admittedFrom_append, admittedFrom, admittedFrom, List.append_nil]
  rfl

def NoLeak (limits : Limits) (encodedLen : Kernel.Json → Option Nat) (calls : List ToolUse) : Prop :=
  ∀ pre tool post, calls = pre ++ tool :: post → ¬ Leaks limits encodedLen (claimed limits encodedLen pre) tool

theorem claimed_eq_admitted (calls : List ToolUse) (h : NoLeak limits encodedLen calls) :
    claimed limits encodedLen calls = (admitted limits encodedLen calls).toFinset ∧
      (admitted limits encodedLen calls).Nodup ∧ (claimed limits encodedLen calls).card ≤ limits.maxToolCallsPerTurn := by
  induction calls using List.reverseRecOn with
  | nil => exact ⟨rfl, List.nodup_nil, Nat.zero_le _⟩
  | append_singleton pre tool ih =>
    have hpre : NoLeak limits encodedLen pre := by
      intro p t post heq
      exact h p t (post ++ [tool]) (by rw [heq]; simp)
    obtain ⟨hclaimed, hnodup, hcard⟩ := ih hpre
    rw [claimed_snoc, admitted_snoc]
    obtain ⟨e, hstep, -, -⟩ | ⟨hleak, -⟩ | ⟨hstep, hnew, hroom, -⟩ :=
      admitTool_cases limits encodedLen (claimed limits encodedLen pre) tool
    · rw [hstep]
      simpa [Except.isOk, Except.toBool] using ⟨hclaimed, hnodup, hcard⟩
    · exact absurd hleak (h pre tool [] rfl)
    · rw [hstep]
      rw [hclaimed, List.mem_toFinset] at hnew
      refine ⟨?_, ?_, ?_⟩
      · simp [Except.isOk, Except.toBool, hclaimed]
      · refine List.nodup_append.2 ⟨hnodup, by simp [Except.isOk, Except.toBool], fun a ha b hb => ?_⟩
        obtain rfl : b = tool.id := by simpa [Except.isOk, Except.toBool] using hb
        rintro rfl
        exact hnew ha
      · exact (Finset.card_insert_le _ _).trans hroom

/-- **Admission is atomic** over a run exactly when no call of it claims its id and is then refused for its
arguments. -/
theorem atomic_iff (limits : Limits) (encodedLen : Kernel.Json → Option Nat) (calls : List ToolUse) :
    Atomic limits encodedLen calls ↔ NoLeak limits encodedLen calls := by
  constructor
  · rintro ⟨hunchanged, -, -⟩ pre tool post heq
    exact admitTool_unchanged_iff.1 (hunchanged pre tool post heq)
  · intro h
    have hruns (pre : List ToolUse) (hpre : pre <+: calls) := claimed_eq_admitted pre (fun p t post heq => by
      obtain ⟨rest, rfl⟩ := hpre
      exact h p t (post ++ rest) (by rw [heq]; simp))
    refine ⟨fun pre tool post heq => admitTool_unchanged_iff.2 (h pre tool post heq), hruns, fun pre tool post heq hdup => ?_⟩
    have hclaimed := (hruns pre ⟨tool :: post, heq.symm⟩).1
    obtain ⟨e, hstep, hmem, -⟩ | ⟨-, hstep⟩ | ⟨hstep, -⟩ :=
      admitTool_cases limits encodedLen (claimed limits encodedLen pre) tool
    · rw [hstep] at hdup
      have := hmem (Except.error.inj hdup)
      rwa [hclaimed, List.mem_toFinset] at this
    · rw [hstep] at hdup
      cases hdup
    · rw [hstep] at hdup
      cases hdup

/-- The bytes `serde_json` writes for a null and for a string without anything to escape. -/
def plainLen : Kernel.Json → Option Nat
  | .string s => some (s.utf8ByteSize + 2)
  | _ => some 4

/-- An edit with a text of `n` bytes. -/
def editCall (n : Nat) : ToolUse := ⟨"call_1", "edit", .string (String.ofList (List.replicate n 'a'))⟩

theorem utf8ByteSize_replicate (n : Nat) : (String.ofList (List.replicate n 'a')).utf8ByteSize = n := by
  induction n with
  | zero => rfl
  | succ n ih =>
    rw [List.replicate_succ, String.ofList_cons, String.utf8ByteSize_append, ih, String.utf8ByteSize_singleton, Nat.add_comm]
    rfl

theorem argumentsTooLarge_editCall (n : Nat) :
    argumentsTooLarge {} plainLen (editCall n) = decide (1024 * 1024 < n + 2) := by
  rw [argumentsTooLarge, editCall, plainLen, utf8ByteSize_replicate]

/-- A call refused for its arguments keeps its id. -/
theorem not_atomic_large_arguments : ¬ Atomic {} plainLen [editCall (1024 * 1024)] := by
  rw [atomic_iff]
  intro h
  refine h [] _ [] rfl ⟨by decide, by decide +kernel, by simp [claimed, claimedFrom], ?_⟩
  rw [argumentsTooLarge_editCall]
  decide

end

end Iteron.ToolAdmission
