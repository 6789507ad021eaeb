import Iteron.EffectJournal
/-!
# EffectAdmission — at-most-once admission of effect identities

The live ledger keeps one turn's identities and refuses a turn that moves backwards; `fromJournal` seeds it after a
restart from the highest turn of the replayed journal.  Both the roll-forward and the claim happen before the boundary
validates or appends anything, so `admitId` returns the ledger it leaves behind whether or not it refuses.
-/
namespace Iteron.Kernel

/-- Every externally visible effect the kernel can dispatch. -/
inductive EffectClass where
  | registryTool
  | provider
  | hook
  | subagent
  | verify
  | checkpoint
  | workspaceRestore
  | workflow
  | telemetry
  deriving DecidableEq

namespace EffectClass

def all : List EffectClass :=
  [.registryTool, .provider, .hook, .subagent, .verify, .checkpoint, .workspaceRestore, .workflow, .telemetry]

/-- The identity namespace code; registry tools keep the original, code-free shape. -/
def code : EffectClass → Option String
  | .registryTool => none
  | .provider => some "pv"
  | .hook => some "hk"
  | .subagent => some "sa"
  | .verify => some "vf"
  | .checkpoint => some "cp"
  | .workspaceRestore => some "wr"
  | .workflow => some "wf"
  | .telemetry => some "tm"

end EffectClass

/-- `{n:0width x}`: lowercase hexadecimal, zero-padded on the left. -/
def hexPad (width n : Nat) : List Char :=
  List.replicate (width - (Nat.toDigits 16 n).length) '0' ++ Nat.toDigits 16 n

def effectIdStem (turn : Nat) (cls : EffectClass) : List Char :=
  "fx1-".toList ++ hexPad 8 turn ++ ['-'] ++ match cls.code with
    | none => []
    | some code => code.toList ++ ['-']

/-- Mint the identity of one class's ordinal inside one turn. -/
def effectId (turn : Nat) (cls : EffectClass) (ordinal : Nat) : EffectId :=
  String.ofList (effectIdStem turn cls ++ hexPad 4 ordinal)

def usizeMax : Nat := 18446744073709551615

def hexValue (c : Char) : Option Nat :=
  if '0' ≤ c ∧ c ≤ '9' then some (c.toNat - '0'.toNat)
  else if 'a' ≤ c ∧ c ≤ 'f' then some (c.toNat - 'a'.toNat + 10)
  else if 'A' ≤ c ∧ c ≤ 'F' then some (c.toNat - 'A'.toNat + 10)
  else none

def hexDigitsValue (acc : Nat) : List Char → Option Nat
  | [] => some acc
  | c :: cs =>
    match hexValue c with
    | none => none
    | some d => if acc * 16 + d ≤ usizeMax then hexDigitsValue (acc * 16 + d) cs else none

/-- `usize::from_str_radix(raw, 16)`: an optional plus sign and at least one digit. -/
def fromStrRadix16 : List Char → Option Nat
  | [] => none
  | ['+'] => none
  | '+' :: cs => hexDigitsValue 0 cs
  | cs => hexDigitsValue 0 cs

/-- The ordinal an identity carries for `cls`, when it is spelled exactly as the host mints it. -/
def canonicalOrdinal (turn : Nat) (cls : EffectClass) (id : EffectId) : Option Nat :=
  if (effectIdStem turn cls).isPrefixOf id.toList then
    let raw := id.toList.drop (effectIdStem turn cls).length
    if (String.ofList raw).utf8ByteSize > 16 then none
    else match fromStrRadix16 raw with
      | none => none
      | some ordinal => if effectId turn cls ordinal = id then some ordinal else none
  else none

/-- One past the highest canonical ordinal of `cls` among the turn's identities. -/
def nextOrdinalOf (turn : Nat) (cls : EffectClass) (ids : List EffectId) : Option Nat :=
  ids.foldl (fun next id =>
    match canonicalOrdinal turn cls id with
    | none => next
    | some ordinal => some (max (next.getD 0) (min (ordinal + 1) usizeMax))) none

structure EffectAdmissions where
  turn : Option Nat
  ids : Std.ExtTreeSet EffectId
  ordinals : EffectClass → Option Nat

inductive EffectAdmissionError where
  | duplicate (id : EffectId)
  | nonMonotonicTurn (requested current : Nat)
  | tooManyEffects (turn : Nat) (ceiling : Nat)

namespace EffectAdmissions

def empty : EffectAdmissions := { turn := none, ids := ∅, ordinals := fun _ => none }

/-- Roll the per-turn state forward if this is a later turn. -/
def enterTurn (A : EffectAdmissions) (turn : Nat) : EffectAdmissions :=
  if A.turn.all (fun current => decide (current < turn)) then
    { turn := some turn, ids := ∅, ordinals := fun _ => none }
  else A

/-- Hand out the next ordinal of one class inside one turn. -/
def nextOrdinal (A : EffectAdmissions) (turn : Nat) (cls : EffectClass) : EffectAdmissions × Nat :=
  let A' := A.enterTurn turn
  let ordinal := (A'.ordinals cls).getD 0
  ({ A' with ordinals := Function.update A'.ordinals cls (some (min (ordinal + 1) usizeMax)) }, ordinal)

/-- Seed the ledger from a replayed journal: the identities of its highest turn. -/
def fromJournal (J : EffectJournal) : EffectAdmissions :=
  match (J.admitted.map Prod.fst).max? with
  | none => empty
  | some highest =>
    let ids := (J.admitted.filter (fun k => k.1 == highest)).map Prod.snd
    { turn := some highest
      ids := Std.ExtTreeSet.ofList ids
      ordinals := fun cls => nextOrdinalOf highest cls (Std.ExtTreeSet.ofList ids).toList }

def admitId (A : EffectAdmissions) (ceiling : Nat) (turn : Nat) (id : EffectId) :
    EffectAdmissions × Except EffectAdmissionError Unit :=
  match A.turn with
  | some current =>
    if turn < current then (A, .error (.nonMonotonicTurn turn current)) else claim A
  | none => claim A
where
  /-- The part of `admitId` after the turn guard. -/
  claim (A : EffectAdmissions) : EffectAdmissions × Except EffectAdmissionError Unit :=
    let A' := A.enterTurn turn
    if A'.ids.size ≥ ceiling then (A', .error (.tooManyEffects turn ceiling))
    else if A'.ids.contains id then (A', .error (.duplicate id))
    else ({ A' with ids := A'.ids.insert id }, .ok ())

end EffectAdmissions
end Iteron.Kernel
