import Mathlib.Data.List.Basic
/-!
# Base64 — three bytes as four characters

The standard alphabet, padded.  A text is its bytes.
-/
namespace Iteron.Base64

def pad : UInt8 := 61

def character (i : Nat) : UInt8 :=
  if i < 26 then .ofNat (65 + i) else if i < 52 then .ofNat (71 + i) else if i < 62 then .ofNat (i - 4)
  else if i = 62 then 43 else 47

def value (c : UInt8) : Option Nat := (List.range 64).find? (fun i => character i == c)

/-! The four characters of three bytes `a`, `b`, `c`, as numbers below 64; those of fewer bytes end in zeros. -/

def one (a : UInt8) : Nat := a.toNat / 4
def two (a b : UInt8) : Nat := a.toNat % 4 * 16 + b.toNat / 16
def three (b c : UInt8) : Nat := b.toNat % 16 * 4 + c.toNat / 64
def four (c : UInt8) : Nat := c.toNat % 64

def encode : List UInt8 → List UInt8
  | [] => []
  | [a] => [character (one a), character (two a 0), pad, pad]
  | [a, b] => [character (one a), character (two a b), character (three b 0), pad]
  | a :: b :: c :: rest =>
    character (one a) :: character (two a b) :: character (three b c) :: character (four c) :: encode rest

def first (i j : Nat) : UInt8 := .ofNat (i * 4 + j / 16)
def second (j k : Nat) : UInt8 := .ofNat (j % 16 * 16 + k / 4)
def third (k l : Nat) : UInt8 := .ofNat (k % 4 * 64 + l)

def decode : List UInt8 → Option (List UInt8)
  | [] => some []
  | w :: x :: y :: z :: rest => do
    let i ← value w
    let j ← value x
    if y = pad then if z = pad ∧ rest = [] then some [first i j] else none
    else
      let k ← value y
      if z = pad then if rest = [] then some [first i j, second j k] else none
      else
        let l ← value z
        let later ← decode rest
        some (first i j :: second j k :: third k l :: later)
  | _ => none

variable (a b c : UInt8)

end Iteron.Base64
