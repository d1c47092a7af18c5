import Mitiflow.Library.Text
import Mitiflow.Types

namespace Mitiflow

open Library List

/-!
# Key expressions

Events travel on key expressions of the shape `{prefix}/p/{partition}/{seq}`
or `{prefix}/p/{partition}/k/{key}/{seq}`.  This module models how partition
and application key are read back from such an expression, how application
keys are validated, and the expressions the publisher builds.
-/

/-- The partition named after the first `/p/` segment, zero without one. -/
def extractPartition (key : String) : U32 :=
  match Text.cutAt "/p/".toList key.toList with
  | none => 0
  | some (_, rest) =>
    let digits :=
      match Text.splitOnce '/' rest with
      | some (digits, _) => digits
      | none => rest
    match Text.parseUnsigned u32Max digits with
    | .ok partition => Fin.ofNat (2 ^ 32) partition
    | .error _ => 0

/-- The application key of a keyed expression. -/
def extractKey (keyExpr : String) : Option String :=
  match Text.cutAt "/k/".toList keyExpr.toList with
  | none => none
  | some (_, afterK) =>
    match Text.splitOnce '/' afterK.reverse with
    | none => none
    | some (_, reversedKey) =>
      if reversedKey = [] then
        none
      else
        some (String.ofList reversedKey.reverse)

/-- Reject keys that cannot be embedded in a key expression. -/
def validateKey (key : String) : Except Error Unit :=
  if key.toList = [] then
    .error (.invalidKey "key must not be empty")
  else if key.toList.contains '*' || key.toList.contains '$' then
    .error (.invalidKey "key must not contain * or $")
  else
    .ok ()

/-- The expression of an unkeyed event. -/
def eventKeyExpr (keyPrefix : String) (partition : U32) (seq : U64) :
    String :=
  keyPrefix ++ "/p/" ++ toString partition.val ++ "/" ++ toString seq.val

/-- The expression of a keyed event. -/
def keyedEventKeyExpr
    (keyPrefix : String)
    (partition : U32)
    (key : String)
    (seq : U64) : String :=
  keyPrefix ++ "/p/" ++ toString partition.val ++ "/k/" ++ key ++ "/" ++
    toString seq.val

theorem isDigit_of_mem_repr
    {number : Nat}
    {c : Char}
    (member : c ∈ (Nat.repr number).toList) :
    c.isDigit = true := by
  rw [Nat.toList_repr] at member
  exact Nat.isDigit_of_mem_toDigits (by decide) (by decide) member

theorem ne_slash_of_mem_repr (number : Nat) :
    ∀ c ∈ (Nat.repr number).toList, c ≠ '/' := by
  intro c member isSlash
  have digit := isDigit_of_mem_repr member
  rw [isSlash] at digit
  cases digit

variable {key : String}

/-- Reading a partition number followed by the end or by a slash. -/
theorem extractPartition_of_cut
    {before rest : List Char}
    (partition : U32)
    (cut :
      Text.cutAt "/p/".toList key.toList =
        some (before, (Nat.repr partition.val).toList ++ rest))
    (ends : rest = [] ∨ ∃ tail, rest = '/' :: tail) :
    extractPartition key = partition := by
  have noSlash := ne_slash_of_mem_repr partition.val
  have fits : partition.val ≤ u32Max := by
    simp only [u32Max]
    omega
  have parsed := Text.parseUnsigned_repr fits
  have restored : Fin.ofNat (2 ^ 32) partition.val = partition :=
    Fin.ext (Nat.mod_eq_of_lt partition.isLt)
  rcases ends with isEnd | ⟨tail, isSlash⟩
  · subst isEnd
    rw [append_nil] at cut
    simp only [extractPartition, cut, Text.splitOnce_eq_none noSlash,
      parsed, restored]
  · subst isSlash
    simp only [extractPartition, cut, Text.splitOnce_append noSlash tail,
      parsed, restored]

/-! ## Subscriptions -/

/--
Whether a subscription receives a key.  The modelled expressions are literal
or end in `/**`, which stands for any further segments or none.
-/
def keyExprMatches (expr key : String) : Bool :=
  if "/**".toList <:+ expr.toList then
    let literal := expr.toList.take (expr.toList.length - 3)
    key.toList = literal || literal ++ ['/'] <+: key.toList
  else
    expr = key

def partitionKeyExpr (keyPrefix : String) (partition : U32) : String :=
  keyPrefix ++ "/p/" ++ toString partition.val ++ "/**"

def noneKeyExpr (keyPrefix : String) : String :=
  keyPrefix ++ "/_none"

end Mitiflow
