import Mathlib.Data.UInt
import Mathlib.Logic.Function.Basic

/-!
# Blocks of memory and loops

A run on blocks of memory stops where it touches a byte behind the end of a block, and a loop stops where it has no
fuel left.
-/

namespace Zcp.Lib

/-- Why a run has no result. -/
inductive Stop where
  | outOfBounds
  | endless
deriving DecidableEq, Repr

/-- A block of memory. A byte that has not been written has any value. -/
structure Block where
  size : ℕ
  byte : ℕ → UInt8

namespace Block

/-- The block of some bytes. -/
def ofList (l : List UInt8) : Block := ⟨l.length, fun i => l.getD i 0⟩

def read (b : Block) (i : ℕ) : Except Stop UInt8 :=
  if i < b.size then .ok (b.byte i) else .error .outOfBounds

def write (b : Block) (i : ℕ) (v : UInt8) : Except Stop Block :=
  if i < b.size then .ok { b with byte := Function.update b.byte i v } else .error .outOfBounds

/-- The bytes from a position on. -/
def copyFrom (b : Block) (i n : ℕ) : Except Stop (List UInt8) :=
  if i + n ≤ b.size then .ok ((List.range n).map fun k => b.byte (i + k)) else .error .outOfBounds

/-- Store bytes at the start. -/
def copyTo (b : Block) (l : List UInt8) : Except Stop Block :=
  if l.length ≤ b.size then .ok { b with byte := fun i => if i < l.length then l.getD i 0 else b.byte i }
  else .error .outOfBounds

variable {b : Block} {i n : ℕ} {l : List UInt8}

theorem read_of_lt (h : i < b.size) : b.read i = .ok (b.byte i) := if_pos h

theorem read_of_le (h : b.size ≤ i) : b.read i = .error .outOfBounds := if_neg (Nat.not_lt.mpr h)

theorem write_of_lt (h : i < b.size) (v : UInt8) :
    b.write i v = .ok { b with byte := Function.update b.byte i v } := if_pos h

theorem copyFrom_of_le (h : i + n ≤ b.size) :
    b.copyFrom i n = .ok ((List.range n).map fun k => b.byte (i + k)) := if_pos h

theorem copyTo_of_le (h : l.length ≤ b.size) :
    b.copyTo l = .ok { b with byte := fun i => if i < l.length then l.getD i 0 else b.byte i } := if_pos h

theorem copyTo_of_lt (h : b.size < l.length) : b.copyTo l = .error .outOfBounds := if_neg (Nat.not_le.mpr h)

end Block

/-! ## Loops -/

/-- A loop. The body goes on with a state (`inl`), or leaves the loop with a result (`inr`). -/
def loop {σ β : Type*} (body : σ → Except Stop (σ ⊕ β)) : ℕ → σ → Except Stop β
  | 0, _ => .error .endless
  | fuel + 1, s =>
    match body s with
    | .error e => .error e
    | .ok (.inl s') => loop body fuel s'
    | .ok (.inr b) => .ok b

/-- A loop with an invariant and a measure that becomes smaller has a result. -/
theorem loop_spec {σ β : Type*} {body : σ → Except Stop (σ ⊕ β)} (inv : σ → Prop) (m : σ → ℕ) (post : β → Prop)
    (hstep : ∀ s, inv s → (∃ s', body s = .ok (.inl s') ∧ inv s' ∧ m s' < m s) ∨ ∃ b, body s = .ok (.inr b) ∧ post b)
    (fuel : ℕ) (s : σ) (hinv : inv s) (hfuel : m s < fuel) : ∃ b, loop body fuel s = .ok b ∧ post b := by
  induction fuel generalizing s with
  | zero => exact absurd hfuel (Nat.not_lt_zero _)
  | succ fuel ih =>
    rw [loop]
    rcases hstep s hinv with ⟨s', hbody, hinv', hless⟩ | ⟨b, hbody, hpost⟩
    · rw [hbody]
      exact ih s' hinv' (by omega)
    · rw [hbody]
      exact ⟨b, rfl, hpost⟩

/-- A loop whose first round fails. -/
theorem loop_error {σ β : Type*} {body : σ → Except Stop (σ ⊕ β)} {s : σ} {e : Stop} (h : body s = .error e)
    (fuel : ℕ) : loop body (fuel + 1) s = .error e := by
  rw [loop, h]

end Zcp.Lib
