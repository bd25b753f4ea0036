import Zcp.Lib.ByteReader
import Zcp.Lib.Endian

/-!
# The serializer of streams

`ECStreamSerializer`: numbers go into a stream in network byte order and are swapped back in the memory
that they are read into. A pointer to memory is given as the room behind it, and a reader that writes
behind the end of its memory stops with `outside`.
-/

namespace Zcp.Common

open Zcp.Lib

namespace ECSerializer

/-- What reading from a stream can end with. -/
inductive Failure where
  | ZARAFA_E_CALL_FAILED
  | ZARAFA_E_INVALID_TYPE
  | ZARAFA_E_DATABASE_ERROR
  | ZARAFA_E_NO_SUPPORT
  /-- Bytes have been stored outside of the memory that they are for. -/
  | outside
  /-- A count has been taken for a negative number. -/
  | negative
  /-- Objects are nested deeper than the reader has been asked to follow them. -/
  | tooDeep
deriving DecidableEq, Repr

/-- The rest of the stream of an `ECSerializer` is what a reader works on. -/
abbrev Source (α : Type) := ByteReader Failure Unit α

end ECSerializer

namespace ECStreamSerializer

open ECSerializer

/-- `Write` of elements of 2, 4 or 8 bytes. -/
def write (size : ℕ) (elems : List (BitVec (8 * size))) : List UInt8 :=
  elems.flatMap fun elem => bigEndian size elem.toNat

/-- The elements that are in memory after the bytes have been swapped. -/
def elements (size : ℕ) : ℕ → List UInt8 → List (BitVec (8 * size))
  | 0, _ => []
  | n + 1, bytes =>
    BitVec.ofNat (8 * size) (ofBigEndian (bytes.take size)) :: elements size n (bytes.drop size)

/-- `Read` of single bytes. The stream is asked for a `ULONG` of them. -/
def readBytes (room nmemb : ℕ) : Source (List UInt8) :=
  ByteReader.take (nmemb % 2 ^ 32) >>= fun bytes =>
    if room < bytes.length then ByteReader.stop .outside
    else if bytes.length ≠ nmemb then ByteReader.stop .ZARAFA_E_CALL_FAILED
    else pure bytes

/-- `Read` of elements of 2, 4 or 8 bytes. -/
def read (room size nmemb : ℕ) : Source (List (BitVec (8 * size))) :=
  readBytes room (size * nmemb) >>= fun bytes => pure (elements size nmemb bytes)

/-- `Read` of one number into a variable. -/
def readOne (size : ℕ) : Source (BitVec (8 * size)) :=
  read size size 1 >>= fun elems => pure (elems.headD 0)

theorem length_write (size : ℕ) (elems : List (BitVec (8 * size))) :
    (write size elems).length = size * elems.length := by
  unfold write
  induction elems with
  | nil => rfl
  | cons elem elems ih =>
    rw [List.flatMap_cons, List.length_append, ih, length_bigEndian, List.length_cons, Nat.mul_succ,
      add_comm]

theorem elements_write (size : ℕ) (elems : List (BitVec (8 * size))) :
    elements size elems.length (write size elems) = elems := by
  induction elems with
  | nil => rfl
  | cons elem elems ih =>
    have hsplit : write size (elem :: elems) = bigEndian size elem.toNat ++ write size elems := rfl
    have hsize := length_bigEndian size elem.toNat
    have hpow : 256 ^ size = 2 ^ (8 * size) := by rw [pow_mul]; rfl
    rw [List.length_cons, elements, hsplit, List.take_left' hsize, List.drop_left' hsize, ih,
      ofBigEndian_bigEndian, hpow, Nat.mod_eq_of_lt elem.isLt, BitVec.ofNat_toNat, BitVec.setWidth_eq]

/-- Bytes are read when there is room for them and a `ULONG` holds their number. -/
theorem reads_readBytes (room : ℕ) (bytes : List UInt8) :
    Reads (readBytes room bytes.length) bytes (bytes.length ≤ room ∧ bytes.length < 2 ^ 32) () bytes () := by
  intro rest
  have htake : readBytes room bytes.length (bytes ++ rest) () =
      (if room < ((bytes ++ rest).take (bytes.length % 2 ^ 32)).length then ByteReader.stop Failure.outside
        else if ((bytes ++ rest).take (bytes.length % 2 ^ 32)).length ≠ bytes.length then
          ByteReader.stop .ZARAFA_E_CALL_FAILED
        else pure ((bytes ++ rest).take (bytes.length % 2 ^ 32)) : Source (List UInt8))
          ((bytes ++ rest).drop (bytes.length % 2 ^ 32)) () := rfl
  rw [htake]
  constructor
  · rintro ⟨hroom, hlt⟩
    rw [Nat.mod_eq_of_lt hlt, List.take_left, List.drop_left, if_neg (not_lt.mpr hroom),
      if_neg (not_not.mpr rfl)]
    rfl
  · intro hfails
    split_ifs with houtside hshort
    · exact ⟨_, _, _, rfl⟩
    · exact ⟨_, _, _, rfl⟩
    · -- all of them are read, so that the number was not cut
      have hcut : (bytes.length % 2 ^ 32) < 2 ^ 32 := Nat.mod_lt _ (Nat.two_pow_pos 32)
      rw [List.length_take, List.length_append] at houtside hshort
      exact absurd ⟨by omega, by omega⟩ hfails

/-- Elements are read when there is room for them and a `ULONG` holds the number of their bytes. -/
theorem reads_read (room size : ℕ) (elems : List (BitVec (8 * size))) :
    Reads (read room size elems.length) (write size elems)
      (size * elems.length ≤ room ∧ size * elems.length < 2 ^ 32) () elems () := by
  have hbytes := reads_readBytes room (write size elems)
  rw [length_write] at hbytes
  refine hbytes.done ?_
  rw [elements_write]
  exact Reads.pure elems

theorem reads_readOne (size : ℕ) (hsize : size < 2 ^ 32) (elem : BitVec (8 * size)) :
    Reads (readOne size) (write size [elem]) True () elem () := by
  have hread := (reads_read size size [elem]).congr
    (iff_true_intro ⟨le_of_eq (Nat.mul_one size), (Nat.mul_one size).trans_lt hsize⟩)
  exact hread.done (Reads.pure elem)

/-- What has no room is not read. -/
theorem stops_readBytes {room nmemb : ℕ} (h : room < nmemb) : Stops (readBytes room nmemb) := by
  intro bytes s
  have htake : readBytes room nmemb bytes s =
      (if room < (bytes.take (nmemb % 2 ^ 32)).length then ByteReader.stop Failure.outside
        else if (bytes.take (nmemb % 2 ^ 32)).length ≠ nmemb then ByteReader.stop .ZARAFA_E_CALL_FAILED
        else pure (bytes.take (nmemb % 2 ^ 32)) : Source (List UInt8)) (bytes.drop (nmemb % 2 ^ 32)) s := rfl
  rw [htake]
  split_ifs with houtside hshort
  · exact ⟨_, _, _, rfl⟩
  · exact ⟨_, _, _, rfl⟩
  · omega

theorem stops_read {room size nmemb : ℕ} (h : room < size * nmemb) : Stops (read room size nmemb) :=
  (stops_readBytes h).bind _

end ECStreamSerializer

end Zcp.Common
