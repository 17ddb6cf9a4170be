import Mathlib.Data.BitVec
import Mathlib.Tactic
import Std.Data.ExtTreeMap
import SoupEngine.Lib.LittleEndian

/-!
# Machine types

The fixed-width integers, byte strings, clock readings, socket addresses and errors that every layer
of the engine uses.
-/

namespace SoupEngine

abbrev U8 := BitVec 8
abbrev U16 := BitVec 16
abbrev U32 := BitVec 32
abbrev U64 := BitVec 64

instance : Std.TransOrd U16 := inferInstance

instance : Std.TransOrd U32 := inferInstance

instance : Std.TransOrd U64 := inferInstance

instance : LawfulBEq U16 := inferInstance

instance neZero_two : NeZero 2 := ⟨Nat.succ_ne_zero 1⟩

/-- `Vec<u8>` and `&[u8]`. -/
abbrev Bytes := List U8

/-- A monotonic clock reading in nanoseconds; `duration_since` saturates at zero, as `Nat`
subtraction does. -/
abbrev Instant := ℕ

/-- A span of time in nanoseconds. -/
abbrev Duration := ℕ

def Duration.fromMillis (ms : ℕ) : Duration := ms * 1000000

def Duration.fromSecs (s : ℕ) : Duration := s * 1000000000

/-- `HashMap` and `BTreeMap`. A `HashMap` is walked in an unspecified order; the model walks it in
the order of its keys. -/
abbrev Map (κ : Type) [Ord κ] (β : Type) := Std.ExtTreeMap κ β

section Map

variable {κ β : Type} [Ord κ] [Std.TransOrd κ] [Std.LawfulEqOrd κ] [DecidableEq κ]

theorem Map.getElem?_insert (m : Map κ β) (p q : κ) (b : β) :
    (m.insert p b)[q]? = if p = q then some b else m[q]? := by
  rw [Std.ExtTreeMap.getElem?_insert]
  exact if_congr Std.LawfulEqOrd.compare_eq_iff_eq rfl rfl

theorem Map.getElem?_erase (m : Map κ β) (p q : κ) :
    (m.erase p)[q]? = if p = q then none else m[q]? := by
  rw [Std.ExtTreeMap.getElem?_erase]
  exact if_congr Std.LawfulEqOrd.compare_eq_iff_eq rfl rfl

end Map

/-- `x.to_le_bytes()`. -/
def leBytes {w : ℕ} (x : BitVec w) : Bytes := LittleEndian.toBytes (w / 8) x.toNat

/-- `uN::from_le_bytes`. -/
def fromLe (w : ℕ) (bs : Bytes) : BitVec w := BitVec.ofNat w (LittleEndian.ofBytes bs)

/-- `buf[lo..hi]`. -/
def slice (buf : Bytes) (lo hi : ℕ) : Bytes := (buf.take hi).drop lo

@[simp] theorem length_leBytes {w : ℕ} (x : BitVec w) : (leBytes x).length = w / 8 :=
  LittleEndian.length_toBytes _ _

theorem fromLe_leBytes {w : ℕ} (hw : 8 ∣ w) (x : BitVec w) : fromLe w (leBytes x) = x := by
  obtain ⟨n, rfl⟩ := hw
  apply LittleEndian.ofNat_ofBytes_toBytes
  rw [Nat.mul_div_cancel_left n (by norm_num), show (256 : ℕ) = 2 ^ 8 by norm_num, ← pow_mul]

theorem leBytes_byte (x : U8) : leBytes x = [x] := by
  simp only [leBytes, LittleEndian.toBytes, BitVec.ofNat_toNat, BitVec.setWidth_eq]

/-! ## Socket addresses -/

inductive SocketAddr
  | V4 (ip : U32) (port : U16)
  | V6 (ip : BitVec 128) (port : U16) (flowinfo scopeId : U32)
  deriving DecidableEq

namespace SocketAddr

/-- A numbering of the addresses, by which maps keyed by an address are ordered. -/
def code : SocketAddr → ℕ
  | V4 ip port => 2 * (ip.toNat * 2 ^ 16 + port.toNat)
  | V6 ip port flowinfo scopeId =>
    2 * (((ip.toNat * 2 ^ 16 + port.toNat) * 2 ^ 32 + flowinfo.toNat) * 2 ^ 32 + scopeId.toNat) + 1

theorem code_injective : Function.Injective code := by
  intro a b h
  cases a with
  | V4 ip port =>
    cases b with
    | V4 ip' port' =>
      have h1 := port.isLt
      have h2 := port'.isLt
      simp only [code] at h
      have e1 : ip = ip' := BitVec.eq_of_toNat_eq (by omega)
      have e2 : port = port' := BitVec.eq_of_toNat_eq (by omega)
      rw [e1, e2]
    | V6 => simp only [code] at h; omega
  | V6 ip port flowinfo scopeId =>
    cases b with
    | V4 => simp only [code] at h; omega
    | V6 ip' port' flowinfo' scopeId' =>
      have h1 := port.isLt
      have h2 := port'.isLt
      have h3 := flowinfo.isLt
      have h4 := flowinfo'.isLt
      have h5 := scopeId.isLt
      have h6 := scopeId'.isLt
      simp only [code] at h
      have e1 : ip = ip' := BitVec.eq_of_toNat_eq (by omega)
      have e2 : port = port' := BitVec.eq_of_toNat_eq (by omega)
      have e3 : flowinfo = flowinfo' := BitVec.eq_of_toNat_eq (by omega)
      have e4 : scopeId = scopeId' := BitVec.eq_of_toNat_eq (by omega)
      rw [e1, e2, e3, e4]

instance : Ord SocketAddr := ⟨compareOn code⟩

instance : Std.TransOrd SocketAddr := inferInstanceAs (Std.TransCmp (compareOn code))

instance : Std.LawfulEqOrd SocketAddr where
  eq_of_compare {a b} h := by
    have h' : compare a.code b.code = .eq := h
    exact code_injective (Std.LawfulEqOrd.eq_of_compare h')

end SocketAddr

/-! ## Errors -/

/-- The variants of `Error` that the modelled paths return. -/
inductive Error
  | Protocol (msg : String)
  | SessionNotFound (id : U64)
  deriving DecidableEq

/-- `{x:04X}`. -/
def hex04 (x : U16) : String :=
  let digits := (Nat.toDigits 16 x.toNat).map Char.toUpper
  String.ofList (List.replicate (4 - digits.length) '0' ++ digits)

end SoupEngine
