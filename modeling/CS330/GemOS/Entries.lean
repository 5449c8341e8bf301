import CS330.GemOS.Paging
import Mathlib.Data.Nat.Bitwise

/-! The arithmetic of addresses and entries.

An address below 2^48 is four 9-bit indices and an offset, so two addresses of one
path are in one page. `makeEntry` encodes a frame below 2^40 so that each field is
read back: present and user bits set, the write bit from the flags, nothing else. -/
namespace CS330.GemOS

/-- The indices of the four levels, from the root down. -/
def path (addr : Nat) : List (Fin 512) := [l4Index addr, l3Index addr, l2Index addr, l1Index addr]

@[simp] theorem path_length (addr : Nat) : (path addr).length = 4 := rfl

theorem index_eq (addr k : Nat) : Fin.ofNat 512 ((addr &&& 511 <<< k) >>> k) = Fin.ofNat 512 (addr / 2 ^ k) := by
  have h : addr >>> k &&& 511 = addr >>> k % 2 ^ 9 := Nat.and_two_pow_sub_one_eq_mod _ 9
  rw [Nat.shiftRight_and_distrib, Nat.shiftLeft_shiftRight, h, Nat.shiftRight_eq_div_pow]
  simp [Fin.ext_iff]

theorem l4Index_eq (addr : Nat) : l4Index addr = Fin.ofNat 512 (addr / 2 ^ 39) := index_eq addr 39

theorem l3Index_eq (addr : Nat) : l3Index addr = Fin.ofNat 512 (addr / 2 ^ 30) := index_eq addr 30

theorem l2Index_eq (addr : Nat) : l2Index addr = Fin.ofNat 512 (addr / 2 ^ 21) := index_eq addr 21

theorem l1Index_eq (addr : Nat) : l1Index addr = Fin.ofNat 512 (addr / 2 ^ 12) := index_eq addr 12

/-- Addresses that no page separates take the same walk. -/
theorem path_congr {a b : Nat} (h : a / 4096 = b / 4096) : path a = path b := by
  unfold path
  rw [l4Index_eq, l3Index_eq, l2Index_eq, l1Index_eq, l4Index_eq, l3Index_eq, l2Index_eq, l1Index_eq]
  have h39 : a / 2 ^ 39 = b / 2 ^ 39 := by omega
  have h30 : a / 2 ^ 30 = b / 2 ^ 30 := by omega
  have h21 : a / 2 ^ 21 = b / 2 ^ 21 := by omega
  have h12 : a / 2 ^ 12 = b / 2 ^ 12 := by omega
  rw [h39, h30, h21, h12]

theorem path_inj {a b : Nat} (ha : a < 2 ^ 48) (hb : b < 2 ^ 48) (h : path a = path b) :
    a / 4096 = b / 4096 := by
  unfold path at h
  rw [l4Index_eq, l3Index_eq, l2Index_eq, l1Index_eq, l4Index_eq, l3Index_eq, l2Index_eq, l1Index_eq] at h
  simp only [List.cons.injEq, Fin.ext_iff, Fin.val_ofNat, and_true] at h
  omega

def isUser (entry : Nat) : Bool := entry &&& 4 != 0

def isWritable (entry : Nat) : Bool := entry &&& 2 != 0

/-- How the walks of this program read an entry. -/
def format : Radix.Format Nat where
  present := isPresent
  target := extractAddrFromPageEntry

theorem extract_eq {e : Nat} (h : e < 2 ^ 52) : extractAddrFromPageEntry e = e >>> 12 := by
  unfold extractAddrFromPageEntry
  have hmask : e >>> 12 &&& 0xFFFFFFFFFF = e >>> 12 % 2 ^ 40 := Nat.and_two_pow_sub_one_eq_mod _ 40
  rw [hmask, Nat.shiftRight_eq_div_pow]
  omega

theorem and_bit (e k : Nat) : (e &&& 2 ^ k != 0) = decide (e / 2 ^ k % 2 = 1) := by
  rw [← Nat.testBit_eq_decide_div_mod_eq, Nat.and_comm, Nat.two_pow_and]
  cases e.testBit k <;> simp

theorem isPresent_eq (e : Nat) : isPresent e = decide (e % 2 = 1) := by
  have h := and_bit e 0
  rwa [Nat.pow_zero, Nat.div_one] at h

theorem isWritable_eq (e : Nat) : isWritable e = decide (e / 2 % 2 = 1) := and_bit e 1

theorem isUser_eq (e : Nat) : isUser e = decide (e / 4 % 2 = 1) := and_bit e 2

@[simp] theorem isPresent_zero : isPresent 0 = false := rfl

section
variable {g flags : Nat} (hg : g < 2 ^ 40)
include hg

theorem makeEntry_eq : makeEntry g flags = g * 4096 + 5 + 2 * (flags / 2 % 2) := by
  have hw : (flags &&& mmWr) >>> 1 = flags / 2 % 2 := by
    rw [Nat.shiftRight_and_distrib, show mmWr >>> 1 = 1 from rfl, Nat.and_one_is_mod, Nat.shiftRight_eq_div_pow]
  simp only [makeEntry, hw, Nat.shiftLeft_eq]
  omega

theorem makeEntry_lt : makeEntry g flags < 2 ^ 52 := by
  rw [makeEntry_eq hg]
  omega

theorem makeEntry_present : isPresent (makeEntry g flags) = true := by
  rw [isPresent_eq, makeEntry_eq hg, decide_eq_true_eq]
  omega

theorem makeEntry_user : isUser (makeEntry g flags) = true := by
  rw [isUser_eq, makeEntry_eq hg, decide_eq_true_eq]
  omega

theorem makeEntry_writable : isWritable (makeEntry g flags) = isWritable flags := by
  rw [isWritable_eq, isWritable_eq, makeEntry_eq hg]
  congr 1
  apply propext
  omega

theorem makeEntry_shiftRight : makeEntry g flags >>> 12 = g := by
  rw [Nat.shiftRight_eq_div_pow, makeEntry_eq hg]
  omega

theorem makeEntry_target : format.target (makeEntry g flags) = g :=
  (extract_eq (makeEntry_lt hg)).trans (makeEntry_shiftRight hg)

/-- Bits 3 to 11 and 52 to 63 of an entry are clear. -/
theorem makeEntry_clear : makeEntry g flags / 8 % 512 = 0 ∧ makeEntry g flags / 2 ^ 52 = 0 := by
  rw [makeEntry_eq hg]
  omega

end

end CS330.GemOS
