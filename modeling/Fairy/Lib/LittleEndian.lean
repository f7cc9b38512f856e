import Mathlib.Data.List.Basic
import Mathlib.Data.List.TakeDrop

namespace Fairy.Lib.LittleEndian

/-- How many numbers a width of bytes holds. -/
def capacity : Nat → Nat
  | 0 => 1
  | w + 1 => 256 * capacity w

/-- The bytes of a number, the least significant one first. -/
def bytes : Nat → Nat → List UInt8
  | 0, _ => []
  | w + 1, n => UInt8.ofNat n :: bytes w (n / 256)

def number : List UInt8 → Nat
  | [] => 0
  | b :: l => b.toNat + 256 * number l

variable {w n : Nat}

@[simp] theorem length_bytes : (bytes w n).length = w := by
  induction w generalizing n with
  | zero => rfl
  | succ w ih => rw [bytes, List.length_cons, ih]

theorem number_bytes (h : n < capacity w) : number (bytes w n) = n := by
  induction w generalizing n with
  | zero =>
    simp only [capacity] at h
    simp only [bytes, number]
    omega
  | succ w ih =>
    have hsmaller : n / 256 < capacity w := by
      simp only [capacity] at h
      omega
    rw [bytes, number, ih hsmaller, UInt8.toNat_ofNat']
    omega

theorem bytes_number (l : List UInt8) : bytes l.length (number l) = l := by
  induction l with
  | nil => rfl
  | cons b l ih =>
    have hb := b.toNat_lt
    have hlow : UInt8.ofNat (b.toNat + 256 * number l) = b := by
      apply UInt8.toNat_inj.1
      rw [UInt8.toNat_ofNat']
      omega
    have hhigh : (b.toNat + 256 * number l) / 256 = number l := by omega
    rw [List.length_cons, bytes, number, hlow, hhigh, ih]

theorem number_lt (l : List UInt8) : number l < capacity l.length := by
  induction l with
  | nil => exact Nat.one_pos
  | cons b l ih =>
    have hb := b.toNat_lt
    simp only [number, List.length_cons, capacity]
    omega

/-- The bytes from one offset to another. -/
def window (l : List UInt8) (first last : Nat) : List UInt8 := (l.drop first).take (last - first)

theorem length_window {l : List UInt8} {first last : Nat} (h : last ≤ l.length) :
    (window l first last).length = last - first := by
  rw [window, List.length_take, List.length_drop]
  omega

/-- Slices that follow each other. -/
theorem window_concat {l : List UInt8} {first middle last : Nat} (h : first ≤ middle)
    (h' : middle ≤ last) : window l first middle ++ window l middle last = window l first last := by
  obtain ⟨m, rfl⟩ := Nat.exists_eq_add_of_le h
  obtain ⟨n, rfl⟩ := Nat.exists_eq_add_of_le h'
  have hrest : first + m + n - (first + m) = n := by omega
  have hwhole : first + m + n - first = m + n := by omega
  rw [window, window, window, Nat.add_sub_cancel_left, hrest, hwhole, List.take_add, List.drop_drop]

end Fairy.Lib.LittleEndian
