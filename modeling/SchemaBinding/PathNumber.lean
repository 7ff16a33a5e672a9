import SchemaBinding.Disk

/-! Numbers of paths. A path that a file can be read at is short, so its bytes make up a number below a limit, and going
through such paths without coming back ends. -/
namespace SchemaBinding

/-- The number that bytes make up, the first byte counting least. No two texts have the same. -/
def numberOf : List UInt8 → Nat
  | [] => 0
  | b :: bs => 1 + b.toNat + 256 * numberOf bs

/-- A limit for the numbers of shorter texts. -/
def numberLimit : Nat → Nat
  | 0 => 0
  | size + 1 => 1 + 256 * numberLimit size

theorem numberOf_lt {bs : List UInt8} {size : Nat} (h : bs.length < size) : numberOf bs < numberLimit size := by
  induction bs generalizing size with
  | nil =>
    obtain ⟨size,rfl⟩ := Nat.exists_eq_add_one_of_ne_zero (Nat.ne_zero_of_lt h)
    rw [numberOf,numberLimit]
    omega
  | cons b bs ih =>
    obtain ⟨size,rfl⟩ := Nat.exists_eq_add_one_of_ne_zero (Nat.ne_zero_of_lt h)
    have hrest : numberOf bs < numberLimit size := ih (Nat.lt_of_succ_lt_succ h)
    have hb : b.toNat < 256 := b.toNat_lt
    rw [numberOf,numberLimit]
    omega

theorem numberOf_inj {bs cs : List UInt8} (h : numberOf bs = numberOf cs) : bs = cs := by
  induction bs generalizing cs with
  | nil =>
    cases cs with
    | nil => rfl
    | cons c cs =>
      rw [numberOf,numberOf] at h
      omega
  | cons b bs ih =>
    cases cs with
    | nil =>
      rw [numberOf,numberOf] at h
      omega
    | cons c cs =>
      rw [numberOf,numberOf] at h
      have hb : b.toNat < 256 := b.toNat_lt
      have hc : c.toNat < 256 := c.toNat_lt
      have hfirst : b = c := UInt8.toNat_inj.mp (by omega)
      have hrest : numberOf bs = numberOf cs := by omega
      rw [hfirst,ih hrest]

namespace Path

def number (p : Path) : Nat := numberOf p.text.toByteArray.data.toList

theorem number_inj {p q : Path} (h : p.number = q.number) : p = q := by
  have htext : p.text = q.text := String.toByteArray_inj.mp (ByteArray.ext (Array.toList_inj.mp (numberOf_inj h)))
  cases p
  cases q
  exact congrArg Path.mk htext

end Path

namespace Disk

theorem number_lt {p : Path} (h : ¬ isRefused p) : p.number < numberLimit 4096 := by
  have hshort : p.text.utf8ByteSize < 4096 := by
    simp only [isRefused,Bool.or_eq_true,decide_eq_true_eq,not_or,Nat.not_le] at h
    exact h.1
  exact numberOf_lt hshort

/-- How many numbers there are for paths that a file can be read at, besides those of some. -/
def unused (ps : List Path) : Nat :=
  ((List.range (numberLimit 4096)).filter fun n => n ∉ ps.map Path.number).length

theorem unused_lt {p : Path} {ps : List Path} (hnew : p ∉ ps) (h : ¬ isRefused p) : unused (p :: ps) < unused ps := by
  have hmore : ((List.range (numberLimit 4096)).filter fun n => n ∉ (p :: ps).map Path.number) =
      ((List.range (numberLimit 4096)).filter fun n => n ∉ ps.map Path.number).filter fun n => n ≠ p.number := by
    rw [List.filter_filter]
    exact List.filter_congr fun n _ => by simp
  have hnumber : p.number ∉ ps.map Path.number := by
    intro hmem
    obtain ⟨q,hq,hsame⟩ := List.mem_map.mp hmem
    exact hnew (Path.number_inj hsame ▸ hq)
  rw [unused,hmore,unused,List.length_filter_lt_length_iff_exists]
  exact ⟨p.number,List.mem_filter.mpr ⟨List.mem_range.mpr (number_lt h),by simpa using hnumber⟩,by simp⟩

/-- Nothing is read at a path that is refused. -/
theorem not_isRefused_of_read {d : Disk} {p : Path} {bytes : Bytes} (h : d.read p = .ok bytes) : ¬ isRefused p := by
  intro hrefused
  rw [read] at h
  split at h
  · cases h
  · simp [locate?,hrefused] at h

theorem not_isRefused_of_readText {d : Disk} {p : Path} {text : String} (h : d.readText p = .ok text) :
    ¬ isRefused p := by
  rw [readText] at h
  cases hread : d.read p with
  | error fault =>
    rw [hread] at h
    cases h
  | ok bytes => exact not_isRefused_of_read hread

end Disk
end SchemaBinding
