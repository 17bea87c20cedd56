import FiberKcp.Data.Serial
import Mathlib.Data.List.Pairwise

namespace FiberKcp.Data

/-! Serial numbers that increase inside a window.  The window is given by its
lower end and its width; the numbers in it may pass zero. -/

/-- How far a serial number is ahead of `base`. -/
def ahead (base serial : UInt32) : Nat := (serial - base).toNat

@[simp] theorem ahead_self (base : UInt32) : ahead base base = 0 := by
  simp [ahead]

theorem ahead_add (base width : UInt32) : ahead base (base + width) = width.toNat := by
  rw [ahead, UInt32.add_comm, UInt32.add_sub_cancel]

theorem ahead_lt (base serial : UInt32) : ahead base serial < 2 ^ 32 := (serial - base).toNat_lt

theorem ahead_inj (base : UInt32) {left right : UInt32} (same : ahead base left = ahead base right) :
    left = right :=
  UInt32.sub_left_inj base |>.mp (UInt32.toNat_inj.mp same)

theorem ahead_succ {base serial : UInt32} (room : ahead base serial + 1 < 2 ^ 32) :
    ahead base (serial + 1) = ahead base serial + 1 := by
  have bound := serial.toNat_lt
  have baseBound := base.toNat_lt
  simp only [ahead, UInt32.toNat_sub, UInt32.toNat_add, UInt32.toNat_one] at *
  omega

theorem ahead_trans (base middle serial : UInt32)
    (room : ahead base middle + ahead middle serial < 2 ^ 32) :
    ahead base serial = ahead base middle + ahead middle serial := by
  have bound := serial.toNat_lt
  have baseBound := base.toNat_lt
  have middleBound := middle.toNat_lt
  simp only [ahead, UInt32.toNat_sub] at *
  omega

/-- A window whose lower end moves up. -/
theorem ahead_rebase {base next serial : UInt32} (passed : ahead base next ≤ ahead base serial) :
    ahead next serial = ahead base serial - ahead base next := by
  have bound := serial.toNat_lt
  have baseBound := base.toNat_lt
  have nextBound := next.toNat_lt
  simp only [ahead, UInt32.toNat_sub] at *
  omega

/-- Inside a window less than half the range wide, serial numbers compare by how
far they are ahead. -/
theorem serialDiff_ahead (base : UInt32) {later earlier : UInt32}
    (laterInside : ahead base later < 2 ^ 31)
    (earlierInside : ahead base earlier < 2 ^ 31) :
    serialDiff later earlier = (ahead base later : Int) - ahead base earlier := by
  have laterBound := later.toNat_lt
  have earlierBound := earlier.toNat_lt
  have baseBound := base.toNat_lt
  rw [serialDiff_cases]
  simp only [ahead, UInt32.toNat_sub] at *
  split <;> omega

/-- The serial numbers increase, all of them less than `width` ahead of `base`. -/
structure Ordered (base : UInt32) (width : Nat) (serials : List UInt32) : Prop where
  increasing : serials.Pairwise fun earlier later => ahead base earlier < ahead base later
  inside : ∀ serial ∈ serials, ahead base serial < width

section Ordered

variable {base : UInt32} {width : Nat} {serials : List UInt32}

theorem ordered_nil (base : UInt32) (width : Nat) : Ordered base width [] :=
  ⟨List.Pairwise.nil, by simp⟩

theorem Ordered.sublist {some : List UInt32} (ordered : Ordered base width serials)
    (sub : some.Sublist serials) : Ordered base width some :=
  ⟨ordered.increasing.sublist sub, fun serial member => ordered.inside serial (sub.subset member)⟩

theorem Ordered.mono {wider : Nat} (ordered : Ordered base width serials) (wide : width ≤ wider) :
    Ordered base wider serials :=
  ⟨ordered.increasing, fun serial member => Nat.lt_of_lt_of_le (ordered.inside serial member) wide⟩

theorem length_le_of_increasing (low : Nat) {width : Nat}
    (increasing : serials.Pairwise fun earlier later => ahead base earlier < ahead base later)
    (above : ∀ serial ∈ serials, low ≤ ahead base serial)
    (inside : ∀ serial ∈ serials, ahead base serial < width) (start : low ≤ width) :
    low + serials.length ≤ width := by
  induction serials generalizing low with
  | nil => simpa using start
  | cons serial rest ih =>
      obtain ⟨first, later⟩ := List.pairwise_cons.mp increasing
      have lower := above serial List.mem_cons_self
      have upper := inside serial List.mem_cons_self
      have tail := ih (ahead base serial + 1) later first
        (fun other member => inside other (List.mem_cons_of_mem serial member)) upper
      rw [List.length_cons]
      omega

/-- A window holds no more serial numbers than it is wide. -/
theorem Ordered.length_le (ordered : Ordered base width serials) : serials.length ≤ width := by
  have counted := length_le_of_increasing 0 ordered.increasing (fun _ _ => Nat.zero_le _)
    ordered.inside (Nat.zero_le width)
  omega

theorem Ordered.rebase (ordered : Ordered base width serials) (next : UInt32)
    (passed : ∀ serial ∈ serials, ahead base next ≤ ahead base serial) :
    Ordered next (width - ahead base next) serials := by
  constructor
  · apply ordered.increasing.imp_of_mem
    intro earlier later memberEarlier memberLater less
    have first := passed earlier memberEarlier
    have second := passed later memberLater
    rw [ahead_rebase first, ahead_rebase second]
    omega
  · intro serial member
    have within := ordered.inside serial member
    have lower := passed serial member
    rw [ahead_rebase lower]
    omega

/-- The number at the upper end is put behind the others. -/
theorem Ordered.push {next : UInt32} (ordered : Ordered base width serials)
    (atEnd : ahead base next = width) : Ordered base (width + 1) (serials ++ [next]) := by
  constructor
  · apply List.pairwise_append.mpr
    refine ⟨ordered.increasing, List.pairwise_singleton _ _, ?_⟩
    intro earlier member later last
    rw [List.mem_singleton.mp last, atEnd]
    exact ordered.inside earlier member
  · intro serial member
    rcases List.mem_append.mp member with member | member
    · exact Nat.lt_succ_of_lt (ordered.inside serial member)
    · rw [List.mem_singleton.mp member, atEnd]
      exact Nat.lt_succ_self width

/-- The first number is behind no other. -/
theorem Ordered.head_le {first serial : UInt32} (ordered : Ordered base width serials)
    (front : serials.head? = some first) (member : serial ∈ serials) :
    ahead base first ≤ ahead base serial := by
  cases serials with
  | nil => contradiction
  | cons head rest =>
      cases front
      rcases List.mem_cons.mp member with same | later
      · rw [same]
      · exact Nat.le_of_lt ((List.pairwise_cons.mp ordered.increasing).1 serial later)

end Ordered

end FiberKcp.Data
