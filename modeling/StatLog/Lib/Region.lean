/-
**Regions of a memory.**

A region is given by its first address and its size.

* `UnchangedOutside`: a step changed no byte outside a region. It composes, and a larger region does
  as well.
* `AgreeOn`: two memories hold the same bytes in a region.
* `LocalTo`: what a step does to a region depends on that region only, and it does nothing else.
* **`LocalTo.foldl_agreeOn`**: steps local to disjoint regions, taken in any order, each leave their
  own region as if they had been alone.
-/

import StatLog.Lib.Memory

namespace ByteMemory

variable {start size : Nat} {mem next later other : Mem}

/-! ### Frames -/

/-- No byte outside the region changed. -/
def UnchangedOutside (start size : Nat) (mem next : Mem) : Prop :=
  ∀ address, address < start ∨ start + size ≤ address → next address = mem address

namespace UnchangedOutside

theorem refl (start size : Nat) (mem : Mem) : UnchangedOutside start size mem mem :=
  fun _ _ => rfl

theorem trans (first : UnchangedOutside start size mem next)
    (second : UnchangedOutside start size next later) : UnchangedOutside start size mem later :=
  fun address outside => (second address outside).trans (first address outside)

/-- A larger region does as well. -/
theorem mono {start' size' : Nat} (step : UnchangedOutside start size mem next)
    (lower : start' ≤ start) (upper : start + size ≤ start' + size') :
    UnchangedOutside start' size' mem next := by
  intro address outside
  apply step address
  omega

theorem write (mem : Mem) {bytes : List UInt8} (fits : bytes.length = size) :
    UnchangedOutside start size mem (mem.write start bytes) := by
  intro address outside
  rw [← fits] at outside
  exact Mem.write_of_outside mem start bytes outside

/-- Steps inside a region, one after the other. -/
theorem foldl {Item : Type} {step : Mem → Item → Mem} {items : List Item}
    (steps : ∀ item ∈ items, ∀ mem, UnchangedOutside start size mem (step mem item)) (mem : Mem) :
    UnchangedOutside start size mem (items.foldl step mem) := by
  induction items generalizing mem with
  | nil => exact refl start size mem
  | cons item items ih =>
    have first := steps item List.mem_cons_self mem
    exact first.trans (ih (fun item' member => steps item' (List.mem_cons_of_mem _ member)) _)

end UnchangedOutside

/-! ### Agreement -/

/-- The two memories hold the same bytes in the region. -/
def AgreeOn (start size : Nat) (mem other : Mem) : Prop :=
  ∀ address, start ≤ address → address < start + size → mem address = other address

/-- A memory that begins with the given bytes. -/
def imageOf (bytes : List UInt8) : Mem := fun address => bytes.getD address 0

namespace AgreeOn

theorem refl (start size : Nat) (mem : Mem) : AgreeOn start size mem mem := fun _ _ _ => rfl

theorem trans (first : AgreeOn start size mem next) (second : AgreeOn start size next later) :
    AgreeOn start size mem later :=
  fun address lower upper => (first address lower upper).trans (second address lower upper)

theorem symm (agree : AgreeOn start size mem other) : AgreeOn start size other mem :=
  fun address lower upper => (agree address lower upper).symm

/-- A smaller region does as well. -/
theorem mono {start' size' : Nat} (agree : AgreeOn start size mem other) (lower : start ≤ start')
    (upper : start' + size' ≤ start + size) : AgreeOn start' size' mem other :=
  fun address above below => agree address (by omega) (by omega)

theorem read (agree : AgreeOn start size mem other) : mem.read start size = other.read start size :=
  Mem.read_congr start size agree

/-- A scan in a buffer sees the buffer only. -/
theorem cString {limit : Nat} (agree : AgreeOn 0 limit mem other) (start : Nat) :
    cString mem limit start = cString other limit start := by
  have scans : ∀ fuel start, start + fuel ≤ limit → scan mem start fuel = scan other start fuel := by
    intro fuel
    induction fuel with
    | zero => exact fun _ _ => rfl
    | succ fuel ih =>
      intro start inside
      rw [scan, scan, agree start (Nat.zero_le _) (by omega), ih (start + 1) (by omega)]
  by_cases inside : start ≤ limit
  · exact scans _ _ (by omega)
  · have none : limit - start = 0 := by omega
    unfold ByteMemory.cString
    rw [none]
    rfl

/-- The bytes of a region, put at the start of another memory. -/
theorem imageOf (size : Nat) (mem : Mem) : AgreeOn 0 size (imageOf (mem.read 0 size)) mem := by
  intro address _ upper
  have inside : address < (mem.read 0 size).length := by
    rw [Mem.length_read]
    omega
  unfold ByteMemory.imageOf
  rw [List.getD_eq_getElem _ _ inside]
  simp only [Mem.read, List.getElem_map, List.getElem_range, Nat.zero_add]

/-- Writing the same bytes to both. -/
theorem write {address : Nat} (agree : AgreeOn start size mem other) (bytes : List UInt8) :
    AgreeOn start size (mem.write address bytes) (other.write address bytes) := by
  intro position lower upper
  unfold Mem.write
  rw [agree position lower upper]

/-- A step elsewhere keeps the region. -/
theorem of_unchangedOutside {start' size' : Nat} (step : UnchangedOutside start' size' mem next)
    (disjoint : start + size ≤ start' ∨ start' + size' ≤ start) : AgreeOn start size next mem :=
  fun address lower upper => step address (by omega)

end AgreeOn

/-! ### Local steps -/

/-- **A step on a region**: it reads and changes nothing else. -/
structure LocalTo (start size : Nat) (step : Mem → Mem) : Prop where
  outside : ∀ mem, UnchangedOutside start size mem (step mem)
  inside : ∀ mem other, AgreeOn start size mem other → AgreeOn start size (step mem) (step other)

namespace LocalTo

/-- A step on a region is one on any larger region. -/
theorem mono {start' size' : Nat} {step : Mem → Mem} (local' : LocalTo start size step)
    (lower : start' ≤ start) (upper : start + size ≤ start' + size') : LocalTo start' size' step where
  outside mem := (local'.outside mem).mono lower upper
  inside mem other agree := by
    intro address above below
    by_cases within : start ≤ address ∧ address < start + size
    · exact local'.inside mem other (agree.mono lower upper) address within.1 within.2
    · have elsewhere : address < start ∨ start + size ≤ address := by omega
      rw [local'.outside mem address elsewhere, local'.outside other address elsewhere]
      exact agree address above below

/-- Steps on a region, one after the other. -/
theorem foldl {Item : Type} {step : Item → Mem → Mem} {items : List Item}
    (steps : ∀ item ∈ items, LocalTo start size (step item)) :
    LocalTo start size fun mem => items.foldl (fun mem item => step item mem) mem where
  outside mem := UnchangedOutside.foldl (fun item member => (steps item member).outside) mem
  inside mem other agree := by
    induction items generalizing mem other with
    | nil => exact agree
    | cons item items ih =>
      have first := (steps item List.mem_cons_self).inside mem other agree
      exact ih (fun next member => steps next (List.mem_cons_of_mem _ member)) _ _ first

/-- Steps elsewhere keep the region. -/
theorem foldl_agreeOn_of_disjoint {Item : Type} {start' : Nat} {address : Item → Nat}
    {step : Item → Mem → Mem} {items : List Item}
    (steps : ∀ item ∈ items, LocalTo (address item) size (step item))
    (apart : ∀ item ∈ items, start' + size ≤ address item ∨ address item + size ≤ start') (mem : Mem) :
    AgreeOn start' size (items.foldl (fun mem item => step item mem) mem) mem := by
  induction items generalizing mem with
  | nil => exact AgreeOn.refl start' size mem
  | cons item items ih =>
    have first : AgreeOn start' size (step item mem) mem :=
      AgreeOn.of_unchangedOutside ((steps item List.mem_cons_self).outside mem)
        (apart item List.mem_cons_self)
    exact (ih (fun other member => steps other (List.mem_cons_of_mem _ member))
      (fun other member => apart other (List.mem_cons_of_mem _ member)) (step item mem)).trans first

/-- **Steps on disjoint regions leave each region as its own step does alone.** -/
theorem foldl_agreeOn {Item : Type} {address : Item → Nat} {step : Item → Mem → Mem}
    {items : List Item} (steps : ∀ item ∈ items, LocalTo (address item) size (step item))
    (disjoint : items.Pairwise fun first second =>
      address first + size ≤ address second ∨ address second + size ≤ address first)
    {item : Item} (member : item ∈ items) (mem : Mem) :
    AgreeOn (address item) size (items.foldl (fun mem item => step item mem) mem) (step item mem) := by
  induction items generalizing mem with
  | nil => cases member
  | cons head items ih =>
    obtain ⟨apart, rest⟩ := List.pairwise_cons.mp disjoint
    have later : ∀ other ∈ items, LocalTo (address other) size (step other) :=
      fun other belongs => steps other (List.mem_cons_of_mem _ belongs)
    rcases List.mem_cons.mp member with rfl | behind
    · -- The later steps keep what the first one left.
      exact foldl_agreeOn_of_disjoint later apart (step item mem)
    · -- The first step keeps the region the wanted one is about to read.
      have kept : AgreeOn (address item) size (step head mem) mem :=
        AgreeOn.of_unchangedOutside ((steps head List.mem_cons_self).outside mem)
          (apart item behind).symm
      exact (ih later rest behind (step head mem)).trans ((later item behind).inside _ _ kept)

end LocalTo

end ByteMemory
