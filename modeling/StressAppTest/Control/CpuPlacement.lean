import Mathlib.Data.List.Nodup
import Mathlib.Data.List.Range

/-!
# The cores of the threads (`Sat::InitializeThreads`)

While there are no more copy and CPU stress threads than cores, each of them is bound to a core:
first the even cores in turn, then the odd ones, the copy threads from the front and the CPU stress
threads from the back. With an even number of cores this is a permutation of the cores. With an odd
number the second round starts on core 2 again (`nthbit_eq_iff`), and core 1 is never used.
-/

namespace StressAppTest.Control

/-- The core of the thread that is `nthcore`-th. -/
def nthbit (cores nthcore : Nat) : Nat :=
  (2 * nthcore % cores + 2 * nthcore / cores % 2) % cores

/-- The CPU that a copy thread is bound to, without regions. `none` leaves it where it is. -/
def copyCpu (cores memoryThreads cpuStressThreads i : Nat) : Option Nat :=
  if cpuStressThreads + memoryThreads ≤ cores then some (nthbit cores i) else none

/-- The CPU that a CPU stress thread is bound to. -/
def cpuStressCpu (cores memoryThreads cpuStressThreads i : Nat) : Option Nat :=
  if cpuStressThreads + memoryThreads ≤ cores then some (nthbit cores (cores - 1 - i)) else none

/-- The CPUs of all copy and CPU stress threads, in the order of their creation. -/
def placement (cores memoryThreads cpuStressThreads : Nat) : List (Option Nat) :=
  (List.range memoryThreads).map (copyCpu cores memoryThreads cpuStressThreads) ++
    (List.range cpuStressThreads).map (cpuStressCpu cores memoryThreads cpuStressThreads)

/-! ## The formula -/

section Formula

variable {cores i j : Nat}

theorem nthbit_lt (hcores : 0 < cores) (i : Nat) : nthbit cores i < cores := Nat.mod_lt _ hcores

/-- The first round: the even cores. -/
theorem nthbit_first (h : 2 * i < cores) : nthbit cores i = 2 * i := by
  rw [nthbit, Nat.mod_eq_of_lt h, Nat.div_eq_of_lt h, Nat.zero_mod, Nat.add_zero,
    Nat.mod_eq_of_lt h]

/-- The second round, one core further. -/
theorem nthbit_second (h : cores ≤ 2 * i) (hi : i < cores) :
    nthbit cores i = 2 * i - cores + 1 := by
  have hsplit : 2 * i = 2 * i - cores + 1 * cores := by omega
  have hlt : 2 * i - cores < cores := by omega
  have hmod : 2 * i % cores = 2 * i - cores := by
    rw [hsplit, Nat.add_mul_mod_self_right, Nat.mod_eq_of_lt hlt]
    omega
  have hdiv : 2 * i / cores = 1 := Nat.div_eq_of_lt_le (by omega) (by omega)
  rw [nthbit, hmod, hdiv, Nat.mod_eq_of_lt (by omega)]

/-- **Collisions.** Two threads have one core exactly when the number of cores is odd and the second
one comes half a round later. -/
theorem nthbit_eq_iff (hij : i < j) (hj : j < cores) :
    nthbit cores i = nthbit cores j ↔ cores % 2 = 1 ∧ 1 ≤ i ∧ j = i + cores / 2 := by
  by_cases hi : 2 * i < cores
  · rw [nthbit_first hi]
    by_cases hj' : 2 * j < cores
    · rw [nthbit_first hj']
      omega
    · rw [nthbit_second (by omega) hj]
      omega
  · rw [nthbit_second (by omega) (by omega), nthbit_second (by omega) hj]
    omega

end Formula

/-! ## The placement -/

/-- The numbers that `InitializeThreads` puts into the formula. -/
def nthcores (cores memoryThreads cpuStressThreads : Nat) : List Nat :=
  List.range memoryThreads ++ (List.range cpuStressThreads).map (cores - 1 - ·)

section Threads

variable {cores memoryThreads cpuStressThreads : Nat}

theorem placement_eq (h : memoryThreads + cpuStressThreads ≤ cores) :
    placement cores memoryThreads cpuStressThreads =
      ((nthcores cores memoryThreads cpuStressThreads).map (nthbit cores)).map some := by
  have hguard : cpuStressThreads + memoryThreads ≤ cores := by omega
  have hcopy : copyCpu cores memoryThreads cpuStressThreads = fun i => some (nthbit cores i) :=
    funext fun _ => if_pos hguard
  have hstress : cpuStressCpu cores memoryThreads cpuStressThreads =
      fun i => some (nthbit cores (cores - 1 - i)) := funext fun _ => if_pos hguard
  rw [placement, nthcores, hcopy, hstress, List.map_append, List.map_append, List.map_map,
    List.map_map, List.map_map]
  rfl

theorem mem_nthcores (h : memoryThreads + cpuStressThreads ≤ cores) {k : Nat} :
    k ∈ nthcores cores memoryThreads cpuStressThreads ↔
      k < memoryThreads ∨ (cores - cpuStressThreads ≤ k ∧ k < cores) := by
  rw [nthcores, List.mem_append, List.mem_range, List.mem_map]
  refine or_congr_right ⟨?_, ?_⟩
  · rintro ⟨i, hi, rfl⟩
    rw [List.mem_range] at hi
    omega
  · rintro ⟨hle, hlt⟩
    exact ⟨cores - 1 - k, by rw [List.mem_range]; omega, by omega⟩

theorem nodup_nthcores (h : memoryThreads + cpuStressThreads ≤ cores) :
    (nthcores cores memoryThreads cpuStressThreads).Nodup := by
  refine List.nodup_append.mpr ⟨List.nodup_range, ?_, ?_⟩
  · refine List.nodup_range.map_on fun i hi j hj heq => ?_
    rw [List.mem_range] at hi hj
    omega
  · intro i hi j hj heq
    obtain ⟨k, hk, rfl⟩ := List.mem_map.mp hj
    rw [List.mem_range] at hi hk
    omega

/-- Two of the numbers collide. -/
def Collides (cores memoryThreads cpuStressThreads : Nat) : Prop :=
  ∃ i ∈ nthcores cores memoryThreads cpuStressThreads,
    ∃ j ∈ nthcores cores memoryThreads cpuStressThreads, i < j ∧ nthbit cores i = nthbit cores j

/-- No core is given out twice exactly when no two numbers collide. -/
theorem nodup_placement_iff (h : memoryThreads + cpuStressThreads ≤ cores) :
    (placement cores memoryThreads cpuStressThreads).Nodup ↔
      ¬ Collides cores memoryThreads cpuStressThreads := by
  rw [placement_eq h, List.nodup_map_iff fun _ _ => Option.some.inj,
    List.nodup_map_iff_inj_on (nodup_nthcores h)]
  constructor
  · rintro hinj ⟨i, hi, j, hj, hlt, heq⟩
    exact absurd (hinj i hi j hj heq) (Nat.ne_of_lt hlt)
  · intro hfree i hi j hj heq
    by_contra hne
    rcases Nat.lt_or_gt_of_ne hne with hlt | hlt
    · exact hfree ⟨i, hi, j, hj, hlt, heq⟩
    · exact hfree ⟨j, hj, i, hi, hlt, heq.symm⟩

/-- Where the numbers collide: the copy threads reach into the second round, the CPU stress threads
into the first one, or both together cover more than half of the cores. -/
theorem collides_iff (h : memoryThreads + cpuStressThreads ≤ cores) :
    Collides cores memoryThreads cpuStressThreads ↔ cores % 2 = 1 ∧ 1 < cores ∧
      (cores + 1 < 2 * (memoryThreads + cpuStressThreads) ∨ cores ≤ 2 * cpuStressThreads) := by
  constructor
  · rintro ⟨i, hi, j, hj, hlt, heq⟩
    rw [mem_nthcores h] at hi hj
    rw [nthbit_eq_iff hlt (by omega)] at heq
    omega
  · rintro ⟨hodd, hone, hmany⟩
    have hnew (i : Nat) (hpos : 1 ≤ i) (hle : i + cores / 2 < cores)
        (hi : i < memoryThreads ∨ cores - cpuStressThreads ≤ i)
        (hj : i + cores / 2 < memoryThreads ∨ cores - cpuStressThreads ≤ i + cores / 2) :
        Collides cores memoryThreads cpuStressThreads :=
      ⟨i, (mem_nthcores h).mpr (by omega), i + cores / 2, (mem_nthcores h).mpr (by omega),
        by omega, (nthbit_eq_iff (by omega) hle).mpr ⟨hodd, hpos, rfl⟩⟩
    by_cases hstress : cores ≤ 2 * cpuStressThreads
    · exact hnew (cores / 2) (by omega) (by omega) (by omega) (by omega)
    · by_cases hcopy : cores / 2 + 1 < memoryThreads
      · exact hnew 1 (Nat.le_refl 1) (by omega) (by omega) (by omega)
      · exact hnew (memoryThreads - 1) (by omega) (by omega) (by omega) (by omega)

/-- **Placement.** Each copy and CPU stress thread is bound to one of the cores. No two of them are
bound to the same one exactly when the number of cores is even or one, or the threads are at most
half of them, rounded up, and the CPU stress threads less than half. -/
theorem placement_overlap (hcores : 0 < cores) (h : memoryThreads + cpuStressThreads ≤ cores) :
    (∀ cpu ∈ placement cores memoryThreads cpuStressThreads, ∃ bit < cores, cpu = some bit) ∧
    ((placement cores memoryThreads cpuStressThreads).Nodup ↔
      cores % 2 = 0 ∨ cores = 1 ∨
        (2 * (memoryThreads + cpuStressThreads) ≤ cores + 1 ∧ 2 * cpuStressThreads < cores)) := by
  constructor
  · intro cpu hcpu
    rw [placement_eq h, List.map_map] at hcpu
    obtain ⟨i, -, rfl⟩ := List.mem_map.mp hcpu
    exact ⟨nthbit cores i, nthbit_lt hcores i, rfl⟩
  · rw [nodup_placement_iff h, collides_iff h]
    omega

end Threads

theorem placement_overlap_eight :
    (∀ cpu ∈ placement 8 5 3, ∃ bit < 8, cpu = some bit) ∧
    ((placement 8 5 3).Nodup ↔ 8 % 2 = 0 ∨ 8 = 1 ∨ (2 * (5 + 3) ≤ 8 + 1 ∧ 2 * 3 < 8)) :=
  placement_overlap (by decide) (by decide)

/-- Three copy threads on three cores: two of them are bound to core 2. -/
theorem placement_three :
    placement 3 3 0 = [some 0, some 2, some 2] ∧ ¬ (placement 3 3 0).Nodup := by
  decide

end StressAppTest.Control
