import Mathlib.Data.List.Basic
import Mathlib.Data.Nat.Find
import StressAppTest.Library.Loop

/-!
# Maximal runs

The maximal intervals on which a predicate on numbers holds, and a scan that lists them: it remembers
where the open run has started and lists a run when it sees the first number after it. A run that is
still open at the end of the scan is not listed (`ScanInv.mem`).
-/

namespace Runs

/-- `a, .., b` is a maximal run of `p`. -/
structure IsRun (p : Nat → Prop) (a b : Nat) : Prop where
  le : a ≤ b
  mem : ∀ i, a ≤ i → i ≤ b → p i
  left : a = 0 ∨ ¬ p (a - 1)
  right : ¬ p (b + 1)

variable {p q : Nat → Prop} {a a' b : Nat}

/-- Only what is below the number after the run matters. -/
theorem isRun_congr (h : ∀ i, i ≤ b + 1 → (p i ↔ q i)) : IsRun p a b ↔ IsRun q a b := by
  have htransfer {p q : Nat → Prop} (h : ∀ i, i ≤ b + 1 → (p i ↔ q i)) (hrun : IsRun p a b) :
      IsRun q a b := by
    have hle := hrun.le
    refine ⟨hle, ?_, ?_, ?_⟩
    · intro i hi hib
      exact (h i (by omega)).mp (hrun.mem i hi hib)
    · apply hrun.left.imp_right
      intro hleft hq
      exact hleft ((h (a - 1) (by omega)).mpr hq)
    · intro hq
      exact hrun.right ((h (b + 1) (Nat.le_refl _)).mpr hq)
  exact ⟨htransfer h, htransfer fun i hi => (h i hi).symm⟩

/-- The end determines the start. -/
theorem IsRun.start_eq (h : IsRun p a b) (h' : IsRun p a' b) : a = a' := by
  have hle {a a' : Nat} (h : IsRun p a b) (h' : IsRun p a' b) : a ≤ a' := by
    by_contra hlt
    rcases h.left with hzero | hleft
    · omega
    · apply hleft
      have := h.le
      exact h'.mem (a - 1) (by omega) (by omega)
  exact Nat.le_antisymm (hle h h') (hle h' h)

/-- Below a bound every member is in a run. -/
theorem exists_isRun {n t : Nat} (hbound : ∀ i, p i → i < n) (ht : p t) :
    ∃ a b, IsRun p a b ∧ a ≤ t ∧ t ≤ b := by
  classical
  -- to the left as far as possible, then to the right
  have hleft : ∃ a ≤ t, (∀ i, a ≤ i → i ≤ t → p i) ∧ (a = 0 ∨ ¬ p (a - 1)) := by
    induction t with
    | zero =>
        refine ⟨0, Nat.le_refl 0, ?_, Or.inl rfl⟩
        intro i _ hi
        rwa [Nat.le_zero.mp hi]
    | succ t ih =>
        by_cases hprev : p t
        · obtain ⟨a, hle, hmem, hstart⟩ := ih hprev
          refine ⟨a, by omega, ?_, hstart⟩
          intro i hi hit
          by_cases heq : i = t + 1
          · rwa [heq]
          · exact hmem i hi (by omega)
        · refine ⟨t + 1, Nat.le_refl _, ?_, Or.inr hprev⟩
          intro i hi hit
          rwa [show i = t + 1 by omega]
  have hright : ∃ b, t ≤ b ∧ (∀ i, t ≤ i → i ≤ b → p i) ∧ ¬ p (b + 1) := by
    have hend : ∃ k, ¬ p (t + k + 1) := ⟨n, fun hp => by have := hbound _ hp; omega⟩
    refine ⟨t + Nat.find hend, by omega, ?_, Nat.find_spec hend⟩
    intro i hi hit
    by_cases heq : i = t
    · rwa [heq]
    · have hmin := Nat.find_min hend (m := i - t - 1) (by omega)
      rw [show t + (i - t - 1) + 1 = i by omega] at hmin
      exact not_not.mp hmin
  obtain ⟨a, hat, hmem, hstart⟩ := hleft
  obtain ⟨b, htb, hmem', hstop⟩ := hright
  refine ⟨a, b, ⟨by omega, ?_, hstart, hstop⟩, hat, htb⟩
  intro i hi hib
  by_cases hit : i ≤ t
  · exact hmem i hi hit
  · exact hmem' i (by omega) hib

/-- The start of the open run, whether there is one, and the runs listed so far. -/
structure Scan where
  start : Nat
  inRun : Bool
  runs : List (Nat × Nat)

/-- The scan at number `i`. -/
def Scan.step (f : Nat → Bool) (i : Nat) (s : Scan) : Scan :=
  if f i && !s.inRun then { s with start := i, inRun := true }
  else if !f i && s.inRun then { s with inRun := false, runs := s.runs ++ [(s.start, i - 1)] }
  else s

/-- The scan of the numbers below `n`. -/
def scan (f : Nat → Bool) (n : Nat) : Scan := forUpTo n (Scan.step f) ⟨0, false, []⟩

/-- What has been listed before number `n`. -/
structure ScanInv (f : Nat → Bool) (n : Nat) (s : Scan) : Prop where
  inRun : s.inRun = true ↔ 0 < n ∧ f (n - 1) = true
  start : s.inRun = true → s.start < n ∧ (∀ i, s.start ≤ i → i < n → f i = true) ∧
    (s.start = 0 ∨ ¬ f (s.start - 1) = true)
  mem : ∀ a b, (a, b) ∈ s.runs ↔ IsRun (f · = true) a b ∧ b + 1 < n
  ascending : s.runs.Pairwise fun r r' => r.2 < r'.1

section Scan

variable {f : Nat → Bool} {n : Nat} {s : Scan}

/-- A run that ends where no number has been seen yet is not listed. -/
theorem ScanInv.mem_same (h : ScanInv f n s) (hrun : ∀ a b, IsRun (f · = true) a b → b + 1 ≠ n) (a b : Nat) :
    (a, b) ∈ s.runs ↔ IsRun (f · = true) a b ∧ b + 1 < n + 1 := by
  rw [h.mem]
  apply and_congr_right
  intro hab
  have := hrun a b hab
  omega

/-- **The step lemma.** -/
theorem ScanInv.step (h : ScanInv f n s) : ScanInv f (n + 1) (s.step f n) := by
  unfold Scan.step
  by_cases hf : f n = true
  · -- nothing ends here
    have hsame := h.mem_same fun a b hab heq => hab.right (heq ▸ hf)
    by_cases hin : s.inRun = true
    · rw [if_neg (by simp [hin]), if_neg (by simp [hf])]
      obtain ⟨hlt, hmem, hleft⟩ := h.start hin
      constructor
      · exact ⟨fun _ => ⟨Nat.succ_pos n, hf⟩, fun _ => hin⟩
      · intro _
        refine ⟨by omega, ?_, hleft⟩
        intro i hi hin'
        by_cases heq : i = n
        · rwa [heq]
        · exact hmem i hi (by omega)
      · exact hsame
      · exact h.ascending
    · rw [if_pos (by simp [hf, hin])]
      constructor
      · exact ⟨fun _ => ⟨Nat.succ_pos n, hf⟩, fun _ => rfl⟩
      · intro _
        refine ⟨Nat.lt_succ_self n, ?_, ?_⟩
        · intro i hi hin'
          have heq : i = n := Nat.le_antisymm (Nat.lt_succ_iff.mp hin') hi
          rwa [heq]
        · by_cases hzero : n = 0
          · exact Or.inl hzero
          · exact Or.inr fun hprev => hin (h.inRun.mpr ⟨Nat.pos_of_ne_zero hzero, hprev⟩)
      · exact hsame
      · exact h.ascending
  · by_cases hin : s.inRun = true
    · -- the open run ends here
      rw [if_neg (by simp [hf]), if_pos (by simp [hf, hin])]
      obtain ⟨hlt, hmem, hleft⟩ := h.start hin
      have hrun : IsRun (f · = true) s.start (n - 1) := by
        refine ⟨by omega, fun i hi hin' => hmem i hi (by omega), hleft, ?_⟩
        rwa [Nat.sub_add_cancel (by omega)]
      constructor
      · simp [hf]
      · intro hfalse
        cases hfalse
      · intro a b
        rw [List.mem_append, h.mem, List.mem_singleton, Prod.mk.injEq]
        constructor
        · rintro (⟨hab, hlt'⟩ | ⟨rfl, rfl⟩)
          · exact ⟨hab, by omega⟩
          · exact ⟨hrun, by omega⟩
        · rintro ⟨hab, hlt'⟩
          by_cases heq : b = n - 1
          · subst heq
            exact Or.inr ⟨hab.start_eq hrun, rfl⟩
          · exact Or.inl ⟨hab, by omega⟩
      · apply List.pairwise_append.mpr
        refine ⟨h.ascending, List.pairwise_singleton _ _, ?_⟩
        intro r hr r' hr'
        rw [List.mem_singleton.mp hr']
        obtain ⟨hab, hlt'⟩ := (h.mem r.1 r.2).mp hr
        by_contra hge
        exact hab.right (hmem (r.2 + 1) (by change ¬ r.2 < s.start at hge; omega) hlt')
    · rw [if_neg (by simp [hf]), if_neg (by simp [hin])]
      constructor
      · simp [hf, hin]
      · intro htrue
        exact absurd htrue hin
      · apply h.mem_same
        intro a b hab heq
        apply hin
        exact h.inRun.mpr ⟨by omega, hab.mem _ (by have := hab.le; omega) (by omega)⟩
      · exact h.ascending

/-- **The scan** lists the runs whose end it has seen, in ascending order. -/
theorem scan_inv (f : Nat → Bool) (n : Nat) : ScanInv f n (scan f n) := by
  apply forUpTo_inv (ScanInv f)
  · constructor
    · simp
    · intro hfalse
      cases hfalse
    · simp
    · exact List.Pairwise.nil
  · intro i _ s hs
    exact hs.step

end Scan

end Runs
