import Mathlib.Data.List.Chain
import Mathlib.Data.List.TakeWhile
import WireSchema.Proofs.Unicode.Case

/-!
# No character of both cases

The tables of upper and of lower case characters have no code point in common.
The runs of a table ascend, so each has to be compared with few runs of the
other table only. Most characters are in neither.
-/

namespace WireSchema.Unicode

set_option autoImplicit false

section Runs

/-- Every `step`-th code point from the first to the last. -/
abbrev Run : Type := Nat × Nat × Nat

/-- The code points of the run are all even or all odd. -/
def hasParity : Run → Bool
  | (first, last, step) => step == 2 || first == last

/-- The runs do not overlap, or one takes even code points and the other odd ones. -/
def apart (run other : Run) : Bool :=
  run.2.1 < other.1 || other.2.1 < run.1 || hasParity run && hasParity other && (run.1 + other.1) % 2 == 1

/-- The run is apart from the others. Those behind the first that ends after it are not looked at. -/
def apartFrom (run : Run) : List Run → Bool
  | [] => true
  | other :: others => apart run other && (run.2.1 ≤ other.2.1 || apartFrom run others)

/-- Each run is apart from each of the others, where both lists ascend. -/
def allApart : List Run → List Run → Bool
  | [], _ => true
  | run :: runs, others => apartFrom run others && allApart runs (others.dropWhile (·.2.1 < run.2.1))

/-- The second run is not empty and comes after the first. -/
def Ascends (run next : Run) : Prop :=
  run.2.1 < next.1 ∧ next.1 ≤ next.2.1

instance (run next : Run) : Decidable (Ascends run next) :=
  inferInstanceAs (Decidable (_ ∧ _))

instance : Trans Ascends Ascends Ascends where
  trans h h' := ⟨Nat.lt_trans (Nat.lt_of_lt_of_le h.1 h.2) h'.1, h'.2⟩

variable {run other : Run} {runs others : List Run}

theorem apart_of_lt (h : run.2.1 < other.1) : apart run other = true := by
  simp [apart, h]

theorem apart_of_gt (h : other.2.1 < run.1) : apart run other = true := by
  simp [apart, h]

theorem apart_of_apartFrom (hothers : others.Pairwise Ascends) (h : apartFrom run others = true)
    (hother : other ∈ others) : apart run other = true := by
  induction others with
  | nil => cases hother
  | cons first others ih =>
    obtain ⟨hfirst, hothers⟩ := List.pairwise_cons.mp hothers
    simp only [apartFrom, Bool.and_eq_true, Bool.or_eq_true, decide_eq_true_eq] at h
    rcases List.mem_cons.mp hother with rfl | hother
    · exact h.1
    · rcases h.2 with hend | hrest
      · exact apart_of_lt (Nat.lt_of_le_of_lt hend (hfirst other hother).1)
      · exact ih hothers hrest hother

theorem apart_of_allApart (hruns : runs.Pairwise Ascends) (hothers : others.Pairwise Ascends)
    (h : allApart runs others = true) (hrun : run ∈ runs) (hother : other ∈ others) : apart run other = true := by
  induction runs generalizing others with
  | nil => cases hrun
  | cons first runs ih =>
    obtain ⟨hfirst, hruns⟩ := List.pairwise_cons.mp hruns
    obtain ⟨hhere, hrest⟩ := Bool.and_eq_true_iff.mp h
    rcases List.mem_cons.mp hrun with rfl | hrun
    · exact apart_of_apartFrom hothers hhere hother
    · -- Others that end before the first run ends come before all later runs.
      rw [← List.takeWhile_append_dropWhile (p := (·.2.1 < first.2.1)) (l := others), List.mem_append] at hother
      rcases hother with hdropped | hkept
      · have hend := List.mem_takeWhile_imp hdropped
        exact apart_of_gt (Nat.lt_trans (of_decide_eq_true hend) (hfirst run hrun).1)
      · exact ih hruns (hothers.sublist (List.dropWhile_sublist _)) hrest hrun hkept

theorem mod_two_eq_of_hasParity {first last step code : Nat} (h : hasParity (first, last, step) = true)
    (hfirst : first ≤ code) (hlast : code ≤ last) (hstep : (code - first) % step = 0) :
    code % 2 = first % 2 := by
  simp only [hasParity, Bool.or_eq_true, beq_iff_eq] at h
  rcases h with rfl | rfl <;> omega

theorem inRuns_eq_false {code : Nat} (hruns : runs.IsChain Ascends) (hothers : others.IsChain Ascends)
    (hapart : allApart runs others = true) (h : inRuns runs code = true) : inRuns others code = false := by
  rw [inRuns, List.any_eq_false]
  intro other hother hcode
  obtain ⟨⟨first, last, step⟩, hrun, hin⟩ := List.any_eq_true.mp h
  obtain ⟨first', last', step'⟩ := other
  have hpair := apart_of_allApart hruns.pairwise hothers.pairwise hapart hrun hother
  simp only [Bool.and_eq_true, decide_eq_true_eq, beq_iff_eq] at hin hcode
  simp only [apart, Bool.or_eq_true, Bool.and_eq_true, decide_eq_true_eq, beq_iff_eq] at hpair
  obtain ⟨⟨hfirst, hlast⟩, hstep⟩ := hin
  obtain ⟨⟨hfirst', hlast'⟩, hstep'⟩ := hcode
  rcases hpair with (hbelow | habove) | ⟨⟨hparity, hparity'⟩, hodd⟩
  · omega
  · omega
  · have heq := mod_two_eq_of_hasParity hparity hfirst hlast hstep
    have heq' := mod_two_eq_of_hasParity hparity' hfirst' hlast' hstep'
    omega

end Runs

theorem isUppercase_eq_false_of_isLowercase {c : Char} (h : isLowercase c = true) : isUppercase c = false := by
  unfold isLowercase at h
  unfold isUppercase
  split
  · next hascii =>
    rw [if_pos hascii] at h
    have hupper := forall_ascii (P := fun c => c.isLower = true → c.isUpper = false) (by decide +kernel) hascii
    exact hupper h
  · next hascii =>
    rw [if_neg hascii] at h
    exact inRuns_eq_false (by decide +kernel) (by decide +kernel) (by decide +kernel) h

end WireSchema.Unicode
