import PursuitForest.Proofs.Forest.Training
/-!
Two runs of training.

If the attempts at a tree come alike, so does the tree, since the errors that are retried correspond
(`Forest.attemptFrom_alike`). If all trees come alike, so does the forest (`Forest.fit_alike`).
-/

namespace PursuitForest
namespace Forest

variable {F L L' G G' : Type} [Scalar F] [Eigensolver F] [Label L] [Label L'] [RandomSource G]
  [RandomSource G'] {E : Error F L → Error F L' → Prop} {P : Member F L → Member F L' → Prop}

/-- Errors that correspond are both retried or both not, and correspond when retries run out. -/
structure Retried (E : Error F L → Error F L' → Prop) : Prop where
  isDegenerate_eq : ∀ {e e'}, E e e' → e.isDegenerate = e'.isDegenerate
  exhausted : ∀ {e e'}, E e e' → ∀ n, E (.retriesExhausted n e) (.retriesExhausted n e')

omit [Scalar F] [Eigensolver F] [Label L] in
theorem retried_eq : Retried (F := F) (L := L) Eq where
  isDegenerate_eq h := by rw [h]
  exhausted h _ := by rw [h]

/-- Attempts that come alike, one by one, come alike altogether. -/
theorem attemptFrom_alike {settings settings' : ForestSettings F} {data : GroupedDataset F L}
    {data' : GroupedDataset F L'} {index : Nat} (hE : Retried E) : ∀ {left number : Nat},
    (∀ k ≤ left, Alike E P (attempt G settings data index (number + k))
      (attempt G' settings' data' index (number + k))) →
    Alike E P (attemptFrom G settings data index left number)
      (attemptFrom G' settings' data' index left number) := by
  intro left
  induction left with
  | zero =>
    intro number h
    rw [attemptFrom.eq_def, attemptFrom.eq_def]
    rcases (h 0 (Nat.le_refl 0)).cases with ⟨m, m', hm, hm', hmm⟩ | ⟨e, e', he, he', hee⟩
    · rw [Nat.add_zero] at hm hm'
      simp only [hm, hm']
      exact .ok hmm
    · rw [Nat.add_zero] at he he'
      simp only [he, he', ← hE.isDegenerate_eq hee]
      split
      · exact .error (hE.exhausted hee number)
      · exact .error hee
  | succ left ih =>
    intro number h
    have hlater : ∀ k ≤ left, Alike E P (attempt G settings data index (number + 1 + k))
        (attempt G' settings' data' index (number + 1 + k)) := fun k hk => by
      rw [Nat.add_assoc, Nat.add_comm 1 k]
      exact h (k + 1) (Nat.succ_le_succ hk)
    rw [attemptFrom.eq_def, attemptFrom.eq_def]
    rcases (h 0 (Nat.zero_le _)).cases with ⟨m, m', hm, hm', hmm⟩ | ⟨e, e', he, he', hee⟩
    · rw [Nat.add_zero] at hm hm'
      simp only [hm, hm']
      exact .ok hmm
    · rw [Nat.add_zero] at he he'
      simp only [he, he', ← hE.isDegenerate_eq hee]
      split
      · exact ih hlater
      · exact .error hee

/-- Forests of as many trees that come alike, on data that pass the same checks. -/
theorem fit_alike (crew : Crew) {settings settings' : ForestSettings.Checked F} {d : Dataset F L}
    {d' : Dataset F L'}
    (hrows : E (.parameter .trainWithoutRows) (.parameter .trainWithoutRows))
    (hempty : d.isEmpty = d'.isEmpty)
    (hwidth : Alike E (fun _ _ => True) (settings.val.tree.checkWidth d.width)
      (settings'.val.tree.checkWidth d'.width))
    (hthreads : Alike E (fun _ _ => True) (crew.engage settings.val.threads)
      (crew.engage settings'.val.threads))
    (hsize : settings.val.size = settings'.val.size)
    (htrees : d.isEmpty = false → ∀ index < settings.val.size,
      Alike E P (trainTree G settings.val (.ofDataset d) index)
        (trainTree G' settings'.val (.ofDataset d') index)) :
    Alike E (fun f f' => List.Forall₂ P f.members f'.members ∧ f.settings = settings.val ∧
      f'.settings = settings'.val ∧ f.training = some (.ofDataset d) ∧
      f'.training = some (.ofDataset d')) (fit G crew settings d) (fit G' crew settings' d') := by
  unfold fit
  rw [← hempty, ← hsize]
  cases hd : d.isEmpty with
  | true => exact .error hrows
  | false =>
    refine hwidth.bind fun _ _ _ => hthreads.bind fun _ _ _ => ?_
    refine (Alike.collect crew ?_).bind fun members members' hmembers =>
      .ok ⟨hmembers, rfl, rfl, rfl, rfl⟩
    rw [List.forall₂_map_left_iff, List.forall₂_map_right_iff, List.forall₂_same]
    exact fun index hindex => htrees hd index (List.mem_range.1 hindex)

end Forest
end PursuitForest
