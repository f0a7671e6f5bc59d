import PursuitForest.Proofs.Dataset.Increasing
import PursuitForest.Proofs.Outcomes
import PursuitForest.Tree.Split
/-!
The search for a projector under other labels.

Errors carry labels, so with other labels they are other errors: `Error.relabel` replaces the labels
in them. Outcomes of two runs are `Relabelled` when the second is the first with its labels replaced,
be it a value or an error. The search reads the rows of the classes in their order and no label: it
comes to the same projector, or fails for the same reason (`fitProjector_relabelled`).
-/

namespace PursuitForest

variable {F L L' : Type}

/-- Lists that correspond under a map. -/
theorem forall₂_eq_map_iff {α β : Type} {h : α → β} : ∀ {xs : List α} {ys : List β},
    List.Forall₂ (fun x y => y = h x) xs ys ↔ ys = xs.map h
  | [], ys => by simp
  | x :: xs, [] => by simp
  | x :: xs, y :: ys => by
      have ih : List.Forall₂ (fun x y => y = h x) xs ys ↔ ys = xs.map h := forall₂_eq_map_iff
      simp [ih]

/-! ### Errors with other labels -/

/-- The labels of a fault replaced. -/
def ParameterFault.relabel (f : L → L') : ParameterFault F L → ParameterFault F L'
  | .undeclaredLabel label => .undeclaredLabel (f label)
  | .absentClass label => .absentClass (f label)
  | .absentSubsetClass label => .absentSubsetClass (f label)
  | .standardizeWithoutRows => .standardizeWithoutRows
  | .scatterWithoutRows => .scatterWithoutRows
  | .growWithoutRows => .growWithoutRows
  | .trainWithoutRows => .trainWithoutRows
  | .choiceTooLarge choice width => .choiceTooLarge choice width
  | .splitTooWide choice width => .splitTooWide choice width
  | .lambdaOutOfRange lambda => .lambdaOutOfRange lambda
  | .emptyChoice => .emptyChoice
  | .emptyForest => .emptyForest
  | .emptyThreadPool => .emptyThreadPool
  | .regroupTooFew classes => .regroupTooFew classes
  | .splitGroups groups => .splitGroups groups
  | .unknownGroup label => .unknownGroup (f label)
  | .nodeWithoutClasses => .nodeWithoutClasses
  | .lostSubtree => .lostSubtree
  | .missingRoot => .missingRoot

/-- The labels of a missing split replaced. -/
def Degeneracy.relabel (f : L → L') : Degeneracy F L → Degeneracy F L'
  | .constantFeatures => .constantFeatures
  | .singularScatter smallest largest => .singularScatter smallest largest
  | .inseparableClasses => .inseparableClasses
  | .equalMeans first second mean => .equalMeans (f first) (f second) mean

/-- The labels of an error replaced. -/
def Error.relabel (f : L → L') : Error F L → Error F L'
  | .parameter fault => .parameter (fault.relabel f)
  | .shapeMismatch context expected found => .shapeMismatch context expected found
  | .splitBlock label row => .splitBlock (f label) row
  | .degenerate cause => .degenerate (cause.relabel f)
  | .retriesExhausted retries source => .retriesExhausted retries (source.relabel f)
  | .threadPool cause => .threadPool cause
  | .missing part => .missing part
  | .unsupported ranking => .unsupported ranking
  | .tooFewValues => .tooFewValues
  | .tooManyValues => .tooManyValues
  | .tooManyCells => .tooManyCells
  | .malformedText => .malformedText
  | .misuse cause => .misuse cause

theorem Error.isDegenerate_relabel (f : L → L') (e : Error F L) :
    (e.relabel f).isDegenerate = e.isDegenerate := by
  cases e <;> rfl

/-- The second outcome is the first with other labels: `h` replaces those of a value. -/
abbrev Relabelled {α α' : Type} (f : L → L') (h : α → α') :
    Except (Error F L) α → Except (Error F L') α' → Prop :=
  Alike (fun e e' => e' = e.relabel f) fun a a' => a' = h a

namespace Relabelled

variable {α α' β β' : Type} {f : L → L'} {h : α → α'} {k : β → β'} {x : Except (Error F L) α}
  {x' : Except (Error F L') α'}

theorem ok {a : α} : Relabelled (F := F) f h (.ok a) (.ok (h a)) := Alike.ok rfl

theorem error {e : Error F L} : Relabelled f h (.error e) (.error (e.relabel f)) := Alike.error rfl

theorem bind {y : α → Except (Error F L) β} {y' : α' → Except (Error F L') β'}
    (hx : Relabelled f h x x') (hy : ∀ a, Relabelled f k (y a) (y' (h a))) :
    Relabelled f k (x >>= y) (x' >>= y') := by
  refine Alike.bind hx ?_
  rintro a _ rfl
  exact hy a

theorem ite {c : Prop} [Decidable c] {y : Except (Error F L) α} {y' : Except (Error F L') α'}
    (hx : Relabelled f h x x') (hy : Relabelled f h y y') :
    Relabelled f h (if c then x else y) (if c then x' else y') := by
  split
  · exact hx
  · exact hy

theorem map {p : α → β} {p' : α' → β'} (hx : Relabelled f h x x')
    (hp : ∀ a, p' (h a) = k (p a)) : Relabelled f k (x.map p) (x'.map p') := by
  refine Alike.map hx ?_
  rintro a _ rfl
  exact hp a

theorem eq_ok {a : α} {x' : Except (Error F L') α'} (hx : Relabelled (F := F) f h (.ok a) x') :
    x' = .ok (h a) := by
  cases hx with
  | ok ha => rw [ha]

theorem eq_error {e : Error F L} {x' : Except (Error F L') α'} (hx : Relabelled f h (.error e) x') :
    x' = .error (e.relabel f) := by
  cases hx with
  | error he => rw [he]

theorem exists_of_error {x : Except (Error F L) α} {e' : Error F L'}
    (hx : Relabelled f h x (.error e')) : ∃ e, x = .error e ∧ e' = e.relabel f := by
  cases hx with
  | error he => exact ⟨_, rfl, he⟩

/-- Steps for the members of a list. -/
theorem mapM {y : β → Except (Error F L) α} {y' : β' → Except (Error F L') α'}
    (hy : ∀ b, Relabelled f h (y b) (y' (k b))) (xs : List β) :
    Relabelled f (List.map h) (xs.mapM y) ((xs.map k).mapM y') := by
  have hall : List.Forall₂ (fun b b' => b' = k b) xs (xs.map k) := forall₂_eq_map_iff.2 rfl
  refine (Alike.mapM hall ?_).mono fun as as' has => forall₂_eq_map_iff.1 has
  rintro b - _ rfl
  exact hy b

end Relabelled

/-! ### The search -/

variable [Scalar F] [Label L] [Label L'] {f : L → L'}

theorem varyingColumns_remap (hf : Increasing f) (d : GroupedDataset F L) :
    varyingColumns (d.remap f) = varyingColumns d := by
  rw [varyingColumns, varyingColumns, hf.features_remap]
  rfl

theorem scatter_relabelled (hf : Increasing f) (average : List F → F) (d : GroupedDataset F L) :
    Relabelled f id (Scatter.ofDataset average d) (Scatter.ofDataset average (d.remap f)) := by
  rw [Scatter.ofDataset, Scatter.ofDataset, hf.isEmpty_remap, hf.groups_remap]
  split
  · exact .error
  · rw [List.map_map]
    exact .ok

variable [Eigensolver F]

omit [Label L] [Label L'] in
theorem solveGeneralized_relabelled {n : Nat} (f : L → L') (a b : Square F n) :
    Relabelled f id (solveGeneralized a b) (solveGeneralized a b) := by
  refine .ite .error ?_
  split
  · exact .error
  · exact .ite .error .ok

theorem optimize_relabelled (hf : Increasing f) (p : Discriminant F) (d : GroupedDataset F L) :
    Relabelled f id (p.optimize d) (p.optimize (d.remap f)) := by
  unfold Discriminant.optimize
  rw [varyingColumns_remap hf]
  refine .ite .error ?_
  rw [GroupedDataset.keepColumns_remap]
  refine (scatter_relabelled hf Scalar.laneMean (d.keepColumns (varyingColumns d))).bind fun s => ?_
  exact (solveGeneralized_relabelled f _ _).bind fun direction => .ok

omit [Scalar F] [Eigensolver F] in
theorem reduce_relabelled (f : L → L') (s : ColumnSelection) (d : GroupedDataset F L) :
    Relabelled f (·.remap f) (s.reduce d) (s.reduce (d.remap f)) := by
  refine .ite .ok ?_
  rw [GroupedDataset.selectColumns, GroupedDataset.selectColumns, GroupedDataset.keepColumns_remap]
  exact .ite .ok .error

omit [Label L] [Label L'] [Eigensolver F] in
theorem expand_relabelled (f : L → L') (s : ColumnSelection) (reduced : List F) :
    Relabelled f id (s.expand reduced) (s.expand reduced) :=
  .ite .error .ok

/-- The same projector is found, whatever the labels. -/
theorem fitProjector_relabelled (hf : Increasing f) (lambda : F) (d : GroupedDataset F L)
    (s : ColumnSelection) :
    Relabelled f id (fitProjector lambda d s) (fitProjector lambda (d.remap f) s) :=
  (reduce_relabelled f s d).bind fun e =>
    (optimize_relabelled hf ⟨lambda⟩ e).bind fun reduced => expand_relabelled f s reduced

end PursuitForest
