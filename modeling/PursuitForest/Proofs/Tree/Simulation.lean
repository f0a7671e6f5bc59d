import PursuitForest.Proofs.Tree.Fitting
/-!
Two runs of a builder.

Two builders correspond when their tasks, the nodes they have built and their generators do. If
tasks that correspond lead to tasks and nodes that correspond, or fail alike, then so does every
round (`Builder.Alike.round`), and so does the whole run (`Builder.Alike.run`). What must hold of the
first builder for that is kept from round to round.
-/

namespace PursuitForest

variable {F L L' G G' : Type} [Scalar F] [Eigensolver F] [Label L] [Label L'] [RandomSource G]
  [RandomSource G'] {settings : TreeSettings F} {settings' : TreeSettings F}
  {E : Error F L → Error F L' → Prop} {T : Task F L → Task F L' → Prop}
  {N : Node F L → Node F L' → Prop} {S : G → G' → Prop} {b : Builder F L G} {b' : Builder F L' G'}

/-- Outcomes that are alike, with generators that `S` relates. -/
structure RunsAlike {α α' : Type} (E : Error F L → Error F L' → Prop) (P : α → α' → Prop)
    (S : G → G' → Prop) (p : Except (Error F L) α × G) (p' : Except (Error F L') α' × G') : Prop where
  outcome : Alike E P p.1 p'.1
  source : S p.2 p'.2

/-- Tasks, nodes and generators that correspond. -/
structure Builder.Alike (T : Task F L → Task F L' → Prop) (N : Node F L → Node F L' → Prop)
    (S : G → G' → Prop) (b : Builder F L G) (b' : Builder F L' G') : Prop where
  tasks : List.Forall₂ T b.tasks b'.tasks
  built : List.Forall₂ N b.built b'.built
  source : S b.source b'.source

/-- Rounds that lead to builders that correspond, or end alike. -/
inductive Round.Alike (E : Error F L → Error F L' → Prop) (T : Task F L → Task F L' → Prop)
    (N : Node F L → Node F L' → Prop) (S : G → G' → Prop) : Round F L G → Round F L' G' → Prop
  | next {b : Builder F L G} {b' : Builder F L' G'} (h : b.Alike T N S b') :
      Round.Alike E T N S (.next b) (.next b')
  | done {outcome : Except (Error F L) (Node F L)} {outcome' : Except (Error F L') (Node F L')}
      {g : G} {g' : G'} (h : RunsAlike E N S (outcome, g) (outcome', g')) :
      Round.Alike E T N S (.done outcome g) (.done outcome' g')

/-- The tasks and nodes that doing a task comes to. -/
def PerformAlike (E : Error F L → Error F L' → Prop) (T : Task F L → Task F L' → Prop)
    (N : Node F L → Node F L' → Prop) (S : G → G' → Prop)
    (p : Except (Error F L) (List (Task F L) × List (Node F L)) × G)
    (p' : Except (Error F L') (List (Task F L') × List (Node F L')) × G') : Prop :=
  RunsAlike E (fun q q' => List.Forall₂ T q.1 q'.1 ∧ List.Forall₂ N q.2 q'.2) S p p'

namespace Builder.Alike

/-- A round of two builders that correspond, if their next tasks lead to what corresponds. -/
theorem round (h : b.Alike T N S b')
    (hmissing : E (.parameter .missingRoot) (.parameter .missingRoot))
    (hperform : ∀ task ∈ b.tasks.head?, ∀ task', T task task' →
      PerformAlike E T N S (perform settings task b.built b.source)
        (perform settings' task' b'.built b'.source)) :
    Round.Alike E T N S (b.round settings) (b'.round settings') := by
  obtain ⟨htasks, hbuilt, hsource⟩ := h
  obtain ⟨tasks, built, g⟩ := b
  obtain ⟨tasks', built', g'⟩ := b'
  cases htasks with
  | nil =>
    cases hbuilt with
    | nil => exact .done ⟨.error hmissing, hsource⟩
    | cons hroot hrest => exact .done ⟨.ok hroot, hsource⟩
  | @cons task task' tasks tasks' htask htasks =>
    obtain ⟨houtcome, hafter⟩ := hperform task rfl task' htask
    unfold Builder.round
    dsimp only at houtcome hafter ⊢
    cases hp : perform settings task built g with
    | mk outcome g₁ =>
      cases hp' : perform settings' task' built' g' with
      | mk outcome' g₁' =>
        rw [hp, hp'] at houtcome hafter
        cases houtcome with
        | error he => exact .done ⟨.error he, hafter⟩
        | @ok more more' hmore =>
          exact .next ⟨List.rel_append hmore.1 htasks, hmore.2, hafter⟩

/-- Runs of two builders that correspond. `Inv` is what holds of the first builder in every
round. -/
theorem run {Inv : Builder F L G → Prop}
    (hmissing : E (.parameter .missingRoot) (.parameter .missingRoot))
    (hkeep : ∀ b b₁ : Builder F L G, Inv b → b.round settings = .next b₁ → Inv b₁)
    (hperform : ∀ (b : Builder F L G) (b' : Builder F L' G'), Inv b → b.Alike T N S b' →
      ∀ task ∈ b.tasks.head?, ∀ task', T task task' →
        PerformAlike E T N S (perform settings task b.built b.source)
          (perform settings' task' b'.built b'.source)) :
    ∀ (rounds : Nat) {b : Builder F L G} {b' : Builder F L' G'}, Inv b → b.Alike T N S b' →
      Option.Rel (RunsAlike E N S) (b.run settings rounds) (b'.run settings' rounds)
  | 0, _, _, _, _ => .none
  | rounds + 1, b, b', hinv, h => by
      have hround := h.round hmissing (hperform b b' hinv h)
      unfold Builder.run
      cases hb : b.round settings with
      | next b₁ =>
        cases hb' : b'.round settings' with
        | next b₁' =>
          rw [hb, hb'] at hround
          cases hround with
          | next hnext => exact run hmissing hkeep hperform rounds (hkeep b b₁ hinv hb) hnext
        | done outcome' g' => rw [hb, hb'] at hround; cases hround
      | done outcome g =>
        cases hb' : b'.round settings' with
        | next b₁' => rw [hb, hb'] at hround; cases hround
        | done outcome' g' =>
          rw [hb, hb'] at hround
          cases hround with
          | done hdone => exact .some hdone

end Builder.Alike

/-- Growing on data that pass the same checks comes to trees that correspond, or fails alike. -/
theorem grow_alike {d : GroupedDataset F L} {d' : GroupedDataset F L'} {g : G} {g' : G'}
    {Inv : Builder F L G → Prop}
    (hmissing : E (.parameter .missingRoot) (.parameter .missingRoot))
    (hcheck : Alike E (fun _ _ => True) (checkGrowth settings d) (checkGrowth settings' d'))
    (hcount : d.groupCount = d'.groupCount) (hstart : Inv (Builder.start d g))
    (h : (Builder.start d g).Alike T N S (Builder.start d' g'))
    (hkeep : ∀ b b₁ : Builder F L G, Inv b → b.round settings = .next b₁ → Inv b₁)
    (hperform : ∀ (b : Builder F L G) (b' : Builder F L' G'), Inv b → b.Alike T N S b' →
      ∀ task ∈ b.tasks.head?, ∀ task', T task task' →
        PerformAlike E T N S (perform settings task b.built b.source)
          (perform settings' task' b'.built b'.source)) :
    RunsAlike E N S (grow settings d g) (grow settings' d' g') := by
  have hrun := Builder.Alike.run hmissing hkeep hperform (3 * d.groupCount) hstart h
  unfold grow
  rw [← hcount]
  cases hc : checkGrowth settings d with
  | error e =>
    cases hc' : checkGrowth settings' d' with
    | ok _ => rw [hc, hc'] at hcheck; cases hcheck
    | error e' =>
      rw [hc, hc'] at hcheck
      cases hcheck with
      | error he => exact ⟨.error he, h.source⟩
  | ok _ =>
    cases hc' : checkGrowth settings' d' with
    | error e' => rw [hc, hc'] at hcheck; cases hcheck
    | ok _ =>
      dsimp only
      generalize (Builder.start d g).run settings (3 * d.groupCount) = ran at hrun ⊢
      generalize (Builder.start d' g').run settings' (3 * d.groupCount) = ran' at hrun ⊢
      cases hrun with
      | none => exact ⟨.error hmissing, h.source⟩
      | some hsome => exact hsome

end PursuitForest
