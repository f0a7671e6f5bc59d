import PursuitForest.Proofs.Tree.Division
import PursuitForest.Tree.Growth
/-!
Growing by recursion.

`growNode` grows the lower side of a node completely, then the upper side with the generator that
the lower side leaves behind, and puts both under the split. It ends because both sides of a split
have fewer classes than the node. A builder that grows a node comes to the same: in fewer than three
rounds a class it reaches the builder without the task, with the node on top of what was built
before (`Grows.reaches`), or ends with the same error and generator (`Grows.fails`).
-/

namespace PursuitForest

variable {F L G : Type} [Scalar F] [Eigensolver F] [Label L] [RandomSource G]
  {settings : TreeSettings F} {d : GroupedDataset F L} {g g' : G}

/-! ### Branching -/

/-- The data of both sides exists: a node branches unless its division fails. -/
theorem branch_eq : branch settings d g = ((divide settings d g).1.map fun division =>
    ⟨division.split, d.restrict division.lower, d.restrict division.upper⟩,
    (divide settings d g).2) := by
  unfold branch
  cases h : divide settings d g with
  | mk outcome g' =>
    cases outcome with
    | error e => rfl
    | ok division =>
      have hs := splits_of_divide h
      have hl := d.subset_eq_restrict fun x hx => (hs.covers x).2 (.inl hx)
      have hu := d.subset_eq_restrict fun x hx => (hs.covers x).2 (.inr hx)
      simp only [Except.map]
      simp only [bind, Except.bind, hl, hu]
      rfl

theorem branch_eq_ok_iff {b : Branching F L} :
    branch settings d g = (.ok b, g') ↔ ∃ division, divide settings d g = (.ok division, g') ∧
      b = ⟨division.split, d.restrict division.lower, d.restrict division.upper⟩ := by
  rw [branch_eq]
  cases divide settings d g with
  | mk outcome g₁ =>
    cases outcome with
    | error e => simp [Except.map]
    | ok division =>
      simp only [Except.map, Prod.mk.injEq, Except.ok.injEq]
      constructor
      · rintro ⟨rfl, rfl⟩; exact ⟨division, ⟨rfl, rfl⟩, rfl⟩
      · rintro ⟨_, ⟨rfl, rfl⟩, rfl⟩; exact ⟨rfl, rfl⟩

theorem branch_eq_error_iff {e : Error F L} :
    branch settings d g = (.error e, g') ↔ divide settings d g = (.error e, g') := by
  rw [branch_eq]
  cases divide settings d g with
  | mk outcome g₁ => cases outcome <;> simp [Except.map]

theorem width_of_branch {b : Branching F L} (h : branch settings d g = (.ok b, g')) :
    b.lower.width = d.width ∧ b.upper.width = d.width := by
  obtain ⟨division, -, rfl⟩ := branch_eq_ok_iff.1 h
  exact ⟨rfl, rfl⟩

/-- The classes of the sides split the classes of the node. -/
theorem splits_of_branch {b : Branching F L} (h : branch settings d g = (.ok b, g')) :
    d.presentClasses.Splits b.lower.presentClasses b.upper.presentClasses := by
  obtain ⟨division, hd, rfl⟩ := branch_eq_ok_iff.1 h
  have hs := splits_of_divide hd
  have hl := GroupedDataset.presentClasses_restrict fun x hx => (hs.covers x).2 (.inl hx)
  have hu := GroupedDataset.presentClasses_restrict fun x hx => (hs.covers x).2 (.inr hx)
  dsimp only
  rw [hl, hu]
  exact hs

theorem groupCount_of_branch {b : Branching F L} (h : branch settings d g = (.ok b, g')) :
    b.lower.groupCount + b.upper.groupCount = d.groupCount ∧ 0 < b.lower.groupCount ∧
      0 < b.upper.groupCount := by
  have hs := splits_of_branch h
  have h1 := hs.size_eq
  have h2 := hs.size_lower_pos
  have h3 := hs.size_upper_pos
  simp only [GroupedDataset.size_presentClasses] at h1 h2 h3
  exact ⟨h1, h2, h3⟩

/-! ### The recursion -/

/-- Grows a node: one class is a response, two classes are split, and of more classes the lower side
is grown before the upper one. -/
def growNode (settings : TreeSettings F) (d : GroupedDataset F L) (g : G) :
    Except (Error F L) (Node F L) × G :=
  match d.groups with
  | [] => (.error (.parameter .nodeWithoutClasses), g)
  | [c] => (.ok (.response c.label), g)
  | [_, _] => ((divide settings d g).1.map (·.split.toNode), (divide settings d g).2)
  | _ =>
    match _h : branch settings d g with
    | (.error e, g) => (.error e, g)
    | (.ok b, g) =>
      match growNode settings b.lower g with
      | (.error e, g) => (.error e, g)
      | (.ok lower, g) =>
        match growNode settings b.upper g with
        | (.error e, g) => (.error e, g)
        | (.ok upper, g) => (.ok (.join b.split.projector b.split.threshold lower upper), g)
termination_by d.groupCount
decreasing_by
  all_goals
    have := groupCount_of_branch _h
    omega

/-- What growing a node comes to, step by step: its outcome and the generator left behind. -/
inductive Grows (settings : TreeSettings F) : GroupedDataset F L → G →
    Except (Error F L) (Node F L) → G → Prop
  | none {d : GroupedDataset F L} {g : G} (hd : d.groups = []) :
      Grows settings d g (.error (.parameter .nodeWithoutClasses)) g
  | one {d : GroupedDataset F L} {g : G} {c : ClassGroup F L} (hd : d.groups = [c]) :
      Grows settings d g (.ok (.response c.label)) g
  | two {d : GroupedDataset F L} {g g' : G} {division : Division F L} (hd : d.groupCount = 2)
      (hdivide : divide settings d g = (.ok division, g')) :
      Grows settings d g (.ok division.split.toNode) g'
  | twoFails {d : GroupedDataset F L} {g g' : G} {e : Error F L} (hd : d.groupCount = 2)
      (hdivide : divide settings d g = (.error e, g')) : Grows settings d g (.error e) g'
  | many {d : GroupedDataset F L} {g g₁ g₂ g₃ : G} {b : Branching F L} {lower upper : Node F L}
      (hd : 2 < d.groupCount) (hbranch : branch settings d g = (.ok b, g₁))
      (hlower : Grows settings b.lower g₁ (.ok lower) g₂)
      (hupper : Grows settings b.upper g₂ (.ok upper) g₃) :
      Grows settings d g (.ok (.join b.split.projector b.split.threshold lower upper)) g₃
  | branchFails {d : GroupedDataset F L} {g g₁ : G} {e : Error F L} (hd : 2 < d.groupCount)
      (hbranch : branch settings d g = (.error e, g₁)) : Grows settings d g (.error e) g₁
  | lowerFails {d : GroupedDataset F L} {g g₁ g₂ : G} {b : Branching F L} {e : Error F L}
      (hd : 2 < d.groupCount) (hbranch : branch settings d g = (.ok b, g₁))
      (hlower : Grows settings b.lower g₁ (.error e) g₂) : Grows settings d g (.error e) g₂
  | upperFails {d : GroupedDataset F L} {g g₁ g₂ g₃ : G} {b : Branching F L} {lower : Node F L}
      {e : Error F L} (hd : 2 < d.groupCount) (hbranch : branch settings d g = (.ok b, g₁))
      (hlower : Grows settings b.lower g₁ (.ok lower) g₂)
      (hupper : Grows settings b.upper g₂ (.error e) g₃) : Grows settings d g (.error e) g₃

omit [Scalar F] [Eigensolver F] in
theorem two_lt_groupCount (h0 : d.groups = [] → False) (h1 : ∀ c, d.groups = [c] → False)
    (h2 : ∀ a b, d.groups = [a, b] → False) : 2 < d.groupCount := by
  unfold GroupedDataset.groupCount
  match hd : d.groups with
  | [] => exact (h0 hd).elim
  | [c] => exact (h1 c hd).elim
  | [a, b] => exact (h2 a b hd).elim
  | a :: b :: c :: rest => simp

theorem growNode_grows (settings : TreeSettings F) (d : GroupedDataset F L) (g : G) :
    Grows settings d g (growNode settings d g).1 (growNode settings d g).2 := by
  fun_induction growNode settings d g with
  | case1 d g hd => exact .none hd
  | case2 d g c hd => exact .one hd
  | case3 d g a b hd =>
    have hcount : d.groupCount = 2 := by rw [GroupedDataset.groupCount, hd]; rfl
    cases h : divide settings d g with
    | mk outcome g' =>
      cases outcome with
      | error e => exact .twoFails hcount h
      | ok division => exact .two hcount h
  | case4 d g e g₁ hbranch h0 h1 h2 => exact .branchFails (two_lt_groupCount h0 h1 h2) hbranch
  | case5 d g b g₁ hbranch e g₂ hlower h0 h1 h2 ih =>
    rw [hlower] at ih
    exact .lowerFails (two_lt_groupCount h0 h1 h2) hbranch ih
  | case6 d g b g₁ hbranch lower g₂ hlower e g₃ hupper h0 h1 h2 ihl ihu =>
    rw [hlower] at ihl
    rw [hupper] at ihu
    exact .upperFails (two_lt_groupCount h0 h1 h2) hbranch ihl ihu
  | case7 d g b g₁ hbranch lower g₂ hlower upper g₃ hupper h0 h1 h2 ihl ihu =>
    rw [hlower] at ihl
    rw [hupper] at ihu
    exact .many (two_lt_groupCount h0 h1 h2) hbranch ihl ihu

/-- Grows a tree by recursion, once the data is checked. -/
def growRec (settings : TreeSettings F) (d : GroupedDataset F L) (g : G) :
    Except (Error F L) (Node F L) × G :=
  match checkGrowth settings d with
  | .error e => (.error e, g)
  | .ok () => growNode settings d g

/-! ### Rounds of a builder -/

/-- So many rounds lead from one builder to another. -/
inductive Reaches (settings : TreeSettings F) : (rounds : Nat) → Builder F L G → Builder F L G → Prop
  | refl {b : Builder F L G} : Reaches settings 0 b b
  | next {rounds : Nat} {b b' b'' : Builder F L G} (h : b.round settings = .next b')
      (hr : Reaches settings rounds b' b'') : Reaches settings (rounds + 1) b b''

namespace Reaches

variable {m n : Nat} {b b' b'' : Builder F L G}

theorem trans (h : Reaches settings m b b') (h' : Reaches settings n b' b'') :
    Reaches settings (n + m) b b'' := by
  induction h with
  | refl => exact h'
  | next hr _ ih => exact .next hr (ih h')

theorem single (h : b.round settings = .next b') : Reaches settings 1 b b' := .next h .refl

/-- What comes after the rounds does not depend on them. -/
theorem run_eq (h : Reaches settings n b b') (k : Nat) :
    b.run settings (k + n) = b'.run settings k := by
  induction h with
  | refl => rfl
  | next hr _ ih =>
    rw [← ih, ← Nat.add_assoc, Builder.run, hr]

end Reaches

theorem round_of_one {c : ClassGroup F L} (hd : d.groups = [c]) {tasks : List (Task F L)}
    {built : List (Node F L)} : Builder.round settings ⟨.grow d :: tasks, built, g⟩ =
      .next ⟨tasks, .response c.label :: built, g⟩ := by
  simp only [Builder.round, perform, hd, List.nil_append]

theorem round_of_two (hd : d.groupCount = 2) {tasks : List (Task F L)} {built : List (Node F L)} :
    Builder.round settings ⟨.grow d :: tasks, built, g⟩ =
      match divide settings d g with
      | (.ok division, g) => .next ⟨tasks, division.split.toNode :: built, g⟩
      | (.error e, g) => .done (.error e) g := by
  obtain ⟨a, b, hd⟩ : ∃ a b, d.groups = [a, b] := by
    unfold GroupedDataset.groupCount at hd
    match hg : d.groups with
    | [] | [_] | _ :: _ :: _ :: _ => simp [hg] at hd
    | [a, b] => exact ⟨a, b, rfl⟩
  simp only [Builder.round, perform, hd]
  cases divide settings d g with
  | mk outcome g' => cases outcome <;> rfl

theorem round_of_many (hd : 2 < d.groupCount) {tasks : List (Task F L)} {built : List (Node F L)} :
    Builder.round settings ⟨.grow d :: tasks, built, g⟩ =
      match branch settings d g with
      | (.ok b, g) => .next ⟨.grow b.lower :: .grow b.upper ::
          .assemble b.split.projector b.split.threshold :: tasks, built, g⟩
      | (.error e, g) => .done (.error e) g := by
  obtain ⟨a, b, c, rest, hd⟩ : ∃ a b c rest, d.groups = a :: b :: c :: rest := by
    unfold GroupedDataset.groupCount at hd
    match hg : d.groups with
    | [] | [_] | [_, _] => simp [hg] at hd
    | a :: b :: c :: rest => exact ⟨a, b, c, rest, rfl⟩
  simp only [Builder.round, perform, hd]
  cases branch settings d g with
  | mk outcome g' => cases outcome <;> rfl

/-- Two nodes built last are put under a condition. -/
theorem round_assemble {projector : List F} {threshold : F} {lower upper : Node F L}
    {tasks : List (Task F L)} {built : List (Node F L)} :
    Builder.round settings ⟨.assemble projector threshold :: tasks, upper :: lower :: built, g⟩ =
      .next ⟨tasks, .join projector threshold lower upper :: built, g⟩ :=
  rfl

/-- A builder that grows a node goes on with the node on top of what was built before. -/
theorem Grows.reaches {outcome : Except (Error F L) (Node F L)} {node : Node F L}
    (h : Grows settings d g outcome g') (ho : outcome = .ok node) (tasks : List (Task F L))
    (built : List (Node F L)) : ∃ n, n + 2 ≤ 3 * d.groupCount ∧
      Reaches settings n ⟨.grow d :: tasks, built, g⟩ ⟨tasks, node :: built, g'⟩ := by
  -- what is to be done next and what was built before are left open, since the children of a node
  -- are grown with the other child and the condition still to do
  induction h generalizing node tasks built with
  | none _ | twoFails _ _ | branchFails _ _ | lowerFails _ _ _ | upperFails _ _ _ _ => cases ho
  | one hd =>
    cases ho
    exact ⟨1, by simp [GroupedDataset.groupCount, hd], .single (round_of_one hd)⟩
  | two hd hdivide =>
    cases ho
    exact ⟨1, by omega, .single (by rw [round_of_two hd, hdivide])⟩
  | many hd hbranch _ _ ihl ihu =>
    cases ho
    have hcount := groupCount_of_branch hbranch
    obtain ⟨m, hm, hlower⟩ := ihl rfl _ built
    obtain ⟨n, hn, hupper⟩ := ihu rfl _ (_ :: built)
    -- one round to branch, those of both children, and one to put them under the condition
    refine ⟨1 + n + m + 1, by omega, .next (by rw [round_of_many hd, hbranch]) ?_⟩
    exact hlower.trans (hupper.trans (.single round_assemble))

/-- A builder that cannot grow a node ends with the error, whatever else is to be done. -/
theorem Grows.fails {outcome : Except (Error F L) (Node F L)} {e : Error F L}
    (h : Grows settings d g outcome g') (ho : outcome = .error e) (hpos : 0 < d.groupCount)
    (tasks : List (Task F L)) (built : List (Node F L)) : ∃ n b, n < 3 * d.groupCount ∧
      Reaches settings n ⟨.grow d :: tasks, built, g⟩ b ∧
        b.round settings = .done (.error e) g' := by
  induction h generalizing tasks built with
  | none hd => simp [GroupedDataset.groupCount, hd] at hpos
  | one _ | two _ _ | many _ _ _ _ => cases ho
  | twoFails hd hdivide =>
    cases ho
    exact ⟨0, _, by omega, .refl, by rw [round_of_two hd, hdivide]⟩
  | branchFails hd hbranch =>
    cases ho
    exact ⟨0, _, by omega, .refl, by rw [round_of_many hd, hbranch]⟩
  | lowerFails hd hbranch _ ihl =>
    have hcount := groupCount_of_branch hbranch
    obtain ⟨m, b, hm, hlower, hend⟩ := ihl ho hcount.2.1 _ built
    exact ⟨m + 1, b, by omega, .next (by rw [round_of_many hd, hbranch]) hlower, hend⟩
  | upperFails hd hbranch hl _ _ ihu =>
    have hcount := groupCount_of_branch hbranch
    obtain ⟨m, hm, hlower⟩ := hl.reaches rfl _ built
    obtain ⟨n, b, hn, hupper, hend⟩ := ihu ho hcount.2.2 _ (_ :: built)
    exact ⟨n + m + 1, b, by omega,
      .next (by rw [round_of_many hd, hbranch]) (hlower.trans hupper), hend⟩

/-- A builder comes to what the recursion comes to, however many rounds it may take beyond three a
class. -/
theorem run_start (settings : TreeSettings F) (g : G) (hd : d.isEmpty = false) {rounds : Nat}
    (hr : 3 * d.groupCount ≤ rounds) :
    (Builder.start d g).run settings rounds = some (growNode settings d g) := by
  have hpos := d.groupCount_pos hd
  have h := growNode_grows settings d g
  cases ho : (growNode settings d g).1 with
  | error e =>
    obtain ⟨n, b, hn, hreach, hend⟩ := h.fails ho hpos [] []
    obtain ⟨k, rfl⟩ : ∃ k, rounds = k + 1 + n := ⟨rounds - 1 - n, by omega⟩
    rw [Builder.start, hreach.run_eq, Builder.run, hend, ← ho]
  | ok node =>
    obtain ⟨n, hn, hreach⟩ := h.reaches ho [] []
    -- one more round finds nothing left to do
    obtain ⟨k, rfl⟩ : ∃ k, rounds = k + 1 + n := ⟨rounds - 1 - n, by omega⟩
    rw [Builder.start, hreach.run_eq]
    simp only [Builder.run, Builder.round]
    rw [← ho]

/-- The builder with its two lists and the recursion grow the same tree, or fail with the same
error, and leave the same generator behind. -/
theorem grow_eq_growRec (settings : TreeSettings F) (d : GroupedDataset F L) (g : G) :
    grow settings d g = growRec settings d g := by
  unfold grow growRec
  cases hc : checkGrowth settings d with
  | error e => rfl
  | ok _ =>
    have hd : d.isEmpty = false := by
      unfold checkGrowth at hc
      split at hc
      · cases hc
      · next h => simpa using h
    rw [run_start settings g hd (Nat.le_refl _)]
    rfl

end PursuitForest
