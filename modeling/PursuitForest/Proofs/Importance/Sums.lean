import Mathlib.Tactic.NormNum
import PursuitForest.Proofs.OrderedScalar
import PursuitForest.Proofs.Importance.Vectors
import PursuitForest.Proofs.Tree.Levels
import PursuitForest.Proofs.Tree.Widths
/-!
Importance as a sum over the conditions.

In an ordered field the order in which vectors are added up does not matter, and neither does it for the
question of whether their lengths agree (`plus_assoc`, `plus_comm`). So the ranking by projectors, which
folds the tree from the leaves up, is the sum of the shares of the conditions in level order, and fails
where that sum fails (`Tree.projectorImportance_eq_foldlM`). Where all projectors are as long as the scale
is wide, the sum is taken feature by feature (`Tree.projectorImportance_eq_ok`).
-/

namespace PursuitForest

/-! ### Common lengths -/

theorem commonLength_comm (m n : Nat) : commonLength m n = commonLength n m := by
  unfold commonLength
  split_ifs <;> simp_all

theorem commonLength_self (n : Nat) : commonLength n n = some n := if_pos rfl

/-- A vector has the common length or a single component. -/
theorem eq_or_eq_one_of_commonLength {m n k : Nat} (h : commonLength m n = some k) :
    (m = k ∨ m = 1) ∧ (n = k ∨ n = 1) := by
  unfold commonLength at h
  split_ifs at h <;> cases h <;> simp_all

theorem commonLength_assoc (a b c : Nat) :
    ((commonLength a b).bind fun m => commonLength m c) =
      (commonLength b c).bind fun m => commonLength a m := by
  unfold commonLength
  split_ifs <;> simp_all

/-! ### Sums of vectors -/

section
variable {F L : Type}

/-- Two vectors combined, if they have a common length. -/
def combine [Zero F] (f : F → F → F) (u v : List F) : Option (List F) :=
  (commonLength u.length v.length).map fun n =>
    (List.range n).map fun j => f (component u j) (component v j)

/-- A vector, or the error of vectors without a common length. -/
def orMisuse : Option (List F) → Except (Error F L) (List F)
  | some v => .ok v
  | none => .error (.misuse .broadcast)

theorem broadcast_eq_orMisuse [Zero F] (f : F → F → F) (u v : List F) :
    broadcast (L := L) f u v = orMisuse (combine f u v) := by
  rw [broadcast, combine]
  cases commonLength u.length v.length <;> rfl

/-- The sum of two vectors, if there are two and they have a common length. -/
def plus [Scalar F] (x y : Option (List F)) : Option (List F) :=
  x.bind fun u => y.bind fun v => combine (· + ·) u v

/-- Adding outcomes is adding vectors. -/
theorem addVectors_orMisuse [Scalar F] (x y : Option (List F)) :
    (do addVectors (L := L) (← orMisuse x) (← orMisuse y)) = orMisuse (plus x y) := by
  cases x with
  | none => rfl
  | some u =>
    cases y with
    | none => rfl
    | some v => exact broadcast_eq_orMisuse _ u v

end

section
variable {K : Type} [OrderedScalar K]

theorem component_of_length_eq_one {v : List K} (h : v.length = 1) (j : Nat) :
    component v j = component v 0 := by
  obtain ⟨a, rfl⟩ := List.length_eq_one_iff.1 h
  rfl

/-- The components of a sum are the sums of the components. -/
theorem component_of_combine {f : K → K → K} {u v w : List K} (h : combine f u v = some w) {k j : Nat}
    (hk : w.length = k ∨ w.length = 1) (hj : j < k) :
    component w j = f (component u j) (component v j) := by
  obtain ⟨n, hn, rfl⟩ := Option.map_eq_some_iff.1 h
  rw [List.length_map, List.length_range] at hk
  have hlt : ∀ i < n, component ((List.range n).map fun j => f (component u j) (component v j)) i =
      f (component u i) (component v i) := fun i hi => by
    rw [component_of_lt (by simpa using hi)]
    simp
  rcases hk with rfl | rfl
  · exact hlt j hj
  · -- one component stands for all of them, in the sum as in both vectors
    obtain ⟨hu, hv⟩ := eq_or_eq_one_of_commonLength hn
    rw [component_of_length_eq_one (by simp), hlt 0 Nat.one_pos,
      component_of_length_eq_one (or_self_iff.1 hu) j, component_of_length_eq_one (or_self_iff.1 hv) j]

theorem length_of_combine {f : K → K → K} {u v w : List K} (h : combine f u v = some w) :
    commonLength u.length v.length = some w.length := by
  obtain ⟨n, hn, rfl⟩ := Option.map_eq_some_iff.1 h
  rw [hn, List.length_map, List.length_range]

/-- A sum is told by its length and its components. -/
theorem combine_eq_some {f : K → K → K} {u v w : List K}
    (hlength : commonLength u.length v.length = some w.length)
    (h : ∀ j < w.length, component w j = f (component u j) (component v j)) : combine f u v = some w := by
  rw [combine, hlength]
  refine congrArg some (List.ext_getElem (by simp) fun j hj hj' => ?_)
  rw [List.getElem_map, List.getElem_range, ← h j hj', component_of_lt hj']

theorem plus_comm (x y : Option (List K)) : plus x y = plus y x := by
  cases x with
  | none => cases y <;> rfl
  | some u =>
    cases y with
    | none => rfl
    | some v =>
      show combine _ u v = combine _ v u
      rw [combine, combine, commonLength_comm]
      simp only [add_comm]

/-- A sum of three vectors may be begun at its end. -/
theorem exists_combine_add {u v w s t : List K} (hs : combine (· + ·) u v = some s)
    (ht : combine (· + ·) s w = some t) :
    ∃ r, combine (· + ·) v w = some r ∧ combine (· + ·) u r = some t := by
  have hlengths := commonLength_assoc u.length v.length w.length
  rw [length_of_combine hs, Option.bind_some, length_of_combine ht] at hlengths
  obtain ⟨n, hn, hnt⟩ := Option.bind_eq_some_iff.1 hlengths.symm
  obtain ⟨r, hr⟩ : ∃ r, combine (· + ·) v w = some r := ⟨_, by rw [combine, hn]; rfl⟩
  have hrn : r.length = n := Option.some.inj ((length_of_combine hr).symm.trans hn)
  refine ⟨r, hr, combine_eq_some (by rw [hrn, hnt]) fun j hj => ?_⟩
  have hst := (eq_or_eq_one_of_commonLength (length_of_combine ht)).1
  have hrt := (eq_or_eq_one_of_commonLength hnt).2
  rw [component_of_combine ht (.inl rfl) hj, component_of_combine hs hst hj,
    component_of_combine hr (hrn ▸ hrt) hj, add_assoc]

theorem plus_assoc (x y z : Option (List K)) : plus (plus x y) z = plus x (plus y z) := by
  have hle : ∀ {x y z : Option (List K)} {t : List K}, plus (plus x y) z = some t →
      plus x (plus y z) = some t := by
    intro x y z t h
    obtain ⟨s, hxy, hz⟩ := Option.bind_eq_some_iff.1 h
    obtain ⟨w, rfl, ht⟩ := Option.bind_eq_some_iff.1 hz
    obtain ⟨u, rfl, hy⟩ := Option.bind_eq_some_iff.1 hxy
    obtain ⟨v, rfl, hs⟩ := Option.bind_eq_some_iff.1 hy
    obtain ⟨r, hr, hrt⟩ := exists_combine_add hs ht
    rw [plus, Option.bind_some, plus, Option.bind_some, Option.bind_some, hr, Option.bind_some, hrt]
  refine Option.ext fun t => ⟨hle, fun h => ?_⟩
  -- read backwards, the other grouping is the first one
  rw [plus_comm x, plus_comm y] at h
  rw [plus_comm, plus_comm x]
  exact hle h

instance : Std.Associative (plus (F := K)) := ⟨plus_assoc⟩

instance : Std.Commutative (plus (F := K)) := ⟨plus_comm⟩

theorem component_zeros {width j : Nat} (hj : j < width) : component (zeros (F := K) width) j = 0 := by
  rw [component_of_lt (by rwa [zeros, List.length_replicate])]
  exact List.getElem_replicate _

theorem plus_zeros (width : Nat) : plus (some (zeros (F := K) width)) (some (zeros width)) =
    some (zeros width) := by
  refine combine_eq_some (if_pos rfl) fun j hj => ?_
  rw [zeros, List.length_replicate] at hj
  rw [component_zeros hj, add_zero]

theorem foldl_plus (xs : List (Option (List K))) (u v : Option (List K)) :
    xs.foldl plus (plus u v) = plus u (xs.foldl plus v) :=
  List.foldl_assoc

/-- Two sums that begin at zero make one. -/
theorem plus_foldl_plus (width : Nat) (xs ys : List (Option (List K))) :
    plus (xs.foldl plus (some (zeros width))) (ys.foldl plus (some (zeros width))) =
      (xs ++ ys).foldl plus (some (zeros width)) := by
  have hzero : plus (xs.foldl plus (some (zeros width))) (some (zeros (F := K) width)) =
      xs.foldl plus (some (zeros width)) := by
    rw [plus_comm, ← foldl_plus, plus_zeros]
  rw [← foldl_plus, hzero, List.foldl_append]

end

/-! ### Shares of conditions -/

namespace Node.Condition

variable {F L : Type} [Scalar F] [Label L]

/-- The share of a condition in the importance of every feature: the magnitudes of its coefficients, in
units of the spread of the columns, over the number of its classes. -/
def share (c : Node.Condition F L) (scale : ColumnScale F) : Except (Error F L) (List F) := do
  return (← scaledProjector c.projector scale).map fun a => Scalar.abs a / Scalar.ofNat c.classes.size

/-- The share of a condition in the importance of one feature. -/
def shareAt (c : Node.Condition F L) (scale : ColumnScale F) (j : Nat) : F :=
  Scalar.abs (c.projector.getD j 0 * scale.deviation.getD j 0) / Scalar.ofNat c.classes.size

/-- The share of a condition, if its projector and the scale have a common length. -/
def share? (c : Node.Condition F L) (scale : ColumnScale F) : Option (List F) :=
  (combine (· * ·) c.projector scale.deviation).map fun scaled =>
    scaled.map fun a => Scalar.abs a / Scalar.ofNat c.classes.size

theorem share_eq (c : Node.Condition F L) (scale : ColumnScale F) :
    c.share scale = orMisuse (c.share? scale) := by
  rw [share, share?, scaledProjector, broadcast_eq_orMisuse]
  cases combine (· * ·) c.projector scale.deviation <;> rfl

end Node.Condition

/-- Shares are added up one after the other. -/
theorem foldlM_share {F L : Type} [Scalar F] [Label L] (scale : ColumnScale F) :
    ∀ (conditions : List (Node.Condition F L)) (x : Option (List F)),
      (orMisuse x >>= fun v => conditions.foldlM (fun total c => do addVectors total (← c.share scale)) v) =
        orMisuse ((conditions.map (·.share? scale)).foldl plus x)
  | [], x => by cases x <;> rfl
  | c :: conditions, x => by
      rw [List.map_cons, List.foldl_cons, ← foldlM_share scale conditions, ← addVectors_orMisuse, bind_assoc]
      refine bind_congr fun v => ?_
      rw [List.foldlM_cons, Node.Condition.share_eq]

variable {K L : Type} [OrderedScalar K] [Label L] {scale : ColumnScale K}

/-- A condition adds its share to what its children come to. -/
theorem Node.Condition.addVectors_share (c : Node.Condition K L) (x y : Option (List K)) :
    (do
      let lower ← orMisuse x
      let upper ← orMisuse y
      let scaled ← scaledProjector c.projector scale
      let own := scaled.map fun a => Scalar.abs a / Scalar.ofNat c.classes.size
      addVectors (L := L) (← addVectors lower upper) own) = orMisuse (plus (plus x y) (c.share? scale)) := by
  cases x with
  | none => rfl
  | some lower =>
    cases y with
    | none => rfl
    | some upper =>
      -- all failures are of one kind, so it does not matter which of them comes first
      rw [← addVectors_orMisuse, ← addVectors_orMisuse, share?, scaledProjector, broadcast_eq_orMisuse]
      cases combine (· * ·) c.projector scale.deviation with
      | some scaled => rfl
      | none =>
        show _ = addVectors lower upper >>= fun _ => orMisuse none
        rw [addVectors, broadcast_eq_orMisuse]
        cases combine (· + ·) lower upper <;> rfl

/-- From the leaves up, the shares of all conditions are added up. -/
theorem Node.foldM_share (width : Nat) (node : Node K L) :
    node.foldM (m := Except (Error K L)) (fun _ => pure (zeros width)) (fun c lower upper => do
      let scaled ← scaledProjector c.projector scale
      let own := scaled.map fun a => Scalar.abs a / Scalar.ofNat c.classes.size
      addVectors (← addVectors lower upper) own) =
    orMisuse (((node.subtrees.filterMap asCondition).map (·.share? scale)).foldl plus
      (some (zeros width))) := by
  induction node with
  | response value => rfl
  | condition projector threshold classes lower upper ihl ihu =>
    let c : Condition K L := ⟨projector, threshold, classes, lower, upper⟩
    have hshares : (c.toNode.subtrees.filterMap asCondition).map (·.share? scale) =
        c.share? scale :: ((lower.subtrees.filterMap asCondition).map (·.share? scale) ++
          (upper.subtrees.filterMap asCondition).map (·.share? scale)) := by
      rw [← List.map_append, ← List.filterMap_append]
      rfl
    rw [foldM, ihl, ihu, c.addVectors_share, plus_foldl_plus]
    rw [show condition projector threshold classes lower upper = c.toNode from rfl, hshares,
      List.foldl_cons, plus_comm (some (zeros width)), foldl_plus, plus_comm]

namespace Tree

/-- The ranking by projectors adds up the shares of the conditions in level order. -/
theorem projectorImportance_eq_foldlM (t : Tree K L) (scale : ColumnScale K) :
    projectorImportance t scale = (do
      t.checkWidth scale.deviation.length
      t.root.conditions.foldlM (fun total c => do addVectors total (← c.share scale))
        (zeros scale.deviation.length)) := by
  have hperm : (t.root.conditions.map (·.share? scale)).Perm
      ((t.root.subtrees.filterMap Node.asCondition).map (·.share? scale)) :=
    (t.root.levelOrder_perm.filterMap Node.asCondition).map _
  have hsum := foldlM_share scale t.root.conditions (some (zeros scale.deviation.length))
  rw [hperm.foldl_op_eq, ← Node.foldM_share] at hsum
  rw [projectorImportance]
  refine bind_congr fun _ => ?_
  rw [Node.foldStack_eq, ← hsum, map_eq_pure_bind, bind_assoc]
  simp only [pure_bind]
  exact bind_pure _

end Tree

/-! ### Feature by feature -/

/-- Vectors of one length are added up component by component. -/
theorem exists_foldl_plus {width : Nat} : ∀ {vs : List (List K)} {u : List K}, u.length = width →
    (∀ v ∈ vs, v.length = width) → ∃ w, (vs.map some).foldl plus (some u) = some w ∧ w.length = width ∧
      ∀ j < width, component w j = component u j + (vs.map (component · j)).sum
  | [], u, hu, _ => ⟨u, rfl, hu, fun j _ => by rw [List.map_nil, List.sum_nil, add_zero]⟩
  | v :: vs, u, hu, hvs => by
      obtain ⟨hv, hvs⟩ := List.forall_mem_cons.1 hvs
      have hcommon : commonLength u.length v.length = some width := by rw [hu, hv, commonLength_self]
      obtain ⟨s, hs⟩ : ∃ s, combine (· + ·) u v = some s := ⟨_, by rw [combine, hcommon]; rfl⟩
      have hslength : s.length = width :=
        Option.some.inj ((length_of_combine hs).symm.trans hcommon)
      obtain ⟨w, hw, hwlength, hcomponent⟩ := exists_foldl_plus hslength hvs
      refine ⟨w, ?_, hwlength, fun j hj => ?_⟩
      · rw [← hw, ← hs]
        rfl
      · rw [hcomponent j hj, component_of_combine hs (.inl hslength) hj, List.map_cons, List.sum_cons,
          add_assoc]

theorem component_eq_getD {v : List K} {j : Nat} (h : j < v.length) : component v j = v.getD j 0 := by
  rw [component_of_lt h, List.getD_eq_getElem _ _ h]

theorem Node.Condition.share?_eq_some {c : Node.Condition K L}
    (hc : c.projector.length = scale.deviation.length) :
    c.share? scale = some ((List.range scale.deviation.length).map (c.shareAt scale)) := by
  have hcommon : commonLength c.projector.length scale.deviation.length =
      some scale.deviation.length := by
    rw [hc, commonLength_self]
  rw [share?, combine, hcommon, Option.map_some, Option.map_some, List.map_map]
  refine congrArg some (List.map_congr_left fun j hj => ?_)
  have hlt : j < scale.deviation.length := List.mem_range.1 hj
  rw [Function.comp_apply, component_eq_getD hlt, component_eq_getD (hc ▸ hlt)]
  rfl

/-- Where all projectors are as long as the scale is wide, importance is a sum for each feature. -/
theorem Tree.projectorImportance_eq_ok {t : Tree K L} (hroot : t.root.Takes scale.deviation.length)
    (hwidth : t.width = scale.deviation.length ∨ t.width = 0) :
    projectorImportance t scale = .ok ((List.range scale.deviation.length).map fun j =>
      (t.root.conditions.map (·.shareAt scale j)).sum) := by
  have hcheck : t.checkWidth scale.deviation.length = .ok () := if_neg (by omega)
  have hshares : t.root.conditions.map (·.share? scale) = (t.root.conditions.map fun c =>
      (List.range scale.deviation.length).map (c.shareAt scale)).map some := by
    rw [List.map_map]
    exact List.map_congr_left fun c hc => Node.Condition.share?_eq_some (hroot c hc)
  have hzeros : (zeros (F := K) scale.deviation.length).length = scale.deviation.length :=
    List.length_replicate
  have hlengths : ∀ v ∈ t.root.conditions.map fun c =>
      (List.range scale.deviation.length).map (c.shareAt scale), v.length = scale.deviation.length := by
    simp
  obtain ⟨w, hw, hlength, hcomponent⟩ := exists_foldl_plus hzeros hlengths
  have hsum := foldlM_share scale t.root.conditions (some (zeros scale.deviation.length))
  rw [hshares, hw] at hsum
  rw [t.projectorImportance_eq_foldlM, hcheck]
  refine hsum.trans (congrArg Except.ok (List.ext_getElem (by simp [hlength]) fun j hj hj' => ?_))
  have hlt : j < scale.deviation.length := hlength ▸ hj
  rw [← component_of_lt hj, hcomponent j hlt, component_zeros hlt, zero_add, List.getElem_map,
    List.getElem_range, List.map_map]
  refine congrArg List.sum (List.map_congr_left fun c _ => ?_)
  rw [Function.comp_apply, component_of_lt (by simpa using hlt)]
  simp

/-- Level order visits every node of a tree once, level after level and from lower to upper, whatever the
tree holds. There is one response more than conditions, and a fold counts as many of them. In an ordered
field, the importance of the features by the projectors is the sum of the shares of the conditions in level
order, with the same failures, and where the lengths agree it is the sum of the shares in each feature. -/
theorem levelOrder_spec {F : Type} (t : Tree F L) (s : Tree K L) (scale : ColumnScale K) :
    (∃ ways, t.root.Visits ways t.root.levelOrder) ∧ t.responseCount = t.conditionCount + 1 ∧
    Node.foldStack (m := Id) (fun _ => (0, 1)) (fun _ lower upper =>
      (lower.1 + upper.1 + 1, lower.2 + upper.2)) t.root = some (t.conditionCount, t.responseCount) ∧
    (projectorImportance s scale = do
      s.checkWidth scale.deviation.length
      s.root.conditions.foldlM (fun total c => do addVectors total (← c.share scale))
        (zeros scale.deviation.length)) ∧
    (s.root.Takes scale.deviation.length → s.width = scale.deviation.length ∨ s.width = 0 →
      projectorImportance s scale = .ok ((List.range scale.deviation.length).map fun j =>
        (s.root.conditions.map (·.shareAt scale j)).sum)) :=
  ⟨t.root.exists_visits, t.responseCount_eq_succ, t.foldStack_counts, s.projectorImportance_eq_foldlM scale,
    Tree.projectorImportance_eq_ok⟩

/-- Three classes, the first cut off by both columns and the others apart by the second one. -/
def rationalTwoCuts : Tree ℚ Nat :=
  ⟨.join [1, -2] 0 (.response 0) (.join [0, 3] 1 (.response 1) (.response 2)), .default, 2, none⟩

theorem conditions_rationalTwoCuts : rationalTwoCuts.root.conditions =
    [⟨[1, -2], 0, .ofList [0, 1, 2], .response 0, .join [0, 3] 1 (.response 1) (.response 2)⟩,
      ⟨[0, 3], 1, .ofList [1, 2], .response 1, .response 2⟩] := by
  rw [Node.conditions, Node.levelOrder, rationalTwoCuts]
  simp only [Node.join, Node.runQueue, List.nil_append]
  rfl

/-- The second column counts in both cuts: for a third in the one and for three quarters in the other. -/
theorem levelOrder_spec_twoCuts : rationalTwoCuts.root.Takes 2 ∧ rationalTwoCuts.width = 2 ∧
    projectorImportance rationalTwoCuts ⟨[0, 0], [2, 1 / 2]⟩ = .ok [2 / 3, 1 / 3 + 3 / 4] := by
  have hroot : rationalTwoCuts.root.Takes 2 := by
    rw [Node.Takes, conditions_rationalTwoCuts]
    simp
  obtain ⟨-, -, -, -, hsum⟩ := levelOrder_spec rationalTwoCuts rationalTwoCuts ⟨[0, 0], [2, 1 / 2]⟩
  refine ⟨hroot, rfl, (hsum hroot (.inl rfl)).trans (congrArg Except.ok ?_)⟩
  have hthree : (LabelSet.ofList [0, 1, 2]).size = 3 := rfl
  have htwo : (LabelSet.ofList [1, 2]).size = 2 := rfl
  rw [conditions_rationalTwoCuts]
  norm_num [Node.Condition.shareAt, List.range_succ, Scalar.abs, Scalar.ofNat, hthree, htwo]

end PursuitForest
