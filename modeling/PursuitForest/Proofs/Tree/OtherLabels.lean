import Mathlib.Data.List.Perm.Basic
import PursuitForest.Proofs.Pursuit.OtherLabels
import PursuitForest.Proofs.Sorting.Images
import PursuitForest.Proofs.Tree.Simulation
/-!
Growing a tree under other labels.

Labels that are replaced in the same order leave the order of the classes as it is, and with it every
tie and every name of a union of classes. So nodes are divided alike (`divide_relabelled`) and trees
grow alike (`grow_relabelled`), from draw to draw of the same generator.

There is one exception. Means that are not numbers may spoil their sorting, and how more than twenty
of them come out then depends on how many are brought in order at once, which is another number for
long labels. Label types are told apart by this if growing comes to such means (`ComesToSpoiled`).
-/

namespace PursuitForest

variable {F L L' : Type} [Label L] [Label L'] {f : L → L'}

/-! ### Nodes and divisions with other labels -/

/-- A tree with other labels. -/
def Node.relabel (f : L → L') : Node F L → Node F L'
  | .response value => .response (f value)
  | .condition projector threshold classes lower upper =>
    .condition projector threshold (classes.map f) (lower.relabel f) (upper.relabel f)

omit [Label L] [Label L'] in
/-- A split with other labels. -/
def Split.relabel (f : L → L') (s : Split F L) : Split F L' :=
  ⟨s.projector, s.threshold, f s.lower, f s.upper⟩

/-- A division with other labels. -/
def Division.relabel (f : L → L') (d : Division F L) : Division F L' :=
  ⟨d.split.relabel f, d.lower.map f, d.upper.map f⟩

/-- A union of classes with other labels. -/
def ClassUnion.relabel (f : L → L') (u : ClassUnion L) : ClassUnion L' :=
  ⟨f u.label, u.classes.map f⟩

/-- Two unions of classes with other labels. -/
def Regrouping.relabel (f : L → L') (r : Regrouping L) : Regrouping L' :=
  ⟨r.below.relabel f, r.above.relabel f⟩

/-- A divided node with other labels. -/
def Branching.relabel (f : L → L') (b : Branching F L) : Branching F L' :=
  ⟨b.split.relabel f, b.lower.remap f, b.upper.remap f⟩

/-- A task with other labels. -/
def Task.relabel (f : L → L') : Task F L → Task F L'
  | .grow data => .grow (data.remap f)
  | .assemble projector threshold => .assemble projector threshold

theorem Node.classes_relabel (f : L → L') (n : Node F L) : (n.relabel f).classes = n.classes.map f := by
  cases n with
  | response value => exact (LabelSet.map_singleton f value).symm
  | condition projector threshold classes lower upper => rfl

theorem Node.join_relabel (f : L → L') (projector : List F) (threshold : F) (lower upper : Node F L) :
    (Node.join projector threshold lower upper).relabel f =
      .join projector threshold (lower.relabel f) (upper.relabel f) := by
  rw [join, join, classes_relabel, classes_relabel, ← LabelSet.map_union]
  rfl

theorem Split.toNode_relabel (f : L → L') (s : Split F L) :
    (s.relabel f).toNode = s.toNode.relabel f := by
  rw [toNode, toNode, Node.join_relabel]
  rfl

/-! ### Means -/

section
variable [Scalar F]

theorem projectedMeans_remap (hf : Increasing f) (d : GroupedDataset F L) (projector : List F) :
    projectedMeans (d.remap f) projector = (projectedMeans d projector).map (Prod.map f id) := by
  rw [projectedMeans, projectedMeans, hf.groups_remap, List.map_map, List.map_map]
  rfl

theorem meanOrder_reflects (hf : Increasing f) :
    SortOrder.Reflects (Prod.map f id) (meanOrder (F := F)) (meanOrder (F := F)) := by
  intro a b
  simp only [meanOrder, precedes, Prod.map_fst, Prod.map_snd, id_eq, hf.lt_iff]

/-- Sorting sees the labels of means through their order, and of many means also whether labels are
short. -/
theorem meanOrder_sort_map (hf : Increasing f) {means : List (L × F)}
    (h : Label.isShort L = Label.isShort L' ∨ means.length ≤ 20) :
    meanOrder.sort (means.map (Prod.map f id)) = (meanOrder.sort means).map (Prod.map f id) := by
  rcases h with hshort | hfew
  · refine (SortOrder.map_sort ⟨meanOrder_reflects hf, ?_⟩ means).symm
    simp only [meanOrder, hshort]
  · -- few means are sorted by insertion
    rw [SortOrder.sort, SortOrder.sort, List.length_map, if_pos hfew, if_pos hfew,
      SortOrder.map_insertion (meanOrder_reflects hf)]

omit [Scalar F] [Label L] [Label L'] in
theorem map_fst_map (f : L → L') (means : List (L × F)) :
    (means.map (Prod.map f id)).map (·.1) = (means.map (·.1)).map f := by
  rw [List.map_map, List.map_map]
  rfl

/-- More means than are sorted by insertion, and one that compares as different from itself. -/
def SpoiledMeans (means : List (L × F)) : Prop :=
  20 < means.length ∧ ∃ m ∈ means, (m.2 == m.2) = false

/-- Means are sorted alike under other labels, unless they are spoiled and the types of the labels
are told apart. -/
theorem sortMeans_map (hf : Increasing f) {means : List (L × F)}
    (h : Label.isShort L = Label.isShort L' ∨ ¬ SpoiledMeans means) :
    sortMeans (means.map (Prod.map f id)) = (sortMeans means).map (List.map (Prod.map f id)) := by
  have hall : (means.map (Prod.map f id)).all (fun m => m.2 == m.2) =
      means.all fun m => m.2 == m.2 := List.all_map
  unfold sortMeans
  rw [hall]
  split
  · rw [← SortOrder.map_insertion (meanOrder_reflects hf)]
    rfl
  · next hself =>
    have hsort := meanOrder_sort_map hf <| h.imp id fun hspoiled => Nat.le_of_not_lt fun hmany =>
      hspoiled ⟨hmany, by simpa using hself⟩
    have hinj : Function.Injective f := fun _ _ => hf.eq_iff.1
    have hperm : (((meanOrder.sort means).map (·.1)).map f).isPerm ((means.map (·.1)).map f) =
        ((meanOrder.sort means).map (·.1)).isPerm (means.map (·.1)) := by
      rw [Bool.eq_iff_iff, List.isPerm_iff, List.isPerm_iff, List.map_perm_map_iff hinj]
    simp only [hsort, map_fst_map, hperm]
    split <;> rfl

omit [Label L] [Label L'] in
theorem gaps_map (f : L → L') (sorted : List (L × F)) :
    gaps (sorted.map (Prod.map f id)) = gaps sorted := by
  rw [gaps, gaps, ← List.map_tail, List.zipWith_map]
  rfl

omit [Label L] [Label L'] in
theorem cutPoint_map (f : L → L') (sorted : List (L × F)) :
    cutPoint (sorted.map (Prod.map f id)) = cutPoint sorted := by
  rw [cutPoint, cutPoint, gaps_map]

omit [Scalar F] in
/-- The image of the smallest class is the smallest of the images. -/
theorem ClassUnion.ofMeans_map (hf : Increasing f) (means : List (L × F)) :
    ClassUnion.ofMeans (means.map (Prod.map f id)) = (ClassUnion.ofMeans means).map (·.relabel f) := by
  have hclasses : LabelSet.ofList ((means.map (Prod.map f id)).map (·.1)) =
      (LabelSet.ofList (means.map (·.1))).map f := by
    rw [LabelSet.map_ofList, map_fst_map]
  rw [ofMeans, ofMeans, hclasses, hf.min?_map, Option.map_map, Option.map_map]
  rfl

namespace Regrouping

theorem ofMeans_relabelled (hf : Increasing f) {means : List (L × F)}
    (h : Label.isShort L = Label.isShort L' ∨ ¬ SpoiledMeans means) :
    Relabelled f (relabel f) (ofMeans means) (ofMeans (means.map (Prod.map f id))) := by
  unfold ofMeans
  rw [sortMeans_map hf h]
  cases sortMeans means with
  | none => exact .error
  | some sorted =>
    simp only [Option.map_some, cutPoint_map, ← List.map_take, ← List.map_drop,
      ClassUnion.ofMeans_map hf, List.length_map]
    cases ClassUnion.ofMeans (sorted.take (cutPoint sorted)) with
    | none => exact .error
    | some below =>
      cases ClassUnion.ofMeans (sorted.drop (cutPoint sorted)) with
      | none => exact .error
      | some above => exact .ok

omit [Scalar F] in
theorem target_relabel (hf : Increasing f) (r : Regrouping L) (c : L) :
    (r.relabel f).target (f c) = f (r.target c) := by
  simp only [target, relabel, ClassUnion.relabel, hf.mem_map_iff, apply_ite f]

omit [Scalar F] in
theorem side_relabelled (hf : Increasing f) (r : Regrouping L) (label : L) :
    Relabelled f (·.map f) (r.side (F := F) label) ((r.relabel f).side (f label)) := by
  have hclasses : (r.relabel f).classesOf? (f label) = (r.classesOf? label).map (·.map f) := by
    simp only [classesOf?, relabel, ClassUnion.relabel, hf.eq_iff]
    split
    · rfl
    · split <;> rfl
  rw [side, side, hclasses]
  cases r.classesOf? label with
  | none => exact .error
  | some classes => exact .ok

end Regrouping

omit [Label L] [Label L'] in
theorem orient_relabelled (f : L → L') (projector : List F) (means : List (L × F)) :
    Relabelled f (·.relabel f) (orient projector means)
      (orient projector (means.map (Prod.map f id))) := by
  match means with
  | [] | [_] | _ :: _ :: _ :: _ =>
    unfold orient
    simp only [List.length_map]
    exact .error
  | [(a, meanA), (b, meanB)] => exact .ite .error (.ite .ok .ok)

/-! ### Divisions -/

variable [Eigensolver F]

theorem splitGroups_relabelled (hf : Increasing f) (lambda : F) (d : GroupedDataset F L)
    (s : ColumnSelection) :
    Relabelled f (·.relabel f) (splitGroups lambda d s) (splitGroups lambda (d.remap f) s) := by
  refine (fitProjector_relabelled hf lambda d s).bind fun projector => ?_
  rw [id, projectedMeans_remap hf]
  exact orient_relabelled f projector _

theorem divideTwo_relabelled (hf : Increasing f) (lambda : F) (d : GroupedDataset F L)
    (s : ColumnSelection) :
    Relabelled f (·.relabel f) (divideTwo lambda d s) (divideTwo lambda (d.remap f) s) := by
  refine (splitGroups_relabelled hf lambda d s).bind fun split => Alike.ok ?_
  simp only [Division.relabel, LabelSet.map_singleton]
  rfl

/-- The means of the classes along their best projector are spoiled. -/
def Spoiled (lambda : F) (d : GroupedDataset F L) (s : ColumnSelection) : Prop :=
  ∃ projector, fitProjector lambda d s = .ok projector ∧ SpoiledMeans (projectedMeans d projector)

theorem regroup_relabelled (hf : Increasing f) {lambda : F} {d : GroupedDataset F L}
    {s : ColumnSelection} (h : Label.isShort L = Label.isShort L' ∨ ¬ Spoiled lambda d s) :
    Relabelled f (Regrouping.relabel f) (regroup lambda d s) (regroup lambda (d.remap f) s) := by
  unfold regroup
  rcases (fitProjector_relabelled hf lambda d s).cases with
    ⟨_, projector, hp, hp', rfl⟩ | ⟨e, _, he, he', rfl⟩
  · have hmeans := h.imp id fun hspoiled (hm : SpoiledMeans (projectedMeans d projector)) =>
      hspoiled ⟨projector, hp, hm⟩
    have hrelabelled := Regrouping.ofMeans_relabelled hf hmeans
    rw [← projectedMeans_remap hf] at hrelabelled
    rw [hp, hp']
    exact hrelabelled
  · rw [he, he']
    exact .error

omit [Scalar F] [Eigensolver F] in
/-- Classes are joined in pairs of unions that correspond. -/
theorem remap_target (hf : Increasing f) (d : GroupedDataset F L) (r : Regrouping L) :
    (d.remap f).remap (r.relabel f).target = (d.remap r.target).remap f := by
  have htarget : (r.relabel f).target ∘ f = f ∘ r.target := funext (r.target_relabel hf)
  rw [hf.remap_remap, hf.remap_remap_of_increasing, htarget]

theorem divideMany_relabelled (hf : Increasing f) {lambda : F} {d : GroupedDataset F L}
    {s : ColumnSelection} (h : Label.isShort L = Label.isShort L' ∨ ¬ Spoiled lambda d s) :
    Relabelled f (·.relabel f) (divideMany lambda d s) (divideMany lambda (d.remap f) s) := by
  refine (regroup_relabelled hf h).bind fun r => ?_
  rw [remap_target hf]
  refine (splitGroups_relabelled hf lambda (d.remap r.target) s).bind fun split => ?_
  refine (r.side_relabelled hf split.lower).bind fun lower => ?_
  exact (r.side_relabelled hf split.upper).bind fun upper => .ok

/-! ### Rounds -/

variable {G : Type} [RandomSource G] {settings : TreeSettings F} {d : GroupedDataset F L} {g : G}

/-- The second outcome is the first with other labels, and both leave the same generator behind. -/
abbrev RunsRelabelled {α α' : Type} (f : L → L') (h : α → α') :
    Except (Error F L) α × G → Except (Error F L') α' × G → Prop :=
  RunsAlike (fun e e' => e' = e.relabel f) (fun a a' => a' = h a) Eq

namespace RunsRelabelled

variable {α α' : Type} {h : α → α'} {p : Except (Error F L) α × G} {p' : Except (Error F L') α' × G}

omit [Scalar F] [Label L] [Label L'] [Eigensolver F] [RandomSource G] in
theorem intro (houtcome : Relabelled f h p.1 p'.1) (hsource : p.2 = p'.2) : RunsRelabelled f h p p' :=
  ⟨houtcome, hsource⟩

omit [Scalar F] [Label L] [Label L'] [Eigensolver F] [RandomSource G] in
theorem relabelled (hp : RunsRelabelled f h p p') : Relabelled f h p.1 p'.1 := hp.outcome

end RunsRelabelled

omit [Scalar F] [Label L] [Label L'] [Eigensolver F] in
theorem select_relabelled (f : L → L') (p : ColumnPolicy) (width : Nat) (g : G) :
    Relabelled (F := F) f id (p.select width g) (p.select width g) := by
  cases p with
  | all => exact .ok
  | random n => exact .ite .error .ok

/-- The means of the classes along their best projector on the columns that are drawn are spoiled.
-/
def NodeSpoiled (settings : TreeSettings F) (d : GroupedDataset F L) (g : G) : Prop :=
  ∃ columns g', settings.columns.select (F := F) (L := L) d.width g = .ok (columns, g') ∧
    Spoiled settings.lambda d columns

/-- Nodes are divided alike. -/
theorem divide_relabelled (hf : Increasing f)
    (h : Label.isShort L = Label.isShort L' ∨ ¬ NodeSpoiled settings d g) :
    RunsRelabelled f (·.relabel f) (divide settings d g) (divide settings (d.remap f) g) := by
  unfold divide
  have hselect : Relabelled (F := F) f id (settings.columns.select d.width g)
      (settings.columns.select (d.remap f).width g) := select_relabelled f settings.columns d.width g
  rw [hf.groupCount_remap]
  rcases hselect.cases with ⟨⟨columns, g'⟩, _, hs, hs', rfl⟩ | ⟨e, _, he, he', rfl⟩
  · have hnode := h.imp id fun hspoiled (hm : Spoiled settings.lambda d columns) =>
      hspoiled ⟨columns, g', hs, hm⟩
    rw [hs, hs']
    refine .intro (.ite ?_ ?_) rfl
    · exact divideTwo_relabelled hf settings.lambda d columns
    · exact divideMany_relabelled hf hnode
  · rw [he, he']
    exact .intro .error rfl

theorem branch_relabelled (hf : Increasing f)
    (h : Label.isShort L = Label.isShort L' ∨ ¬ NodeSpoiled settings d g) :
    RunsRelabelled f (·.relabel f) (branch settings d g) (branch settings (d.remap f) g) := by
  have hdivide := divide_relabelled hf h
  rw [branch_eq, branch_eq]
  refine .intro (hdivide.relabelled.map fun division => ?_) hdivide.source
  simp only [Division.relabel, Branching.relabel, hf.restrict_remap]

/-- Doing a task with other labels. -/
theorem perform_relabelled (hf : Increasing f) {task : Task F L}
    (h : Label.isShort L = Label.isShort L' ∨ ∀ d, task = .grow d → ¬ NodeSpoiled settings d g)
    (built : List (Node F L)) :
    RunsRelabelled f (Prod.map (List.map (Task.relabel f)) (List.map (Node.relabel f)))
      (perform settings task built g)
      (perform settings (task.relabel f) (built.map (Node.relabel f)) g) := by
  cases task with
  | assemble projector threshold =>
    rcases built with _ | ⟨upper, _ | ⟨lower, built⟩⟩
    · exact .intro .error rfl
    · exact .intro .error rfl
    · refine .intro (Alike.ok ?_) rfl
      rw [Prod.map_apply, List.map_cons, Node.join_relabel]
      rfl
  | grow d =>
    have hnode := h.imp id fun hspoiled => hspoiled d rfl
    have hdivide := divide_relabelled hf hnode
    have hbranch := branch_relabelled hf hnode
    simp only [perform, Task.relabel, hf.groups_remap]
    -- no class, one, two, or more
    rcases d.groups with _ | ⟨a, _ | ⟨b, _ | ⟨c, rest⟩⟩⟩
    · exact .intro .error rfl
    · exact .intro .ok rfl
    · refine .intro (hdivide.relabelled.bind fun division => Alike.ok ?_) hdivide.source
      rw [Prod.map_apply, List.map_cons, ← Split.toNode_relabel]
      rfl
    · exact .intro (hbranch.relabelled.bind fun b => .ok) hbranch.source

/-! ### Growing -/

/-- A builder comes to a node whose means are spoiled. -/
def ComesToSpoiled (settings : TreeSettings F) (d : GroupedDataset F L) (g : G) : Prop :=
  ∃ n node tasks built g', Reaches settings n (Builder.start d g) ⟨.grow node :: tasks, built, g'⟩ ∧
    NodeSpoiled settings node g'

omit [Scalar F] [Label L] [Label L'] [Eigensolver F] in
theorem checkWidth_relabelled (f : L → L') (settings : TreeSettings F) (width : Nat) :
    Relabelled f id (settings.checkWidth (F := F) (L := L) width)
      (settings.checkWidth (F := F) (L := L') width) := by
  unfold TreeSettings.checkWidth
  cases settings.columns with
  | all => exact .ok
  | random n => exact .ite .error .ok

/-- Trees grow alike on data with other labels in the same order. -/
theorem grow_relabelled (hf : Increasing f)
    (h : Label.isShort L = Label.isShort L' ∨ ¬ ComesToSpoiled settings d g) :
    RunsRelabelled f (·.relabel f) (grow settings d g) (grow settings (d.remap f) g) := by
  have hcheck : Relabelled (F := F) f id (checkGrowth settings d) (checkGrowth settings (d.remap f)) := by
    unfold checkGrowth
    rw [hf.isEmpty_remap]
    exact .ite .error (checkWidth_relabelled f settings d.width)
  have hstart : ∃ n, Reaches settings n (Builder.start d g) (Builder.start d g) := ⟨0, .refl⟩
  have hkeep : ∀ b b₁ : Builder F L G, (∃ n, Reaches settings n (Builder.start d g) b) →
      b.round settings = .next b₁ → ∃ n, Reaches settings n (Builder.start d g) b₁ := by
    rintro b b₁ ⟨n, hreach⟩ hround
    exact ⟨_, hreach.trans (.single hround)⟩
  refine grow_alike (T := fun task task' => task' = task.relabel f) rfl
    (hcheck.mono fun _ _ _ => trivial) (hf.groupCount_remap d).symm hstart
    ⟨.cons rfl .nil, .nil, rfl⟩ hkeep ?_
  rintro b b' ⟨n, hreach⟩ ⟨-, hbuilt, hsource⟩ task htask _ rfl
  rw [forall₂_eq_map_iff] at hbuilt
  have htask' : Label.isShort L = Label.isShort L' ∨
      ∀ node, task = .grow node → ¬ NodeSpoiled settings node b.source := by
    refine h.imp id fun hspoiled node heq hnode => ?_
    subst heq
    obtain ⟨tasks, htasks⟩ := List.head?_eq_some_iff.1 htask
    obtain ⟨_, built, g'⟩ := b
    cases htasks
    exact hspoiled ⟨n, node, tasks, built, g', hreach, hnode⟩
  rw [hbuilt, ← hsource]
  obtain ⟨houtcome, hafter⟩ := perform_relabelled hf htask' b.built
  refine ⟨houtcome.mono ?_, hafter⟩
  rintro q _ rfl
  exact ⟨forall₂_eq_map_iff.2 rfl, forall₂_eq_map_iff.2 rfl⟩

end

end PursuitForest
