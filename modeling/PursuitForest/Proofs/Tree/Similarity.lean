import PursuitForest.Proofs.Pursuit.Direction
import PursuitForest.Proofs.Tree.Descent
/-!
Similar trees.

The comparison works through a list of pairs. It succeeds exactly if every pair on the list matches
(`Node.allSimilar_iff`): the trees of a pair have one shape, and what stands at the same place in both is
similar (`Node.Matches`). Over the reals, matching projectors have one direction and thresholds differ by
at most the tolerance (`Node.similar_iff`), so positive factors make no difference to a tree
(`Node.matches_rescale_iff`), and a negative factor does (`Node.Matches.not_rescale`).
-/

namespace PursuitForest
namespace Node

variable {F L : Type} [Label L]

/-- Trees of one shape, with the same class at each response and with related projectors and thresholds
at each condition. -/
inductive Matches (Direction : List F → List F → Prop) (Close : F → F → Prop) :
    Node F L → Node F L → Prop
  | response (value : L) : Matches Direction Close (.response value) (.response value)
  | condition {p q : List F} {s t : F} {classes classes' : LabelSet L}
      {lower upper lower' upper' : Node F L}
      (hdirection : Direction p q) (hclose : Close s t) (hlower : Matches Direction Close lower lower')
      (hupper : Matches Direction Close upper upper') :
      Matches Direction Close (.condition p s classes lower upper) (.condition q t classes' lower' upper')

namespace Matches

variable {Direction : List F → List F → Prop} {Close : F → F → Prop} {a b : Node F L}

@[simp] theorem response_iff {x y : L} :
    Matches Direction Close (.response x) (.response y) ↔ x = y := by
  constructor
  · rintro ⟨⟩
    rfl
  · rintro rfl
    exact .response x

@[simp] theorem condition_iff {p q : List F} {s t : F} {classes classes' : LabelSet L}
    {lower upper lower' upper' : Node F L} :
    Matches Direction Close (.condition p s classes lower upper) (.condition q t classes' lower' upper') ↔
      Direction p q ∧ Close s t ∧ Matches Direction Close lower lower' ∧
        Matches Direction Close upper upper' := by
  constructor
  · rintro (_ | ⟨hdirection, hclose, hlower, hupper⟩)
    exact ⟨hdirection, hclose, hlower, hupper⟩
  · rintro ⟨hdirection, hclose, hlower, hupper⟩
    exact .condition hdirection hclose hlower hupper

theorem refl (hdirection : ∀ p, Direction p p) (hclose : ∀ s, Close s s) (a : Node F L) :
    Matches Direction Close a a := by
  induction a with
  | response value => exact .response value
  | condition p s classes lower upper ihl ihu => exact .condition (hdirection p) (hclose s) ihl ihu

theorem symm (hdirection : ∀ {p q}, Direction p q → Direction q p)
    (hclose : ∀ {s t}, Close s t → Close t s) (h : Matches Direction Close a b) :
    Matches Direction Close b a := by
  induction h with
  | response value => exact .response value
  | condition hd hc hlower hupper ihl ihu => exact .condition (hdirection hd) (hclose hc) ihl ihu

end Matches

/-! ### The comparison -/

/-- All pairs on the list match. -/
theorem allSimilar_iff [Scalar F] (pairs : List (Node F L × Node F L)) :
    allSimilar pairs = true ↔ ∀ pair ∈ pairs, pair.1.Matches (fun p q => collinear p q = true)
      (fun s t => closeThresholds s t = true) pair.2 := by
  fun_induction allSimilar pairs with
  | case1 => simp
  | case2 x y pairs ih =>
    rw [Bool.and_eq_true, ih, decide_eq_true_iff, List.forall_mem_cons, Matches.response_iff]
  | case3 p s classes lower upper q t classes' lower' upper' pairs ih =>
    simp only [Bool.and_eq_true, ih, List.forall_mem_cons, Matches.condition_iff]
    tauto
  | case4 pair pairs hresponses hconditions =>
    refine iff_of_false Bool.false_ne_true fun h => ?_
    have hpair := h pair List.mem_cons_self
    obtain ⟨a, b⟩ := pair
    cases hpair with
    | response value => exact hresponses _ _ rfl
    | condition => exact hconditions _ _ _ _ _ _ _ _ _ _ rfl

/-- Two trees count as equal exactly if they match. -/
theorem similar_iff {a b : Node ℝ L} : a.similar b = true ↔
    a.Matches (SameDirection (1 / 100000)) (fun s t => |s - t| ≤ 1 / 100000) b := by
  have hdirection : (fun p q : List ℝ => collinear p q = true) = SameDirection (1 / 100000) :=
    funext₂ fun p q => propext collinear_iff
  have hclose : (fun s t : ℝ => closeThresholds s t = true) = fun s t => |s - t| ≤ 1 / 100000 :=
    funext₂ fun s t => propext closeThresholds_iff
  rw [similar, allSimilar_iff, List.forall_mem_singleton, hdirection, hclose]

/-! ### Factors -/

/-- The projector at the end of every way down multiplied by the factor of the way. -/
def rescale (factor : List Side → ℝ) : Node ℝ L → Node ℝ L
  | .response value => .response value
  | .condition projector threshold classes lower upper =>
    .condition (projector.map (factor [] * ·)) threshold classes
      (lower.rescale fun sides => factor (.lower :: sides))
      (upper.rescale fun sides => factor (.upper :: sides))

section
variable {tolerance : ℝ} {Close : ℝ → ℝ → Prop} {a b : Node ℝ L} {factor : List Side → ℝ}

/-- Positive factors make no difference. -/
theorem matches_rescale_iff (hfactor : ∀ sides, 0 < factor sides) :
    (a.rescale factor).Matches (SameDirection tolerance) Close b ↔
      a.Matches (SameDirection tolerance) Close b := by
  induction a generalizing factor b with
  | response value => rfl
  | condition p s classes lower upper ihl ihu =>
    cases b with
    | response value => exact iff_of_false nofun nofun
    | condition q t classes' lower' upper' =>
      rw [rescale, Matches.condition_iff, Matches.condition_iff, SameDirection.map_mul_iff (hfactor []),
        ihl fun sides => hfactor (.lower :: sides), ihu fun sides => hfactor (.upper :: sides)]

/-- One negative factor makes a difference, if the projector that it turns around is not zero. -/
theorem Matches.not_rescale (htolerance : tolerance < 1) (h : a.Matches (SameDirection tolerance) Close b)
    {sides : List Side} {c : Condition ℝ L} (hc : a.follow sides = some c.toNode)
    (hprojector : ∃ x ∈ c.projector, x ≠ 0) (hfactor : factor sides < 0) :
    ¬ (a.rescale factor).Matches (SameDirection tolerance) Close b := by
  induction sides generalizing a b factor with
  | nil =>
    obtain rfl : a = c.toNode := Option.some.inj hc
    obtain ⟨p, s, classes, lower, upper⟩ := c
    cases h with
    | condition hdirection hclose hlower hupper =>
      intro h
      exact hdirection.not_map_mul htolerance hprojector hfactor (Matches.condition_iff.1 h).1
  | cons s sides ih =>
    cases h with
    | response value => cases hc
    | condition hdirection hclose hlower hupper =>
      intro h
      obtain ⟨-, -, hlower', hupper'⟩ := Matches.condition_iff.1 h
      cases s with
      | lower => exact ih hlower hc hfactor hlower'
      | upper => exact ih hupper hc hfactor hupper'

end

end Node

open Node

variable {L : Type} [Label L]

/-- Over the reals, two trees count as equal exactly if they have one shape, the same class at each
response, and at each condition projectors of one direction and thresholds that differ by at most the
tolerance. Every tree counts as equal to itself, in either order two trees compare alike, and positive
factors of the projectors change nothing. If one of two trees that count as equal has a non-zero projector
multiplied by a negative factor, they no longer do. -/
theorem similar_spec (a b : Node ℝ L) :
    (a.similar b = true ↔ a.Matches (SameDirection (1 / 100000)) (fun s t => |s - t| ≤ 1 / 100000) b) ∧
    a.similar a = true ∧ a.similar b = b.similar a ∧
    (∀ f g : List Side → ℝ, (∀ sides, 0 < f sides) → (∀ sides, 0 < g sides) →
      (a.rescale f).similar (b.rescale g) = a.similar b) ∧
    (a.similar b = true → ∀ (f : List Side → ℝ) (sides : List Side) (c : Condition ℝ L),
      a.follow sides = some c.toNode → (∃ x ∈ c.projector, x ≠ 0) → f sides < 0 →
        (a.rescale f).similar b = false ∧ b.similar (a.rescale f) = false) := by
  have hcomm : ∀ a b : Node ℝ L, a.similar b = b.similar a := fun a b => by
    rw [Bool.eq_iff_iff, similar_iff, similar_iff]
    exact ⟨.symm .symm fun h => by rwa [abs_sub_comm], .symm .symm fun h => by rwa [abs_sub_comm]⟩
  have hrescale : ∀ (a b : Node ℝ L) (f : List Side → ℝ), (∀ sides, 0 < f sides) →
      (a.rescale f).similar b = a.similar b := fun a b f hf => by
    rw [Bool.eq_iff_iff, similar_iff, similar_iff, matches_rescale_iff hf]
  refine ⟨similar_iff, ?_, hcomm a b, fun f g hf hg => ?_, fun h f sides c hc hprojector hf => ?_⟩
  · exact similar_iff.2 (.refl (.refl (by norm_num)) (fun s => by norm_num) a)
  · rw [hrescale a _ f hf, hcomm, hrescale b a g hg, hcomm]
  · have hturned : (a.rescale f).similar b = false := Bool.eq_false_iff.2 fun hsimilar =>
      (similar_iff.1 h).not_rescale (by norm_num) hc hprojector hf (similar_iff.1 hsimilar)
    exact ⟨hturned, (hcomm b _).trans hturned⟩

/-- The upper of two cuts, in the second column. -/
noncomputable def upperCut : Condition ℝ String :=
  ⟨[0, 1], 1, .union (.singleton "a") (.singleton "b"), .response "a", .response "b"⟩

/-- Two cuts of the first and the second column. -/
noncomputable def realTwoCuts : Node ℝ String :=
  .join [1, 0] 0 (.response "a") upperCut.toNode

/-- Each projector may have a positive factor of its own, but the upper one may not be turned around. -/
theorem similar_spec_twoCuts :
    (realTwoCuts.rescale fun sides => sides.length + 1).similar (realTwoCuts.rescale fun _ => 5) = true ∧
    (realTwoCuts.rescale fun sides => if sides = [.upper] then -1 else 1).similar realTwoCuts = false := by
  obtain ⟨-, hself, -, hscale, hturn⟩ := similar_spec realTwoCuts realTwoCuts
  have hnonzero : ∃ x ∈ upperCut.projector, x ≠ 0 := ⟨1, by simp [upperCut], one_ne_zero⟩
  have hnegative : (if [Side.upper] = [Side.upper] then (-1 : ℝ) else 1) < 0 := by norm_num
  refine ⟨?_, (hturn hself _ [.upper] upperCut rfl hnonzero hnegative).1⟩
  rw [hscale _ _ (fun sides => by positivity) (fun sides => by norm_num), hself]

end PursuitForest
