import PursuitForest.Dataset.Basic
import PursuitForest.Random.Normal
/-!
Artificial observations: clouds of points around given centroids.

Points are drawn blob after blob and row after row. Labelled blobs carry the place of their
centroid as class; interleaved ones are the same points with the classes in turn.
-/

namespace PursuitForest
namespace Blobs

variable {G : Type}

/-- One row around a centroid. -/
def row (draw : G → Float × G) : List Float → G → List Float × G
  | [], g => ([], g)
  | c :: cs, g =>
    let (x, g) := draw g
    let (xs, g) := row draw cs g
    ((x + c) :: xs, g)

/-- `size` rows around a centroid. -/
def blob (draw : G → Float × G) (centroid : List Float) : (size : Nat) → G → List (List Float) × G
  | 0, g => ([], g)
  | k + 1, g =>
    let (r, g) := row draw centroid g
    let (rs, g) := blob draw centroid k g
    (r :: rs, g)

/-- `size` rows around every centroid. -/
def rows (draw : G → Float × G) (size : Nat) : List (List Float) → G → List (List Float) × G
  | [], g => ([], g)
  | c :: cs, g =>
    let (xs, g) := blob draw c size g
    let (ys, g) := rows draw size cs g
    (xs ++ ys, g)

theorem length_row (draw : G → Float × G) : ∀ (centroid : List Float) (g : G),
    (row draw centroid g).1.length = centroid.length
  | [], _ => rfl
  | c :: cs, g => by simp [row, length_row draw cs]

theorem length_of_mem_blob (draw : G → Float × G) {centroid : List Float} : ∀ {size : Nat} {g : G}
    {r : List Float}, r ∈ (blob draw centroid size g).1 → r.length = centroid.length
  | 0, _, _, h => by simp [blob] at h
  | k + 1, g, r, h => by
      simp only [blob, List.mem_cons] at h
      rcases h with rfl | h
      · exact length_row draw centroid g
      · exact length_of_mem_blob draw h

theorem length_of_mem_rows (draw : G → Float × G) {size width : Nat} :
    ∀ {centroids : List (List Float)} {g : G} {r : List Float}, (∀ c ∈ centroids, c.length = width) →
    r ∈ (rows draw size centroids g).1 → r.length = width
  | [], _, _, _, h => by simp [rows] at h
  | c :: cs, g, r, hc, h => by
      simp only [rows, List.mem_append] at h
      rcases h with h | h
      · rw [length_of_mem_blob draw h]; exact hc c (by simp)
      · exact length_of_mem_rows draw (fun c' hc' => hc c' (List.mem_cons_of_mem _ hc')) h

/-- `size` points around every centroid, each coordinate moved by a draw. -/
def generate (draw : G → Float × G) (size : Nat) (centroids : FeatureTable Float) (g : G) :
    FeatureTable Float × G :=
  let drawn := rows draw size centroids.rows g
  (⟨centroids.width, drawn.1, fun _ hr => length_of_mem_rows draw centroids.shaped hr⟩, drawn.2)

/-- The class of every row of blobs. -/
def labels (size blobs : Nat) : List Nat :=
  (List.range blobs).flatMap fun label => List.replicate size label

/-- Points around every centroid with the place of the centroid. -/
def labelled (draw : G → Float × G) (size : Nat) (centroids : FeatureTable Float) (g : G) :
    (FeatureTable Float × List Nat) × G :=
  let (x, g) := generate draw size centroids g
  ((x, labels size centroids.size), g)

/-- The order in which the blobs take turns: row `i` is point `i / blobs` of blob `i % blobs`. -/
def turns (size blobs : Nat) : List Nat :=
  (List.range (blobs * size)).map fun i => i % blobs * size + i / blobs

/-- Labelled blobs, taking turns. -/
def interleaved (draw : G → Float × G) (size : Nat) (centroids : FeatureTable Float) (g : G) :
    (FeatureTable Float × List Nat) × G :=
  let ((x, y), g) := labelled draw size centroids g
  let order := turns size centroids.size
  let y := y.toArray
  ((x.gather order, order.filterMap (y[·]?)), g)

end Blobs
end PursuitForest
