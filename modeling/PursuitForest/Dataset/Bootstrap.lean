import PursuitForest.Dataset.Grouped
import PursuitForest.Random.Source
/-!
Bootstrap draws.

A `BootstrapDraw` keeps the places of the drawn rows in the full data; the rows it missed are the
out-of-bag rows. A stratified draw takes from every class block as many rows as the block has, with
replacement, so that the sample has the class sizes of the full data.
-/

namespace PursuitForest

/-- Places of drawn rows of grouped observations. -/
structure BootstrapDraw (F L : Type) [Label L] where
  full : GroupedDataset F L
  sample : List Nat
  inRange : ∀ i ∈ sample, i < full.size

namespace BootstrapDraw

variable {F L G : Type} [Label L] [RandomSource G]

/-- The places that were not drawn, ascending. -/
def outOfBag (b : BootstrapDraw F L) : List Nat :=
  let none := Array.replicate b.full.size false
  let drawn := b.sample.foldl (fun drawn i => drawn.setIfInBounds i true) none
  (List.range b.full.size).filter fun i => !drawn.getD i false

/-- The draw of the given places. The first place that is no row is reported. -/
def ofPlaces (full : GroupedDataset F L) (places : List Nat) :
    Except (Error F L) (BootstrapDraw F L) :=
  match h : places.find? fun i => decide (full.size ≤ i) with
  | some i => .error (.shapeMismatch .sampleIndex full.size i)
  | none => .ok ⟨full, places, fun i hi => by simpa using List.find?_eq_none.1 h i hi⟩

/-- `count` places of the block of `size` rows that starts at `start`. -/
def drawBlock (start size : Nat) : (count : Nat) → G → List Nat × G
  | 0, g => ([], g)
  | k + 1, g =>
    let (i, g) := below .whole size g
    let (is, g) := drawBlock start size k g
    ((start + i) :: is, g)

/-- Places drawn block by block, as many of each block as it has rows. -/
def drawBlocks : (start : Nat) → List (ClassGroup F L) → G → List Nat × G
  | _, [], g => ([], g)
  | start, c :: cs, g =>
    let (xs, g) := drawBlock start c.rows.length c.rows.length g
    let (ys, g) := drawBlocks (start + c.rows.length) cs g
    (xs ++ ys, g)

theorem mem_drawBlock {start size : Nat} (h : 0 < size) : ∀ {count : Nat} {g : G} {i : Nat},
    i ∈ (drawBlock start size count g).1 → start ≤ i ∧ i < start + size
  | 0, _, _, hi => by simp [drawBlock] at hi
  | k + 1, g, i, hi => by
      simp only [drawBlock, List.mem_cons] at hi
      rcases hi with rfl | hi
      · have := below_lt (w := .whole) h g
        omega
      · exact mem_drawBlock h hi

omit [Label L] in
theorem mem_drawBlocks : ∀ {cs : List (ClassGroup F L)} {start : Nat} {g : G} {i : Nat},
    i ∈ (drawBlocks start cs g).1 → i < start + (cs.flatMap (·.rows)).length
  | [], _, _, _, hi => by simp [drawBlocks] at hi
  | c :: cs, start, g, i, hi => by
      simp only [drawBlocks, List.mem_append] at hi
      simp only [List.flatMap_cons, List.length_append]
      rcases hi with hi | hi
      · by_cases hc : 0 < c.rows.length
        · have := (mem_drawBlock hc hi).2
          omega
        · have h0 : c.rows.length = 0 := by omega
          rw [h0] at hi
          simp [drawBlock] at hi
      · have := mem_drawBlocks hi
        omega

/-- Draws from every class block as many rows as it has. -/
def stratified (full : GroupedDataset F L) (g : G) : BootstrapDraw F L × G :=
  let drawn := drawBlocks 0 full.groups g
  (⟨full, drawn.1, fun i hi => by
      have := mem_drawBlocks hi
      simpa [GroupedDataset.size, GroupedDataset.rows] using this⟩, drawn.2)

/-- The drawn rows. -/
def sampleData (b : BootstrapDraw F L) : GroupedDataset F L :=
  .ofDataset (b.full.toDataset.gather b.sample)

/-- The rows that were not drawn; there may be none. -/
def outOfBagData (b : BootstrapDraw F L) : GroupedDataset F L :=
  .ofDataset (b.full.toDataset.gather b.outOfBag)

end BootstrapDraw

end PursuitForest
